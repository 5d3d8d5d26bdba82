import AHPy.MatchCase.Comparisons

/-!
# Statements

* `runMatch_refactorLoop`: consecutive simple cases run as clauses of one `if` statement;
* `simulates_case`: a case, on its own or as a clause;
* `result_runMatch_refactorCases`: the code of a statement gives what Python gives.
-/

namespace AHPy.MatchCase

variable {Obj V ε ω α β : Type}

/-- What a run of code gives, without the temporaries. -/
def Code.result (x : Code Obj ε ω α) (T : Temps Obj) (w : ω) : Option (Except ε α × ω) :=
  (x T w).map fun r => (r.1.map Prod.fst, r.2)

/-- The code gives what the Python run gives. -/
abbrev Computes (x : Code Obj ε ω α) (T : Temps Obj) (y : Run ε ω α) (w : ω) : Prop :=
  Simulates x T y w fun r r' _ => r' = r

theorem Computes.result {x : Code Obj ε ω α} {T : Temps Obj} {y : Run ε ω α} {w : ω}
    (h : Computes x T y w) : x.result T w = some (y w) := by
  rw [Code.result]
  rcases hy : y w with ⟨e | a, w'⟩
  · rw [h.1 e w' hy]
    rfl
  · obtain ⟨a', T', hx, rfl⟩ := h.2 a w' hy
    rw [hx]
    rfl

/-! ## Cases in order -/

/-- What runs if no body has run. -/
def orElse (x : Code Obj ε ω (Option ℕ × Env Obj))
    (y : Env Obj → Code Obj ε ω (Option ℕ × Env Obj)) : Code Obj ε ω (Option ℕ × Env Obj) := do
  let (r, env) ← x
  match r with
  | some n => pure (some n, env)
  | none => y env

theorem orElse_none (x : Code Obj ε ω (Option ℕ × Env Obj)) :
    orElse x (fun env => pure (none, env)) = x := by
  refine Eq.trans ?_ (Code.bind_pure x)
  rw [orElse]
  congr 1
  funext r
  rcases r with ⟨_ | n, env⟩ <;> rfl

theorem orElse_assoc (x : Code Obj ε ω (Option ℕ × Env Obj))
    (y z : Env Obj → Code Obj ε ω (Option ℕ × Env Obj)) :
    orElse (orElse x y) z = orElse x fun env => orElse (y env) z := by
  rw [orElse, orElse, orElse, Code.bind_assoc]
  congr 1
  funext r
  rcases r with ⟨_ | n, env⟩ <;> rfl

section

variable [DecidableEq Obj] (rt : Runtime Obj V ε ω) (root : Obj)

theorem runClauses_append (cs cs' : List (IfClause Obj V)) (env : Env Obj) :
    runClauses rt root (cs ++ cs') env =
      orElse (runClauses rt root cs env) (runClauses rt root cs') := by
  induction cs generalizing env with
  | nil => rfl
  | cons c cs ih =>
    rw [List.cons_append, runClauses, runClauses, orElse, Code.bind_assoc]
    congr 1
    funext b
    cases b with
    | false => exact ih env
    | true =>
      simp only [if_true, Code.bind_assoc]
      rfl

/-- A case after `refactor_cases`. -/
def runNewCase : NewCase Obj V ε ω → Env Obj → Code Obj ε ω (Option ℕ × Env Obj)
  | .ifStat clauses, env => runClauses rt root clauses env
  | .case n c, env => runCase rt root n c env

theorem runMatch_cons (c : NewCase Obj V ε ω) (cs : List (NewCase Obj V ε ω)) (env : Env Obj) :
    runMatch rt root (c :: cs) env = orElse (runNewCase rt root c env) (runMatch rt root cs) := by
  cases c <;> rfl

theorem runMatch_append (cs cs' : List (NewCase Obj V ε ω)) (env : Env Obj) :
    runMatch rt root (cs ++ cs') env =
      orElse (runMatch rt root cs env) (runMatch rt root cs') := by
  induction cs generalizing env with
  | nil => rfl
  | cons c cs ih =>
    rw [List.cons_append, runMatch_cons, runMatch_cons, orElse_assoc]
    congr 1
    funext env'
    exact ih env'

theorem runMatch_closeIf (clauses : List (IfClause Obj V)) (env : Env Obj) :
    runMatch rt root (closeIf clauses : List (NewCase Obj V ε ω)) env =
      runClauses rt root clauses env := by
  rw [closeIf]
  split_ifs with h
  · rw [h]
    rfl
  · exact orElse_none _

/-- The clauses so far run before the other cases. -/
theorem runMatch_refactorLoop (cs : List (MatchCaseNode Obj V ε ω)) (n : ℕ)
    (clauses : List (IfClause Obj V)) (env : Env Obj) :
    runMatch rt root (refactorLoop cs n clauses) env =
      orElse (runClauses rt root clauses env) (runMatch rt root (refactorLoop cs n [])) := by
  induction cs generalizing n clauses env with
  | nil => exact (runMatch_closeIf rt root clauses env).trans (orElse_none _).symm
  | cons c cs ih =>
    rw [refactorLoop, refactorLoop]
    by_cases hsimple : c.isSimpleValueComparison = true
    · rw [if_pos hsimple, if_pos hsimple, ih, runClauses_append, orElse_assoc]
      congr 1
      funext env'
      exact (ih (n + 1) _ env').symm
    · rw [if_neg hsimple, if_neg hsimple, runMatch_append, runMatch_closeIf]
      rfl

end

/-! ## One case -/

namespace Run

theorem bind_assoc {α β γ : Type} (x : Run ε ω α) (f : α → Run ε ω β) (g : β → Run ε ω γ) :
    x >>= f >>= g = x >>= fun a => f a >>= g := by
  funext w
  rcases h : x w with ⟨e | a, w'⟩
  · rw [bind_error (bind_error h), bind_error h]
  · rw [bind_ok h]
    rcases h' : f a w' with ⟨e | b, w''⟩
    · rw [bind_error ((bind_ok h).trans h'), bind_error h']
    · rw [bind_ok ((bind_ok h).trans h'), bind_ok h']

end Run

section

variable [DecidableEq Obj] (rt : Runtime Obj V ε ω)

/-- One case of a `match` statement: its number, if its body runs. -/
def pyCase (o : Obj) (c : MatchCaseNode Obj V ε ω) (n : ℕ) (env : Env Obj) :
    Run ε ω (Option ℕ × Env Obj) := do
  match ← c.pattern.pyMatch rt o with
  | none => pure (none, env)
  | some bs => do
    let (holds, env') ← runGuard c.guard (env.bindAll bs)
    pure (if holds then some n else none, env')

theorem pyMatchCases_cons (o : Obj) (c : MatchCaseNode Obj V ε ω) (cs : List (MatchCaseNode Obj V ε ω))
    (n : ℕ) (env : Env Obj) :
    pyMatchCases rt o (c :: cs) n env = (do
      let (r, env') ← pyCase rt o c n env
      match r with
      | some n => pure (some n, env')
      | none => pyMatchCases rt o cs (n + 1) env') := by
  rw [pyMatchCases, pyCase, Run.bind_assoc]
  congr 1
  funext r
  cases r with
  | none => rfl
  | some bs =>
    simp only
    rw [Run.bind_assoc]
    congr 1
    funext r
    rcases r with ⟨_ | _, env'⟩ <;> rfl

variable {rt} {root : Obj}

omit [DecidableEq Obj] in
/-- The assignments of a pattern that matches. -/
theorem exec_assignments {P : PatternNode Obj V} {T T' : Temps Obj} {b : Bool}
    {bs : PatternNode.Bindings Obj} (h : P.Decided rt root .root root [] T (some bs) b T')
    (env : Env Obj) (w : ω) :
    ∃ T₂, execAssignments rt root (P.createTargetAssignments .root []) env T' w =
      some (.ok (env.bindAll bs, T₂), w) := by
  obtain ⟨T₂, hexec, -⟩ := h.assigns bs rfl T' (.refl _ _ _) rfl env w
  exact ⟨T₂, hexec⟩

/-- The code of a case. -/
theorem simulates_runCase {c : MatchCaseNode Obj V ε ω} (hv : c.pattern.Valid)
    (hl : c.pattern.Lowerable) (n : ℕ) (env : Env Obj) (T : Temps Obj) (w : ω) :
    Computes (runCase rt root n c env) T (pyCase rt root c n env) w := by
  rw [Computes, runCase, pyCase]
  refine (PatternNode.eval_getComparisonNode hv hl (s := .root) (p := []) trivial rfl w).bind
    fun r b T' w' h _ => ?_
  cases r with
  | none =>
    rw [h.result]
    exact .pure rfl
  | some bs =>
    obtain ⟨T₂, hexec⟩ := exec_assignments h env w'
    rw [h.result, Option.isSome_some, if_pos rfl]
    refine .after hexec ?_
    refine (Simulates.lift (R := fun r r' _ => r' = r) fun _ => rfl).bind fun r r' T₃ w₃ hr _ => ?_
    rw [hr]
    exact .pure rfl

/-- The clause of a simple case. -/
theorem simulates_runClauses {c : MatchCaseNode Obj V ε ω} (hv : c.pattern.Valid)
    (hl : c.pattern.Lowerable) (hsimple : c.isSimpleValueComparison = true) (n : ℕ) (env : Env Obj)
    (T : Temps Obj) (w : ω) :
    Computes (runClauses rt root [⟨c.pattern.getSimpleComparisonNode .root,
      c.pattern.createTargetAssignments .root [], n⟩] env) T (pyCase rt root c n env) w := by
  rw [MatchCaseNode.isSimpleValueComparison, Bool.and_eq_true, Option.isNone_iff_eq_none] at hsimple
  rw [Computes, runClauses, pyCase]
  refine (PatternNode.eval_getSimpleComparisonNode (s := .root) (T := T) rfl hv hsimple.2 w).bind
    fun r b T' w' h hr => ?_
  have hdecided : c.pattern.Decided rt root .root root [] T r b T' :=
    PatternNode.decided_of_decides hv hl hsimple.2 hr h .root []
  cases r with
  | none =>
    rw [h.1]
    exact .pure rfl
  | some bs =>
    obtain ⟨T₂, hexec⟩ := exec_assignments hdecided env w'
    rw [h.1, Option.isSome_some, if_pos rfl, hsimple.1]
    exact .after hexec (.pure rfl)

/-- The cases from number `n` on. -/
theorem simulates_runMatch {cs : List (MatchCaseNode Obj V ε ω)} (hv : ∀ c ∈ cs, c.pattern.Valid)
    (hl : ∀ c ∈ cs, c.pattern.Lowerable) (n : ℕ) (env : Env Obj) (T : Temps Obj) (w : ω) :
    Computes (runMatch rt root (refactorLoop cs n []) env) T (pyMatchCases rt root cs n env) w := by
  induction cs generalizing n env T w with
  | nil => exact .pure rfl
  | cons c cs ih =>
    have hrest := ih (fun c' hc' => hv c' (List.mem_cons_of_mem c hc'))
      (fun c' hc' => hl c' (List.mem_cons_of_mem c hc')) (n + 1)
    have hfirst {x : Code Obj ε ω (Option ℕ × Env Obj)} (hx : Computes x T (pyCase rt root c n env) w) :
        Computes (orElse x (runMatch rt root (refactorLoop cs (n + 1) []))) T
          (pyMatchCases rt root (c :: cs) n env) w := by
      rw [pyMatchCases_cons, orElse]
      refine Simulates.bind hx fun r r' T' w' hr _ => ?_
      subst hr
      rcases r' with ⟨_ | k, env'⟩
      · exact hrest env' T' w'
      · exact .pure rfl
    have hvc := hv c List.mem_cons_self
    have hlc := hl c List.mem_cons_self
    rw [refactorLoop]
    by_cases hsimple : c.isSimpleValueComparison = true
    · rw [if_pos hsimple, runMatch_refactorLoop]
      exact hfirst (simulates_runClauses hvc hlc hsimple n env T w)
    · rw [if_neg hsimple]
      exact hfirst (simulates_runCase hvc hlc n env T w)

end

/-- The code of a `match` statement runs the case that Python runs, with its bindings, its
    comparisons and its exceptions. -/
theorem result_runMatch_refactorCases [DecidableEq Obj] (rt : Runtime Obj V ε ω) (o : Obj)
    (cases : List (MatchCaseNode Obj V ε ω)) (hv : ∀ c ∈ cases, c.pattern.Valid)
    (hl : ∀ c ∈ cases, c.pattern.Lowerable) (env : Env Obj) (T : Temps Obj) (w : ω) :
    (runMatch rt o (refactorCases cases) env).result T w = some (pyMatchCases rt o cases 0 env w) :=
  (simulates_runMatch hv hl 0 env T w).result

/-! ## Numbers and lists -/

/-- Some values of Python. -/
inductive PyValue
  | int (n : ℤ)
  /-- the number `n.0` -/
  | float (n : ℤ)
  | list (ns : List ℤ)
deriving DecidableEq

def PyValue.int? : PyValue → Option ℤ
  | .int n => some n
  | _ => none

/-- Comparisons with literals for integers. -/
def pyValues : Runtime PyValue ℤ Unit Unit where
  items
    | .list ns => some (ns.map .int)
    | _ => none
  list xs := .list (xs.filterMap PyValue.int?)
  equals n
    | .int m => pure (decide (m = n))
    | .float m => pure (decide (m = n))
    | .list _ => pure false
  evaluate n := pure (.int n)

/-- `case 5 | 6` and `case [x, *y, 3] as z` -/
def listCases : List (MatchCaseNode PyValue ℤ Unit Unit) :=
  [⟨.or [.value (.expression 5 true) [], .value (.expression 6 true) []] [], none⟩,
    ⟨.sequence [.assign (some "x") false [], .assign (some "y") true [],
      .value (.expression 3 true) []] ["z"], none⟩]

theorem result_runMatch_listCases :
    (runMatch pyValues (.list [1, 2, 3]) (refactorCases listCases) fun _ => none).result .unset () =
      some (pyMatchCases pyValues (.list [1, 2, 3]) listCases 0 (fun _ => none) ()) := by
  refine result_runMatch_refactorCases pyValues _ listCases ?_ ?_ _ _ _
  · simp [listCases, PatternNode.Valid, PatternNode.AllValid, PatternNode.getTargets,
      PatternNode.lastTargets]
  · simp [listCases, PatternNode.Lowerable, PatternNode.AllLowerable, PatternNode.ItemsLowerable,
      PatternNode.TakesAnything, PatternNode.isIrrefutable]

/-- `case 1 as x` -/
def literalAs : List (MatchCaseNode PyValue ℤ Unit Unit) :=
  [⟨.value (.expression 1 true) ["x"], none⟩]

/-- The name is bound to the literal, and not to the number `1.0` that is equal to it. -/
theorem result_runMatch_literalAs :
    (runMatch pyValues (.float 1) (refactorCases literalAs) fun _ => none).result .unset () ≠
      some (pyMatchCases pyValues (.float 1) literalAs 0 (fun _ => none) ()) := by
  have hcode : (runMatch pyValues (.float 1) (refactorCases literalAs) fun _ => none).result
      .unset () = some (.ok (some 0, Function.update (fun _ => none) "x" (some (.int 1))), ()) := rfl
  have hpy : pyMatchCases pyValues (.float 1) literalAs 0 (fun _ => none) () =
      (.ok (some 0, Function.update (fun _ => none) "x" (some (.float 1))), ()) := rfl
  intro h
  rw [hcode, hpy, Option.some.injEq, Prod.mk.injEq, Except.ok.injEq, Prod.mk.injEq] at h
  have hx := congrFun h.1.2 "x"
  rw [Function.update_self, Function.update_self] at hx
  cases hx

end AHPy.MatchCase
