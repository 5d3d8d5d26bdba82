import AHPy.Optimize.LetExpressions

/-!
# min() and max()

A call of `min` or `max` with several arguments is rewritten to comparisons of temporaries. The
temporaries of the arguments after the first are outermost, so the first one is evaluated last.

* `optimiseMinMax`, `pyMinMax`: the rewritten expression, and the builtin function;
* `eval_optimiseMinMax`: what the rewritten expression does;
* `optimiseMinMax_agrees_iff`: it does what the call does, if and only if the first argument may
  as well be evaluated last.
-/

namespace AHPy.LetExpressions

variable {A V ε σ : Type}

/-- The comparison with the `i`-th of the arguments after the first. -/
def minMaxStep (operator : CmpOp) (lastResult : Node A) (i : ℕ) : Node A :=
  .evalWithTemp (.result i) lastResult
    (.condExpr operator (.ref (.arg i)) (.ref (.result i)) (.ref (.arg i)) (.ref (.result i)))

/-- `_optimise_min_max`, with at least two arguments. -/
def optimiseMinMax (operator : CmpOp) (first : A) (rest : List A) : Node A :=
  rest.zipIdx.foldr (fun a lastResult => .evalWithTemp (.arg a.2) (.source a.1) lastResult)
    ((List.range rest.length).foldl (minMaxStep operator) (.source first))

/-- The loop of the builtin function: the current result, and the next item. -/
def pyMinMaxStep (b : Behaviour A V ε σ) (operator : CmpOp) (current item : V) :
    EStateM ε σ V := do
  let c ← b.compare operator item current
  if c then pure item else pure current

/-- The arguments of a call are evaluated from left to right. -/
def evalArguments (b : Behaviour A V ε σ) (first : A) (rest : List A) :
    EStateM ε σ (V × List V) := do
  let v ← b.eval first
  let vs ← rest.mapM b.eval
  pure (v, vs)

/-- The first argument is evaluated after the others. -/
def evalFirstLast (b : Behaviour A V ε σ) (first : A) (rest : List A) :
    EStateM ε σ (V × List V) := do
  let vs ← rest.mapM b.eval
  let v ← b.eval first
  pure (v, vs)

/-- The call of the builtin function. -/
def pyMinMax (b : Behaviour A V ε σ) (operator : CmpOp) (first : A) (rest : List A) :
    EStateM ε σ V := do
  let args ← evalArguments b first rest
  args.2.foldlM (pyMinMaxStep b operator) args.1

/-! ## The rewritten expression -/

/-- The temporaries once the arguments from the `n`-th on are evaluated. -/
def hold (temps : Temps V) (n : ℕ) : List V → Temps V
  | [] => temps
  | v :: vs => hold (Function.update temps (.arg n) v) (n + 1) vs

theorem hold_of_lt (temps : Temps V) {n m : ℕ} (h : m < n) (vs : List V) :
    hold temps n vs (.arg m) = temps (.arg m) := by
  induction vs generalizing temps n with
  | nil => rfl
  | cons v vs ih =>
    rw [hold, ih _ (h.trans n.lt_succ_self), Function.update_of_ne]
    intro heq
    exact h.ne (Temp.arg.inj heq)

theorem hold_arg (temps : Temps V) (n : ℕ) {vs : List V} {i : ℕ} (hi : i < vs.length) :
    hold temps n vs (.arg (n + i)) = vs[i] := by
  induction vs generalizing temps n i with
  | nil => cases hi
  | cons v vs ih =>
    cases i with
    | zero =>
      rw [Nat.add_zero, hold, hold_of_lt _ (Nat.lt_succ_self n), Function.update_self]
      rfl
    | succ i =>
      have h := ih (Function.update temps (.arg n) v) (n + 1) (Nat.lt_of_succ_lt_succ hi)
      rw [hold, ← Nat.add_assoc, Nat.add_right_comm, h]
      rfl

/-- The comparisons, with the arguments after the first in their temporaries. -/
theorem eval_steps (b : Behaviour A V ε σ) (operator : CmpOp) (first : A) {vs : List V}
    (temps : Temps V) (k : ℕ) (hk : k ≤ vs.length) :
    ((List.range k).foldl (minMaxStep operator) (.source first)).eval b (hold temps 0 vs) =
      (do
        let v ← b.eval first
        (vs.take k).foldlM (pyMinMaxStep b operator) v) := by
  induction k with
  | zero => simp [Node.eval]
  | succ k ih =>
    have hlt : k < vs.length := hk
    have harg : hold temps 0 vs (.arg k) = vs[k] := by simpa using hold_arg temps 0 hlt
    rw [List.range_succ, List.foldl_append, List.foldl_cons, List.foldl_nil, minMaxStep, Node.eval,
      ih hlt.le, List.take_succ_eq_append_getElem hlt]
    simp only [List.foldlM_append, List.foldlM_cons, List.foldlM_nil, bind_pure, bind_assoc]
    simp [Node.eval, pyMinMaxStep, Function.update, harg]

/-- The arguments after the first are evaluated, then the rest of the expression. -/
theorem eval_arguments (b : Behaviour A V ε σ) (rest : List A) (n : ℕ) (body : Node A)
    (temps : Temps V) :
    ((rest.zipIdx n).foldr
        (fun a lastResult => .evalWithTemp (.arg a.2) (.source a.1) lastResult) body).eval b temps =
      (do
        let vs ← rest.mapM b.eval
        body.eval b (hold temps n vs)) := by
  induction rest generalizing n temps with
  | nil => simp [hold]
  | cons a rest ih => simp [Node.eval, ih, hold]

theorem length_of_mapM {f : A → EStateM ε σ V} {l : List A} {s s' : σ} {vs : List V}
    (h : l.mapM f s = .ok vs s') : vs.length = l.length := by
  induction l generalizing s vs with
  | nil =>
    cases h
    rfl
  | cons a l ih =>
    rw [List.mapM_cons] at h
    simp only [bind, EStateM.bind, pure, EStateM.pure] at h
    split at h
    next v s₁ _ =>
      split at h
      next ws s₂ hl =>
        cases h
        rw [List.length_cons, ih hl, List.length_cons]
      next => cases h
    next => cases h

/-- What the rewritten expression does. -/
theorem eval_optimiseMinMax (b : Behaviour A V ε σ) (operator : CmpOp) (first : A)
    (rest : List A) (temps : Temps V) :
    (optimiseMinMax operator first rest).eval b temps = (do
      let args ← evalFirstLast b first rest
      args.2.foldlM (pyMinMaxStep b operator) args.1) := by
  funext s
  rw [optimiseMinMax, eval_arguments, evalFirstLast]
  simp only [bind_assoc, pure_bind]
  refine bind_congr_of_ok fun vs s' hvs => ?_
  have hlength := length_of_mapM hvs
  rw [← hlength, eval_steps b operator first temps vs.length le_rfl, List.take_length]

/-! ## Agreement -/

/-- The arguments are evaluated in the state; their evaluation does not compare. -/
theorem evalArguments_record (b : Behaviour A V ε σ) (first : A) (rest : List A) :
    evalArguments b.record first rest = onState (evalArguments b first rest) := by
  simp only [evalArguments, Behaviour.record, onState_bind, onState_mapM, onState_pure]

theorem evalFirstLast_record (b : Behaviour A V ε σ) (first : A) (rest : List A) :
    evalFirstLast b.record first rest = onState (evalFirstLast b first rest) := by
  simp only [evalFirstLast, Behaviour.record, onState_bind, onState_mapM, onState_pure]

/-- If nothing is less or greater, the first argument is returned, after it was compared with
    all others. -/
theorem foldlM_false (eval : A → EStateM ε σ V) (operator : CmpOp) (v : V) (vs : List V)
    (w : World σ V) :
    (vs.foldlM (pyMinMaxStep (Behaviour.record ⟨eval, fun _ _ _ => pure false⟩) operator) v :
        EStateM ε (World σ V) V) w =
      .ok v { w with compared := w.compared ++ vs.map fun item => (item, v) } := by
  induction vs generalizing w with
  | nil =>
    rw [List.map_nil, List.append_nil]
    rfl
  | cons item vs ih =>
    rw [List.foldlM_cons]
    exact (ih { w with compared := w.compared ++ [(item, v)] }).trans (by simp)

/-- If nothing is less or greater, the values of the arguments can be told from the result and
    the comparisons. -/
theorem eq_of_false {eval : A → EStateM ε σ V} {operator : CmpOp}
    {x y : EStateM ε σ (V × List V)} {s : σ}
    (h : (onState x >>= fun args => args.2.foldlM
          (pyMinMaxStep (Behaviour.record ⟨eval, fun _ _ _ => pure false⟩) operator) args.1 :
        EStateM ε (World σ V) V) ⟨s, []⟩ =
      (onState y >>= fun args => args.2.foldlM
        (pyMinMaxStep (Behaviour.record ⟨eval, fun _ _ _ => pure false⟩) operator) args.1)
        ⟨s, []⟩) :
    x s = y s := by
  simp only [bind, EStateM.bind, onState] at h
  cases hx : x s with
  | ok args s' =>
    cases hy : y s with
    | ok args' s'' =>
      rw [hx, hy] at h
      simp only [foldlM_false, List.nil_append, EStateM.Result.ok.injEq, World.mk.injEq] at h
      obtain ⟨hv, hs, hcompared⟩ := h
      rw [hv] at hcompared
      have hvs : args.2 = args'.2 := List.map_injective_iff.2
        (fun item item' heq => congrArg Prod.fst heq) hcompared
      rw [Prod.ext hv hvs, hs]
    | error e s'' =>
      rw [hx, hy] at h
      simp only [foldlM_false] at h
      cases h
  | error e s' =>
    cases hy : y s with
    | ok args' s'' =>
      rw [hx, hy] at h
      simp only [foldlM_false] at h
      cases h
    | error e' s'' =>
      rw [hx, hy] at h
      cases h
      rfl

/-- The rewritten expression does what the call does, for all comparison methods, if and only if
    the first argument may as well be evaluated last. -/
theorem optimiseMinMax_agrees_iff (eval : A → EStateM ε σ V) (operator : CmpOp)
    (first second : A) (rest : List A) (temps : Temps V) (s : σ) :
    (∀ compare : CmpOp → V → V → EStateM ε σ Bool,
        (optimiseMinMax operator first (second :: rest)).eval
            (Behaviour.record ⟨eval, compare⟩) temps ⟨s, []⟩ =
          pyMinMax (Behaviour.record ⟨eval, compare⟩) operator first (second :: rest) ⟨s, []⟩) ↔
      (do
          let vs ← (second :: rest).mapM eval
          let v ← eval first
          pure (v, vs) : EStateM ε σ (V × List V)) s =
        (do
          let v ← eval first
          let vs ← (second :: rest).mapM eval
          pure (v, vs)) s := by
  have hcode := fun compare : CmpOp → V → V → EStateM ε σ Bool =>
    eval_optimiseMinMax (Behaviour.record ⟨eval, compare⟩) operator first (second :: rest) temps
  constructor
  · intro h
    have hfalse := h fun _ _ _ => pure false
    rw [hcode, pyMinMax, evalFirstLast_record, evalArguments_record] at hfalse
    exact eq_of_false hfalse
  · intro h compare
    rw [hcode, pyMinMax, evalFirstLast_record, evalArguments_record]
    exact bind_congr_left (onState_congr h []) _

/-- A call that is recorded. -/
def recordCall (i : ℕ) : EStateM Empty (List ℕ) ℕ := fun calls => .ok i (calls ++ [i])

/-- The calls of `max(f(), g())` are made in the wrong order. -/
theorem optimiseMinMax_calls : ¬ ∀ compare : CmpOp → ℕ → ℕ → EStateM Empty (List ℕ) Bool,
    (optimiseMinMax .gt 1 [2]).eval (Behaviour.record ⟨recordCall, compare⟩) (fun _ => 0) ⟨[], []⟩ =
      pyMinMax (Behaviour.record ⟨recordCall, compare⟩) .gt 1 [2] ⟨[], []⟩ := by
  intro h
  cases h fun _ _ _ => pure false

end AHPy.LetExpressions
