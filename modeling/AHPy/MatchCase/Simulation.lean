import AHPy.MatchCase.Lowering

/-!
# Simulation of Python runs by code

* `Simulates`: code that ends as a Python run does, with its rules;
* `eval_binopTree_and`, `eval_binopTree_or`: trees of operators, as lists;
* `execAll`: lists of assignments.
-/

namespace AHPy.MatchCase

variable {Obj V ε ω α β γ : Type}

/-! ## Code -/

namespace Code

theorem bind_ok {x : Code Obj ε ω α} {f : α → Code Obj ε ω β} {T T' : Temps Obj} {w w' : ω} {a : α}
    (h : x T w = some (.ok (a, T'), w')) : (x >>= f) T w = f a T' w' := by
  simp only [Bind.bind, h]

theorem bind_error {x : Code Obj ε ω α} {f : α → Code Obj ε ω β} {T : Temps Obj} {w w' : ω} {e : ε}
    (h : x T w = some (.error e, w')) : (x >>= f) T w = some (.error e, w') := by
  simp only [Bind.bind, h]

theorem bind_none {x : Code Obj ε ω α} {f : α → Code Obj ε ω β} {T : Temps Obj} {w : ω}
    (h : x T w = none) : (x >>= f) T w = none := by
  simp only [Bind.bind, h]

theorem pure_bind (a : α) (f : α → Code Obj ε ω β) : pure a >>= f = f a := rfl

theorem bind_pure (x : Code Obj ε ω α) : x >>= pure = x := by
  funext T w
  rcases h : x T w with _ | ⟨e | ⟨a, T'⟩, w'⟩
  · exact bind_none h
  · exact bind_error h
  · exact bind_ok h

theorem bind_assoc (x : Code Obj ε ω α) (f : α → Code Obj ε ω β) (g : β → Code Obj ε ω γ) :
    x >>= f >>= g = x >>= fun a => f a >>= g := by
  funext T w
  rcases h : x T w with _ | ⟨e | ⟨a, T'⟩, w'⟩
  · rw [bind_none (bind_none h), bind_none h]
  · rw [bind_error (bind_error h), bind_error h]
  · rw [bind_ok h]
    rcases h' : f a T' w' with _ | ⟨e | ⟨b, T''⟩, w''⟩
    · rw [bind_none ((bind_ok h).trans h'), bind_none h']
    · rw [bind_error ((bind_ok h).trans h'), bind_error h']
    · rw [bind_ok ((bind_ok h).trans h'), bind_ok h']

theorem read_apply {f : Temps Obj → Option α} {T : Temps Obj} {a : α} (h : f T = some a) (w : ω) :
    (read f : Code Obj ε ω α) T w = some (.ok (a, T), w) := by
  rw [read, h, Option.map_some]

end Code

/-! ## Simulation -/

/-- The code raises what the Python run raises, or it ends with related results. -/
def Simulates (x : Code Obj ε ω α) (T : Temps Obj) (y : Run ε ω β) (w : ω)
    (R : β → α → Temps Obj → Prop) : Prop :=
  (∀ e w', y w = (.error e, w') → x T w = some (.error e, w')) ∧
    ∀ b w', y w = (.ok b, w') → ∃ a T', x T w = some (.ok (a, T'), w') ∧ R b a T'

section

variable {x : Code Obj ε ω α} {T : Temps Obj} {y : Run ε ω β} {w : ω}
  {R R' : β → α → Temps Obj → Prop}

theorem Simulates.pure {a : α} {b : β} (h : R b a T) :
    Simulates (Pure.pure a) T (Pure.pure b : Run ε ω β) w R := by
  refine ⟨fun e w' he => ?_, fun b' w' hb => ?_⟩
  · cases he
  · cases hb
    exact ⟨a, T, rfl, h⟩

/-- What code without effects simulates. -/
theorem Simulates.pure_inv {a : α} (h : Simulates (Pure.pure a) T y w R) :
    ∃ b, y w = (.ok b, w) ∧ R b a T := by
  rcases hy : y w with ⟨e | b, w'⟩
  · cases h.1 e w' hy
  · obtain ⟨a', T', ha, hR⟩ := h.2 b w' hy
    cases ha
    exact ⟨b, rfl, hR⟩

theorem Simulates.lift {y : Run ε ω α} {R : α → α → Temps Obj → Prop} (h : ∀ a, R a a T) :
    Simulates (Code.lift y) T y w R := by
  refine ⟨fun e w' he => ?_, fun b w' hb => ⟨b, T, ?_, h b⟩⟩
  · rw [Code.lift, he]
  · rw [Code.lift, hb]

theorem Simulates.read {f : Temps Obj → Option γ} {k : γ → Code Obj ε ω α} {c : γ} (hf : f T = some c)
    (h : Simulates (k c) T y w R) : Simulates (Code.read f >>= k) T y w R := by
  rw [Simulates, Code.bind_ok (Code.read_apply hf w)]
  exact h

theorem Simulates.modify {f : Temps Obj → Temps Obj} {k : Unit → Code Obj ε ω α}
    (h : Simulates (k ()) (f T) y w R) : Simulates (Code.modify f >>= k) T y w R := by
  have hmodify : (Code.modify f : Code Obj ε ω Unit) T w = some (.ok ((), f T), w) := rfl
  rw [Simulates, Code.bind_ok hmodify]
  exact h

theorem Simulates.bind {α' β' : Type} {f : α → Code Obj ε ω α'} {g : β → Run ε ω β'}
    {R' : β' → α' → Temps Obj → Prop} (h : Simulates x T y w R)
    (hf : ∀ b a T' w', R b a T' → y w = (.ok b, w') → Simulates (f a) T' (g b) w' R') :
    Simulates (x >>= f) T (y >>= g) w R' := by
  rcases hy : y w with ⟨e | b, w'⟩
  · rw [Simulates, Run.bind_error hy, Code.bind_error (h.1 e w' hy)]
    exact ⟨fun e' w'' he => by cases he; rfl, fun b w'' hb => by cases hb⟩
  · obtain ⟨a, T', hx, hR⟩ := h.2 b w' hy
    rw [Simulates, Run.bind_ok hy, Code.bind_ok hx]
    exact hf b a T' w' hR hy

theorem Simulates.imp (h : Simulates x T y w R)
    (hR : ∀ b a T' w', y w = (.ok b, w') → R b a T' → R' b a T') : Simulates x T y w R' := by
  refine ⟨h.1, fun b w' hb => ?_⟩
  obtain ⟨a, T', hx, hR'⟩ := h.2 b w' hb
  exact ⟨a, T', hx, hR b a T' w' hb hR'⟩

/-- A step of the Python run alone. -/
theorem Simulates.step {y : Run ε ω γ} {g : γ → Run ε ω β} {c : γ} (hy : y w = (.ok c, w))
    (h : Simulates x T (g c) w R) : Simulates x T (y >>= g) w R := by
  rw [Simulates, Run.bind_ok hy]
  exact h

/-- A step of the code alone. -/
theorem Simulates.after {f : α → Code Obj ε ω γ} {R : β → γ → Temps Obj → Prop} {a : α} {T' : Temps Obj}
    (hx : x T w = some (.ok (a, T'), w)) (h : Simulates (f a) T' y w R) :
    Simulates (x >>= f) T y w R := by
  rw [Simulates, Code.bind_ok hx]
  exact h

end

/-! ## Trees of operators -/

/-- `x and y` -/
def andBool (x y : Code Obj ε ω Bool) : Code Obj ε ω Bool := do
  let b ← x
  if b then y else pure false

/-- `x or y` -/
def orBool (x y : Code Obj ε ω Bool) : Code Obj ε ω Bool := do
  let b ← x
  if b then pure true else y

/-- `x or y`, of numbers -/
def orNumber (x y : Code Obj ε ω ℕ) : Code Obj ε ω ℕ := do
  let n ← x
  if n ≠ 0 then pure n else y

def andAll (xs : List (Code Obj ε ω Bool)) : Code Obj ε ω Bool := xs.foldr andBool (pure true)

def orAll (xs : List (Code Obj ε ω Bool)) : Code Obj ε ω Bool := xs.foldr orBool (pure false)

/-- The first number that is not 0. -/
def firstNumber (xs : List (Code Obj ε ω ℕ)) : Code Obj ε ω ℕ := xs.foldr orNumber (pure 0)

theorem andBool_assoc (x y z : Code Obj ε ω Bool) :
    andBool (andBool x y) z = andBool x (andBool y z) := by
  rw [andBool, andBool, andBool, Code.bind_assoc]
  congr 1
  funext b
  cases b <;> rfl

theorem orBool_assoc (x y z : Code Obj ε ω Bool) : orBool (orBool x y) z = orBool x (orBool y z) := by
  rw [orBool, orBool, orBool, Code.bind_assoc]
  congr 1
  funext b
  cases b <;> rfl

theorem orNumber_assoc (x y z : Code Obj ε ω ℕ) :
    orNumber (orNumber x y) z = orNumber x (orNumber y z) := by
  rw [orNumber, orNumber, orNumber, Code.bind_assoc]
  congr 1
  funext n
  by_cases hn : n = 0
  · rw [if_neg (not_not.2 hn), if_neg (not_not.2 hn)]
    rfl
  · rw [if_pos hn, if_pos hn, Code.pure_bind, if_pos hn]

theorem ite_pure : (fun b : Bool => if b = true then pure true else pure false) =
    (pure : Bool → Code Obj ε ω Bool) := by
  funext b
  cases b <;> rfl

theorem andBool_true (x : Code Obj ε ω Bool) : andBool x (pure true) = x :=
  (congrArg _ ite_pure).trans (Code.bind_pure x)

theorem orBool_false (x : Code Obj ε ω Bool) : orBool x (pure false) = x :=
  (congrArg _ ite_pure).trans (Code.bind_pure x)

theorem orNumber_zero (x : Code Obj ε ω ℕ) : orNumber x (pure 0) = x := by
  have hid : (fun n : ℕ => if n ≠ 0 then pure n else pure 0) = (pure : ℕ → Code Obj ε ω ℕ) := by
    funext n
    by_cases hn : n = 0
    · rw [if_neg (not_not.2 hn), hn]
    · rw [if_pos hn]
  exact (congrArg _ hid).trans (Code.bind_pure x)

theorem andAll_append (xs ys : List (Code Obj ε ω Bool)) :
    andAll (xs ++ ys) = andBool (andAll xs) (andAll ys) := by
  induction xs with
  | nil => rfl
  | cons x xs ih =>
    change andBool x (andAll (xs ++ ys)) = andBool (andBool x (andAll xs)) (andAll ys)
    rw [ih, andBool_assoc]

/-- A tree of an associative operator is its list. -/
theorem binopTree_eq {δ σ : Type} {op : δ → δ → δ} (default : δ) (sem : δ → σ) (join : σ → σ → σ)
    (unit : σ) (hop : ∀ a b, sem (op a b) = join (sem a) (sem b)) (hunit : ∀ x, join x unit = x)
    (hassoc : ∀ x y z, join (join x y) z = join x (join y z)) (hleft : ∀ x, join unit x = x)
    (l : List δ) (hl : l ≠ []) :
    sem (binopTree op default l) = (l.map sem).foldr join unit := by
  have happend : ∀ l l' : List σ,
      (l ++ l').foldr join unit = join (l.foldr join unit) (l'.foldr join unit) := by
    intro l l'
    induction l with
    | nil => exact (hleft _).symm
    | cons x l ih => rw [List.cons_append, List.foldr_cons, List.foldr_cons, ih, hassoc]
  induction h : l.length using Nat.strong_induction_on generalizing l with
  | _ n ih =>
    subst h
    match l with
    | [] => exact absurd rfl hl
    | [a] => rw [binopTree, List.map_singleton, List.foldr_cons, List.foldr_nil, hunit]
    | a :: b :: l =>
      have hlength : (a :: b :: l).length = l.length + 2 := rfl
      rw [binopTree, hop, ih _ ?_ _ ?_ rfl, ih _ ?_ _ ?_ rfl, ← happend, ← List.map_append,
        List.take_append_drop]
      · rw [List.length_drop]
        omega
      · rw [← List.length_pos_iff, List.length_drop]
        omega
      · rw [List.length_take]
        omega
      · rw [← List.length_pos_iff, List.length_take]
        omega

section

variable [DecidableEq Obj] (rt : Runtime Obj V ε ω) (root : Obj)

theorem eval_binopTree_and {l : List (Test Obj V)} (hl : l ≠ []) (default : Test Obj V) :
    (binopTree .and default l).eval rt root = andAll (l.map (Test.eval rt root)) :=
  binopTree_eq default _ andBool (pure true) (fun _ _ => rfl) andBool_true andBool_assoc
    (fun _ => rfl) l hl

theorem eval_binopTree_or {l : List (Test Obj V)} (hl : l ≠ []) (default : Test Obj V) :
    (binopTree .or default l).eval rt root = orAll (l.map (Test.eval rt root)) :=
  binopTree_eq default _ orBool (pure false) (fun _ _ => rfl) orBool_false orBool_assoc
    (fun _ => rfl) l hl

theorem eval_binopTree_numbers {l : List (IntExpr Obj V)} (hl : l ≠ []) (default : IntExpr Obj V) :
    (binopTree .or default l).eval rt root = firstNumber (l.map (IntExpr.eval rt root)) :=
  binopTree_eq default _ orNumber (pure 0) (fun _ _ => rfl) orNumber_zero orNumber_assoc
    (fun _ => rfl) l hl

end

/-! ## Lists of assignments -/

section

variable (rt : Runtime Obj V ε ω) (root : Obj)

/-- Assignments, one after another. -/
def execAll : List (Stmt Obj V) → Env Obj → Code Obj ε ω (Env Obj)
  | [], env => pure env
  | s :: ss, env => do
    let env ← s.exec rt root env
    execAll ss env

theorem exec_foldl_seq (s : Stmt Obj V) (ss : List (Stmt Obj V)) (env : Env Obj) :
    (ss.foldl .seq s).exec rt root env = s.exec rt root env >>= execAll rt root ss := by
  induction ss generalizing s env with
  | nil => exact (Code.bind_pure _).symm
  | cons s' ss ih =>
    rw [List.foldl_cons, ih, Stmt.exec, Code.bind_assoc]
    rfl

theorem execAssignments_statList (ss : List (Stmt Obj V)) (env : Env Obj) :
    execAssignments rt root (PatternNode.statList ss) env = execAll rt root ss env := by
  cases ss with
  | nil => rfl
  | cons s ss =>
    rw [PatternNode.statList, execAssignments, Option.elim_some, exec_foldl_seq]
    rfl

theorem execAll_toList (a : Option (Stmt Obj V)) :
    execAll rt root a.toList = execAssignments rt root a := by
  funext env
  cases a with
  | none => rfl
  | some s => exact Code.bind_pure _

theorem execAll_append (ss ss' : List (Stmt Obj V)) (env : Env Obj) :
    execAll rt root (ss ++ ss') env = execAll rt root ss env >>= execAll rt root ss' := by
  induction ss generalizing env with
  | nil => rfl
  | cons s ss ih =>
    rw [List.cons_append, execAll, execAll, Code.bind_assoc]
    congr 1
    funext env'
    exact ih env'

end

end AHPy.MatchCase
