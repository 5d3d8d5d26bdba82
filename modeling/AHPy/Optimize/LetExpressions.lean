import Mathlib

/-!
# Expressions with temporaries

Rewritten expressions keep values in temporaries: a `ResultRefNode` stands for the value of an
expression that an `EvalWithTempExprNode` around it evaluates once.

* `Node`, `Node.eval`: such expressions over those of the source, and their evaluation;
* `World`, `onState`: evaluations whose comparisons are recorded.
-/

namespace AHPy.LetExpressions

/-- The operator of a `PrimaryCmpNode`. -/
inductive CmpOp where
  | lt
  | gt
  | eq
  | ne
  deriving DecidableEq

/-- A `ResultRefNode`, by what it was made for. -/
inductive Temp where
  | arg (i : ℕ)
  | result (i : ℕ)
  deriving DecidableEq

/-- A rewritten expression. The condition of a `CondExprNode` is a comparison. -/
inductive Node (A : Type) where
  | source (a : A)
  | ref (temp : Temp)
  | evalWithTemp (temp : Temp) (expression body : Node A)
  | condExpr (operator : CmpOp) (operand1 operand2 trueVal falseVal : Node A)

/-- The values of the temporaries. -/
abbrev Temps (V : Type) := Temp → V

variable {A V ε σ : Type}

/-- How the expressions of the source are evaluated, and how two values compare: the truth
    value of the rich comparison. -/
structure Behaviour (A V ε σ : Type) where
  eval : A → EStateM ε σ V
  compare : CmpOp → V → V → EStateM ε σ Bool

/-- The evaluation of an expression. -/
def Node.eval (b : Behaviour A V ε σ) : Node A → Temps V → EStateM ε σ V
  | .source a, _ => b.eval a
  | .ref temp, temps => pure (temps temp)
  | .evalWithTemp temp expression body, temps => do
    let v ← expression.eval b temps
    body.eval b (Function.update temps temp v)
  | .condExpr operator operand1 operand2 trueVal falseVal, temps => do
    let v ← operand1.eval b temps
    let w ← operand2.eval b temps
    let c ← b.compare operator v w
    if c then trueVal.eval b temps else falseVal.eval b temps

/-! ## Recorded comparisons -/

/-- The state, and the comparisons that were made. -/
structure World (σ V : Type) where
  state : σ
  compared : List (V × V)

/-- What does not compare. -/
def onState {α : Type} (x : EStateM ε σ α) : EStateM ε (World σ V) α := fun w =>
  match x w.state with
  | .ok a s => .ok a { w with state := s }
  | .error e s => .error e { w with state := s }

/-- A comparison is recorded, then made. -/
def recorded (compare : V → V → EStateM ε σ Bool) (v w : V) : EStateM ε (World σ V) Bool :=
  fun world => onState (compare v w) { world with compared := world.compared ++ [(v, w)] }

/-- The same behaviour, with the comparisons recorded. -/
def Behaviour.record (b : Behaviour A V ε σ) : Behaviour A V ε (World σ V) where
  eval a := onState (b.eval a)
  compare operator := recorded (b.compare operator)

/-- What follows matters for the outcomes that there are. -/
theorem bind_congr_of_ok {α β : Type} {x : EStateM ε σ α} {f g : α → EStateM ε σ β} {s : σ}
    (h : ∀ a s', x s = .ok a s' → f a s' = g a s') : (x >>= f) s = (x >>= g) s := by
  change EStateM.bind x f s = EStateM.bind x g s
  rw [EStateM.bind, EStateM.bind]
  cases hx : x s with
  | ok a s' => exact h a s' hx
  | error e s' => rfl

/-- What follows is the same after the same outcome. -/
theorem bind_congr_left {α β : Type} {x y : EStateM ε σ α} {s : σ} (h : x s = y s)
    (f : α → EStateM ε σ β) : (x >>= f) s = (y >>= f) s := by
  change EStateM.bind x f s = EStateM.bind y f s
  rw [EStateM.bind, EStateM.bind, h]

theorem onState_congr {α : Type} {x y : EStateM ε σ α} {s : σ} (h : x s = y s)
    (compared : List (V × V)) : onState x ⟨s, compared⟩ = onState y ⟨s, compared⟩ := by
  rw [onState, onState, h]

theorem onState_pure {α : Type} (a : α) :
    onState (pure a : EStateM ε σ α) = (pure a : EStateM ε (World σ V) α) := rfl

theorem onState_bind {α β : Type} (x : EStateM ε σ α) (f : α → EStateM ε σ β) :
    onState (x >>= f) = (onState x >>= fun a => onState (f a) : EStateM ε (World σ V) β) := by
  funext w
  simp only [onState, bind, EStateM.bind]
  cases x w.state <;> rfl

theorem onState_mapM (f : A → EStateM ε σ V) (l : List A) :
    onState (l.mapM f) = (l.mapM fun a => onState (f a) : EStateM ε (World σ V) (List V)) := by
  induction l with
  | nil => rfl
  | cons a l ih => simp only [List.mapM_cons, onState_bind, onState_pure, ih]

end AHPy.LetExpressions
