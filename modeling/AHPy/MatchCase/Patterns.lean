import Mathlib

/-!
# Patterns and what they match

The patterns of `match` statements (`MatchCaseNodes.py`): values, captures and wildcards,
alternatives and sequences, with `as` targets, and what Python matches and binds for them.
Comparisons may do anything: they are runs on a state, and may raise.

* `PatternNode.pyMatch`: a pattern, on an object;
* `pyMatchCases`: the cases of a statement, in order.
-/

namespace AHPy.MatchCase

abbrev Name := String

/-! ## Runs -/

/-- A run of Python code on a state of type `ω`: a result, or an exception. -/
def Run (ε ω α : Type) := ω → Except ε α × ω

namespace Run

variable {ε ω α β : Type}

instance : Monad (Run ε ω) where
  pure a := fun w => (.ok a, w)
  bind x f := fun w =>
    match x w with
    | (.ok a, w') => f a w'
    | (.error e, w') => (.error e, w')

theorem pure_apply (a : α) (w : ω) : (pure a : Run ε ω α) w = (.ok a, w) := rfl

theorem bind_ok {x : Run ε ω α} {f : α → Run ε ω β} {w w' : ω} {a : α} (h : x w = (.ok a, w')) :
    (x >>= f) w = f a w' := by
  simp only [Bind.bind, h]

theorem bind_error {x : Run ε ω α} {f : α → Run ε ω β} {w w' : ω} {e : ε}
    (h : x w = (.error e, w')) : (x >>= f) w = (.error e, w') := by
  simp only [Bind.bind, h]

theorem bind_eq_ok {x : Run ε ω α} {f : α → Run ε ω β} {w w'' : ω} {b : β}
    (h : (x >>= f) w = (.ok b, w'')) : ∃ a w', x w = (.ok a, w') ∧ f a w' = (.ok b, w'') := by
  rcases hx : x w with ⟨e | a, w'⟩
  · rw [bind_error hx] at h
    cases h
  · exact ⟨a, w', rfl, (bind_ok hx).symm.trans h⟩

end Run

/-- What patterns ask of Python, for the expressions `V` that are compared with. -/
structure Runtime (Obj V ε ω : Type) where
  /-- the items of a sequence -/
  items : Obj → Option (List Obj)
  /-- a new list -/
  list : List Obj → Obj
  /-- the comparison of an object with the value of an expression, and its truth -/
  equals : V → Obj → Run ε ω Bool
  evaluate : V → Run ε ω Obj

/-! ## Patterns -/

/-- The value of a `MatchValuePatternNode`. -/
inductive ValueNode (Obj V : Type)
  /-- `None`, `True` and `False`: `is_is_check` -/
  | constant (o : Obj)
  /-- literals and dotted names, with `is_simple` -/
  | expression (v : V) (isSimple : Bool)

/-- `PatternNode` -/
inductive PatternNode (Obj V : Type)
  /-- `MatchValuePatternNode` -/
  | value (value : ValueNode Obj V) (asTargets : List Name)
  /-- `MatchAndAssignPatternNode` -/
  | assign (target : Option Name) (isStar : Bool) (asTargets : List Name)
  /-- `OrPatternNode` -/
  | or (alternatives : List (PatternNode Obj V)) (asTargets : List Name)
  /-- `MatchSequencePatternNode` -/
  | sequence (patterns : List (PatternNode Obj V)) (asTargets : List Name)

variable {Obj V ε ω : Type}

namespace PatternNode

def asTargets : PatternNode Obj V → List Name
  | value _ asTargets => asTargets
  | assign _ _ asTargets => asTargets
  | or _ asTargets => asTargets
  | sequence _ asTargets => asTargets

/-- `is_match_and_assign_pattern and is_star` -/
def isStar : PatternNode Obj V → Bool
  | assign _ isStar _ => isStar
  | _ => false

mutual

/-- `is_irrefutable` -/
def isIrrefutable : PatternNode Obj V → Bool
  | value _ _ => false
  | assign _ _ _ => true
  | or alternatives _ => anyIrrefutable alternatives
  | sequence _ _ => false

/-- `get_first_irrefutable() is not None` -/
def anyIrrefutable : List (PatternNode Obj V) → Bool
  | [] => false
  | a :: as => a.isIrrefutable || anyIrrefutable as

end

mutual

/-- `get_targets`: those of alternatives are the targets of the last one. -/
def getTargets : PatternNode Obj V → List Name
  | value _ asTargets => asTargets
  | assign target _ asTargets => target.toList ++ asTargets
  | or alternatives asTargets => lastTargets alternatives ++ asTargets
  | sequence patterns asTargets => allTargets patterns ++ asTargets

def lastTargets : List (PatternNode Obj V) → List Name
  | [] => []
  | [a] => a.getTargets
  | _ :: as => lastTargets as

def allTargets : List (PatternNode Obj V) → List Name
  | [] => []
  | p :: ps => p.getTargets ++ allTargets ps

end

/-! ## Matching -/

abbrev Bindings (Obj : Type) := List (Name × Obj)

/-- The bindings of `as` targets. -/
def bindAs (asTargets : List Name) (o : Obj) : Bindings Obj := asTargets.map fun x => (x, o)

/-- The loop over the items of a sequence pattern that finds the star. -/
def starLoop : List (PatternNode Obj V) → ℕ → Option ℕ → Option ℕ
  | [], _, star => star
  | p :: ps, n, star => starLoop ps (n + 1) (if p.isStar then some n else star)

/-- The position of the star. -/
def starIndex (patterns : List (PatternNode Obj V)) : Option ℕ := starLoop patterns 0 none

/-- What the patterns of a sequence are matched with: its items, but for a star, which takes a list
    of those that are left; none, if the length does not fit. -/
def splitItems (rt : Runtime Obj V ε ω) (patterns : List (PatternNode Obj V)) (xs : List Obj) :
    Option (List Obj) :=
  match starIndex patterns with
  | none => if xs.length = patterns.length then some xs else none
  | some star =>
    let after := patterns.length - 1 - star
    if patterns.length - 1 ≤ xs.length then
      some (xs.take star ++ rt.list ((xs.take (xs.length - after)).drop star) ::
        xs.drop (xs.length - after))
    else none

variable [DecidableEq Obj] (rt : Runtime Obj V ε ω)

/-- Whether a value matches. -/
def pyMatchValue (o : Obj) : ValueNode Obj V → Run ε ω Bool
  | .constant c => pure (decide (o = c))
  | .expression v _ => rt.equals v o

mutual

/-- What a pattern binds if it matches an object. -/
def pyMatch : PatternNode Obj V → Obj → Run ε ω (Option (Bindings Obj))
  | value v asTargets, o => do
    let b ← pyMatchValue rt o v
    pure (if b then some (bindAs asTargets o) else none)
  | assign target _ asTargets, o => pure (some (bindAs asTargets o ++ bindAs target.toList o))
  | or alternatives asTargets, o => do
    let r ← pyMatchFirst alternatives o
    pure (r.map fun bs => bindAs asTargets o ++ bs)
  | sequence patterns asTargets, o =>
    match (rt.items o).bind (splitItems rt patterns) with
    | none => pure none
    | some xs => do
      let r ← pyMatchAll patterns xs
      pure (r.map fun bs => bindAs asTargets o ++ bs)

/-- The first alternative that matches. -/
def pyMatchFirst : List (PatternNode Obj V) → Obj → Run ε ω (Option (Bindings Obj))
  | [], _ => pure none
  | a :: as, o => do
    match ← pyMatch a o with
    | some bs => pure (some bs)
    | none => pyMatchFirst as o

/-- The items of a sequence, from left to right. -/
def pyMatchAll : List (PatternNode Obj V) → List Obj → Run ε ω (Option (Bindings Obj))
  | p :: ps, x :: xs => do
    match ← pyMatch p x with
    | none => pure none
    | some bs => do
      let r ← pyMatchAll ps xs
      pure (r.map fun bs' => bs ++ bs')
  | _, _ => pure (some [])

end

end PatternNode

/-! ## Statements -/

/-- The values of variables. -/
abbrev Env (Obj : Type) := Name → Option Obj

/-- Binds names, in order. -/
def Env.bindAll (env : Env Obj) (bs : PatternNode.Bindings Obj) : Env Obj :=
  bs.foldl (fun env b => Function.update env b.1 (some b.2)) env

/-- `MatchCaseNode`, without its body. A guard may bind names. -/
structure MatchCaseNode (Obj V ε ω : Type) where
  pattern : PatternNode Obj V
  guard : Option (Env Obj → Run ε ω (Bool × Env Obj))

variable [DecidableEq Obj] (rt : Runtime Obj V ε ω)

/-- The guard of a case, if there is one. -/
def runGuard (guard : Option (Env Obj → Run ε ω (Bool × Env Obj))) (env : Env Obj) :
    Run ε ω (Bool × Env Obj) :=
  guard.elim (pure (true, env)) fun g => g env

/-- A `match` statement: the case whose body runs, if any, and the variables then. -/
def pyMatchCases (o : Obj) :
    List (MatchCaseNode Obj V ε ω) → ℕ → Env Obj → Run ε ω (Option ℕ × Env Obj)
  | [], _, env => pure (none, env)
  | c :: cs, n, env => do
    match ← c.pattern.pyMatch rt o with
    | none => pyMatchCases o cs (n + 1) env
    | some bs => do
      let (holds, env') ← runGuard c.guard (env.bindAll bs)
      if holds then pure (some n, env') else pyMatchCases o cs (n + 1) env'

end AHPy.MatchCase
