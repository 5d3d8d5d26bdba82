import AHPy.Lib.CInteger

/-!
# Counted loops

A loop `for i from bound1 <= i < bound2 by step` becomes a `for` statement of C
over a variable of type `HPy_ssize_t`, whose values are bound to the target.
Loops over `range` become such loops when the arguments are small constants
(`transformRangeIteration`). The addition of C is undefined when the sum does
not fit the type, which the loop reaches in two places: at the start, moved by
one for a strict relation, and after the last value.

* `CountedLoop.run`: the emitted loop;
* `CountedLoop.range`: the Python range that has the values of the loop.
-/

namespace AHPy.ModuleWriter

/-- The types that `HPy_ssize_t` may be: signed, and not narrower than `int`. -/
structure SsizeType extends CIntType where
  isSigned : toCIntType.signed = true
  int_le : 32 ≤ toCIntType.width

/-- The values of type `HPy_ssize_t`. -/
def SsizeType.Value (t : SsizeType) : Type := {v : ℤ // t.InRange v}

instance (t : SsizeType) : CoeOut t.Value ℤ := ⟨Subtype.val⟩

/-- The type `HPy_ssize_t` with 64 bits. -/
def ssize64 : SsizeType := ⟨⟨64, true, by decide⟩, rfl, by decide⟩

variable {t : SsizeType}

/-! ## Bounds -/

/-- What a bound evaluates to: an integer, or something else. -/
inductive Number
  | int (value : ℤ)
  | other

inductive Exc
  | overflowError
  | typeError

/-- `HPyLong_AsSsize_t`: the value, and the exception that is set. -/
def ssizeFromPython (t : SsizeType) : Number → ℤ × Option Exc
  | .int v => if t.InRange v then (v, none) else (-1, some .overflowError)
  | .other => (-1, some .typeError)

/-- The expressions of bounds and steps. -/
inductive SsizeExpression (t : SsizeType)
  /-- A temporary, which is a variable of C already. -/
  | resultRef (value : t.Value)
  /-- A constant, written as it is into the initialiser of the variable. -/
  | int (constantResult : ℤ)
  /-- Anything else is evaluated as an object first. -/
  | object (result : Number)

theorem SsizeType.inRange_neg_one (t : SsizeType) : t.InRange (-1) := by
  rw [CIntType.inRange_signed t.isSigned]
  have h : (0 : ℤ) < 2 ^ (t.width - 1) := by positivity
  omega

theorem inRange_ssizeFromPython (t : SsizeType) (n : Number) :
    t.InRange (ssizeFromPython t n).1 := by
  cases n with
  | int v =>
    rw [ssizeFromPython]
    split
    next h => exact h
    next h => exact t.inRange_neg_one
  | other => exact t.inRange_neg_one

/-- `_materialize_ssize_expression`: the variable with the value, unless the failure exit is
    taken. -/
def materializeSsizeExpression : SsizeExpression t → Except Exc t.Value
  | .resultRef value => .ok value
  | .int constantResult => .ok ⟨t.convert constantResult, t.inRange_convert constantResult⟩
  | .object result =>
    let converted := ssizeFromPython t result
    let value : t.Value := ⟨converted.1, inRange_ssizeFromPython t result⟩
    if converted.1 = -1 then
      match converted.2 with
      | some exc => .error exc
      | none => .ok value
    else .ok value

/-! ## The emitted loop -/

inductive Relation
  | le
  | lt
  | ge
  | gt

namespace Relation

/-- The first character of the relation is `<`. -/
def ascends : Relation → Bool
  | .le | .lt => true
  | .ge | .gt => false

def holds : Relation → ℤ → ℤ → Bool
  | .le, a, b => a ≤ b
  | .lt, a, b => a < b
  | .ge, a, b => b ≤ a
  | .gt, a, b => b < a

def strict : Relation → Bool
  | .lt | .gt => true
  | .le | .ge => false

end Relation

inductive IncOp
  | increment
  | decrement

/-- What an increment operator adds for a step. -/
def IncOp.signed : IncOp → ℤ → ℤ
  | .increment, step => step
  | .decrement, step => -step

/-- The offset of the start, and the increment operator, for each relation. -/
def relationTable : Relation → Option ℤ × IncOp
  | .le => (none, .increment)
  | .lt => (some 1, .increment)
  | .ge => (none, .decrement)
  | .gt => (some (-1), .decrement)

/-- A loop whose bounds and step have been materialised. -/
structure CountedLoop (t : SsizeType) where
  bound1 : t.Value
  relation1 : Relation
  relation2 : Relation
  bound2 : t.Value
  step : Option t.Value
  directions_match : relation1.ascends = relation2.ascends

/-- A for-from statement; the parser checks that the relations have the same direction. -/
structure ForFromStat (t : SsizeType) where
  bound1 : SsizeExpression t
  relation1 : Relation
  relation2 : Relation
  bound2 : SsizeExpression t
  step : Option (SsizeExpression t)
  directions_match : relation1.ascends = relation2.ascends

/-- The bounds and the step, in the order in which they are emitted. -/
def ForFromStat.materialize (stat : ForFromStat t) : Except Exc (CountedLoop t) := do
  let bound1 ← materializeSsizeExpression stat.bound1
  let bound2 ← materializeSsizeExpression stat.bound2
  let step ← stat.step.mapM materializeSsizeExpression
  return ⟨bound1, stat.relation1, stat.relation2, bound2, step, stat.directions_match⟩

/-- How the body of a loop ends. -/
inductive Exit (R : Type)
  /-- At its end, or with `continue`. -/
  | next
  | break
  /-- With `return`, or an exception. -/
  | leave (result : R)

/-- How a loop ends. -/
inductive Outcome (σ R : Type)
  /-- The test is false; the `else` clause runs. -/
  | completed (s : σ)
  | broken (s : σ)
  | left (result : R) (s : σ)
  /-- The behaviour is undefined, after a signed overflow. -/
  | undefined

/-- `for (...; test; i += delta)` from the value `i` of the variable. -/
def forLoop {σ R : Type} (t : CIntType) (test : ℤ → Bool) (delta : ℤ)
    (body : ℤ → σ → Exit R × σ) : ℕ → ℤ → σ → Option (Outcome σ R)
  | 0, _, _ => none
  | fuel + 1, i, s =>
    if test i then
      match body i s with
      | (.next, s') =>
        match t.arith (i + delta) with
        | some i' => forLoop t test delta body fuel i' s'
        | none => some .undefined
      | (.break, s') => some (.broken s')
      | (.leave result, s') => some (.left result s')
    else some (.completed s)

namespace CountedLoop

variable (loop : CountedLoop t)

/-- `start` plus the offset, before it is known to fit. -/
def start : ℤ := loop.bound1 + (relationTable loop.relation1).1.getD 0

/-- What is added to the variable after each iteration. -/
def delta : ℤ := (relationTable loop.relation1).2.signed (loop.step.elim 1 Subtype.val)

def test (i : ℤ) : Bool := loop.relation2.holds i loop.bound2

/-- The emitted loop: the body gets the value that has just been bound to the target. -/
def run {σ R : Type} (body : ℤ → σ → Exit R × σ) (fuel : ℕ) (s : σ) : Option (Outcome σ R) :=
  match (relationTable loop.relation1).1 with
  | none => forLoop t.toCIntType loop.test loop.delta body fuel loop.bound1 s
  | some offset =>
    match t.arith (loop.bound1 + offset) with
    | some start => forLoop t.toCIntType loop.test loop.delta body fuel start s
    | none => some .undefined

end CountedLoop

/-! ## Ranges of Python -/

/-- The number of values of a range. -/
def rangeLength (start stop step : ℤ) : ℕ :=
  if 0 < step then (if start < stop then ((stop - start - 1) / step + 1).toNat else 0)
  else if stop < start then ((start - stop - 1) / (-step) + 1).toNat else 0

/-- The values of a range; there is none with step zero, which is an error. -/
def pyRange (start stop step : ℤ) : Option (List ℤ) :=
  if step = 0 then none
  else some ((List.range (rangeLength start stop step)).map fun k : ℕ => start + k * step)

/-- The for statement of Python, over the values of a range. -/
def pyFor {σ R : Type} (body : ℤ → σ → Exit R × σ) : List ℤ → σ → Outcome σ R
  | [], s => .completed s
  | i :: values, s =>
    match body i s with
    | (.next, s') => pyFor body values s'
    | (.break, s') => .broken s'
    | (.leave result, s') => .left result s'

namespace CountedLoop

variable (loop : CountedLoop t)

/-- The first value past the bound, in the direction of the loop. -/
def stop : ℤ :=
  if loop.relation2.strict then loop.bound2
  else if loop.relation2.ascends then loop.bound2 + 1 else loop.bound2 - 1

/-- The values from `bound1` to `bound2`, with the bounds or without them, in the direction of
    the relations. -/
def range : Option (List ℤ) := pyRange loop.start loop.stop loop.delta

/-- The loop does what the for statement does over its range, with every body. -/
def BindsRange : Prop :=
  ∃ values, loop.range = some values ∧
    ∀ {σ R : Type} (body : ℤ → σ → Exit R × σ) (s : σ),
      ∃ fuel, loop.run body fuel s = some (pyFor body values s)

end CountedLoop

/-! ## Loops over `range` -/

/-- The arguments of `range`, which are constants. -/
inductive RangeArgs
  | one (stop : ℤ)
  | two (start stop : ℤ)
  | three (start stop step : ℤ)

namespace RangeArgs

def start : RangeArgs → ℤ
  | .one _ => 0
  | .two start _ | .three start _ _ => start

def stop : RangeArgs → ℤ
  | .one stop | .two _ stop | .three _ stop _ => stop

def step : RangeArgs → ℤ
  | .one _ | .two _ _ => 1
  | .three _ _ step => step

def toList : RangeArgs → List ℤ
  | .one stop => [stop]
  | .two start stop => [start, stop]
  | .three start stop step => [start, stop, step]

/-- `list(range(...))` -/
def values (args : RangeArgs) : Option (List ℤ) := pyRange args.start args.stop args.step

end RangeArgs

/-- `_find_for_from_node_relations` -/
def findForFromNodeRelations (negStepValue reversed : Bool) : Relation × Relation :=
  if reversed then (if negStepValue then (.lt, .le) else (.gt, .ge))
  else if negStepValue then (.ge, .gt) else (.le, .lt)

theorem ascends_findForFromNodeRelations (negStepValue reversed : Bool) :
    (findForFromNodeRelations negStepValue reversed).1.ascends =
      (findForFromNodeRelations negStepValue reversed).2.ascends := by
  cases negStepValue <;> cases reversed <;> rfl

/-- The first bound of a loop over `reversed(range(...))`, moved to the last value of the range. -/
def reversedBound1 (start stop stepValue : ℤ) : ℤ :=
  let absStep := |stepValue|
  if absStep = 1 then stop
  else if stepValue < 0 then start - absStep * ((start - stop - 1) / absStep) - 1
  else start + absStep * ((stop - start - 1) / absStep) + 1

/-- `_transform_range_iteration`, for constant arguments. -/
def transformRangeIteration (args : RangeArgs) (reversed : Bool) : Option (ForFromStat t) :=
  let stepValue := args.step
  if stepValue = 0 then none
  else
    let relations := findForFromNodeRelations (decide (stepValue < 0)) reversed
    let bound1 := if reversed then reversedBound1 args.start args.stop stepValue else args.start
    let bound2 := if reversed then args.start else args.stop
    some ⟨.int bound1, relations.1, relations.2, .int bound2, some (.int |stepValue|),
      ascends_findForFromNodeRelations _ _⟩

/-- Loops over `range` with an object as target are only transformed for small constants. -/
def optimiseRange (args : RangeArgs) (reversed : Bool) : Option (ForFromStat t) :=
  if ∀ c ∈ args.toList, -2 ^ 30 ≤ c ∧ c < 2 ^ 30 then transformRangeIteration args reversed
  else none

end AHPy.ModuleWriter
