import AHPy.CMath.Division
import AHPy.Lib.CExpressions
import AHPy.ModuleWriter.CountedLoops

/-!
# Loops over ranges and arrays

A loop over `range`, or over a slice of a C array, becomes a for-from loop with C integers or
pointers (`IterationTransform`), which becomes a `for` statement of C. The bound of a reversed
range is moved to its last value, by the compiler or by the emitted code.

* `transformRangeIteration`, `transformCarrayIteration`: the transforms;
* `ForFromStatNode.loop`, `CarrayLoop.counter`: the emitted loops.
-/

namespace AHPy.Optimize

open ModuleWriter (Relation IncOp relationTable findForFromNodeRelations reversedBound1 pyRange
  rangeLength progression)

/-! ## The emitted loops -/

/-- A loop `for (i = initial; i relation bound; i += step)`, or with `-=`. If the variable moves
    first, it does so at the start of the body. -/
structure CLoop where
  type : CIntType
  initial : CExpression
  relation : Relation
  bound : CExpression
  incop : IncOp
  step : ℤ
  movesFirst : Bool

def incOperator : IncOp → COperator
  | .increment => .add
  | .decrement => .sub

namespace CLoop

variable (A : Arithmetic) (p : CPlatform) (loop : CLoop)

/-- The type in which the variable is compared with the bound. -/
def testType : CIntType := p.common loop.type (loop.bound.type p)

/-- `i += step`, before it is assigned. -/
def moved (i : ℤ) : CExpression :=
  .binary (incOperator loop.incop) (.value loop.type i) (.literal p loop.step)

def test (i : ℤ) : Option Bool := do
  let bound ← loop.bound.run A p
  let x ← A.convert (loop.testType p) i
  let y ← A.convert (loop.testType p) bound
  return loop.relation.holds x y

def counter : Counter where
  start := do
    let initial ← loop.initial.run A p
    A.convert loop.type initial
  test := loop.test A p
  next i := do
    let j ← (loop.moved p i).run A p
    A.convert loop.type j
  movesFirst := loop.movesFirst

/-- The loop ends, and the values of the variable in its body are these. -/
def Visits (values : List ℤ) : Prop := (loop.counter A p).Visits values

end CLoop

/-- A `ForFromStatNode` over C integers, with a constant step. -/
structure ForFromStatNode where
  bound1 : CExpression
  relation1 : Relation
  relation2 : Relation
  bound2 : CExpression
  step : ℤ

/-- The initial offset of the relation table: nothing, `+1` or `-1`. -/
def withOffset (p : CPlatform) (e : CExpression) : Option ℤ → CExpression
  | none => e
  | some offset =>
    if 0 < offset then .binary .add e (.literal p offset) else .binary .sub e (.literal p (-offset))

/-- `generate_execution_code`. Below an unsigned type there is no value to stop at: everything
    is moved up by a step. -/
def ForFromStatNode.loop (p : CPlatform) (node : ForFromStatNode) (type : CIntType) : CLoop :=
  let initial := withOffset p node.bound1 (relationTable node.relation1).1
  let step := CExpression.literal p node.step
  let movesFirst := !type.signed && !node.relation2.ascends
  { type
    initial := if movesFirst then .binary .add initial step else initial
    relation := node.relation2
    bound := if movesFirst then .binary .add node.bound2 step else node.bound2
    incop := (relationTable node.relation1).2
    step := node.step
    movesFirst }

/-! ## Loops over `range` -/

/-- A bound of a range, as an index: an expression of a C integer type with its value, which the
    compiler may know (`constant_result`). -/
structure Bound where
  type : CIntType
  value : ℤ
  isConstant : Bool
  inRange : type.InRange value

def Bound.node (b : Bound) : CExpression := .value b.type b.value

/-- The arguments of `range`; the step may be a constant. -/
inductive RangeArgs
  | one (stop : Bound)
  | two (start stop : Bound)
  | three (start stop : Bound) (step : Option ℤ)

/-- What a loop over a range is compiled for: the type of the target, the type of the division
    in the bound of a reversed range, which is `spanning_step_type`, and the directive. -/
structure LoopTypes where
  platform : CPlatform
  target : CIntType
  spanningStep : CIntType
  cdivision : Bool

namespace RangeArgs

/-- The start, which is a literal zero by default. -/
def start (p : CPlatform) : RangeArgs → Bound
  | one _ => ⟨p.intType true, 0, true, (p.intType true).inRange_zero⟩
  | two start _ | three start _ _ => start

def startValue : RangeArgs → ℤ
  | one _ => 0
  | two start _ | three start _ _ => start.value

def stop : RangeArgs → Bound
  | one stop | two _ stop | three _ stop _ => stop

/-- The step, if it is known. -/
def step : RangeArgs → Option ℤ
  | one _ | two _ _ => some 1
  | three _ _ step => step

end RangeArgs

namespace LoopTypes

variable (types : LoopTypes)

/-- `//`, rounded down by a helper, or rounded towards zero by C. -/
def divNode (operand1 operand2 : CExpression) : CExpression :=
  if types.cdivision || !types.spanningStep.signed then .binary .div operand1 operand2
  else .call types.spanningStep (CMath.divInt types.platform types.spanningStep true)
    operand1 operand2

/-- `_build_range_step_calculation` -/
def buildRangeStepCalculation (bound1 bound2 : CExpression) (stepValue : ℤ) : CExpression :=
  let absStep := CExpression.literal types.platform |stepValue|
  let one := CExpression.literal types.platform 1
  let beginValue := if stepValue < 0 then bound2 else bound1
  let endValue := if stepValue < 0 then bound1 else bound2
  let finalOp := if stepValue < 0 then COperator.sub else COperator.add
  let quotient := types.divNode (.binary .sub (.binary .sub beginValue endValue) one) absStep
  .binary finalOp (.binary finalOp bound2 (.binary .mul absStep quotient)) one

/-- The first bound of a reversed range. -/
def reversedBound (start stop : Bound) (stepValue : ℤ) : CExpression :=
  if |stepValue| = 1 then stop.node
  else if start.isConstant && stop.isConstant then
    .literal types.platform (reversedBound1 start.value stop.value stepValue)
  else types.buildRangeStepCalculation stop.node start.node stepValue

/-- `_transform_range_iteration`, which leaves a loop alone if its step is unknown, or zero. -/
def transformRangeIteration (args : RangeArgs) (reversed : Bool) : Option ForFromStatNode :=
  args.step.bind fun stepValue =>
    if stepValue = 0 then none
    else
      let relations := findForFromNodeRelations (decide (stepValue < 0)) reversed
      let start := args.start types.platform
      let bound1 :=
        if reversed then types.reversedBound start args.stop stepValue else start.node
      let bound2 := if reversed then start.node else args.stop.node
      some ⟨bound1, relations.1, relations.2, bound2, |stepValue|⟩

end LoopTypes

/-- The values that a loop over the range has in Python. -/
def RangeArgs.values (args : RangeArgs) (reversed : Bool) : Option (List ℤ) :=
  args.step.bind fun step =>
    (pyRange args.startValue args.stop.value step).map fun values =>
      if reversed then values.reverse else values

/-! ## Loops over C arrays -/

/-- The sequences of a loop over a C array: a slice without a step, a slice in which there may be
    one, known to the compiler or not, and an array of known size. -/
inductive CarraySequence
  | sliceIndex (start stop : Option ℤ)
  | subscript (start stop : Option ℤ) (step : Option (Option ℤ))
  | array (size : ℕ)

/-- A for-from loop over pointers into an array, which are given by their indices. -/
structure CarrayLoop where
  bound1 : ℤ
  relation1 : Relation
  relation2 : Relation
  bound2 : ℤ
  step : Option ℤ

def CarrayLoop.counter (loop : CarrayLoop) : Counter where
  start := some (loop.bound1 + (relationTable loop.relation1).1.getD 0)
  test i := some (loop.relation2.holds i loop.bound2)
  next i := some (i + (relationTable loop.relation1).2.signed (loop.step.getD 1))
  movesFirst := false

/-- The end of `_transform_carray_iteration`, with the step value that the sign is taken from. -/
def carrayLoop (start stop : Option ℤ) (stepValue : Option ℤ) (reversed : Bool) :
    Option CarrayLoop :=
  let negStep := stepValue.any (· < 0)
  let stop := stop.or (if negStep then some (-1) else none)
  stop.map fun stop =>
    let relations := findForFromNodeRelations negStep reversed
    let start := start.getD 0
    ⟨if reversed then stop else start, relations.1, relations.2,
      if reversed then start else stop, stepValue.map fun v => |v|⟩

/-- `_transform_carray_iteration`, which refuses slices whose end or step is unknown. -/
def transformCarrayIteration (sequence : CarraySequence) (reversed : Bool) : Option CarrayLoop :=
  match sequence with
  | .sliceIndex start stop => if stop.isNone then none else carrayLoop start stop none reversed
  | .subscript start stop none => carrayLoop start stop none reversed
  | .subscript start stop (some step) =>
    step.bind fun v =>
      if v = 0 ∨ 0 < v ∧ stop = none ∨ v < 0 ∧ start = none then none
      else carrayLoop start stop (some (if reversed then -v else v)) reversed
  | .array size => carrayLoop none (some size) none reversed

/-- The indices of the slice, which are not limited: a C array does not know its length. -/
def CarraySequence.indices : CarraySequence → Option (List ℤ)
  | sliceIndex start stop => stop.bind fun stop => pyRange (start.getD 0) stop 1
  | subscript start stop none => stop.bind fun stop => pyRange (start.getD 0) stop 1
  | subscript start stop (some step) => step.bind fun step =>
    pyRange (start.getD 0) (stop.getD (-1)) step
  | array size => pyRange 0 size 1

end AHPy.Optimize
