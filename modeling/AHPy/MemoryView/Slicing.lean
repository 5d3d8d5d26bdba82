import AHPy.MemoryView.Slices
import AHPy.ModuleWriter.CountedLoops

/-!
# Slicing of memoryviews

A memoryview is indexed or sliced one dimension after the other
(`memview_slice` of `MemoryView.pyx`, `slice_memviewslice` of `MemoryView_C.c`).
The arithmetic is that of `Py_ssize_t`, and undefined where a result does not
fit (`ssize`).

* `sliceMemviewslice`: one dimension, indexed by an integer or a slice;
* `memviewSlice`: all of them;
* `Sliced.indices`, `Sliced.selection`: what Python's slices select.
-/

namespace AHPy.MemoryView

open ModuleWriter (SsizeType pyRange)

variable {t : SsizeType}

/-- The ends of the computation that give no slice. -/
inductive SliceError where
  | indexOutOfBounds (axis : Nat)
  | zeroStep (axis : Nat)
  | notIndexed (dim : Nat)
  /-- A signed overflow. -/
  | undefined
deriving DecidableEq

def SliceError.message : SliceError → String
  | .indexOutOfBounds axis => s!"Index out of bounds (axis {axis})"
  | .zeroStep axis => s!"Step may not be zero (axis {axis})"
  | .notIndexed dim => s!"All dimensions preceding dimension {dim} must be indexed and not sliced"
  | .undefined => ""

/-- The result of an operation of `Py_ssize_t`. -/
def ssize (t : SsizeType) (v : ℤ) : Except SliceError ℤ :=
  if t.InRange v then .ok v else .error .undefined

/-- A dimension of the source. -/
structure Dimension (t : SsizeType) where
  shape : t.Value
  stride : t.Value
  suboffset : t.Value
  shape_nonneg : (0 : ℤ) ≤ shape

/-- The parts of a slice that are there; the others are `None`. -/
structure Sliced (t : SsizeType) where
  start : Option t.Value
  stop : Option t.Value
  step : Option t.Value

/-- What a dimension is indexed with. -/
inductive Index (t : SsizeType) where
  | integer (index : t.Value)
  | slice (slice : Sliced t)

/-- The new slice as far as it is filled, with the dimension whose suboffset the next offsets are
    added to. -/
structure Slicing where
  dst : MemviewSlice
  newNdim : Nat
  suboffsetDim : Option Nat
  lt_newNdim : ∀ dim ∈ suboffsetDim, dim < newNdim

/-! ## One dimension -/

/-- The start of a slice, from its default or within the bounds. -/
def checkStart (t : SsizeType) (shape : ℤ) (negativeStep : Bool) :
    Option t.Value → Except SliceError ℤ
  | some start =>
    if (start : ℤ) < 0 then do
      let start ← ssize t (start + shape)
      return if start < 0 then 0 else start
    else if (start : ℤ) ≥ shape then
      if negativeStep then ssize t (shape - 1) else return shape
    else return start
  | none => if negativeStep then ssize t (shape - 1) else return 0

/-- The stop of a slice, from its default or within the bounds. -/
def checkStop (t : SsizeType) (shape : ℤ) (negativeStep : Bool) :
    Option t.Value → Except SliceError ℤ
  | some stop =>
    if (stop : ℤ) < 0 then do
      let stop ← ssize t (stop + shape)
      return if stop < 0 then 0 else stop
    else if (stop : ℤ) > shape then return shape
    else return stop
  | none => return if negativeStep then -1 else shape

/-- `len = ceil( (stop - start) / step )`, with the division of C. -/
def newShape (t : SsizeType) (start stop step : ℤ) : Except SliceError ℤ := do
  let len ← ssize t (stop - start)
  let newShape ← ssize t (len.tdiv step)
  let product ← ssize t (step * newShape)
  let rest ← ssize t (len - product)
  let newShape ← if rest ≠ 0 then ssize t (newShape + 1) else pure newShape
  return if newShape < 0 then 0 else newShape

/-- What the next offsets are added to: the data, or a suboffset. -/
def MemviewSlice.base (dst : MemviewSlice) (suboffsetDim : Option Nat) : ℤ :=
  suboffsetDim.elim dst.data dst.suboffsets

def MemviewSlice.setBase (dst : MemviewSlice) (suboffsetDim : Option Nat) (v : ℤ) : MemviewSlice :=
  match suboffsetDim with
  | none => { dst with data := v }
  | some dim => { dst with suboffsets := Function.update dst.suboffsets dim v }

namespace Slicing

variable (s : Slicing)

/-- Add an offset to the right suboffset or base data. -/
def addOffset (t : SsizeType) (start stride : ℤ) : Except SliceError Slicing := do
  let offset ← ssize t (start * stride)
  let v := s.dst.base s.suboffsetDim + offset
  -- The data is a pointer.
  let v ← if s.suboffsetDim.isSome then ssize t v else pure v
  return { s with dst := s.dst.setBase s.suboffsetDim v }

/-- The entries of a dimension of the new slice. -/
def setDimension (shape : Nat) (stride suboffset : ℤ) : Slicing :=
  { s with
    dst := { s.dst with
      shape := Function.update s.dst.shape s.newNdim shape
      strides := Function.update s.dst.strides s.newNdim stride
      suboffsets := Function.update s.dst.suboffsets s.newNdim suboffset } }

/-- The new slice has one dimension more. -/
def nextDimension (suboffset : ℤ) : Slicing where
  dst := s.dst
  newNdim := s.newNdim + 1
  suboffsetDim := if suboffset ≥ 0 then some s.newNdim else s.suboffsetDim
  lt_newNdim dim h := by
    split at h
    · exact Nat.lt_succ_of_le (Option.some.inj h).ge
    · exact Nat.lt_succ_of_lt (s.lt_newNdim dim h)

end Slicing

/-- The start for an index, counted from the end if it is negative. -/
def wrapStart (t : SsizeType) (shape : ℤ) (index : t.Value) : Except SliceError ℤ :=
  if (index : ℤ) < 0 then ssize t (index + shape) else .ok index

/-- An indexed dimension that is indirect has a pointer to the next ones. -/
def followPointer (memory : ℤ → ℤ) (s : Slicing) (suboffset : ℤ) (dim : Nat) :
    Except SliceError Slicing :=
  if suboffset ≥ 0 then
    if s.newNdim = 0 then
      .ok { s with dst := { s.dst with data := memory s.dst.data + suboffset } }
    else .error (.notIndexed dim)
  else .ok s

/-- `slice_memviewslice`, and the count of the dimensions in its caller: `memory` has the pointers
    that indirect dimensions go through. -/
def sliceMemviewslice (memory : ℤ → ℤ) (s : Slicing) (d : Dimension t) (dim : Nat) :
    Index t → Except SliceError Slicing
  | .integer index => do
    let start ← wrapStart t d.shape index
    if ¬(0 ≤ start ∧ start < d.shape) then throw (.indexOutOfBounds dim)
    let s ← s.addOffset t start d.stride
    followPointer memory s d.suboffset dim
  | .slice slice => do
    let step : ℤ := slice.step.elim 1 Subtype.val
    let negativeStep : Bool := step < 0
    if step = 0 then throw (.zeroStep dim)
    let start ← checkStart t d.shape negativeStep slice.start
    let stop ← checkStop t d.shape negativeStep slice.stop
    let shape ← newShape t start stop step
    let stride ← ssize t (d.stride * step)
    let s ← (s.setDimension shape.toNat stride d.suboffset).addOffset t start d.stride
    return s.nextDimension d.suboffset

/-! ## All dimensions -/

/-- The loop of `memview_slice`, from the dimension `dim` of the source on. -/
def sliceDimensions (memory : ℤ → ℤ) :
    List (Dimension t × Index t) → (dim : Nat) → Slicing → Except SliceError Slicing
  | [], _, s => .ok s
  | (d, index) :: indices, dim, s => do
    let s ← sliceMemviewslice memory s d dim index
    sliceDimensions memory indices (dim + 1) s

/-- `memview_slice`: the new slice, for an index of each dimension of a slice with the given
    data. -/
def memviewSlice (memory : ℤ → ℤ) (view : View) (data : ℤ)
    (indices : List (Dimension t × Index t)) : Except SliceError Slicing :=
  sliceDimensions memory indices 0
    ⟨⟨view, data, fun _ => 0, fun _ => 0, fun _ => 0⟩, 0, none, fun _ h => nomatch h⟩

/-! ## Slices of Python -/

/-- A bound of a slice over a sequence, with the limits that it is clamped to. -/
def adjustIndex (length lower upper v : ℤ) : ℤ :=
  if v < 0 then max (v + length) lower else min v upper

/-- `slice(start, stop, step).indices(length)`, for a step that is not zero. -/
def sliceIndices (length : ℤ) (start stop step : Option ℤ) : ℤ × ℤ × ℤ :=
  let step := step.getD 1
  if step < 0 then
    (start.elim (length - 1) (adjustIndex length (-1) (length - 1)),
      stop.elim (-1) (adjustIndex length (-1) (length - 1)), step)
  else
    (start.elim 0 (adjustIndex length 0 length),
      stop.elim length (adjustIndex length 0 length), step)

namespace Sliced

variable (slice : Sliced t) (length : ℤ)

def indices : ℤ × ℤ × ℤ :=
  sliceIndices length (slice.start.map Subtype.val) (slice.stop.map Subtype.val)
    (slice.step.map Subtype.val)

/-- The indices that the slice selects, in order; there is none with step zero, which is an
    error. -/
def selection : Option (List ℤ) :=
  let (start, stop, step) := slice.indices length
  pyRange start stop step

end Sliced

end AHPy.MemoryView
