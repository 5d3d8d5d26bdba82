import AHPy.Buffer.FormatCheck
import AHPy.MemoryView.Slices

/-!
# Validation of buffers

A buffer is checked against the axes of a memoryview type, and its slice is filled in
(`__Pyx_ValidateAndInit_memviewslice`). Generated code then computes the addresses of items from
the slice, as its axes allow (`lookup`).

* `validateAndInit`: the checks, and the slice;
* `Acquired`: a buffer is accepted, its format, too;
* `PyBuffer.address`: the address of an item, as the buffer protocol has it.
-/

namespace AHPy.MemoryView

/-! ## Buffers and axes -/

/-- A `Py_buffer`. The length is the number of bytes of the items. -/
structure PyBuffer where
  buf : ℤ
  len : ℕ
  itemsize : ℕ
  format : List Char
  ndim : ℕ
  shape : ℕ → ℕ
  strides : Option (ℕ → ℤ)
  suboffsets : Option (ℕ → ℤ)
  len_eq : len = itemsize * ∏ i ∈ Finset.range ndim, shape i

/-- Whether pointers are stored in a dimension. -/
inductive Access
  | direct
  | ptr
  | full
  deriving DecidableEq

/-- How items lie in a dimension. -/
inductive Packing
  | contig
  | strided
  | follow
  deriving DecidableEq

structure AxisSpec where
  access : Access
  packing : Packing
  deriving DecidableEq

/-- The texts of `ValueError`. -/
inductive BufferError
  | numberOfDimensions (expected got : ℕ)
  | format (e : Buffer.FormatError)
  | itemSize (size : ℕ)
  | notIndirectlyContiguous (dim : ℕ)
  | notContiguousInSameDimension
  | cContiguousNotContiguous (dim : ℕ)
  | cContiguousNotIndirect (dim : ℕ)
  | suboffsetsWithoutStrides
  | notDirect (dim : ℕ)
  | notIndirect (dim : ℕ)
  | notFortranContiguous
  | notCContiguous

/-! ## Checks -/

section

variable (pointerSize : ℕ) (buf : PyBuffer) (dim ndim : ℕ) (spec : AxisSpec)

/-- `__pyx_check_strides` -/
def checkStrides : Except BufferError Unit :=
  if buf.shape dim ≤ 1 then .ok ()
  else
    match buf.strides with
    | some strides =>
      if spec.packing = .contig ∧ (spec.access = .ptr ∨ spec.access = .full) ∧
          strides dim ≠ pointerSize then
        .error (.notIndirectlyContiguous dim)
      else if spec.packing = .contig ∧ ¬(spec.access = .ptr ∨ spec.access = .full) ∧
          strides dim ≠ buf.itemsize then
        .error .notContiguousInSameDimension
      else if spec.packing = .follow ∧ |strides dim| < buf.itemsize then
        .error .notContiguousInSameDimension
      else .ok ()
    | none =>
      if spec.packing = .contig ∧ dim + 1 ≠ ndim then .error (.cContiguousNotContiguous dim)
      else if spec.access = .ptr then .error (.cContiguousNotIndirect dim)
      else if buf.suboffsets.isSome then .error .suboffsetsWithoutStrides
      else .ok ()

/-- `__pyx_check_suboffsets` -/
def checkSuboffsets : Except BufferError Unit :=
  if spec.access = .direct ∧ buf.suboffsets.any fun suboffsets => suboffsets dim ≥ 0 then
    .error (.notDirect dim)
  else if spec.access = .ptr ∧ buf.suboffsets.all fun suboffsets => suboffsets dim < 0 then
    .error (.notIndirect dim)
  else .ok ()

/-- The checks of the axes, from a dimension on. -/
def checkAxes : ℕ → List AxisSpec → Except BufferError Unit
  | _, [] => .ok ()
  | i, spec :: axes =>
    (checkStrides pointerSize buf i ndim spec).bind fun _ =>
      (checkSuboffsets buf i spec).bind fun _ => checkAxes (i + 1) axes

/-- The loop of `__pyx_verify_contig`. -/
def verifyContigFrom (strides : ℕ → ℤ) (e : BufferError) : ℤ → List ℕ → Except BufferError Unit
  | _, [] => .ok ()
  | stride, i :: dims =>
    if stride * buf.itemsize ≠ strides i ∧ buf.shape i > 1 then .error e
    else verifyContigFrom strides e (stride * buf.shape i) dims

/-- `__pyx_verify_contig` -/
def verifyContig (strides : ℕ → ℤ) (order : Option Order) : Except BufferError Unit :=
  match order with
  | some .f => verifyContigFrom buf strides .notFortranContiguous 1 (dimsFrom .f ndim)
  | some .c => verifyContigFrom buf strides .notCContiguous 1 (dimsFrom .c ndim)
  | none => .ok ()

end

/-- The strides of a buffer that has none, from the last dimension on. -/
def PyBuffer.contiguousStrides (buf : PyBuffer) : ℕ → ℤ :=
  fillContigStrides buf.shape buf.itemsize (dimsFrom .c buf.ndim) fun _ => 0

/-- `__Pyx_init_memviewslice` -/
def initMemviewslice (buf : PyBuffer) : MemviewSlice where
  view := ⟨buf.ndim, buf.itemsize⟩
  data := buf.buf
  shape := buf.shape
  strides := buf.strides.getD buf.contiguousStrides
  suboffsets := buf.suboffsets.getD fun _ => -1

/-- `__Pyx_ValidateAndInit_memviewslice`. The format is checked for a new memoryview object only:
    `formatError` is the exception of that check, if it raises one. The item size is compared as an
    `unsigned int`. -/
def validateAndInit (pointerSize : ℕ) (axes : List AxisSpec) (order : Option Order) (size : ℕ)
    (formatError : Option BufferError) (buf : PyBuffer) : Except BufferError MemviewSlice :=
  if buf.ndim ≠ axes.length then .error (.numberOfDimensions axes.length buf.ndim)
  else
    match formatError with
    | some e => .error e
    | none =>
      if buf.itemsize % 2 ^ 32 ≠ size then .error (.itemSize size)
      else if buf.len > 0 then
        (checkAxes pointerSize buf axes.length 0 axes).bind fun _ =>
          (match buf.strides with
            | some strides => verifyContig buf axes.length strides order
            | none => .ok ()).bind fun _ => .ok (initMemviewslice buf)
      else .ok (initMemviewslice buf)

/-- A buffer is accepted, with its format if the memoryview object is new. -/
structure Acquired (a : Buffer.Abi) (dtype : Buffer.TypeInfo) (axes : List AxisSpec)
    (order : Option Order) (isNew : Bool) (buf : PyBuffer) (slice : MemviewSlice) : Prop where
  format : isNew = true → Ends (Buffer.checkStep a) (fun result => result = .accepted)
    (Buffer.checkStart dtype buf.format)
  slice : validateAndInit (a.sizeof .pointer) axes order dtype.size none buf = .ok slice

/-! ## Addresses -/

section

variable (memory : ℤ → ℤ)

/-- `__pyx_memviewslice_index_full` -/
def indexFull (bufp idx stride suboffset : ℤ) : ℤ :=
  let bufp := bufp + idx * stride
  if suboffset ≥ 0 then memory bufp + suboffset else bufp

/-- The expression for an index (`_generate_buffer_lookup_code`), by the flag of its axis
    (`get_memoryview_flag`). -/
def lookupDim (pointerSize size : ℕ) (axis : AxisSpec) (bufp idx stride suboffset : ℤ) : ℤ :=
  match axis.access, axis.packing with
  | .full, _ => indexFull memory bufp idx stride suboffset
  | .ptr, .contig => memory (bufp + idx * pointerSize) + suboffset
  | .ptr, _ => memory (bufp + idx * stride) + suboffset
  | .direct, .contig => bufp + idx * size
  | .direct, _ => bufp + idx * stride

/-- The expression for indices, from a dimension on. -/
def lookupFrom (pointerSize size : ℕ) (slice : MemviewSlice) (idx : ℕ → ℕ) :
    ℕ → List AxisSpec → ℤ → ℤ
  | _, [], bufp => bufp
  | dim, axis :: axes, bufp =>
    lookupFrom pointerSize size slice idx (dim + 1) axes
      (lookupDim memory pointerSize size axis bufp (idx dim) (slice.strides dim)
        (slice.suboffsets dim))

/-- The address that generated code computes. -/
def lookup (pointerSize size : ℕ) (axes : List AxisSpec) (slice : MemviewSlice) (idx : ℕ → ℕ) : ℤ :=
  lookupFrom memory pointerSize size slice idx 0 axes slice.data

/-- A step to the address of an item: strides are those of a C array if there are none, and pointers
    are followed where suboffsets are not negative. -/
def PyBuffer.addressDim (buf : PyBuffer) (dim i : ℕ) (pointer : ℤ) : ℤ :=
  let pointer := pointer + buf.strides.getD buf.contiguousStrides dim * i
  let suboffset := buf.suboffsets.getD (fun _ => -1) dim
  if suboffset ≥ 0 then memory pointer + suboffset else pointer

/-- The address of an item, from a dimension on. -/
def PyBuffer.addressFrom (buf : PyBuffer) (idx : ℕ → ℕ) : ℕ → ℕ → ℤ → ℤ
  | _, 0, pointer => pointer
  | dim, n + 1, pointer =>
    buf.addressFrom idx (dim + 1) n (buf.addressDim memory dim (idx dim) pointer)

/-- The address of an item. -/
def PyBuffer.address (buf : PyBuffer) (idx : ℕ → ℕ) : ℤ :=
  buf.addressFrom memory idx 0 buf.ndim buf.buf

end

end AHPy.MemoryView
