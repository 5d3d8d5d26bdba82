import Mathlib

/-!
# Memoryview slices

The slices of typed memoryviews, and the functions that look at them before their
contents are copied (`MemoryView.pyx` and `MemoryView_C.c`).

* `MemviewSlice`: the struct of a slice. Its arrays have room for more dimensions
  than the slice has; what is in the rest of them is left from earlier uses;
* `getBestOrder`, `sliceIsContig`, `slicesOverlap`: the order of the memory accesses,
  contiguity and overlap;
* `broadcastLeading`, `transposeMemslice`: changes of the arrays in place.
-/

namespace AHPy.MemoryView

/-- What is used of the buffer of a memoryview object. -/
structure View where
  ndim : Nat
  itemsize : Nat

/-- A slice. Extents are not negative; a negative value that is left in the rest of
    the array counts as 0, as it does in loops. `view` is the one of `memview`, which
    may have more or fewer dimensions than the slice. -/
structure MemviewSlice where
  view : View
  data : Int
  shape : Nat → Nat
  strides : Nat → Int
  suboffsets : Nat → Int

/-- The order of the elements in memory: `'C'` or `'F'`. -/
inductive Order where
  | c
  | f
deriving DecidableEq

inductive CopyError where
  | differingExtents (dim extent1 extent2 : Nat)
  | notDirect (dim : Nat)
  | cannotTranspose
  | noMemory

def CopyError.message : CopyError → String
  | .differingExtents dim extent1 extent2 =>
    s!"got differing extents in dimension {dim} (got {extent1} and {extent2})"
  | .notDirect dim => s!"Dimension {dim} is not direct"
  | .cannotTranspose => "Cannot transpose memoryview with indirect dimensions"
  | .noMemory => ""

variable (mslice slice1 slice2 : MemviewSlice) (ndim : Nat)

/-- The dimensions from the first to the last, or the other way. -/
def dimsFrom (order : Order) (ndim : Nat) : List Nat :=
  if order = .f then List.range ndim else (List.range ndim).reverse

/-- The stride of the first of some dimensions that has more than one element. -/
def strideOf (dims : List Nat) : Int :=
  (dims.find? fun i => mslice.shape i > 1).elim 0 mslice.strides

/-- Figure out the best memory access order for a given slice. -/
def getBestOrder : Order :=
  let cStride := strideOf mslice (dimsFrom .c ndim)
  let fStride := strideOf mslice (dimsFrom .f ndim)
  if |cStride| ≤ |fStride| then .c else .f

/-- The loop of `slice_is_contig`, with the size that the stride has to have. -/
def isContigFrom : Nat → List Nat → Bool
  | _, [] => true
  | itemsize, index :: dims =>
    if mslice.suboffsets index ≥ 0 ∨ mslice.strides index ≠ itemsize then false
    else isContigFrom (itemsize * mslice.shape index) dims

def sliceIsContig (order : Order) : Bool :=
  isContigFrom mslice mslice.view.itemsize (dimsFrom order ndim)

/-- The size of the memory occupied by the slice in number of bytes. -/
def sliceGetSize : Nat :=
  (List.range ndim).foldl (fun size i => size * mslice.shape i) mslice.view.itemsize

/-- The loop of `get_array_memory_extents`. -/
def memoryExtentsFrom (itemsize : Nat) : List Nat → Int → Int → Int × Int
  | [], start, stop => (start, stop + itemsize)
  | i :: dims, start, stop =>
    if mslice.shape i = 0 then (start, start)
    else if mslice.strides i > 0 then
      memoryExtentsFrom itemsize dims start (stop + mslice.strides i * (mslice.shape i - 1))
    else memoryExtentsFrom itemsize dims (start + mslice.strides i * (mslice.shape i - 1)) stop

/-- A half-open range which contains the array data. -/
def getArrayMemoryExtents (itemsize : Nat) : Int × Int :=
  memoryExtentsFrom mslice itemsize (List.range ndim) mslice.data mslice.data

/-- Whether the arrays have overlapping data. -/
def slicesOverlap (itemsize : Nat) : Bool :=
  let range1 := getArrayMemoryExtents slice1 ndim itemsize
  let range2 := getArrayMemoryExtents slice2 ndim itemsize
  range1.1 < range2.2 ∧ range2.1 < range1.2

/-- The loop of `fill_contig_strides_array`. -/
def fillContigStrides (shape : Nat → Nat) : Int → List Nat → (Nat → Int) → Nat → Int
  | _, [], strides => strides
  | stride, idx :: dims, strides =>
    fillContigStrides shape (stride * shape idx) dims (Function.update strides idx stride)

/-- An array after the entries from the last to the first of `ndim` are moved behind by
    `offset`. -/
def shiftEntries {β : Type} (ndim offset : Nat) (array : Nat → β) : Nat → β :=
  (List.range ndim).reverse.foldl (fun array i => Function.update array (i + offset) (array i))
    array

/-- An array after its first entries are set, in order. -/
def setEntries {β : Type} (n : Nat) (value : (Nat → β) → β) (array : Nat → β) : Nat → β :=
  (List.range n).foldl (fun array i => Function.update array i (value array)) array

/-- Leading dimensions are added to a slice. -/
def broadcastLeading (ndimOther : Nat) : MemviewSlice :=
  let offset := ndimOther - ndim
  { mslice with
    shape := setEntries offset (fun _ => 1) (shiftEntries ndim offset mslice.shape)
    strides := setEntries offset (fun strides => strides 0)
      (shiftEntries ndim offset mslice.strides)
    suboffsets := setEntries offset (fun _ => -1) (shiftEntries ndim offset mslice.suboffsets) }

/-- Two entries of an array are swapped. -/
def swapEntries {β : Type} (i j : Nat) (array : Nat → β) : Nat → β :=
  Function.update (Function.update array i (array j)) j (array i)

/-- Reverse strides and shape. The number of dimensions is the one of the memoryview. -/
def transposeMemslice : Except CopyError MemviewSlice :=
  let ndim := mslice.view.ndim
  (List.range (ndim / 2)).foldlM (fun memslice i =>
    let j := ndim - 1 - i
    let memslice := { memslice with
      strides := swapEntries i j memslice.strides
      shape := swapEntries i j memslice.shape }
    if memslice.suboffsets i ≥ 0 ∨ memslice.suboffsets j ≥ 0 then .error .cannotTranspose
    else .ok memslice) mslice

/-!
## Copying the contents of slices

`memoryview_copy_contents` of `MemoryView.pyx`, over a memory of bytes. A slice does
not say where its data is: the slices that are passed in are in the heap, and one that
is copied to temporary memory is in a block of its own (`Space`).

Reference counts of objects are not part of the model.

* `copyStrided`: the recursive copy;
* `memoryviewCopyContents`: the copy with its checks, its temporary copy and its
  shortcuts;
* `CopiesContents`: what it is for.
-/

/-- The block of `malloc`, and all other memory. -/
inductive Space where
  | heap
  | temp
deriving DecidableEq

structure Pointer where
  space : Space
  addr : Int

def Pointer.add (p : Pointer) (n : Int) : Pointer := { p with addr := p.addr + n }

abbrev Memory := Pointer → UInt8

/-! ## Copying -/

/-- `memcpy`, which is undefined if the ranges overlap. -/
def memcpy (dst src : Pointer) (n : Nat) (m : Memory) : Option Memory :=
  if dst.space = src.space ∧ src.addr < dst.addr + n ∧ dst.addr < src.addr + n then none
  else some fun p =>
    if p.space = dst.space ∧ dst.addr ≤ p.addr ∧ p.addr < dst.addr + n then
      m (src.add (p.addr - dst.addr))
    else m p

/-- A loop over the extent of a dimension, that goes on by the strides. -/
def strideLoop (body : Pointer → Pointer → Memory → Option Memory) (srcStride dstStride : Int) :
    Nat → Pointer → Pointer → Memory → Option Memory
  | 0, _, _, m => some m
  | n + 1, srcData, dstData, m =>
    (body srcData dstData m).bind
      (strideLoop body srcStride dstStride n (srcData.add srcStride) (dstData.add dstStride))

/-- `_copy_strided_to_strided`. The shape of the source is not used, and there is
    nothing without dimensions. -/
def copyStrided (itemsize : Nat) (srcStrides dstStrides : Nat → Int) (dstShape : Nat → Nat) :
    Nat → Pointer → Pointer → Memory → Option Memory
  | 0, _, _, _ => none
  | 1, srcData, dstData, m =>
    if srcStrides 0 > 0 ∧ dstStrides 0 > 0 ∧ srcStrides 0 = itemsize ∧ dstStrides 0 = itemsize then
      memcpy dstData srcData (itemsize * dstShape 0) m
    else
      strideLoop (fun srcData dstData => memcpy dstData srcData itemsize)
        (srcStrides 0) (dstStrides 0) (dstShape 0) srcData dstData m
  | ndim + 2, srcData, dstData, m =>
    strideLoop
      (copyStrided itemsize (fun i => srcStrides (i + 1)) (fun i => dstStrides (i + 1))
        (fun i => dstShape (i + 1)) (ndim + 1))
      (srcStrides 0) (dstStrides 0) (dstShape 0) srcData dstData m

def copyStridedToStrided (srcSpace : Space) (src : MemviewSlice) (dstSpace : Space)
    (dst : MemviewSlice) (ndim itemsize : Nat) (m : Memory) : Option Memory :=
  copyStrided itemsize src.strides dst.strides dst.shape ndim
    ⟨srcSpace, src.data⟩ ⟨dstSpace, dst.data⟩ m

/-- The slice of the temporary memory at `data`. What is not set is as it was in
    `tmpslice`. -/
def tempSlice (src tmpslice : MemviewSlice) (data : Int) (order : Order) (ndim : Nat) :
    MemviewSlice :=
  let shape := fun i => if i < ndim then src.shape i else tmpslice.shape i
  let strides :=
    fillContigStrides shape src.view.itemsize (dimsFrom order ndim) tmpslice.strides
  { view := src.view
    data := data
    shape := shape
    -- We need to broadcast strides again
    strides := fun i => if i < ndim ∧ shape i = 1 then 0 else strides i
    suboffsets := fun i => if i < ndim then -1 else tmpslice.suboffsets i }

/-- Copy a direct slice to the temporary contiguous memory of a slice. -/
def copyToTemp (src tmp : MemviewSlice) (order : Order) (ndim : Nat) (m : Memory) :
    Option Memory :=
  if sliceIsContig src ndim order then
    memcpy ⟨.temp, tmp.data⟩ ⟨.heap, src.data⟩ (sliceGetSize src ndim) m
  else copyStridedToStrided .heap src .temp tmp ndim src.view.itemsize m

/-! ## `memoryview_copy_contents` -/

/-- A round of the loop that verifies the shapes, with the source and whether it is
    broadcast. -/
def checkDim (dst : MemviewSlice) (state : MemviewSlice × Bool) (i : Nat) :
    Except CopyError (MemviewSlice × Bool) := do
  let src := state.1
  let state ←
    if src.shape i ≠ dst.shape i then
      if src.shape i = 1 then
        pure ({ src with strides := Function.update src.strides i 0 }, true)
      else throw (.differingExtents i (dst.shape i) (src.shape i))
    else pure state
  if state.1.suboffsets i ≥ 0 then throw (.notDirect i)
  return state

/-- The slices with the same number of dimensions. -/
def broadcastBoth (src dst : MemviewSlice) (srcNdim dstNdim : Nat) : MemviewSlice × MemviewSlice :=
  if srcNdim < dstNdim then (broadcastLeading src srcNdim dstNdim, dst)
  else if dstNdim < srcNdim then (src, broadcastLeading dst dstNdim srcNdim)
  else (src, dst)

/-- See if both slices have equal contiguity. -/
def directCopy (src dst : MemviewSlice) (ndim : Nat) : Bool :=
  if sliceIsContig src ndim .c then sliceIsContig dst ndim .c
  else if sliceIsContig src ndim .f then sliceIsContig dst ndim .f
  else false

/-- How the function ends: it returns, it raises an error, or its behaviour is
    undefined. -/
inductive Outcome where
  | returned (m : Memory)
  | raised (error : CopyError) (m : Memory)
  | undefined

/-- A byte of the heap after the function has returned. -/
def Outcome.byteAt : Outcome → Int → Option UInt8
  | .returned m, addr => some (m ⟨.heap, addr⟩)
  | _, _ => none

/-- What is done with the memory after a copy. -/
def Outcome.ofCopy : Option Memory → Outcome
  | some m => .returned m
  | none => .undefined

/-- The copy of slices that do not overlap, or of a temporary copy. -/
def copyDisjoint (srcSpace : Space) (src dst : MemviewSlice) (ndim itemsize : Nat) (order : Order)
    (broadcasting : Bool) (m : Memory) : Outcome :=
  if ¬broadcasting ∧ directCopy src dst ndim then
    -- Contiguous slices with same order
    .ofCopy (memcpy ⟨.heap, dst.data⟩ ⟨srcSpace, src.data⟩ (sliceGetSize src ndim) m)
  else if order = .f ∧ getBestOrder dst ndim = .f then
    -- see if both slices have Fortran order, transpose them to match our
    -- C-style indexing order
    match transposeMemslice src with
    | .error e => .raised e m
    | .ok src =>
      match transposeMemslice dst with
      | .error e => .raised e m
      | .ok dst => .ofCopy (copyStridedToStrided srcSpace src .heap dst ndim itemsize m)
  else .ofCopy (copyStridedToStrided srcSpace src .heap dst ndim itemsize m)

/-- The order of the accesses, when the source is copied to temporary memory. -/
def tempOrder (src dst : MemviewSlice) (order : Order) (ndim : Nat) : Order :=
  if sliceIsContig src ndim order then order else getBestOrder dst ndim

/-- The copy after the shapes are verified. `malloc` is the address of a new block of a
    size, if there is memory, and `tmp` what is in the local variable before it is set. -/
def copyVerified (malloc : Nat → Option Int) (tmp src dst : MemviewSlice) (ndim : Nat)
    (order : Order) (broadcasting : Bool) (m : Memory) : Outcome :=
  let itemsize := src.view.itemsize
  if slicesOverlap src dst ndim itemsize then
    -- slices overlap, copy to temp, copy temp to dst
    let order := tempOrder src dst order ndim
    match malloc (sliceGetSize src ndim) with
    | none => .raised .noMemory m
    | some data =>
      let tmp := tempSlice src tmp data order ndim
      match copyToTemp src tmp order ndim m with
      | none => .undefined
      | some m => copyDisjoint .temp tmp dst ndim itemsize order broadcasting m
  else copyDisjoint .heap src dst ndim itemsize order broadcasting m

/-- Copy memory from slice src to slice dst. Check for overlapping memory and verify
    the shapes. -/
def memoryviewCopyContents (malloc : Nat → Option Int) (tmp src dst : MemviewSlice)
    (srcNdim dstNdim : Nat) (m : Memory) : Outcome :=
  let order := getBestOrder src srcNdim
  let slices := broadcastBoth src dst srcNdim dstNdim
  let ndim := max srcNdim dstNdim
  match (List.range ndim).foldlM (checkDim slices.2) (slices.1, false) with
  | .error e => .raised e m
  | .ok (src, broadcasting) => copyVerified malloc tmp src slices.2 ndim order broadcasting m

/-! ## What it is for -/

/-- The indices of the elements. -/
def InShape (shape : Nat → Nat) (ndim : Nat) (idx : Nat → Nat) : Prop := ∀ i < ndim, idx i < shape i

/-- The address of an element. -/
def element (slice : MemviewSlice) (ndim : Nat) (idx : Nat → Nat) : Int :=
  slice.data + ∑ i ∈ Finset.range ndim, idx i * slice.strides i

/-- The index in the source for one in the destination: the last dimensions belong
    together, and a dimension of the source with one element is broadcast. -/
def broadcastIndex (src : MemviewSlice) (srcNdim dstNdim : Nat) (idx : Nat → Nat) : Nat → Nat :=
  fun i => if src.shape i = 1 then 0 else idx (i + dstNdim - srcNdim)

/-- The bytes of an element in memory. -/
def bytesAt (m : Memory) (addr : Int) (itemsize : Nat) : List UInt8 :=
  (List.range itemsize).map fun b : Nat => m ⟨.heap, addr + b⟩

/-- The destination holds what the source did, and nothing else is changed. -/
structure Copied (src dst : MemviewSlice) (srcNdim dstNdim : Nat) (m m' : Memory) : Prop where
  elements : ∀ idx, InShape dst.shape dstNdim idx →
    bytesAt m' (element dst dstNdim idx) dst.view.itemsize =
      bytesAt m (element src srcNdim (broadcastIndex src srcNdim dstNdim idx)) src.view.itemsize
  frame : ∀ addr, (∀ idx, InShape dst.shape dstNdim idx → ∀ b < dst.view.itemsize,
    addr ≠ element dst dstNdim idx + b) → m' ⟨.heap, addr⟩ = m ⟨.heap, addr⟩

/-- The behaviour is defined; the contents are copied if the function returns, and the
    memory is unchanged if it raises an error. -/
structure Correct (src dst : MemviewSlice) (srcNdim dstNdim : Nat) (m : Memory)
    (outcome : Outcome) : Prop where
  defined : outcome ≠ .undefined
  returned : ∀ m', outcome = .returned m' → Copied src dst srcNdim dstNdim m m'
  raised : ∀ e m', outcome = .raised e m' → ∀ addr, m' ⟨.heap, addr⟩ = m ⟨.heap, addr⟩

/-- The function is correct for two slices, whatever is in memory, whether or not there
    is more of it. -/
def CopiesContents (src dst : MemviewSlice) (srcNdim dstNdim : Nat) : Prop :=
  ∀ malloc tmp m, Correct src dst srcNdim dstNdim m
    (memoryviewCopyContents malloc tmp src dst srcNdim dstNdim m)

end AHPy.MemoryView
