import AHPy.MemoryView.Dimensions
import AHPy.MemoryView.SliceAddresses

/-!
# Transposed slices

The function `transpose_memslice` and the attribute `T` (`MemoryView.pyx`), for slices that come
from indexing, slicing and new axes. A slice does not know how many dimensions it has: the function
takes the number of the memoryview object that the slice belongs to.

* `transposeInPlace`: the slice while it is changed, also where an exception is raised;
* `Obtained`: the slices of a memoryview object;
* `transposes_iff`: when the slice's own dimensions are reversed, or left as they are.
-/

namespace AHPy.MemoryView

open ModuleWriter (SsizeType)

variable {t : SsizeType}

/-! ## The loop -/

/-- The entries of two dimensions are swapped. -/
def swapDims (slice : MemviewSlice) (i j : Nat) : MemviewSlice :=
  { slice with
    strides := swapEntries i j slice.strides
    shape := swapEntries i j slice.shape }

/-- The loop of `transpose_memslice`, and what is raised. -/
def transposeFrom (ndim : Nat) : List Nat → MemviewSlice → MemviewSlice × Except CopyError Unit
  | [], slice => (slice, .ok ())
  | i :: dims, slice =>
    let j := ndim - 1 - i
    let slice := swapDims slice i j
    if slice.suboffsets i ≥ 0 ∨ slice.suboffsets j ≥ 0 then (slice, .error .cannotTranspose)
    else transposeFrom ndim dims slice

/-- `transpose_memslice` -/
def transposeInPlace (slice : MemviewSlice) : MemviewSlice × Except CopyError Unit :=
  transposeFrom slice.view.ndim (List.range (slice.view.ndim / 2)) slice

/-- A slice after it was transposed, and what this resulted in. -/
structure Transposition where
  after : MemviewSlice
  result : Except CopyError MemviewSlice

/-- A slice that is transposed itself. -/
def transposed (slice : MemviewSlice) : Transposition where
  after := (transposeInPlace slice).1
  result := (transposeInPlace slice).2.map fun _ => (transposeInPlace slice).1

/-- The slice of a new memoryview object that has its dimensions (`memoryview_copy`). -/
def ofObject (ndim : Nat) (slice : MemviewSlice) : MemviewSlice :=
  { slice with view := { slice.view with ndim := ndim } }

/-- `T`: the slice of a copy is transposed. -/
def attributeT (ndim : Nat) (slice : MemviewSlice) : Transposition where
  after := slice
  result := (transposed (ofObject ndim slice)).result

/-! ## Slices of memoryviews -/

/-- What the next dimension of a new slice is: a new axis, or one that is indexed. -/
inductive Axis (t : SsizeType) where
  | newaxis
  | indexed (d : Dimension t) (index : Index t)

/-- The dimension that is indexed. -/
def Axis.dimension : Axis t → Option (Dimension t)
  | newaxis => none
  | indexed d _ => some d

/-- A dimension of one element. -/
def Slicing.newaxis (s : Slicing) : Slicing := (s.setDimension 1 0 (-1)).nextDimension (-1)

/-- The axes from the dimension `dim` of the source on. -/
def sliceAxes (memory : ℤ → ℤ) :
    List (Axis t) → (dim : Nat) → Slicing → Except SliceError Slicing
  | [], _, s => .ok s
  | .newaxis :: axes, dim, s => sliceAxes memory axes dim s.newaxis
  | .indexed d index :: axes, dim, s => do
    let s ← sliceMemviewslice memory s d dim index
    sliceAxes memory axes (dim + 1) s

/-- The dimensions are the ones of a slice, in order. -/
def IndexesAll (slice : MemviewSlice) (ndim : Nat) (axes : List (Axis t)) : Prop :=
  (axes.filterMap Axis.dimension).length = ndim ∧
    ∀ (dim : Nat) (d : Dimension t), (axes.filterMap Axis.dimension)[dim]? = some d →
      (d.shape : ℤ) = slice.shape dim ∧ (d.stride : ℤ) = slice.strides dim ∧
        (d.suboffset : ℤ) = slice.suboffsets dim

/-- The slices of a memoryview object, with the numbers of their dimensions: the whole object, what
    is indexed and sliced from a slice, and new objects. -/
inductive Obtained (t : SsizeType) (memory : ℤ → ℤ) : View → Nat → MemviewSlice → Prop
  | buffer (slice : MemviewSlice) : Obtained t memory slice.view slice.view.ndim slice
  | sliced {view : View} {ndim : Nat} {slice : MemviewSlice} {axes : List (Axis t)} {s : Slicing} :
    Obtained t memory view ndim slice → IndexesAll slice ndim axes →
      sliceAxes memory axes 0 ⟨⟨slice.view, slice.data, fun _ => 0, fun _ => 0, fun _ => 0⟩, 0,
        none, fun _ h => nomatch h⟩ = .ok s →
      Obtained t memory view s.newNdim s.dst
  | object {view : View} {ndim : Nat} {slice : MemviewSlice} :
    Obtained t memory view ndim slice →
      Obtained t memory { slice.view with ndim := ndim } ndim (ofObject ndim slice)

/-! ## What transposition is for -/

/-- The dimensions are direct. -/
def DirectSlice (ndim : Nat) (slice : MemviewSlice) : Prop := ∀ i < ndim, slice.suboffsets i < 0

/-- The entries of the dimensions are the same. -/
def SameDims (ndim : Nat) (slice slice' : MemviewSlice) : Prop :=
  ∀ i < ndim, slice'.shape i = slice.shape i ∧ slice'.strides i = slice.strides i

/-- The dimensions are the ones of another slice, from the last to the first. -/
structure Reversed (ndim : Nat) (slice slice' : MemviewSlice) : Prop where
  dims : ∀ i < ndim, slice'.shape i = slice.shape (ndim - 1 - i) ∧
    slice'.strides i = slice.strides (ndim - 1 - i)
  address : ∀ idx, InShape slice'.shape ndim idx →
    element slice' ndim idx = element slice ndim fun i => idx (ndim - 1 - i)
  inverse : ∃ slice'', (transposed slice').result = .ok slice'' ∧ SameDims ndim slice slice''

/-- A slice that is direct is reversed; for others an exception is raised, and they are
    unchanged. -/
structure TransposesOwn (ndim : Nat) (slice : MemviewSlice) (o : Transposition) : Prop where
  direct : DirectSlice ndim slice → ∃ slice', o.result = .ok slice' ∧ Reversed ndim slice slice'
  indirect : ¬DirectSlice ndim slice →
    o.result = .error .cannotTranspose ∧ SameDims ndim slice o.after

/-- Two dimensions, one of them indirect, that are swapped. -/
def IndirectPair (viewNdim : Nat) (slice : MemviewSlice) (i : Nat) : Prop :=
  slice.suboffsets i ≥ 0 ∨ slice.suboffsets (viewNdim - 1 - i) ≥ 0

/-- The condition for a slice: the dimensions of the memoryview object stand for its own. -/
structure Reversible (viewNdim ndim : Nat) (slice : MemviewSlice) : Prop where
  direct : DirectSlice ndim slice → (∀ i < viewNdim / 2, ¬IndirectPair viewNdim slice i) ∧
    ∀ i < ndim, slice.shape (reverseDims viewNdim i) = slice.shape (ndim - 1 - i) ∧
      slice.strides (reverseDims viewNdim i) = slice.strides (ndim - 1 - i)
  indirect : ¬DirectSlice ndim slice → ∃ k < viewNdim / 2, IndirectPair viewNdim slice k ∧
    ∀ i < ndim, i ≤ k ∨ viewNdim - 1 - k ≤ i ∧ i < viewNdim →
      slice.shape (viewNdim - 1 - i) = slice.shape i ∧
        slice.strides (viewNdim - 1 - i) = slice.strides i

/-! ## The loop, up to an indirect dimension -/

section

variable {slice slice' : MemviewSlice} {n ndim k : Nat}

/-- The slice after the first iterations. -/
def swappedSlice (n k : Nat) (slice : MemviewSlice) : MemviewSlice :=
  { slice with
    shape := fun i => slice.shape (swappedDims n k i)
    strides := fun i => slice.strides (swappedDims n k i) }

theorem transposeFrom_append {dims dims' : List Nat}
    (h : transposeFrom n dims slice = (slice', .ok ())) :
    transposeFrom n (dims ++ dims') slice = transposeFrom n dims' slice' := by
  induction dims generalizing slice with
  | nil =>
    obtain ⟨rfl, -⟩ := Prod.mk.inj h
    rfl
  | cons i dims ih =>
    rw [transposeFrom] at h
    rw [List.cons_append, transposeFrom]
    by_cases hpair : (swapDims slice i (n - 1 - i)).suboffsets i ≥ 0 ∨
        (swapDims slice i (n - 1 - i)).suboffsets (n - 1 - i) ≥ 0
    · simp only [if_pos hpair] at h
      exact nomatch (Prod.mk.inj h).2
    · simp only [if_neg hpair] at h ⊢
      exact ih h

/-- Pairs without indirect dimensions are swapped. -/
theorem transposeFrom_range (hk : k ≤ n / 2) (h : ∀ i < k, ¬IndirectPair n slice i) :
    transposeFrom n (List.range k) slice = (swappedSlice n k slice, .ok ()) := by
  induction k with
  | zero =>
    have hsame (i : Nat) : swappedDims n 0 i = i := if_neg (by omega)
    simp only [swappedSlice, hsame]
    rfl
  | succ k ih =>
    rw [List.range_succ, transposeFrom_append (ih (by omega) fun i hi => h i (by omega)),
      transposeFrom]
    have hpair : ¬((swapDims (swappedSlice n k slice) k (n - 1 - k)).suboffsets k ≥ 0 ∨
        (swapDims (swappedSlice n k slice) k (n - 1 - k)).suboffsets (n - 1 - k) ≥ 0) :=
      h k (Nat.lt_succ_self k)
    simp only [if_neg hpair]
    rw [transposeFrom, swapDims]
    simp only [swappedSlice, swapEntries_swappedDims _ (show k < n / 2 by omega)]

theorem swappedDims_half (n i : Nat) : swappedDims n (n / 2) i = reverseDims n i := by
  rw [swappedDims, reverseDims]
  split <;> split <;> omega

/-- The slice after all iterations. -/
def reversedSlice (n : Nat) (slice : MemviewSlice) : MemviewSlice :=
  { slice with
    shape := fun i => slice.shape (reverseDims n i)
    strides := fun i => slice.strides (reverseDims n i) }

theorem reversedSlice_reversedSlice (n : Nat) (slice : MemviewSlice) :
    reversedSlice n (reversedSlice n slice) = slice := by
  simp only [reversedSlice, reverseDims_reverseDims]

theorem transposeInPlace_of_direct (hn : slice.view.ndim = n)
    (h : ∀ i < n / 2, ¬IndirectPair n slice i) :
    transposeInPlace slice = (reversedSlice n slice, .ok ()) := by
  rw [transposeInPlace, hn, transposeFrom_range le_rfl h]
  simp only [swappedSlice, swappedDims_half, reversedSlice]

/-- The first pair with an indirect dimension is swapped, and raises the exception. -/
theorem transposeInPlace_of_indirect (hn : slice.view.ndim = n) (hk : k < n / 2)
    (hpair : IndirectPair n slice k) (h : ∀ i < k, ¬IndirectPair n slice i) :
    transposeInPlace slice = (swappedSlice n (k + 1) slice, .error .cannotTranspose) := by
  obtain ⟨rest, hrest⟩ : ∃ rest, List.range (n / 2) = List.range k ++ k :: rest := by
    obtain ⟨m, hm⟩ := Nat.exists_eq_add_of_lt hk
    refine ⟨((List.range m).map Nat.succ).map (k + ·), ?_⟩
    rw [hm, Nat.add_assoc, List.range_add, List.range_succ_eq_map]
    rfl
  rw [transposeInPlace, hn, hrest, transposeFrom_append (transposeFrom_range hk.le h),
    transposeFrom]
  have hpair' : (swapDims (swappedSlice n k slice) k (n - 1 - k)).suboffsets k ≥ 0 ∨
      (swapDims (swappedSlice n k slice) k (n - 1 - k)).suboffsets (n - 1 - k) ≥ 0 := hpair
  simp only [if_pos hpair']
  rw [swapDims]
  simp only [swappedSlice, swapEntries_swappedDims _ hk]

/-! ## The slices that are reversed -/

theorem transposed_of_direct (hn : slice.view.ndim = n)
    (hpairs : ∀ i < n / 2, ¬IndirectPair n slice i) :
    (transposed slice).result = .ok (reversedSlice n slice) := by
  rw [transposed, transposeInPlace_of_direct hn hpairs]
  rfl

theorem reversed_reversedSlice (hn : slice.view.ndim = n)
    (hpairs : ∀ i < n / 2, ¬IndirectPair n slice i)
    (hdims : ∀ i < ndim, slice.shape (reverseDims n i) = slice.shape (ndim - 1 - i) ∧
      slice.strides (reverseDims n i) = slice.strides (ndim - 1 - i)) :
    Reversed ndim slice (reversedSlice n slice) where
  dims := hdims
  address idx _ := by
    rw [element, element]
    congr 1
    rw [← Finset.sum_range_reflect]
    refine Finset.sum_congr rfl fun i hi => ?_
    have hi := Finset.mem_range.1 hi
    have hstride : (reversedSlice n slice).strides (ndim - 1 - i) = slice.strides i := by
      refine (hdims (ndim - 1 - i) (by omega)).2.trans ?_
      congr 1
      omega
    rw [hstride]
  inverse := by
    have hn' : (reversedSlice n slice).view.ndim = n := hn
    exact ⟨_, transposed_of_direct hn' hpairs, fun i _ => by
      rw [reversedSlice_reversedSlice]
      exact ⟨rfl, rfl⟩⟩

/-- There is a first pair with an indirect dimension, or none. -/
theorem exists_first_pair (n : Nat) (slice : MemviewSlice) :
    (∀ i < n / 2, ¬IndirectPair n slice i) ∨
      ∃ k < n / 2, IndirectPair n slice k ∧ ∀ i < k, ¬IndirectPair n slice i := by
  by_cases h : ∃ k, k < n / 2 ∧ IndirectPair n slice k
  · classical
    refine Or.inr ⟨Nat.find h, (Nat.find_spec h).1, (Nat.find_spec h).2, fun i hi hpair => ?_⟩
    exact Nat.find_min h hi ⟨by have := (Nat.find_spec h).1; omega, hpair⟩
  · exact Or.inl fun i hi hpair => h ⟨i, hi, hpair⟩

theorem sameDims_swappedSlice :
    SameDims ndim slice (swappedSlice n (k + 1) slice) ↔
      ∀ i < ndim, i ≤ k ∨ n - 1 - k ≤ i ∧ i < n →
        slice.shape (n - 1 - i) = slice.shape i ∧
          slice.strides (n - 1 - i) = slice.strides i := by
  refine forall₂_congr fun i _ => ?_
  show slice.shape (swappedDims n (k + 1) i) = _ ∧ slice.strides (swappedDims n (k + 1) i) = _ ↔ _
  rw [swappedDims]
  have hiff : (i < k + 1 ∨ n - (k + 1) ≤ i ∧ i < n) ↔ (i ≤ k ∨ n - 1 - k ≤ i ∧ i < n) := by omega
  by_cases h : i ≤ k ∨ n - 1 - k ≤ i ∧ i < n
  · rw [if_pos (hiff.2 h)]
    exact ⟨fun h' _ => h', fun h' => h' h⟩
  · rw [if_neg (mt hiff.1 h)]
    exact iff_of_true ⟨rfl, rfl⟩ fun h' => absurd h' h

theorem transposes_transposed_iff (hn : slice.view.ndim = n) :
    TransposesOwn ndim slice (transposed slice) ↔ Reversible n ndim slice := by
  rcases exists_first_pair n slice with hpairs | ⟨k, hk, hpair, hfirst⟩
  · have hresult := transposed_of_direct hn hpairs
    constructor
    · rintro ⟨hdirect, hindirect⟩
      refine ⟨fun h => ⟨hpairs, ?_⟩, fun h => ?_⟩
      · obtain ⟨slice', hslice', hreversed⟩ := hdirect h
        obtain rfl := Except.ok.inj (hresult.symm.trans hslice')
        exact hreversed.dims
      · exact nomatch hresult.symm.trans (hindirect h).1
    · rintro ⟨hdirect, hindirect⟩
      refine ⟨fun h => ⟨_, hresult, reversed_reversedSlice hn hpairs (hdirect h).2⟩, fun h => ?_⟩
      obtain ⟨k, hk, hpair, -⟩ := hindirect h
      exact absurd hpair (hpairs k hk)
  · have hresult := transposeInPlace_of_indirect hn hk hpair hfirst
    have herror : (transposed slice).result = .error .cannotTranspose := by
      rw [transposed, hresult]
      rfl
    have hafter : (transposed slice).after = swappedSlice n (k + 1) slice := by
      rw [transposed, hresult]
    constructor
    · rintro ⟨hdirect, hindirect⟩
      refine ⟨fun h => ?_, fun h => ⟨k, hk, hpair, ?_⟩⟩
      · obtain ⟨slice', hslice', -⟩ := hdirect h
        exact nomatch herror.symm.trans hslice'
      · rw [← sameDims_swappedSlice, ← hafter]
        exact (hindirect h).2
    · rintro ⟨hdirect, hindirect⟩
      refine ⟨fun h => absurd hpair ((hdirect h).1 k hk), fun h => ⟨herror, ?_⟩⟩
      obtain ⟨k', hk', hpair', hsame⟩ := hindirect h
      rw [hafter, sameDims_swappedSlice]
      -- The pairs up to the first indirect one are among those up to another.
      have hle : k ≤ k' := not_lt.1 fun hlt => hfirst k' hlt hpair'
      exact fun i hi hik => hsame i hi (by omega)

end

/-! ## The slices of a memoryview -/

section

variable {memory : ℤ → ℤ} {view : View} {ndim : Nat} {slice : MemviewSlice}

theorem Slicing.view_moved (s : Slicing) (offset : ℤ) : (s.moved offset).dst.view = s.dst.view := by
  show (s.dst.setBase s.suboffsetDim _).view = _
  rcases s.suboffsetDim with - | dim <;> rfl

theorem view_followPointer {s s' : Slicing} {suboffset : ℤ} {dim : Nat}
    (h : followPointer memory s suboffset dim = .ok s') : s'.dst.view = s.dst.view := by
  rw [followPointer] at h
  split_ifs at h with hsub hndim
  · exact Except.ok.inj h ▸ rfl
  · exact Except.ok.inj h ▸ rfl

/-- The new slice belongs to the same memoryview object. -/
theorem view_sliceMemviewslice {s s' : Slicing} {d : Dimension t} {dim : Nat} {index : Index t}
    (h : sliceMemviewslice memory s d dim index = .ok s') : s'.dst.view = s.dst.view := by
  cases index with
  | integer i =>
    rw [sliceMemviewslice_integer] at h
    split_ifs at h
    by_cases hfits : s.FitsOffset t (wrapIndex d.shape i) d.stride
    · rw [Slicing.addOffset_of_fits hfits] at h
      rw [view_followPointer h, Slicing.view_moved]
    · rw [Slicing.addOffset_of_not_fits hfits] at h
      exact nomatch h
  | slice slice =>
    by_cases hstep : slice.stepValue = 0
    · exact nomatch (sliceMemviewslice_zeroStep hstep).symm.trans h
    · by_cases hfits : FitsSlice s d slice
      · obtain rfl := Except.ok.inj ((sliceMemviewslice_slice_of_fits hstep hfits).symm.trans h)
        exact Slicing.view_moved _ _
      · exact nomatch (sliceMemviewslice_slice_of_not_fits hstep hfits).symm.trans h

theorem view_sliceAxes {axes : List (Axis t)} {dim : Nat} {s s' : Slicing}
    (h : sliceAxes memory axes dim s = .ok s') : s'.dst.view = s.dst.view := by
  induction axes generalizing dim s with
  | nil => exact Except.ok.inj h ▸ rfl
  | cons axis axes ih =>
    cases axis with
    | newaxis =>
      have hview := ih (s := s.newaxis) h
      exact hview
    | indexed d index =>
      rw [sliceAxes] at h
      cases hs : sliceMemviewslice memory s d dim index with
      | error e =>
        rw [hs] at h
        exact nomatch h
      | ok s₁ =>
        rw [hs] at h
        exact (ih h).trans (view_sliceMemviewslice hs)

/-- By induction on the history: the memoryview object of a slice is the last one. -/
theorem Obtained.view_eq (h : Obtained t memory view ndim slice) : slice.view = view := by
  induction h with
  | buffer slice => rfl
  | sliced _ _ hslice ih => exact (view_sliceAxes hslice).trans ih
  | object _ _ => rfl

/-- The slice of a new object has the object's dimensions. All of its direct slices are reversed,
    but it is only between two dimensions that an indirect one is seen. -/
theorem transposes_attributeT_iff : TransposesOwn ndim slice (attributeT ndim slice) ↔
    (DirectSlice ndim slice ∨ ∃ i < ndim, 2 * i + 1 ≠ ndim ∧ slice.suboffsets i ≥ 0) := by
  have hn : (ofObject ndim slice).view.ndim = ndim := rfl
  have hreverse (i : Nat) (hi : i < ndim) : reverseDims ndim i = ndim - 1 - i := if_pos hi
  rcases exists_first_pair ndim (ofObject ndim slice) with hpairs | ⟨k, hk, hpair, hfirst⟩
  · have hresult : (attributeT ndim slice).result = _ := transposed_of_direct hn hpairs
    constructor
    · rintro ⟨-, hindirect⟩
      by_contra hnot
      exact nomatch hresult.symm.trans (hindirect (not_or.1 hnot).1).1
    · intro h
      have hdirect : DirectSlice ndim slice := by
        rcases h with h | ⟨i, hi, hmiddle, hsub⟩
        · exact h
        · exfalso
          rcases Nat.lt_or_ge i (ndim / 2) with hlt | hge
          · exact hpairs i hlt (Or.inl hsub)
          · refine hpairs (ndim - 1 - i) (by omega) (Or.inr ?_)
            rwa [show ndim - 1 - (ndim - 1 - i) = i by omega]
      refine ⟨fun _ => ⟨_, hresult, ?_⟩, fun hnot => absurd hdirect hnot⟩
      have hreversed : Reversed ndim (ofObject ndim slice)
          (reversedSlice ndim (ofObject ndim slice)) :=
        reversed_reversedSlice hn hpairs fun i hi => by
          rw [hreverse i hi]
          exact ⟨rfl, rfl⟩
      exact ⟨hreversed.dims, hreversed.address, hreversed.inverse⟩
  · have hindirect : ∃ i < ndim, 2 * i + 1 ≠ ndim ∧ slice.suboffsets i ≥ 0 := by
      rcases hpair with hsub | hsub
      · exact ⟨k, by omega, by omega, hsub⟩
      · exact ⟨ndim - 1 - k, by omega, by omega, hsub⟩
    have herror : (attributeT ndim slice).result = .error .cannotTranspose := by
      rw [attributeT, transposed, transposeInPlace_of_indirect hn hk hpair hfirst]
      rfl
    refine iff_of_true ⟨fun h => ?_, fun _ => ⟨herror, fun _ _ => ⟨rfl, rfl⟩⟩⟩ (Or.inr hindirect)
    obtain ⟨i, hi, -, hsub⟩ := hindirect
    exact absurd (h i hi) (not_lt.2 hsub)

/-- For the slices of a memoryview object: `transpose_memslice` reverses the ones whose dimensions
    the object's number stands for, and `T` the direct ones. -/
theorem transposes_iff (h : Obtained t memory view ndim slice) :
    (TransposesOwn ndim slice (transposed slice) ↔ Reversible view.ndim ndim slice) ∧
      (TransposesOwn ndim slice (attributeT ndim slice) ↔
        (DirectSlice ndim slice ∨ ∃ i < ndim, 2 * i + 1 ≠ ndim ∧ slice.suboffsets i ≥ 0)) :=
  ⟨transposes_transposed_iff (congrArg View.ndim h.view_eq), transposes_attributeT_iff⟩

end

/-- Two rows of three integers. -/
def grid : MemviewSlice where
  view := ⟨2, 8⟩
  data := 0
  shape i := if i = 0 then 2 else 3
  strides i := if i = 0 then 24 else 8
  suboffsets _ := -1

theorem grid_transposes : TransposesOwn 2 grid (transposed grid) := by
  have hgrid : Obtained ModuleWriter.ssize64 (fun _ => 0) grid.view 2 grid := .buffer grid
  have hneg (i : Nat) : grid.suboffsets i < 0 := show (-1 : ℤ) < 0 by decide
  refine (transposes_iff hgrid).1.2 ⟨fun _ => ⟨fun i _ h => ?_, fun i hi => ?_⟩, fun h => ?_⟩
  · exact h.elim (not_le.2 (hneg _)) (not_le.2 (hneg _))
  · interval_cases i <;> decide
  · exact absurd (fun i _ => hneg i) h

/-- Three integers. -/
def line : MemviewSlice where
  view := ⟨1, 8⟩
  data := 0
  shape _ := 3
  strides _ := 8
  suboffsets _ := -1

theorem length_line : ModuleWriter.ssize64.InRange 3 := by decide

theorem stride_line : ModuleWriter.ssize64.InRange 8 := by decide

theorem suboffset_line : ModuleWriter.ssize64.InRange (-1) := by decide

theorem length_line_nonneg : (0 : ℤ) ≤ 3 := by decide

/-- `line[None, :]` -/
def rowAxes : List (Axis ModuleWriter.ssize64) :=
  [.newaxis, .indexed
    ⟨⟨3, length_line⟩, ⟨8, stride_line⟩, ⟨-1, suboffset_line⟩, length_line_nonneg⟩
    (.slice ⟨none, none, none⟩)]

/-- A new axis: the object has one dimension, the slice has two, and nothing is transposed. -/
theorem row_not_transposes : ∃ row : MemviewSlice,
    Obtained ModuleWriter.ssize64 (fun _ => 0) line.view 2 row ∧
      row.shape 0 = 1 ∧ row.shape 1 = 3 ∧ ¬TransposesOwn 2 row (transposed row) := by
  have hdims : IndexesAll line 1 rowAxes := by
    refine ⟨rfl, fun dim d h => ?_⟩
    cases dim with
    | zero =>
      obtain rfl := Option.some.inj h
      exact ⟨rfl, rfl, rfl⟩
    | succ dim => exact nomatch h
  refine ⟨_, .sliced (.buffer line) hdims rfl, rfl, rfl, fun h => ?_⟩
  obtain ⟨slice', hslice', hreversed⟩ := h.direct fun i hi => by
    interval_cases i <;> decide
  obtain rfl := Except.ok.inj hslice'
  exact absurd (hreversed.dims 0 (by decide)).1 (by decide)

end AHPy.MemoryView
