import AHPy.MemoryView.StridedCopy

/-!
# Changes of the dimensions

What the loops that change the dimensions of slices leave in their arrays.

* `broadcastBoth_spec`: leading dimensions with one element are added (`Extended`), so
  the elements are the same;
* `transposeMemslice_eq_ok`: the first dimensions are reversed;
* `checkDims_eq_ok`, `checkDims_eq_error`: the source after the shapes are verified.
-/

namespace AHPy.MemoryView

variable {β : Type}

/-! ## Leading dimensions -/

theorem shiftEntries_of_lt {ndim offset : Nat} (hoffset : 0 < offset) (array : Nat → β) {i : Nat}
    (hi : i < ndim) : shiftEntries ndim offset array (i + offset) = array i := by
  induction ndim generalizing array with
  | zero => exact absurd hi (Nat.not_lt_zero i)
  | succ n ih =>
    have hstep : shiftEntries (n + 1) offset array =
        shiftEntries n offset (Function.update array (n + offset) (array n)) := by
      rw [shiftEntries, List.range_succ, List.reverse_concat, List.foldl_cons]
      rfl
    rw [hstep]
    rcases Nat.lt_succ_iff_lt_or_eq.1 hi with hlt | rfl
    · rw [ih _ hlt, Function.update_of_ne (by omega)]
    · -- The entries from `n + offset` on are not set any more.
      have hkeep : ∀ (k : Nat) (a : Nat → β), k ≤ i →
          shiftEntries k offset a (i + offset) = a (i + offset) := by
        intro k
        induction k with
        | zero => exact fun a _ => rfl
        | succ k ihk =>
          intro a hk
          rw [shiftEntries, List.range_succ, List.reverse_concat, List.foldl_cons]
          exact (ihk _ (by omega)).trans (Function.update_of_ne (by omega) _ _)
      rw [hkeep i _ le_rfl, Function.update_self]

theorem setEntries_of_le {n : Nat} (value : (Nat → β) → β) (array : Nat → β) {i : Nat}
    (hi : n ≤ i) : setEntries n value array i = array i := by
  induction n with
  | zero => rfl
  | succ n ih =>
    rw [setEntries, List.range_succ, List.foldl_append, List.foldl_cons, List.foldl_nil,
      Function.update_of_ne (by omega)]
    exact ih (by omega)

theorem setEntries_const_of_lt {n : Nat} (c : β) (array : Nat → β) {i : Nat} (hi : i < n) :
    setEntries n (fun _ => c) array i = c := by
  induction n with
  | zero => exact absurd hi (Nat.not_lt_zero i)
  | succ n ih =>
    rw [setEntries, List.range_succ, List.foldl_append, List.foldl_cons, List.foldl_nil]
    rcases Nat.lt_succ_iff_lt_or_eq.1 hi with hlt | rfl
    · rw [Function.update_of_ne (by omega)]
      exact ih hlt
    · exact Function.update_self _ _ _

/-- A slice with leading dimensions of one element. -/
structure Extended (slice : MemviewSlice) (ndim : Nat) (slice' : MemviewSlice) (lead : Nat) :
    Prop where
  data : slice'.data = slice.data
  view : slice'.view = slice.view
  leading : ∀ i < lead, slice'.shape i = 1 ∧ slice'.suboffsets i < 0
  shape : ∀ i < ndim, slice'.shape (lead + i) = slice.shape i
  strides : ∀ i < ndim, slice'.strides (lead + i) = slice.strides i
  suboffsets : ∀ i < ndim, slice'.suboffsets (lead + i) = slice.suboffsets i

theorem Extended.refl (slice : MemviewSlice) (ndim : Nat) : Extended slice ndim slice 0 where
  data := rfl
  view := rfl
  leading := fun i hi => absurd hi (Nat.not_lt_zero i)
  shape := fun i _ => by rw [Nat.zero_add]
  strides := fun i _ => by rw [Nat.zero_add]
  suboffsets := fun i _ => by rw [Nat.zero_add]

theorem broadcastLeading_extended (slice : MemviewSlice) {ndim ndimOther : Nat}
    (h : ndim < ndimOther) :
    Extended slice ndim (broadcastLeading slice ndim ndimOther) (ndimOther - ndim) := by
  have hmoved : ∀ {β : Type} (value : (Nat → β) → β) (array : Nat → β), ∀ i < ndim,
      setEntries (ndimOther - ndim) value (shiftEntries ndim (ndimOther - ndim) array)
        (ndimOther - ndim + i) = array i := by
    intro β value array i hi
    rw [setEntries_of_le _ _ (Nat.le_add_right _ _), Nat.add_comm,
      shiftEntries_of_lt (by omega) _ hi]
  exact ⟨rfl, rfl, fun i hi => ⟨setEntries_const_of_lt _ _ hi, by
      rw [broadcastLeading]
      simp only [setEntries_const_of_lt _ _ hi]
      decide⟩, hmoved _ _, hmoved _ _, hmoved _ _⟩

theorem broadcastBoth_spec (src dst : MemviewSlice) (srcNdim dstNdim : Nat) :
    Extended src srcNdim (broadcastBoth src dst srcNdim dstNdim).1
        (max srcNdim dstNdim - srcNdim) ∧
      Extended dst dstNdim (broadcastBoth src dst srcNdim dstNdim).2
        (max srcNdim dstNdim - dstNdim) := by
  rw [broadcastBoth]
  by_cases hlt : srcNdim < dstNdim
  · rw [if_pos hlt, Nat.max_eq_right hlt.le, Nat.sub_self]
    exact ⟨broadcastLeading_extended src hlt, .refl dst dstNdim⟩
  · rw [if_neg hlt, Nat.max_eq_left (not_lt.1 hlt), Nat.sub_self]
    by_cases hgt : dstNdim < srcNdim
    · rw [if_pos hgt]
      exact ⟨.refl src srcNdim, broadcastLeading_extended dst hgt⟩
    · rw [if_neg hgt, Nat.sub_eq_zero_of_le (not_lt.1 hgt)]
      exact ⟨.refl src srcNdim, .refl dst dstNdim⟩

section

variable {slice slice' : MemviewSlice} {ndim lead : Nat} {idx : Nat → Nat}

/-- The index without the leading dimensions. -/
def dropIndex (lead : Nat) (idx : Nat → Nat) : Nat → Nat := fun i => idx (lead + i)

/-- An index with zeros for the leading dimensions. -/
def padIndex (lead : Nat) (idx : Nat → Nat) : Nat → Nat :=
  fun i => if i < lead then 0 else idx (i - lead)

theorem dropIndex_padIndex (lead : Nat) (idx : Nat → Nat) : dropIndex lead (padIndex lead idx) = idx := by
  funext i
  rw [dropIndex, padIndex, if_neg (by omega), Nat.add_sub_cancel_left]

theorem Extended.inShape_dropIndex (h : Extended slice ndim slice' lead)
    (hidx : InShape slice'.shape (lead + ndim) idx) :
    InShape slice.shape ndim (dropIndex lead idx) := fun i hi =>
  h.shape i hi ▸ hidx (lead + i) (Nat.add_lt_add_left hi lead)

theorem Extended.inShape_padIndex (h : Extended slice ndim slice' lead)
    (hidx : InShape slice.shape ndim idx) :
    InShape slice'.shape (lead + ndim) (padIndex lead idx) := by
  intro i hi
  rw [padIndex]
  by_cases hlead : i < lead
  · rw [if_pos hlead, (h.leading i hlead).1]
    exact Nat.one_pos
  · rw [if_neg hlead]
    have hshape := h.shape (i - lead) (by omega)
    rw [Nat.add_sub_cancel' (not_lt.1 hlead)] at hshape
    rw [hshape]
    exact hidx _ (by omega)

/-- The offset of an element does not change. -/
theorem Extended.offset_dropIndex (h : Extended slice ndim slice' lead)
    (hidx : ∀ i < lead, idx i = 0) :
    offset slice'.strides (lead + ndim) idx = offset slice.strides ndim (dropIndex lead idx) := by
  rw [offset, Finset.sum_range_add, Finset.sum_eq_zero, Int.zero_add, offset]
  · refine Finset.sum_congr rfl fun i hi => ?_
    rw [h.strides i (Finset.mem_range.1 hi), dropIndex]
  · intro i hi
    rw [hidx i (Finset.mem_range.1 hi), Nat.cast_zero, Int.zero_mul]

theorem Extended.eq_zero_of_lt (h : Extended slice ndim slice' lead)
    (hidx : InShape slice'.shape (lead + ndim) idx) {i : Nat} (hi : i < lead) : idx i = 0 := by
  have hlt := hidx i (by omega)
  rw [(h.leading i hi).1] at hlt
  omega

end

/-! ## Transposition -/

/-- The dimensions below `n` are reversed. -/
def reverseDims (n i : Nat) : Nat := if i < n then n - 1 - i else i

theorem reverseDims_reverseDims (n i : Nat) : reverseDims n (reverseDims n i) = i := by
  by_cases h : i < n
  · rw [reverseDims, reverseDims, if_pos h, if_pos (by omega)]
    omega
  · rw [reverseDims, reverseDims, if_neg h, if_neg h]

theorem reverseDims_lt {n ndim i : Nat} (hn : n ≤ ndim) (hi : i < ndim) : reverseDims n i < ndim := by
  rw [reverseDims]
  split <;> omega

/-- Some of the outer dimensions are swapped. -/
def swappedDims (n k i : Nat) : Nat := if i < k ∨ n - k ≤ i ∧ i < n then n - 1 - i else i

theorem swapEntries_swappedDims (array : Nat → β) {n k : Nat} (hk : k < n / 2) :
    swapEntries k (n - 1 - k) (fun i => array (swappedDims n k i)) =
      fun i => array (swappedDims n (k + 1) i) := by
  have hfirst : swappedDims n k k = k := if_neg (by omega)
  have hlast : swappedDims n k (n - 1 - k) = n - 1 - k := if_neg (by omega)
  funext i
  rw [swapEntries, hfirst, hlast]
  by_cases hi : i = n - 1 - k
  · rw [hi, Function.update_self, swappedDims, if_pos (by omega)]
    congr 1
    omega
  · rw [Function.update_of_ne hi]
    by_cases hi' : i = k
    · rw [hi', Function.update_self, swappedDims, if_pos (by omega)]
    · rw [Function.update_of_ne hi', swappedDims, swappedDims]
      congr 1
      have hiff : (i < k ∨ n - k ≤ i ∧ i < n) ↔ (i < k + 1 ∨ n - (k + 1) ≤ i ∧ i < n) := by omega
      simp only [hiff]

/-- Slices that are direct are transposed. -/
theorem transposeMemslice_eq_ok {slice : MemviewSlice}
    (h : ∀ i < slice.view.ndim, slice.suboffsets i < 0) :
    transposeMemslice slice = .ok { slice with
      shape := fun i => slice.shape (reverseDims slice.view.ndim i)
      strides := fun i => slice.strides (reverseDims slice.view.ndim i) } := by
  have hswapped : ∀ k ≤ slice.view.ndim / 2, (List.range k).foldlM (fun memslice i =>
      let j := slice.view.ndim - 1 - i
      let memslice : MemviewSlice := { memslice with
        strides := swapEntries i j memslice.strides
        shape := swapEntries i j memslice.shape }
      if memslice.suboffsets i ≥ 0 ∨ memslice.suboffsets j ≥ 0 then
        Except.error CopyError.cannotTranspose
      else .ok memslice) slice = .ok { slice with
        shape := fun i => slice.shape (swappedDims slice.view.ndim k i)
        strides := fun i => slice.strides (swappedDims slice.view.ndim k i) } := by
    intro k hk
    induction k with
    | zero =>
      have hsame : ∀ i, swappedDims slice.view.ndim 0 i = i := fun i => if_neg (by omega)
      simp only [hsame]
      rfl
    | succ k ih =>
      rw [List.range_succ, List.foldlM_append, ih (by omega)]
      have hdirect : ¬(slice.suboffsets k ≥ 0 ∨
          slice.suboffsets (slice.view.ndim - 1 - k) ≥ 0) := by
        rw [not_or, not_le, not_le]
        exact ⟨h _ (by omega), h _ (by omega)⟩
      show ((if slice.suboffsets k ≥ 0 ∨ slice.suboffsets (slice.view.ndim - 1 - k) ≥ 0 then
        Except.error CopyError.cannotTranspose else .ok _) >>= fun s => pure s) = _
      rw [if_neg hdirect, swapEntries_swappedDims _ (by omega),
        swapEntries_swappedDims _ (by omega)]
      rfl
  have hall : ∀ i, swappedDims slice.view.ndim (slice.view.ndim / 2) i =
      reverseDims slice.view.ndim i := by
    intro i
    rw [swappedDims, reverseDims]
    split <;> split <;> omega
  have heq := hswapped _ le_rfl
  simp only [hall] at heq
  exact heq

/-! ## The shapes -/

/-- What is accepted in a dimension. -/
def DimOk (src dst : MemviewSlice) (i : Nat) : Prop :=
  (src.shape i = dst.shape i ∨ src.shape i = 1) ∧ src.suboffsets i < 0

/-- The source with the dimensions that are broadcast. -/
def broadcastStrides (src dst : MemviewSlice) (dims : List Nat) : MemviewSlice :=
  { src with strides := fun i =>
      if i ∈ dims ∧ src.shape i ≠ dst.shape i then 0 else src.strides i }

theorem checkDim_eq_ok {src dst : MemviewSlice} {broadcasting : Bool} {i : Nat}
    (h : DimOk src dst i) : checkDim dst (src, broadcasting) i =
      .ok ({ src with strides := if src.shape i ≠ dst.shape i then
          Function.update src.strides i 0 else src.strides },
        broadcasting || decide (src.shape i ≠ dst.shape i)) := by
  have hdirect : ¬src.suboffsets i ≥ 0 := not_le.2 h.2
  rw [checkDim]
  by_cases hne : src.shape i ≠ dst.shape i
  · have hone : src.shape i = 1 := h.1.resolve_left hne
    simp only [if_pos hne, if_pos hone, decide_eq_true hne, Bool.or_true, pure_bind]
    rw [if_neg hdirect]
    rfl
  · simp only [if_neg hne, decide_eq_false hne, Bool.or_false, pure_bind]
    rw [if_neg hdirect]
    rfl

theorem checkDim_eq_error {src dst : MemviewSlice} {broadcasting : Bool} {i : Nat}
    (h : ¬DimOk src dst i) : ∃ e, checkDim dst (src, broadcasting) i = .error e := by
  rw [checkDim]
  by_cases hdirect : src.suboffsets i ≥ 0
  · by_cases hne : src.shape i ≠ dst.shape i
    · by_cases hone : src.shape i = 1
      · simp only [if_pos hne, if_pos hone, pure_bind]
        rw [if_pos hdirect]
        exact ⟨_, rfl⟩
      · simp only [if_pos hne, if_neg hone]
        exact ⟨_, rfl⟩
    · simp only [if_neg hne, pure_bind]
      rw [if_pos hdirect]
      exact ⟨_, rfl⟩
  · have hshape : ¬(src.shape i = dst.shape i ∨ src.shape i = 1) := fun hs =>
      h ⟨hs, not_le.1 hdirect⟩
    rw [not_or] at hshape
    simp only [if_pos hshape.1, if_neg hshape.2]
    exact ⟨_, rfl⟩

theorem checkDims_eq_ok {dst : MemviewSlice} {dims : List Nat} (hdims : dims.Nodup)
    {src : MemviewSlice} {broadcasting : Bool} (h : ∀ i ∈ dims, DimOk src dst i) :
    dims.foldlM (checkDim dst) (src, broadcasting) = .ok (broadcastStrides src dst dims,
      broadcasting || decide (∃ i ∈ dims, src.shape i ≠ dst.shape i)) := by
  induction dims generalizing src broadcasting with
  | nil => simp [broadcastStrides]; rfl
  | cons i dims ih =>
    obtain ⟨hi, hdims⟩ := List.nodup_cons.1 hdims
    obtain ⟨hok, h⟩ := List.forall_mem_cons.1 h
    rw [List.foldlM_cons, checkDim_eq_ok hok]
    let src' : MemviewSlice := { src with
      strides := if src.shape i ≠ dst.shape i then Function.update src.strides i 0
        else src.strides }
    refine Eq.trans (ih hdims (show ∀ i ∈ dims, DimOk src' dst i from h)) ?_
    congr 2
    · rw [broadcastStrides, broadcastStrides]
      congr 1
      funext j
      by_cases hj : j ∈ dims
      · have hji : j ≠ i := ne_of_mem_of_not_mem hj hi
        simp only [hj, List.mem_cons_of_mem i hj, true_and]
        split
        · rfl
        · split
          · exact Function.update_of_ne hji _ _
          · rfl
      · by_cases hji : j = i
        · subst hji
          simp only [hj, List.mem_cons_self, false_and, if_false, true_and]
          split
          · exact Function.update_self _ _ _
          · rfl
        · have hmem : j ∉ i :: dims := List.not_mem_cons_of_ne_of_not_mem hji hj
          simp only [hj, hmem, false_and, if_false]
          split
          · exact Function.update_of_ne hji _ _
          · rfl
    · rw [Bool.or_assoc]
      congr 1
      simp only [List.exists_mem_cons_iff, Bool.decide_or]

theorem checkDims_eq_error {dst : MemviewSlice} {dims : List Nat} (hdims : dims.Nodup)
    {src : MemviewSlice} {broadcasting : Bool} (h : ¬∀ i ∈ dims, DimOk src dst i) :
    ∃ e, dims.foldlM (checkDim dst) (src, broadcasting) = .error e := by
  induction dims generalizing src broadcasting with
  | nil => exact absurd (fun i hi => absurd hi List.not_mem_nil) h
  | cons i dims ih =>
    obtain ⟨hi, hdims⟩ := List.nodup_cons.1 hdims
    rw [List.foldlM_cons]
    by_cases hok : DimOk src dst i
    · rw [checkDim_eq_ok hok]
      refine ih hdims fun hall => h (List.forall_mem_cons.2 ⟨hok, hall⟩)
    · obtain ⟨e, he⟩ := @checkDim_eq_error src dst broadcasting i hok
      rw [he]
      exact ⟨e, rfl⟩

end AHPy.MemoryView
