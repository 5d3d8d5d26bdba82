import AHPy.MemoryView.SliceSelection

/-!
# The addresses of sliced dimensions

* `Selects`: a dimension of the new slice has the elements that a list of indices selects;
* `sliceMemviewslice_meetsPython_iff`: a dimension is indexed and sliced as Python does exactly
  if no offset overflows and the slice is one that is kept (`Index.Kept`).
-/

namespace AHPy.MemoryView

open ModuleWriter (SsizeType ssize64 progression length_progression)

variable {t : SsizeType} {memory : ℤ → ℤ} {s s' : Slicing} {d : Dimension t} {dim : Nat}
  {slice : Sliced t} {v start stride : ℤ}

theorem ssize_of_not_inRange (h : ¬t.InRange v) : ssize t v = .error .undefined := if_neg h

theorem Dimension.shape_le (d : Dimension t) : (d.shape : ℤ) ≤ ssizeMax t :=
  (inRange_iff.1 d.shape.2).2

/-! ## Offsets -/

namespace MemviewSlice

variable (dst : MemviewSlice) (suboffsetDim : Option Nat)

@[simp]
theorem base_setBase : (dst.setBase suboffsetDim v).base suboffsetDim = v := by
  rcases suboffsetDim with - | dim
  · rfl
  · exact Function.update_self ..

@[simp]
theorem shape_setBase : (dst.setBase suboffsetDim v).shape = dst.shape := by
  rcases suboffsetDim with - | dim <;> rfl

@[simp]
theorem strides_setBase : (dst.setBase suboffsetDim v).strides = dst.strides := by
  rcases suboffsetDim with - | dim <;> rfl

end MemviewSlice

namespace Slicing

/-- The slicing after an offset is added. -/
def moved (s : Slicing) (offset : ℤ) : Slicing :=
  let v := s.dst.base s.suboffsetDim + offset
  { s with dst := s.dst.setBase s.suboffsetDim v }

/-- The offset of an element fits, also where it is added to a suboffset. -/
structure FitsOffset (t : SsizeType) (s : Slicing) (start stride : ℤ) : Prop where
  offset : t.InRange (start * stride)
  suboffset : s.suboffsetDim.isSome → t.InRange (s.dst.base s.suboffsetDim + start * stride)

theorem addOffset_of_fits (h : s.FitsOffset t start stride) :
    s.addOffset t start stride = .ok (s.moved (start * stride)) := by
  rw [addOffset, ssize_of_inRange h.offset]
  simp only [bind, Except.bind, pure, Except.pure]
  split
  next hs =>
    rw [ssize_of_inRange (h.suboffset hs)]
    rfl
  next hs => rfl

theorem addOffset_of_not_fits (h : ¬s.FitsOffset t start stride) :
    s.addOffset t start stride = .error .undefined := by
  rw [addOffset]
  by_cases hoffset : t.InRange (start * stride)
  · have hsub : ¬(s.suboffsetDim.isSome →
        t.InRange (s.dst.base s.suboffsetDim + start * stride)) := fun hsub => h ⟨hoffset, hsub⟩
    obtain ⟨hs, hsub⟩ := Classical.not_imp.1 hsub
    rw [ssize_of_inRange hoffset]
    simp only [bind, Except.bind, pure, Except.pure]
    rw [if_pos hs, ssize_of_not_inRange hsub]
  · rw [ssize_of_not_inRange hoffset]
    rfl

/-- The dimensions before the new one keep their suboffsets. -/
@[simp]
theorem base_setDimension (shape : Nat) (stride suboffset : ℤ) :
    (s.setDimension shape stride suboffset).dst.base s.suboffsetDim =
      s.dst.base s.suboffsetDim := by
  rcases h : s.suboffsetDim with - | dim
  · rfl
  · exact Function.update_of_ne (s.lt_newNdim dim h).ne _ _

theorem fitsOffset_setDimension (shape : Nat) (stride' suboffset : ℤ) :
    (s.setDimension shape stride' suboffset).FitsOffset t start stride ↔
      s.FitsOffset t start stride :=
  ⟨fun h => ⟨h.offset, fun hs => base_setDimension shape stride' suboffset ▸ h.suboffset hs⟩,
    fun h => ⟨h.offset, fun hs => (base_setDimension shape stride' suboffset).symm ▸
      h.suboffset hs⟩⟩

end Slicing

/-! ## Slices -/

namespace Sliced

/-- The bounds are not further apart than the length. -/
theorem abs_checked_le {length : ℤ} (h : 0 ≤ length) (hlength : length ≤ ssizeMax t) :
    |slice.checkedStop length - slice.checkedStart length| ≤ ssizeMax t := by
  have hmax := one_le_ssizeMax t
  rw [abs_le, checkedStart, checkedStop]
  rcases slice.start with - | v <;> rcases slice.stop with - | w <;>
    simp only [Option.elim_none, Option.elim_some, adjustIndex] <;> split_ifs <;> omega

end Sliced

/-- What is computed for a slice. -/
theorem sliceMemviewslice_slice (hstep : slice.stepValue ≠ 0) :
    sliceMemviewslice memory s d dim (.slice slice) =
      (do
        let stride ← ssize t (d.stride * slice.stepValue)
        let s ← (s.setDimension (slice.computedLength d.shape) stride d.suboffset).addOffset t
          (slice.checkedStart d.shape) d.stride
        return s.nextDimension d.suboffset) := by
  have hstart : _ = Except.ok (slice.checkedStart d.shape) :=
    Sliced.checkStart_eq d.shape_nonneg d.shape_le
  have hstop : _ = Except.ok (slice.checkedStop d.shape) :=
    Sliced.checkStop_eq d.shape_nonneg d.shape_le
  have hlen : |slice.checkedStop d.shape - slice.checkedStart d.shape| ≤ ssizeMax t :=
    Sliced.abs_checked_le d.shape_nonneg d.shape_le
  have hshape := newShape_eq hlen hstep
  rw [sliceMemviewslice]
  show (do
    if slice.stepValue = 0 then throw (SliceError.zeroStep dim)
    let start ← checkStart t d.shape (slice.stepValue < 0) slice.start
    let stop ← checkStop t d.shape (slice.stepValue < 0) slice.stop
    let shape ← newShape t start stop slice.stepValue
    let stride ← ssize t (d.stride * slice.stepValue)
    let s ← (s.setDimension shape.toNat stride d.suboffset).addOffset t start d.stride
    return s.nextDimension d.suboffset) = _
  rw [if_neg hstep, hstart, hstop]
  simp only [bind, Except.bind, pure, Except.pure]
  rw [hshape]
  rfl

/-- A slice after which the dimension is the last one of the new slice. -/
def sliced (s : Slicing) (d : Dimension t) (slice : Sliced t) : Slicing :=
  ((s.setDimension (slice.computedLength d.shape) (d.stride * slice.stepValue)
    d.suboffset).moved (slice.checkedStart d.shape * d.stride)).nextDimension d.suboffset

/-- Both products of a slice fit. -/
structure FitsSlice (s : Slicing) (d : Dimension t) (slice : Sliced t) : Prop where
  stride : t.InRange (d.stride * slice.stepValue)
  offset : s.FitsOffset t (slice.firstIndex d.shape) d.stride

theorem sliceMemviewslice_slice_of_fits (hstep : slice.stepValue ≠ 0) (h : FitsSlice s d slice) :
    sliceMemviewslice memory s d dim (.slice slice) = .ok (sliced s d slice) := by
  have hoffset := Sliced.checkedStart_eq_firstIndex d.shape_nonneg hstep ▸ h.offset
  rw [sliceMemviewslice_slice hstep, ssize_of_inRange h.stride]
  simp only [bind, Except.bind, pure, Except.pure]
  rw [Slicing.addOffset_of_fits (Slicing.fitsOffset_setDimension _ _ _ |>.2 hoffset)]
  rfl

theorem sliceMemviewslice_slice_of_not_fits (hstep : slice.stepValue ≠ 0)
    (h : ¬FitsSlice s d slice) :
    sliceMemviewslice memory s d dim (.slice slice) = .error .undefined := by
  rw [sliceMemviewslice_slice hstep]
  by_cases hstride : t.InRange (d.stride * slice.stepValue)
  · have hoffset : ¬s.FitsOffset t (slice.checkedStart d.shape) d.stride := fun hoffset =>
      h ⟨hstride, Sliced.checkedStart_eq_firstIndex d.shape_nonneg hstep ▸ hoffset⟩
    rw [ssize_of_inRange hstride]
    simp only [bind, Except.bind, pure, Except.pure]
    rw [Slicing.addOffset_of_not_fits (fun hfits =>
      hoffset ((Slicing.fitsOffset_setDimension _ _ _).1 hfits))]
  · rw [ssize_of_not_inRange hstride]
    rfl

theorem sliceMemviewslice_zeroStep (hstep : slice.stepValue = 0) :
    sliceMemviewslice memory s d dim (.slice slice) = .error (.zeroStep dim) := by
  have hstep' : slice.step.elim 1 Subtype.val = (0 : ℤ) := hstep
  rw [sliceMemviewslice]
  simp only [hstep', if_true]
  rfl

/-- The last dimension of the new slice has the elements that a list of indices selects. -/
structure Selects (d : Dimension t) (step : ℤ) (selection : List ℤ) (s s' : Slicing) : Prop where
  shape : s'.dst.shape s.newNdim = selection.length
  stride : s'.dst.strides s.newNdim = d.stride * step
  offset : ∀ i ∈ selection.head?,
    s'.dst.base s.suboffsetDim = s.dst.base s.suboffsetDim + i * d.stride
  inside : ∀ i ∈ selection, 0 ≤ i ∧ i < d.shape
  address : ∀ (k : ℕ) (i : ℤ), selection[k]? = some i →
    s'.dst.base s.suboffsetDim + k * s'.dst.strides s.newNdim =
      s.dst.base s.suboffsetDim + i * d.stride

@[simp]
theorem shape_sliced : (sliced s d slice).dst.shape s.newNdim = slice.computedLength d.shape := by
  show (MemviewSlice.setBase _ _ _).shape s.newNdim = _
  rw [MemviewSlice.shape_setBase]
  exact Function.update_self ..

@[simp]
theorem strides_sliced : (sliced s d slice).dst.strides s.newNdim = d.stride * slice.stepValue := by
  show (MemviewSlice.setBase _ _ _).strides s.newNdim = _
  rw [MemviewSlice.strides_setBase]
  exact Function.update_self ..

@[simp]
theorem base_sliced : (sliced s d slice).dst.base s.suboffsetDim =
    s.dst.base s.suboffsetDim + slice.checkedStart d.shape * d.stride := by
  show (MemviewSlice.setBase _ s.suboffsetDim _).base s.suboffsetDim = _
  rw [MemviewSlice.base_setBase]
  congr 1
  exact Slicing.base_setDimension ..

theorem getElem?_progression (a step : ℤ) (n k : ℕ) :
    (progression a step n)[k]? = if k < n then some (a + k * step) else none := by
  rw [progression, List.getElem?_map]
  split
  next hk => rw [List.getElem?_range hk, Option.map_some]
  next hk => rw [List.getElem?_eq_none (by rw [List.length_range]; omega), Option.map_none]

/-- The lengths agree if and only if the selection is the one of Python. -/
theorem selects_sliced_iff (hstep : slice.stepValue ≠ 0) :
    Selects d slice.stepValue (progression (slice.startIndex d.shape) slice.stepValue
      (slice.selectedLength d.shape)) s (sliced s d slice) ↔ slice.Kept d.shape := by
  rw [← Sliced.computedLength_eq_iff hstep d.shape_nonneg]
  constructor
  · intro h
    have hshape := h.shape
    rwa [shape_sliced, length_progression] at hshape
  · intro h
    have hget : ∀ (k : ℕ) (i : ℤ), (progression (slice.startIndex d.shape) slice.stepValue
        (slice.selectedLength d.shape))[k]? = some i →
        k < slice.selectedLength d.shape ∧ i = slice.startIndex d.shape + k * slice.stepValue := by
      intro k i hi
      rw [getElem?_progression] at hi
      split at hi
      next hk => exact ⟨hk, (Option.some.inj hi).symm⟩
      next => cases hi
    have haddress : ∀ (k : ℕ) (i : ℤ), (progression (slice.startIndex d.shape) slice.stepValue
        (slice.selectedLength d.shape))[k]? = some i →
        (sliced s d slice).dst.base s.suboffsetDim + k * (sliced s d slice).dst.strides s.newNdim =
          s.dst.base s.suboffsetDim + i * d.stride := by
      intro k i hi
      obtain ⟨hk, rfl⟩ := hget k i hi
      rw [base_sliced, strides_sliced, Sliced.checkedStart_eq_firstIndex d.shape_nonneg hstep,
        Sliced.firstIndex_eq d.shape_nonneg (by omega)]
      ring
    refine ⟨?_, strides_sliced, ?_, ?_, haddress⟩
    · rw [shape_sliced, length_progression, h]
    · intro i hi
      have hfirst := haddress 0 i (List.head?_eq_getElem? ▸ hi)
      rwa [Nat.cast_zero, zero_mul, add_zero] at hfirst
    · intro i hi
      obtain ⟨k, hk⟩ := List.mem_iff_getElem?.1 hi
      obtain ⟨hlt, rfl⟩ := hget k i hk
      exact Sliced.selected_mem hstep d.shape_nonneg hlt

/-! ## Integers -/

/-- An index from the end of the dimension is made one from its start. -/
def wrapIndex (length i : ℤ) : ℤ := if i < 0 then i + length else i

/-- An index is accepted within the bounds, and then it is the one of the element that the new
    slice starts at. -/
structure AcceptsIndex (d : Dimension t) (dim : Nat) (i : ℤ) (s : Slicing)
    (result : Except SliceError Slicing) : Prop where
  accepted : result ≠ .error (.indexOutOfBounds dim) ↔ -d.shape ≤ i ∧ i < d.shape
  defined : result ≠ .error .undefined
  address : ∀ s', result = .ok s' → (d.suboffset : ℤ) < 0 →
    s'.dst.base s.suboffsetDim = s.dst.base s.suboffsetDim + wrapIndex d.shape i * d.stride

theorem sliceMemviewslice_integer (i : t.Value) :
    sliceMemviewslice memory s d dim (.integer i) =
      if -d.shape ≤ (i : ℤ) ∧ (i : ℤ) < d.shape then
        (s.addOffset t (wrapIndex d.shape i) d.stride).bind fun s =>
          followPointer memory s d.suboffset dim
      else .error (.indexOutOfBounds dim) := by
  have hi := inRange_iff.1 i.2
  have hshape := d.shape_le
  have hnonneg := d.shape_nonneg
  have hwrap : wrapStart t d.shape i = .ok (wrapIndex d.shape i) := by
    rw [wrapStart, wrapIndex]
    split
    next hneg => exact ssize_of_inRange (inRange_iff.2 (by omega))
    next hneg => rfl
  have hbounds : 0 ≤ wrapIndex d.shape i ∧ wrapIndex d.shape i < d.shape ↔
      -d.shape ≤ (i : ℤ) ∧ (i : ℤ) < d.shape := by
    rw [wrapIndex]
    split <;> omega
  rw [sliceMemviewslice, hwrap]
  simp only [bind, Except.bind, hbounds]
  by_cases h : -d.shape ≤ (i : ℤ) ∧ (i : ℤ) < d.shape
  · rw [if_neg (not_not.2 h), if_pos h]
  · rw [if_pos h, if_neg h]
    rfl

/-! ## Both -/

/-- A dimension is indexed as Python does. -/
def MeetsPython (memory : ℤ → ℤ) (s : Slicing) (d : Dimension t) (dim : Nat) : Index t → Prop
  | .integer i => AcceptsIndex d dim i s (sliceMemviewslice memory s d dim (.integer i))
  | .slice slice =>
    (slice.selection d.shape).elim
      (sliceMemviewslice memory s d dim (.slice slice) = .error (.zeroStep dim))
      fun selection => ∃ s', sliceMemviewslice memory s d dim (.slice slice) = .ok s' ∧
        Selects d slice.stepValue selection s s'

/-- No offset overflows, and a slice is one that is kept. -/
def Index.Kept (s : Slicing) (d : Dimension t) : Index t → Prop
  | .integer i => -d.shape ≤ (i : ℤ) → (i : ℤ) < d.shape →
    s.FitsOffset t (wrapIndex d.shape i) d.stride
  | .slice slice => slice.stepValue ≠ 0 → FitsSlice s d slice ∧ slice.Kept d.shape

/-- Following a pointer changes the slicing only of an indirect dimension. -/
theorem followPointer_ne_error {suboffset : ℤ} :
    followPointer memory s suboffset dim ≠ .error (.indexOutOfBounds dim) ∧
      followPointer memory s suboffset dim ≠ .error .undefined := by
  rw [followPointer]
  split_ifs <;> exact ⟨nofun, nofun⟩

theorem acceptsIndex_iff (i : t.Value) :
    AcceptsIndex d dim i s (sliceMemviewslice memory s d dim (.integer i)) ↔
      (-d.shape ≤ (i : ℤ) → (i : ℤ) < d.shape →
        s.FitsOffset t (wrapIndex d.shape i) d.stride) := by
  rw [sliceMemviewslice_integer]
  by_cases hi : -d.shape ≤ (i : ℤ) ∧ (i : ℤ) < d.shape
  · rw [if_pos hi]
    by_cases hfits : s.FitsOffset t (wrapIndex d.shape i) d.stride
    · rw [Slicing.addOffset_of_fits hfits]
      refine iff_of_true ⟨iff_of_true followPointer_ne_error.1 hi, followPointer_ne_error.2, ?_⟩
        fun _ _ => hfits
      intro s' hs' hdirect
      have hs : followPointer memory _ _ dim = Except.ok s' := hs'
      rw [followPointer, if_neg hdirect.not_ge] at hs
      obtain rfl := Except.ok.inj hs
      exact MemviewSlice.base_setBase ..
    · rw [Slicing.addOffset_of_not_fits hfits]
      exact iff_of_false (fun h => h.defined rfl) fun h => hfits (h hi.1 hi.2)
  · rw [if_neg hi]
    exact iff_of_true ⟨iff_of_false (not_not.2 rfl) hi, nofun, nofun⟩ fun h h' => absurd ⟨h, h'⟩ hi

/-- A dimension is indexed as Python does exactly if no offset overflows and a slice is one that
    is kept. -/
theorem sliceMemviewslice_meetsPython_iff (memory : ℤ → ℤ) (s : Slicing) (d : Dimension t)
    (dim : Nat) (index : Index t) : MeetsPython memory s d dim index ↔ index.Kept s d := by
  rcases index with i | slice
  · exact acceptsIndex_iff i
  · by_cases hstep : slice.stepValue = 0
    · rw [MeetsPython, Sliced.selection_of_zeroStep hstep]
      exact iff_of_true (sliceMemviewslice_zeroStep hstep) fun hne => absurd hstep hne
    · rw [MeetsPython, Sliced.selection_eq hstep, Index.Kept, forall_prop_of_true hstep]
      constructor
      · rintro ⟨s', hs', hselects⟩
        by_cases hfits : FitsSlice s d slice
        · rw [sliceMemviewslice_slice_of_fits hstep hfits] at hs'
          obtain rfl := Except.ok.inj hs'
          exact ⟨hfits, (selects_sliced_iff hstep).1 hselects⟩
        · rw [sliceMemviewslice_slice_of_not_fits hstep hfits] at hs'
          cases hs'
      · rintro ⟨hfits, hkept⟩
        exact ⟨_, sliceMemviewslice_slice_of_fits hstep hfits, (selects_sliced_iff hstep).2 hkept⟩

/-- `view[5:4:2]`, of five bytes: the new slice has one element, which is behind the last one. -/
theorem sliceMemviewslice_not_meetsPython :
    ¬MeetsPython (t := ssize64) (fun _ => 0) ⟨⟨⟨1, 1⟩, 0, fun _ => 0, fun _ => 0, fun _ => 0⟩, 0,
      none, fun _ h => nomatch h⟩ ⟨⟨5, by decide⟩, ⟨1, by decide⟩, ⟨-1, by decide⟩, by decide⟩ 0
      (.slice ⟨some ⟨5, by decide⟩, some ⟨4, by decide⟩, some ⟨2, by decide⟩⟩) := by
  rintro ⟨s', hs', hselects⟩
  have hshape := hselects.shape
  rw [sliceMemviewslice_slice_of_fits (by decide) ⟨by decide, by decide, by decide⟩] at hs'
  obtain rfl := Except.ok.inj hs'
  rw [shape_sliced] at hshape
  exact absurd hshape (by decide)

end AHPy.MemoryView
