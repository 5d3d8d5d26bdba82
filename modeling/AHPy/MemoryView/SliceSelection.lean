import AHPy.MemoryView.SliceIndices

/-!
# The elements of sliced dimensions

* `Selects`: a dimension of the new slice has the elements that a list of indices selects;
* `Sliced.Kept`: the slices whose selection is not changed by the bounds and by the
  rounding of the length;
* `sliceMemviewslice_meetsPython_iff`: exactly these are sliced as Python does.
-/

namespace AHPy.MemoryView

open ModuleWriter (SsizeType pyRange rangeLength progression lt_rangeLength_iff
  lt_rangeLength_iff_of_neg rangeLength_of_neg pyRange_eq_progression length_progression)

variable {t : SsizeType}

/-! ## What Python selects -/

namespace Sliced

variable (slice : Sliced t) (length : ℤ)

def startIndex : ℤ := (slice.indices length).1

def stopIndex : ℤ := (slice.indices length).2.1

variable {slice length}

theorem indices_eq :
    slice.indices length = (slice.startIndex length, slice.stopIndex length, slice.stepValue) := by
  rw [startIndex, stopIndex]
  refine Prod.ext rfl (Prod.ext rfl ?_)
  rw [indices, sliceIndices, stepValue]
  rcases slice.step with - | step <;> split_ifs <;> rfl

theorem selection_eq (h : slice.stepValue ≠ 0) :
    slice.selection length = some (progression (slice.startIndex length) slice.stepValue
      (rangeLength (slice.startIndex length) (slice.stopIndex length) slice.stepValue)) := by
  rw [selection, indices_eq]
  exact pyRange_eq_progression h

theorem selection_of_zeroStep (h : slice.stepValue = 0) : slice.selection length = none := by
  rw [selection, indices_eq]
  exact if_pos h

theorem stepValue_eq_getD : (slice.step.map Subtype.val).getD 1 = slice.stepValue := by
  rw [stepValue]
  rcases slice.step with - | step <;> rfl

theorem startIndex_of_neg (h : slice.stepValue < 0) :
    slice.startIndex length =
      slice.start.elim (length - 1) fun v => adjustIndex length (-1) (length - 1) v := by
  rw [startIndex, indices, sliceIndices, stepValue_eq_getD, if_pos h]
  exact Option.elim_map ..

theorem stopIndex_of_neg (h : slice.stepValue < 0) :
    slice.stopIndex length =
      slice.stop.elim (-1) fun v => adjustIndex length (-1) (length - 1) v := by
  rw [stopIndex, indices, sliceIndices, stepValue_eq_getD, if_pos h]
  exact Option.elim_map ..

/-- With a positive step, the bounds are the ones of Python. -/
theorem checkedStart_of_pos (h : 0 < slice.stepValue) :
    slice.checkedStart length = slice.startIndex length := by
  rw [checkedStart, startIndex, indices, sliceIndices, stepValue_eq_getD, if_neg h.le.not_gt,
    if_neg h.le.not_gt]
  symm
  exact Option.elim_map ..

theorem checkedStop_of_pos (h : 0 < slice.stepValue) :
    slice.checkedStop length = slice.stopIndex length := by
  rw [checkedStop, stopIndex, indices, sliceIndices, stepValue_eq_getD, if_neg h.le.not_gt,
    if_neg h.le.not_gt]
  symm
  exact Option.elim_map ..

/-- The indices of the slice are clamped to the dimension. -/
theorem indices_mem_of_pos (h : 0 < slice.stepValue) (hlength : 0 ≤ length) :
    0 ≤ slice.startIndex length ∧ slice.stopIndex length ≤ length := by
  rw [← checkedStart_of_pos h, ← checkedStop_of_pos h, checkedStart, if_neg h.le.not_gt]
  refine ⟨?_, (checkedStop_mem hlength).2⟩
  rcases slice.start with - | v
  · exact le_rfl
  · rw [Option.elim_some, adjustIndex]
    split_ifs <;> omega

theorem indices_mem_of_neg (h : slice.stepValue < 0) (hlength : 0 ≤ length) :
    slice.startIndex length < length ∧ -1 ≤ slice.stopIndex length := by
  rw [startIndex_of_neg h, stopIndex_of_neg h]
  refine ⟨?_, ?_⟩
  · rcases slice.start with - | v
    · exact Int.sub_one_lt_iff.2 le_rfl
    · rw [Option.elim_some, adjustIndex]
      split_ifs <;> omega
  · rcases slice.stop with - | v
    · exact le_rfl
    · rw [Option.elim_some, adjustIndex]
      split_ifs <;> omega

/-- A slice never selects an index outside of the dimension. -/
theorem selected_mem (hstep : slice.stepValue ≠ 0) (hlength : 0 ≤ length) {k : ℕ}
    (hk : k < rangeLength (slice.startIndex length) (slice.stopIndex length) slice.stepValue) :
    0 ≤ slice.startIndex length + k * slice.stepValue ∧
      slice.startIndex length + k * slice.stepValue < length := by
  rcases lt_or_gt_of_ne hstep with hneg | hpos
  · rw [lt_rangeLength_iff_of_neg _ _ hneg] at hk
    have hmem := indices_mem_of_neg hneg hlength
    have hmul : k * slice.stepValue ≤ 0 :=
      mul_nonpos_of_nonneg_of_nonpos (Int.natCast_nonneg k) hneg.le
    omega
  · rw [lt_rangeLength_iff _ _ hpos] at hk
    have hmem := indices_mem_of_pos hpos hlength
    have hmul : 0 ≤ k * slice.stepValue := mul_nonneg (Int.natCast_nonneg k) hpos.le
    omega

/-! ## The slices that are kept -/

/-- A bound before the dimension. -/
def Before (length : ℤ) (bound : Option t.Value) : Prop := ∃ v ∈ bound, (v : ℤ) < -length

instance (length : ℤ) (bound : Option t.Value) : Decidable (Before length bound) :=
  inferInstanceAs (Decidable (∃ v ∈ bound, (v : ℤ) < -length))

theorem not_before_none : ¬Before length (none : Option t.Value) := fun h => nomatch h

@[simp]
theorem before_some {v : t.Value} : Before length (some v) ↔ (v : ℤ) < -length := by
  simp only [Before, Option.mem_def, Option.some.injEq, exists_eq_left']

/-- The place between the elements that a bound is nearest to. -/
def position (length v : ℤ) : ℤ := adjustIndex length 0 length v

variable (slice length)

/-- The bounds and the rounding of the length do not change what is selected. -/
structure Kept : Prop where
  ascending : 0 < slice.stepValue →
    ¬Short (slice.startIndex length) (slice.stopIndex length) slice.stepValue
  descending : slice.stepValue < 0 → ¬Before length slice.start → ¬Before length slice.stop →
    ¬Short (slice.startIndex length) (slice.stop.elim (-1) fun v => position length v)
      slice.stepValue
  start_before : slice.stepValue < 0 → Before length slice.start →
    ∃ v ∈ slice.stop, ¬Short 0 (position length v) slice.stepValue
  stop_before : slice.stepValue < 0 → ¬Before length slice.start → Before length slice.stop →
    if length = 0 then slice.stepValue = -1 else ¬slice.stepValue ∣ slice.startIndex length

/-- The first index that is looked at. -/
def firstIndex : ℤ :=
  if slice.stepValue < 0 ∧ Before length slice.start then 0 else slice.startIndex length

variable {slice length}

theorem checkedStart_eq_firstIndex (hlength : 0 ≤ length) (hstep : slice.stepValue ≠ 0) :
    slice.checkedStart length = slice.firstIndex length := by
  rw [firstIndex]
  rcases lt_or_gt_of_ne hstep with hneg | hpos
  · rw [startIndex_of_neg hneg, checkedStart, if_pos hneg]
    rcases slice.start with - | v
    · rw [if_neg (fun h => not_before_none h.2)]
      rfl
    · simp only [before_some, hneg, true_and, Option.elim_some, adjustIndex]
      split_ifs <;> omega
  · rw [if_neg (fun h => hpos.not_gt h.1), checkedStart_of_pos hpos]

/-! ## Lengths -/

theorem rangeLength_of_short {start stop step : ℤ} (h : Short start stop step) :
    rangeLength start stop step = 0 := by
  rw [Short] at h
  rw [rangeLength]
  split_ifs <;> omega

theorem rangeLength_of_le {start stop step : ℤ} (hstep : step < 0) (h : start ≤ stop) :
    rangeLength start stop step = 0 := by
  rw [rangeLength, if_neg hstep.not_gt, if_neg h.not_gt]

theorem length_eq_self_iff {start stop step : ℤ} :
    (if Short start stop step then 1 else rangeLength start stop step) =
      rangeLength start stop step ↔ ¬Short start stop step := by
  by_cases h : Short start stop step
  · rw [if_pos h, rangeLength_of_short h]
    exact iff_of_false one_ne_zero (not_not.2 h)
  · rw [if_neg h]
    exact iff_of_true rfl h

/-- A range that goes down to zero is one shorter than the one to the place before it, if it
    would have zero. -/
theorem rangeLength_zero_eq_iff {start step : ℤ} (hstep : step < 0) (h : 0 ≤ start) :
    rangeLength start 0 step = rangeLength start (-1) step ↔ ¬step ∣ start := by
  have hstep' : 0 < -step := Int.neg_pos_of_neg hstep
  have hquotient : 0 ≤ start / -step := Int.ediv_nonneg h hstep'.le
  rw [rangeLength, rangeLength, if_neg hstep.not_gt, if_neg hstep.not_gt,
    if_pos (by omega : -1 < start), sub_zero, show start - -1 - 1 = start by ring, ← neg_dvd]
  split
  next hpos =>
    have hpred : 0 ≤ (start - 1) / -step := Int.ediv_nonneg (by omega) hstep'.le
    have hdvd : (start - 1) / -step = start / -step ↔ ¬-step ∣ start := by
      have hdiv := Int.mul_ediv_add_emod start (-step)
      have hlt := Int.emod_lt_of_pos start hstep'
      have hnonneg := Int.emod_nonneg start hstep'.ne'
      rw [Int.dvd_iff_emod_eq_zero]
      generalize start / -step = q at hdiv ⊢
      generalize start % -step = r at hdiv hlt hnonneg ⊢
      rcases eq_or_ne r 0 with rfl | hr
      · have hpred : start - 1 = -step - 1 + -step * (q - 1) := by
          rw [mul_sub, mul_one]
          omega
        rw [hpred, Int.add_mul_ediv_left _ _ hstep'.ne',
          Int.ediv_eq_zero_of_lt (by omega) (by omega)]
        omega
      · have hpred : start - 1 = r - 1 + -step * q := by omega
        rw [hpred, Int.add_mul_ediv_left _ _ hstep'.ne',
          Int.ediv_eq_zero_of_lt (by omega) (by omega), zero_add]
        exact iff_of_true rfl hr
    rw [← hdvd]
    omega
  next hzero =>
    obtain rfl : start = 0 := by omega
    exact iff_of_false (by omega) (not_not.2 (dvd_zero _))

/-- The length that is computed. -/
def computedLength (slice : Sliced t) (length : ℤ) : ℕ :=
  if Short (slice.checkedStart length) (slice.checkedStop length) slice.stepValue then 1
  else rangeLength (slice.checkedStart length) (slice.checkedStop length) slice.stepValue

/-- The length of the selection. -/
def selectedLength (slice : Sliced t) (length : ℤ) : ℕ :=
  rangeLength (slice.startIndex length) (slice.stopIndex length) slice.stepValue

theorem computedLength_eq_iff_of_pos (h : 0 < slice.stepValue) :
    slice.computedLength length = slice.selectedLength length ↔ slice.Kept length := by
  rw [computedLength, selectedLength, checkedStart_of_pos h, checkedStop_of_pos h,
    length_eq_self_iff]
  constructor
  · exact fun hshort => ⟨fun _ => hshort, fun hneg => absurd h hneg.not_gt,
      fun hneg => absurd h hneg.not_gt, fun hneg => absurd h hneg.not_gt⟩
  · exact fun hkept => hkept.ascending h

theorem checkedStop_of_neg (h : slice.stepValue < 0) :
    slice.checkedStop length = slice.stop.elim (-1) fun v => position length v := by
  rw [checkedStop, if_pos h]
  rfl

theorem position_nonneg (hlength : 0 ≤ length) (v : ℤ) : 0 ≤ position length v := by
  rw [position, adjustIndex]
  split_ifs <;> omega

/-- A start before the dimension selects nothing, downwards. -/
theorem selectedLength_of_start_before (h : slice.stepValue < 0) (hlength : 0 ≤ length)
    (hstart : Before length slice.start) : slice.selectedLength length = 0 := by
  have hindex : slice.startIndex length = -1 := by
    obtain ⟨v, hv, hlt⟩ := hstart
    rw [startIndex_of_neg h, Option.mem_def.1 hv, Option.elim_some, adjustIndex]
    split_ifs <;> omega
  exact rangeLength_of_le h (hindex.trans_le (indices_mem_of_neg h hlength).2)

theorem firstIndex_eq (hlength : 0 ≤ length) (hpos : 0 < slice.selectedLength length) :
    slice.firstIndex length = slice.startIndex length := by
  rw [firstIndex]
  split
  next h => exact absurd (selectedLength_of_start_before h.1 hlength h.2) hpos.ne'
  next h => rfl

/-- It is looked at from the first element on instead. -/
theorem computedLength_eq_iff_of_start_before (h : slice.stepValue < 0) (hlength : 0 ≤ length)
    (hstart : Before length slice.start) :
    slice.computedLength length = slice.selectedLength length ↔ slice.Kept length := by
  have hchecked : slice.checkedStart length = 0 := by
    rw [checkedStart_eq_firstIndex hlength h.ne, firstIndex, if_pos ⟨h, hstart⟩]
  have hselected := selectedLength_of_start_before h hlength hstart
  have hkept : slice.Kept length ↔
      ∃ v ∈ slice.stop, ¬Short 0 (position length v) slice.stepValue :=
    ⟨fun hkept => hkept.start_before h hstart, fun hstop => ⟨fun hpos => absurd h hpos.not_gt,
      fun _ hnot => absurd hstart hnot, fun _ _ => hstop, fun _ hnot => absurd hstart hnot⟩⟩
  rw [hselected, hkept, computedLength, hchecked, checkedStop_of_neg h]
  rcases slice.stop with - | v
  · refine iff_of_false ?_ fun ⟨_, hv, _⟩ => nomatch hv
    have hlen : rangeLength 0 (-1) slice.stepValue = 1 := by
      rw [rangeLength, if_neg h.not_gt, if_pos (by norm_num), show (0 : ℤ) - -1 - 1 = 0 by norm_num,
        Int.zero_ediv]
      rfl
    rw [Option.elim_none, hlen, ite_self]
    exact one_ne_zero
  · have hsome : (∃ w ∈ some v, ¬Short 0 (position length w) slice.stepValue) ↔
        ¬Short 0 (position length v) slice.stepValue := by
      simp only [Option.mem_def, Option.some.injEq, exists_eq_left']
    rw [hsome, Option.elim_some, ← length_eq_self_iff,
      rangeLength_of_le h (position_nonneg hlength v)]

/-- A stop before the dimension selects its first element, if it is reached. -/
theorem computedLength_eq_iff_of_stop_before (h : slice.stepValue < 0) (hlength : 0 ≤ length)
    (hstart : ¬Before length slice.start) (hstop : Before length slice.stop) :
    slice.computedLength length = slice.selectedLength length ↔ slice.Kept length := by
  have hchecked : slice.checkedStart length = slice.startIndex length := by
    rw [checkedStart_eq_firstIndex hlength h.ne, firstIndex, if_neg fun h => hstart h.2]
  have hindex : slice.stopIndex length = -1 ∧ slice.checkedStop length = 0 := by
    rw [stopIndex_of_neg h, checkedStop_of_neg h]
    obtain ⟨v, hv, hlt⟩ := hstop
    rw [Option.mem_def.1 hv, Option.elim_some, Option.elim_some, position, adjustIndex, adjustIndex]
    split_ifs <;> omega
  have hfirst : (length = 0 ∧ slice.startIndex length = -1) ∨
      (length ≠ 0 ∧ 0 ≤ slice.startIndex length) := by
    rw [startIndex_of_neg h]
    rcases hs : slice.start with - | v
    · rw [Option.elim_none]
      omega
    · rw [hs, before_some] at hstart
      rw [Option.elim_some, adjustIndex]
      split_ifs <;> omega
  have hkept : slice.Kept length ↔
      if length = 0 then slice.stepValue = -1 else ¬slice.stepValue ∣ slice.startIndex length :=
    ⟨fun hkept => hkept.stop_before h hstart hstop, fun hif => ⟨fun hpos => absurd h hpos.not_gt,
      fun _ _ hnot => absurd hstop hnot, fun _ hbefore => absurd hbefore hstart, fun _ _ _ => hif⟩⟩
  rw [hkept, computedLength, selectedLength, hchecked, hindex.1, hindex.2]
  rcases hfirst with ⟨hzero, hfirst⟩ | ⟨hzero, hfirst⟩
  · have hshort : Short (-1) 0 slice.stepValue ↔ slice.stepValue ≠ -1 := by
      rw [Short]
      omega
    rw [if_pos hzero, hfirst, rangeLength_of_le h le_rfl, rangeLength_of_le h (by norm_num)]
    split
    next hs => exact iff_of_false one_ne_zero (hshort.1 hs)
    next hs => exact iff_of_true rfl (not_not.1 fun hne => hs (hshort.2 hne))
  · rw [if_neg hzero, if_neg (by rw [Short]; omega), rangeLength_zero_eq_iff h hfirst]

theorem computedLength_eq_iff_of_neg (h : slice.stepValue < 0) (hlength : 0 ≤ length)
    (hstart : ¬Before length slice.start) (hstop : ¬Before length slice.stop) :
    slice.computedLength length = slice.selectedLength length ↔ slice.Kept length := by
  have hchecked : slice.checkedStart length = slice.startIndex length := by
    rw [checkedStart_eq_firstIndex hlength h.ne, firstIndex, if_neg fun h => hstart h.2]
  have hkept : slice.Kept length ↔ ¬Short (slice.startIndex length)
      (slice.stop.elim (-1) fun v => position length v) slice.stepValue :=
    ⟨fun hkept => hkept.descending h hstart hstop, fun hshort => ⟨fun hpos => absurd h hpos.not_gt,
      fun _ _ _ => hshort, fun _ hbefore => absurd hbefore hstart,
      fun _ _ hbefore => absurd hbefore hstop⟩⟩
  have hlength : rangeLength (slice.startIndex length) (slice.stopIndex length) slice.stepValue =
      rangeLength (slice.startIndex length) (slice.stop.elim (-1) fun v => position length v)
        slice.stepValue := by
    have hlt := (indices_mem_of_neg h hlength).1
    rw [stopIndex_of_neg h]
    rcases hs : slice.stop with - | v
    · rfl
    · rw [hs, before_some] at hstop
      rcases lt_or_ge (v : ℤ) length with hv | hv
      · congr 1
        rw [Option.elim_some, Option.elim_some, position, adjustIndex, adjustIndex]
        split_ifs <;> omega
      · have hhigh : length - 1 ≤ adjustIndex length (-1) (length - 1) v ∧
            length ≤ position length v := by
          rw [position, adjustIndex, adjustIndex]
          split_ifs <;> omega
        rw [Option.elim_some, Option.elim_some, rangeLength_of_le h (by omega),
          rangeLength_of_le h (by omega)]
  rw [hkept, computedLength, selectedLength, hchecked, checkedStop_of_neg h, hlength]
  exact length_eq_self_iff

/-- The length that is computed is the one of the selection exactly for the slices that are
    kept. -/
theorem computedLength_eq_iff (hstep : slice.stepValue ≠ 0) (hlength : 0 ≤ length) :
    slice.computedLength length = slice.selectedLength length ↔ slice.Kept length := by
  rcases lt_or_gt_of_ne hstep with hneg | hpos
  · by_cases hstart : Before length slice.start
    · exact computedLength_eq_iff_of_start_before hneg hlength hstart
    · by_cases hstop : Before length slice.stop
      · exact computedLength_eq_iff_of_stop_before hneg hlength hstart hstop
      · exact computedLength_eq_iff_of_neg hneg hlength hstart hstop
  · exact computedLength_eq_iff_of_pos hpos

end Sliced

end AHPy.MemoryView
