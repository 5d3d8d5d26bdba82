import AHPy.MemoryView.Slicing

/-!
# Slices and their indices

* `newShape_eq`: the length is rounded up also where the quotient is negative, so a
  slice whose stop is before its start by less than a step has one element (`Short`);
* `checkStart_eq`, `checkStop_eq`: with a negative step, bounds far below the dimension
  are moved to its first element, those of Python before it.
-/

namespace AHPy.MemoryView

open ModuleWriter (SsizeType pyRange rangeLength progression lt_rangeLength_iff
  lt_rangeLength_iff_of_neg rangeLength_of_neg pyRange_eq_progression length_progression)

variable {t : SsizeType} {v length start stop step : ℤ}

/-! ## The range of `Py_ssize_t` -/

/-- The greatest value. -/
def ssizeMax (t : SsizeType) : ℤ := 2 ^ (t.width - 1) - 1

theorem inRange_iff : t.InRange v ↔ -ssizeMax t - 1 ≤ v ∧ v ≤ ssizeMax t := by
  rw [CIntType.inRange_signed t.isSigned, ssizeMax]
  omega

theorem one_le_ssizeMax (t : SsizeType) : 1 ≤ ssizeMax t := by
  have h : (2 : ℤ) ^ 1 ≤ 2 ^ (t.width - 1) :=
    pow_le_pow_right₀ (by norm_num) (by have := t.int_le; omega)
  rw [ssizeMax]
  omega

theorem ssize_of_inRange (h : t.InRange v) : ssize t v = .ok v := if_pos h

/-- What lies between zero and a value fits as that does. -/
theorem ssize_of_abs_le {w : ℤ} (hw : |w| ≤ ssizeMax t) (h : |v| ≤ |w|) : ssize t v = .ok v :=
  ssize_of_inRange (inRange_iff.2 (by have := abs_le.1 (h.trans hw); omega))

/-! ## The length -/

/-- The quotient of C, one more if there is a remainder. -/
def roundUp (len step : ℤ) : ℤ := len.tdiv step + if len.tmod step = 0 then 0 else 1

theorem roundUp_neg_neg (len step : ℤ) : roundUp (-len) (-step) = roundUp len step := by
  rw [roundUp, roundUp, Int.neg_tdiv_neg, Int.neg_tmod, Int.tmod_neg]
  simp only [neg_eq_zero]

/-- The stop is before the start, in the direction of the step, by less than a step. -/
def Short (start stop step : ℤ) : Prop :=
  (stop < start ∧ start - stop < step) ∨ (start < stop ∧ stop - start < -step)

instance : Decidable (Short start stop step) := inferInstanceAs (Decidable (_ ∨ _))

theorem short_neg_neg : Short (-start) (-stop) (-step) ↔ Short start stop step := by
  rw [Short, Short]
  omega

theorem roundUp_of_pos (hstep : 0 < step) :
    (roundUp (stop - start) step).toNat =
      if Short start stop step then 1 else rangeLength start stop step := by
  rw [roundUp, rangeLength, if_pos hstep]
  rcases lt_or_ge start stop with hlt | hle
  · have hshort : ¬Short start stop step := by
      rw [Short]
      omega
    rw [if_neg hshort, if_pos hlt, Int.tdiv_eq_ediv_of_nonneg (by omega),
      Int.tmod_eq_emod_of_nonneg (by omega)]
    have hdiv := Int.mul_ediv_add_emod (stop - start) step
    have hnonneg := Int.emod_nonneg (stop - start) hstep.ne'
    have hlt' := Int.emod_lt_of_pos (stop - start) hstep
    generalize (stop - start) / step = q at hdiv ⊢
    generalize (stop - start) % step = r at hdiv hnonneg hlt' ⊢
    split
    next hr =>
      have hpred : stop - start - 1 = step - 1 + step * (q - 1) := by
        rw [mul_sub, mul_one]
        omega
      rw [hpred, Int.add_mul_ediv_left _ _ hstep.ne', Int.ediv_eq_zero_of_lt (by omega) (by omega)]
      congr 1
      omega
    next hr =>
      have hpred : stop - start - 1 = r - 1 + step * q := by omega
      rw [hpred, Int.add_mul_ediv_left _ _ hstep.ne',
        Int.ediv_eq_zero_of_lt (by omega) (by omega), zero_add]
  · rw [if_neg hle.not_gt, ← neg_sub start stop, Int.neg_tdiv, Int.neg_tmod,
      Int.tdiv_eq_ediv_of_nonneg (by omega), Int.tmod_eq_emod_of_nonneg (by omega)]
    simp only [neg_eq_zero]
    have hquotient : 0 ≤ (start - stop) / step := Int.ediv_nonneg (by omega) hstep.le
    split
    next hr =>
      have hnot : ¬Short start stop step := by
        intro hshort
        rw [Short] at hshort
        rw [Int.emod_eq_of_lt (by omega) (by omega)] at hr
        omega
      rw [if_neg hnot]
      omega
    next hr =>
      rcases lt_or_ge (start - stop) step with hs | hs
      · have hne : start ≠ stop := by
          rintro rfl
          exact hr (by rw [sub_self, Int.zero_emod])
        rw [Int.ediv_eq_zero_of_lt (by omega) hs, if_pos (by rw [Short]; omega)]
        rfl
      · have hone : 1 ≤ (start - stop) / step := by
          rw [Int.le_ediv_iff_mul_le hstep]
          omega
        rw [if_neg (by rw [Short]; omega)]
        omega

theorem toNat_roundUp (hstep : step ≠ 0) :
    (roundUp (stop - start) step).toNat =
      if Short start stop step then 1 else rangeLength start stop step := by
  rcases lt_or_gt_of_ne hstep with hneg | hpos
  · have h : (roundUp (-stop - -start) (-step)).toNat = _ :=
      roundUp_of_pos (Int.neg_pos_of_neg hneg)
    rw [show -stop - -start = -(stop - start) by ring, roundUp_neg_neg] at h
    rw [h, rangeLength_of_neg _ _ hneg]
    simp only [short_neg_neg]
  · exact roundUp_of_pos hpos

/-- A quotient with a remainder is at most half of the distance. -/
theorem abs_tdiv_add_one_le {len : ℤ} (hlen : |len| ≤ ssizeMax t) (h : len.tmod step ≠ 0) :
    |len.tdiv step + 1| ≤ |ssizeMax t| := by
  have hmax := one_le_ssizeMax t
  have hstep : 2 ≤ step.natAbs ∨ step = 0 := by
    by_contra hlt
    have hone : step.natAbs = 1 := by omega
    refine h (Int.natAbs_eq_zero.1 ?_)
    rw [Int.natAbs_tmod, hone, Nat.mod_one]
  have hquotient : (len.tdiv step).natAbs ≤ len.natAbs / 2 := by
    rcases hstep with hstep | rfl
    · rw [Int.natAbs_tdiv]
      exact Nat.div_le_div_left hstep (by norm_num)
    · rw [Int.tdiv_zero]
      exact Nat.zero_le _
  rw [Int.abs_eq_natAbs] at hlen
  rw [abs_of_pos (by omega : 0 < ssizeMax t), Int.abs_eq_natAbs]
  omega

/-- No operation overflows on the way to the length. -/
theorem newShape_eq (hlen : |stop - start| ≤ ssizeMax t) (hstep : step ≠ 0) :
    newShape t start stop step =
      .ok (if Short start stop step then 1 else rangeLength start stop step : ℕ) := by
  have hproduct := Int.mul_tdiv_self (stop - start) step
  have hrest : |(stop - start).tmod step| ≤ |stop - start| := by
    rw [Int.abs_eq_natAbs, Int.abs_eq_natAbs, Int.natAbs_tmod]
    exact_mod_cast Nat.mod_le _ _
  have hquotient : |(stop - start).tdiv step| ≤ |stop - start| := by
    rw [Int.abs_eq_natAbs, Int.abs_eq_natAbs]
    exact_mod_cast Int.natAbs_tdiv_le_natAbs _ _
  have hmul : |step * (stop - start).tdiv step| ≤ |stop - start| := by
    rw [Int.abs_eq_natAbs, Int.abs_eq_natAbs, Int.natAbs_mul, Int.natAbs_tdiv]
    exact_mod_cast Nat.mul_div_le _ _
  have hmax : |ssizeMax t| ≤ ssizeMax t := (abs_of_pos (one_le_ssizeMax t)).le
  rw [← toNat_roundUp hstep, roundUp]
  rw [newShape, ssize_of_abs_le hlen le_rfl]
  simp only [bind, Except.bind, pure, Except.pure]
  rw [ssize_of_abs_le hlen hquotient]
  simp only
  rw [ssize_of_abs_le hlen hmul]
  simp only
  rw [hproduct, sub_sub_cancel, ssize_of_abs_le hlen hrest]
  simp only
  rcases eq_or_ne ((stop - start).tmod step) 0 with hr | hr
  · rw [if_neg (not_not.2 hr), if_pos hr, add_zero]
    congr 1
    omega
  · rw [if_pos hr, if_neg hr, ssize_of_abs_le hmax (abs_tdiv_add_one_le hlen hr)]
    simp only
    congr 1
    omega

/-! ## The bounds -/

namespace Sliced

variable (slice : Sliced t)

/-- The step, or its default. -/
def stepValue : ℤ := slice.step.elim 1 Subtype.val

/-- The start as it is checked: a negative step does not make a start before the dimension one
    before its first element. -/
def checkedStart (length : ℤ) : ℤ :=
  if slice.stepValue < 0 then
    slice.start.elim (length - 1) fun v => adjustIndex length 0 (length - 1) v
  else slice.start.elim 0 fun v => adjustIndex length 0 length v

/-- The stop as it is checked, with the same limits for steps of both signs. -/
def checkedStop (length : ℤ) : ℤ :=
  slice.stop.elim (if slice.stepValue < 0 then -1 else length)
    fun v => adjustIndex length 0 length v

variable {slice}

theorem inRange_val (v : t.Value) : -ssizeMax t - 1 ≤ (v : ℤ) ∧ (v : ℤ) ≤ ssizeMax t :=
  inRange_iff.1 v.2

theorem checkStart_eq (h : 0 ≤ length) (hlength : length ≤ ssizeMax t) :
    checkStart t length (slice.stepValue < 0) slice.start = .ok (slice.checkedStart length) := by
  have hlast : ssize t (length - 1) = .ok (length - 1) :=
    ssize_of_inRange (inRange_iff.2 (by have := one_le_ssizeMax t; omega))
  rw [checkedStart]
  rcases slice.start with - | v
  · by_cases hneg : slice.stepValue < 0
    · rw [if_pos hneg]
      simpa only [checkStart, hneg, decide_true, if_true, Option.elim_none] using hlast
    · rw [if_neg hneg]
      simp only [checkStart, hneg, decide_false, Bool.false_eq_true, if_false]
      rfl
  · have hv := inRange_val v
    have hadd : (v : ℤ) < 0 → ssize t (v + length) = .ok (v + length) := fun hlt =>
      ssize_of_inRange (inRange_iff.2 (by omega))
    by_cases hneg : slice.stepValue < 0
    · rw [if_pos hneg]
      simp only [checkStart, hneg, decide_true, if_true, Option.elim_some, adjustIndex]
      split
      next hlt =>
        rw [hadd hlt]
        simp only [bind, Except.bind, pure, Except.pure]
        congr 1
        omega
      next hge =>
        split
        next hle => rw [hlast, min_eq_right (by omega)]
        next hlt => rw [min_eq_left (by omega)]; rfl
    · rw [if_neg hneg]
      simp only [checkStart, hneg, decide_false, Bool.false_eq_true, if_false, Option.elim_some,
        adjustIndex]
      split
      next hlt =>
        rw [hadd hlt]
        simp only [bind, Except.bind, pure, Except.pure]
        congr 1
        omega
      next hge =>
        split
        next hle => rw [min_eq_right (by omega)]; rfl
        next hlt => rw [min_eq_left (by omega)]; rfl

theorem checkStop_eq (h : 0 ≤ length) (hlength : length ≤ ssizeMax t) :
    checkStop t length (slice.stepValue < 0) slice.stop = .ok (slice.checkedStop length) := by
  rw [checkedStop]
  rcases slice.stop with - | v
  · simp only [checkStop, decide_eq_true_eq]
    rfl
  · have hv := inRange_val v
    simp only [checkStop, Option.elim_some, adjustIndex]
    split
    next hlt =>
      rw [ssize_of_inRange (inRange_iff.2 (by omega))]
      simp only [bind, Except.bind, pure, Except.pure]
      congr 1
      omega
    next hge =>
      split
      next hgt => rw [min_eq_right (by omega)]; rfl
      next hle => rw [min_eq_left (by omega)]; rfl

theorem checkedStop_mem (h : 0 ≤ length) :
    -1 ≤ slice.checkedStop length ∧ slice.checkedStop length ≤ length := by
  rw [checkedStop]
  rcases slice.stop with - | v <;> simp only [Option.elim_none, Option.elim_some, adjustIndex] <;>
    split_ifs <;> omega

end Sliced

end AHPy.MemoryView
