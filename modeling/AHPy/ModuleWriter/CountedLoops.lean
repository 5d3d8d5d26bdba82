import AHPy.ModuleWriter.ForFrom

/-!
# Counted loops and ranges

* `CountedLoop.Fits`: no addition of the loop overflows, and the step has the sign that the
  relations are for;
* `countedLoop_bindsRange`: exactly then the loop binds the values of its range, and it does for
  every loop over `range` that is transformed.
-/

namespace AHPy.ModuleWriter

/-! ## Loops over a progression -/

/-- The integers `a`, `a + d`, ..., `n` of them. -/
def progression (a d : ℤ) (n : ℕ) : List ℤ := (List.range n).map fun k : ℕ => a + k * d

@[simp]
theorem progression_zero (a d : ℤ) : progression a d 0 = [] := rfl

theorem progression_succ (a d : ℤ) (n : ℕ) :
    progression a d (n + 1) = a :: progression (a + d) d n := by
  rw [progression, progression, List.range_succ_eq_map, List.map_cons, List.map_map]
  congr 1
  · simp
  · refine List.map_congr_left fun k _ => ?_
    simp only [Function.comp, Nat.cast_succ]
    ring

@[simp]
theorem length_progression (a d : ℤ) (n : ℕ) : (progression a d n).length = n := by
  rw [progression, List.length_map, List.length_range]

variable {t : CIntType} {test : ℤ → Bool} {d : ℤ} {σ R : Type} {body : ℤ → σ → Exit R × σ}

/-- The test holds for the first `n` values from `a`, and no addition up to it overflows. -/
structure Passes (t : CIntType) (test : ℤ → Bool) (a d : ℤ) (n : ℕ) : Prop where
  test_lt : ∀ k < n, test (a + k * d) = true
  test_eq : test (a + n * d) = false
  inRange : ∀ k, 0 < k → k ≤ n → t.InRange (a + (k : ℕ) * d)

theorem Passes.tail {a : ℤ} {n : ℕ} (h : Passes t test a d (n + 1)) :
    Passes t test (a + d) d n where
  test_lt k hk := by
    have h' := h.test_lt (k + 1) (by omega)
    rwa [Nat.cast_succ, show a + (↑k + 1) * d = a + d + k * d by ring] at h'
  test_eq := by
    have h' := h.test_eq
    rwa [Nat.cast_succ, show a + (↑n + 1) * d = a + d + n * d by ring] at h'
  inRange k hk hkn := by
    have h' := h.inRange (k + 1) (by omega) (by omega)
    rwa [Nat.cast_succ, show a + (↑k + 1) * d = a + d + k * d by ring] at h'

theorem Passes.cons {a : ℤ} {n : ℕ} (ha : test a = true) (hr : t.InRange (a + d))
    (h : Passes t test (a + d) d n) : Passes t test a d (n + 1) where
  test_lt k hk := by
    cases k with
    | zero => simpa using ha
    | succ k =>
      have h' := h.test_lt k (by omega)
      rwa [Nat.cast_succ, show a + (↑k + 1) * d = a + d + k * d by ring]
  test_eq := by
    have h' := h.test_eq
    rwa [Nat.cast_succ, show a + (↑n + 1) * d = a + d + n * d by ring]
  inRange k hk hkn := by
    cases k with
    | zero => exact absurd hk (lt_irrefl 0)
    | succ k =>
      rw [Nat.cast_succ, show a + (↑k + 1) * d = a + d + k * d by ring]
      cases k with
      | zero => simpa using hr
      | succ k => exact h.inRange (k + 1) (by omega) (by omega)

/-- Without an overflow, the loop is the for statement over the values that pass. -/
theorem forLoop_eq_pyFor {n : ℕ} : ∀ {a : ℤ}, Passes t test a d n → ∀ s : σ,
    forLoop t test d body (n + 1) a s = some (pyFor body (progression a d n) s) := by
  induction n with
  | zero =>
    intro a h s
    have ha : test a = false := by simpa using h.test_eq
    simp only [forLoop, ha, progression_zero, pyFor, Bool.false_eq_true, if_false]
  | succ n ih =>
    intro a h s
    have ha : test a = true := by simpa using h.test_lt 0 (by omega)
    have hr : t.InRange (a + d) := by simpa using h.inRange 1 (by omega) (by omega)
    rw [forLoop, if_pos ha, progression_succ, pyFor]
    rcases hbody : body a s with ⟨exit, s'⟩
    cases exit with
    | next =>
      simp only [CIntType.arith_of_inRange hr]
      exact ih h.tail s'
    | «break» => rfl
    | leave result => rfl

/-- The body that remembers the values bound to the target. -/
def record (i : ℤ) (values : List ℤ) : Exit Empty × List ℤ := (.next, values ++ [i])

theorem pyFor_record (values before : List ℤ) :
    pyFor record values before = .completed (before ++ values) := by
  induction values generalizing before with
  | nil => rw [pyFor, List.append_nil]
  | cons i values ih =>
    rw [pyFor, record]
    simp only [ih, List.append_assoc, List.singleton_append]

/-- A loop that completes has gone through values that pass. -/
theorem passes_of_forLoop (ht : t.signed = true) {fuel : ℕ} : ∀ {a : ℤ} {before after : List ℤ},
    forLoop t test d record fuel a before = some (.completed after) →
    ∃ n, after = before ++ progression a d n ∧ Passes t test a d n := by
  induction fuel with
  | zero =>
    intro a before after h
    cases h
  | succ fuel ih =>
    intro a before after h
    rw [forLoop] at h
    split at h
    next ha =>
      simp only [record, CIntType.arith, if_pos ht] at h
      split at h
      next i hi =>
        split at hi
        next hr =>
          cases hi
          obtain ⟨n, rfl, hn⟩ := ih h
          refine ⟨n + 1, ?_, .cons ha hr hn⟩
          rw [progression_succ, List.append_assoc, List.singleton_append]
        next hr => cases hi
      next hi => cases h
    next ha =>
      cases h
      refine ⟨0, by rw [progression_zero, List.append_nil], fun k hk => absurd hk (by omega), ?_,
        fun k hk hk' => absurd hk (by omega)⟩
      simpa using ha

/-! ## The length of a range -/

/-- A range that goes up has the values before `stop`. -/
theorem lt_rangeLength_iff (start stop : ℤ) {step : ℤ} (h : 0 < step) (k : ℕ) :
    k < rangeLength start stop step ↔ start + k * step < stop := by
  rw [rangeLength, if_pos h]
  split
  next hlt =>
    have hk : (k : ℤ) ≤ (stop - start - 1) / step ↔ k * step ≤ stop - start - 1 :=
      Int.le_ediv_iff_mul_le h
    omega
  next hle =>
    have hk : 0 ≤ k * step := by positivity
    omega

/-- A range that goes down is as long as the one up between the negated bounds. -/
theorem rangeLength_of_neg (start stop : ℤ) {step : ℤ} (h : step < 0) :
    rangeLength start stop step = rangeLength (-start) (-stop) (-step) := by
  rw [rangeLength, rangeLength, if_neg h.le.not_gt, if_pos (Int.neg_pos_of_neg h)]
  simp only [neg_lt_neg_iff, sub_neg_eq_add, neg_add_eq_sub]

/-- A range that goes down has the values after `stop`. -/
theorem lt_rangeLength_iff_of_neg (start stop : ℤ) {step : ℤ} (h : step < 0) (k : ℕ) :
    k < rangeLength start stop step ↔ stop < start + k * step := by
  rw [rangeLength_of_neg _ _ h, lt_rangeLength_iff _ _ (Int.neg_pos_of_neg h)]
  constructor <;> intro hlt <;> linarith

theorem pyRange_eq_progression {start stop step : ℤ} (h : step ≠ 0) :
    pyRange start stop step = some (progression start step (rangeLength start stop step)) := by
  rw [pyRange, if_neg h]
  rfl

/-! ## The emitted loop -/

namespace CountedLoop

variable {t : SsizeType} (loop : CountedLoop t)

/-- The step, which is one by default. -/
def stepValue : ℤ := loop.step.elim 1 Subtype.val

/-- No addition of the loop overflows, and its values go towards the bound. -/
structure Fits : Prop where
  /-- The start fits the type, moved by one for a strict relation. -/
  start : t.InRange loop.start
  /-- If there are values, so does the first one past the bound, which the loop stops at. With
      a negative step neither the loop nor the range have values. -/
  past : (0 < loop.stepValue ∧ (0 < rangeLength loop.start loop.stop loop.delta →
      t.InRange (loop.start + rangeLength loop.start loop.stop loop.delta * loop.delta))) ∨
    (loop.stepValue < 0 ∧ loop.start = loop.stop)

theorem delta_eq :
    loop.delta = if loop.relation2.ascends then loop.stepValue else -loop.stepValue := by
  rw [← loop.directions_match, delta, stepValue]
  cases loop.relation1 <;> rfl

theorem test_iff (i : ℤ) :
    loop.test i = true ↔ if loop.relation2.ascends then i < loop.stop else loop.stop < i := by
  rw [test, stop]
  cases loop.relation2 <;>
    simp only [Relation.holds, Relation.ascends, Relation.strict, decide_eq_true_eq, if_true,
      Bool.false_eq_true, if_false, Int.lt_add_one_iff, Int.sub_one_lt_iff]

/-- With a positive step, the test holds exactly for the values of the range. -/
theorem test_iff_lt_rangeLength (h : 0 < loop.stepValue) (k : ℕ) :
    loop.test (loop.start + k * loop.delta) = true ↔
      k < rangeLength loop.start loop.stop loop.delta := by
  rw [test_iff]
  cases hr : loop.relation2.ascends with
  | true =>
    have hd : 0 < loop.delta := by rwa [delta_eq, hr, if_pos rfl]
    rw [lt_rangeLength_iff _ _ hd, if_pos rfl]
  | false =>
    have hd : loop.delta < 0 := by
      rw [delta_eq, hr, if_neg Bool.false_ne_true]
      omega
    rw [lt_rangeLength_iff_of_neg _ _ hd, if_neg Bool.false_ne_true]

/-- With a negative step, the range is empty on the side where the test holds. -/
theorem rangeLength_eq_zero_iff (h : loop.stepValue < 0) :
    rangeLength loop.start loop.stop loop.delta = 0 ↔
      if loop.relation2.ascends then loop.start ≤ loop.stop else loop.stop ≤ loop.start := by
  cases hr : loop.relation2.ascends with
  | true =>
    have hd : loop.delta < 0 := by rwa [delta_eq, hr, if_pos rfl]
    have h' := lt_rangeLength_iff_of_neg loop.start loop.stop hd 0
    simp only [Nat.cast_zero, zero_mul, add_zero] at h'
    rw [if_pos rfl]
    omega
  | false =>
    have hd : 0 < loop.delta := by
      rw [delta_eq, hr, if_neg Bool.false_ne_true]
      omega
    have h' := lt_rangeLength_iff loop.start loop.stop hd 0
    simp only [Nat.cast_zero, zero_mul, add_zero] at h'
    rw [if_neg Bool.false_ne_true]
    omega

/-- With a negative step, the loop and the range are both empty only at the bound. -/
theorem start_eq_stop_iff (h : loop.stepValue < 0) :
    loop.start = loop.stop ↔
      loop.test loop.start = false ∧ rangeLength loop.start loop.stop loop.delta = 0 := by
  rw [← Bool.not_eq_true, loop.test_iff, loop.rangeLength_eq_zero_iff h]
  split <;> omega

/-- The loop starts at `start` if that fits the type, and is undefined otherwise. -/
theorem run_eq (body : ℤ → σ → Exit R × σ) (fuel : ℕ) (s : σ) :
    loop.run body fuel s =
      if t.InRange loop.start then forLoop t.toCIntType loop.test loop.delta body fuel loop.start s
      else some .undefined := by
  rw [run, start]
  cases hoffset : (relationTable loop.relation1).1 with
  | none =>
    rw [Option.getD_none, add_zero, if_pos loop.bound1.2]
  | some offset =>
    rw [Option.getD_some]
    by_cases h : t.InRange (loop.bound1 + offset)
    · simp only [CIntType.arith_of_inRange h, if_pos h]
    · simp only [CIntType.arith, t.isSigned, if_true, if_neg h]

theorem range_eq (h : loop.stepValue ≠ 0) :
    loop.range =
      some (progression loop.start loop.delta (rangeLength loop.start loop.stop loop.delta)) := by
  refine pyRange_eq_progression ?_
  rw [delta_eq]
  split <;> omega

/-- A value before the first one past the bound is between two values of the type. -/
theorem inRange_of_le {n k : ℕ} (hstart : t.InRange loop.start)
    (hn : t.InRange (loop.start + n * loop.delta)) (hk : k ≤ n) :
    t.InRange (loop.start + k * loop.delta) := by
  have hk' : (k : ℤ) ≤ n := by exact_mod_cast hk
  rcases le_total 0 loop.delta with hd | hd
  · have h₁ : 0 ≤ k * loop.delta := by positivity
    have h₂ : k * loop.delta ≤ n * loop.delta := mul_le_mul_of_nonneg_right hk' hd
    exact ⟨by have := hstart.1; omega, by have := hn.2; omega⟩
  · have h₁ : k * loop.delta ≤ 0 := mul_nonpos_of_nonneg_of_nonpos (by positivity) hd
    have h₂ : n * loop.delta ≤ k * loop.delta := mul_le_mul_of_nonpos_right hk' hd
    exact ⟨by have := hn.1; omega, by have := hstart.2; omega⟩

variable {loop}

/-- If the loop fits, its test passes exactly on the values of its range. -/
theorem Fits.passes (h : loop.Fits) :
    Passes t.toCIntType loop.test loop.start loop.delta
      (rangeLength loop.start loop.stop loop.delta) := by
  rcases h.past with ⟨hstep, hpast⟩ | ⟨hstep, heq⟩
  · refine ⟨fun k hk => (loop.test_iff_lt_rangeLength hstep k).2 hk, ?_, fun k hk hk' => ?_⟩
    · rw [← Bool.not_eq_true, loop.test_iff_lt_rangeLength hstep]
      exact lt_irrefl _
    · exact loop.inRange_of_le h.start (hpast (hk.trans_le hk')) hk'
  · obtain ⟨htest, hlength⟩ := (loop.start_eq_stop_iff hstep).1 heq
    rw [hlength]
    refine ⟨fun k hk => absurd hk (Nat.not_lt_zero k), ?_, fun k hk hk' => absurd hk (by omega)⟩
    simpa using htest

/-- A loop that fits does what the for statement does over its range. -/
theorem Fits.bindsRange (h : loop.Fits) : loop.BindsRange := by
  have hstep : loop.stepValue ≠ 0 := by rcases h.past with hpast | hpast <;> omega
  refine ⟨_, loop.range_eq hstep, fun body s =>
    ⟨rangeLength loop.start loop.stop loop.delta + 1, ?_⟩⟩
  rw [run_eq, if_pos h.start]
  exact forLoop_eq_pyFor h.passes s

/-- A loop that does what the for statement does, if the body only remembers the values, fits. -/
theorem BindsRange.fits (h : loop.BindsRange) : loop.Fits := by
  obtain ⟨values, hvalues, hrun⟩ := h
  have hstep : loop.stepValue ≠ 0 := by
    intro hzero
    have hd : loop.delta = 0 := by
      rw [delta_eq, hzero]
      simp
    rw [range, pyRange, if_pos hd] at hvalues
    cases hvalues
  rw [loop.range_eq hstep, Option.some.injEq] at hvalues
  obtain ⟨fuel, hfuel⟩ := hrun record []
  rw [run_eq, pyFor_record, List.nil_append] at hfuel
  split at hfuel
  next hstart =>
    obtain ⟨n, hn, hpasses⟩ := passes_of_forLoop t.isSigned hfuel
    rw [List.nil_append, ← hvalues] at hn
    have hlength := congrArg List.length hn
    rw [length_progression, length_progression] at hlength
    refine ⟨hstart, ?_⟩
    rw [hlength]
    rcases lt_or_gt_of_ne hstep with hneg | hpos
    · refine .inr ⟨hneg, (loop.start_eq_stop_iff hneg).2 ?_⟩
      have hzero : rangeLength loop.start loop.stop loop.delta = 0 := by
        refine Nat.eq_zero_of_not_pos fun hpos => ?_
        have htest : loop.test loop.start = true := by
          simpa using hpasses.test_lt 0 (hlength ▸ hpos)
        rw [test_iff] at htest
        have hne := (loop.rangeLength_eq_zero_iff hneg).not.1 hpos.ne'
        cases hr : loop.relation2.ascends <;> simp only [hr, if_true, if_false,
          Bool.false_eq_true] at htest hne <;> omega
      refine ⟨?_, hzero⟩
      have htest := hpasses.test_eq
      rw [← hlength, hzero] at htest
      simpa using htest
    · exact .inl ⟨hpos, fun hn => hpasses.inRange n hn le_rfl⟩
  next hstart => cases hfuel

end CountedLoop

/-! ## Loops over `range` -/

variable {t : SsizeType}

/-- The conversions accept the integers of the type, with their values. -/
theorem materializeSsizeExpression_object {result : Number} {v : t.Value} :
    materializeSsizeExpression (.object result) = .ok v ↔ result = .int v := by
  cases result with
  | other => simp [materializeSsizeExpression, ssizeFromPython]
  | int n =>
    by_cases hn : t.InRange n
    · simp only [materializeSsizeExpression, ssizeFromPython, if_pos hn, ite_self,
        Number.int.injEq]
      exact ⟨fun h => congrArg Subtype.val (Except.ok.inj h),
        fun h => congrArg Except.ok (Subtype.ext h)⟩
    · have hv : n ≠ v := fun h => hn (h ▸ v.2)
      simp [materializeSsizeExpression, ssizeFromPython, if_neg hn, hv]

theorem reverse_progression (a d : ℤ) (n : ℕ) :
    (progression a d n).reverse = progression (a + (n - 1) * d) (-d) n := by
  refine List.ext_getElem (by simp) fun k hk hk' => ?_
  have hkn : k < n := by simpa using hk'
  simp only [progression, List.getElem_reverse, List.getElem_map, List.getElem_range,
    List.length_map, List.length_range]
  have hcast : ((n - 1 - k : ℕ) : ℤ) = n - 1 - k := by omega
  rw [hcast]
  ring

/-- A range that goes up, reversed: it starts at the last value. -/
theorem reverse_range_of_pos (start stop : ℤ) {step : ℤ} (h : 0 < step) :
    (progression start step (rangeLength start stop step)).reverse =
      progression (start + step * ((stop - start - 1) / step)) (-step)
        (rangeLength (start + step * ((stop - start - 1) / step)) (start - 1) (-step)) := by
  have hlength : rangeLength (start + step * ((stop - start - 1) / step)) (start - 1) (-step) =
      rangeLength start stop step := by
    refine eq_of_forall_lt_iff fun k => ?_
    rw [lt_rangeLength_iff_of_neg _ _ (neg_lt_zero.2 h), rangeLength, if_pos h]
    have hk : start - 1 < start + step * ((stop - start - 1) / step) + k * -step ↔
        (k : ℤ) ≤ (stop - start - 1) / step := by
      rw [← mul_le_mul_iff_of_pos_left h]
      constructor <;> intro hlt <;> linarith
    rw [hk]
    split
    next hlt => omega
    next hle =>
      have hneg : (stop - start - 1) / step < 0 := Int.ediv_neg_of_neg_of_pos (by omega) h
      omega
  rw [hlength, reverse_progression]
  rcases Nat.eq_zero_or_pos (rangeLength start stop step) with hzero | hpos
  · rw [hzero, progression_zero, progression_zero]
  · have hlt : start < stop := by simpa using (lt_rangeLength_iff start stop h 0).1 hpos
    have hn : (rangeLength start stop step : ℤ) - 1 = (stop - start - 1) / step := by
      have hq : 0 ≤ (stop - start - 1) / step := Int.ediv_nonneg (by omega) h.le
      rw [rangeLength, if_pos h, if_pos hlt]
      omega
    rw [hn, mul_comm]

theorem map_neg_progression (a d : ℤ) (n : ℕ) :
    (progression a d n).map Neg.neg = progression (-a) (-d) n := by
  rw [progression, progression, List.map_map]
  refine List.map_congr_left fun k _ => ?_
  rw [Function.comp]
  ring

/-- A range that goes down, reversed: the one between the negated bounds, negated. -/
theorem reverse_range_of_neg (start stop : ℤ) {step : ℤ} (h : step < 0) :
    (progression start step (rangeLength start stop step)).reverse =
      progression (start - -step * ((start - stop - 1) / -step)) (-step)
        (rangeLength (start - -step * ((start - stop - 1) / -step)) (start + 1) (-step)) := by
  have hpos : 0 < -step := Int.neg_pos_of_neg h
  have hup := congrArg (List.map Neg.neg) (reverse_range_of_pos (-start) (-stop) hpos)
  rw [List.map_reverse, map_neg_progression, map_neg_progression, neg_neg, neg_neg,
    ← rangeLength_of_neg _ _ h, rangeLength_of_neg _ (-start - 1) h] at hup
  have hq : -(-start + -step * ((-stop - -start - 1) / -step)) =
      start - -step * ((start - stop - 1) / -step) := by
    rw [show -stop - -start - 1 = start - stop - 1 by ring]
    ring
  rw [hup, hq, neg_sub, sub_neg_eq_add, add_comm 1 start]

theorem SsizeType.inRange_of_small (t : SsizeType) {v : ℤ} (hv : -2 ^ 31 ≤ v ∧ v < 2 ^ 31) :
    t.InRange v := by
  rw [CIntType.inRange_signed t.isSigned]
  have hp : (2 : ℤ) ^ 31 ≤ 2 ^ (t.width - 1) :=
    pow_le_pow_right₀ (by norm_num) (by have := t.int_le; omega)
  omega

/-- A loop whose bounds and step are small fits. -/
theorem CountedLoop.fits_of_small (loop : CountedLoop t) (hstep : 0 < loop.stepValue)
    (hstep' : loop.stepValue ≤ 2 ^ 30) (hstart : -2 ^ 31 ≤ loop.start ∧ loop.start < 2 ^ 31)
    (hstop : -2 ^ 30 - 1 ≤ loop.stop ∧ loop.stop ≤ 2 ^ 30) : loop.Fits := by
  refine ⟨t.inRange_of_small hstart, .inl ⟨hstep, fun hn => t.inRange_of_small ?_⟩⟩
  generalize hlength : rangeLength loop.start loop.stop loop.delta = n at hn
  obtain ⟨n, rfl⟩ := Nat.exists_eq_succ_of_ne_zero hn.ne'
  have hpast :
      loop.start + (n + 1 : ℕ) * loop.delta = loop.start + n * loop.delta + loop.delta := by
    push_cast
    ring
  rw [hpast]
  have hlast : n < rangeLength loop.start loop.stop loop.delta := hlength ▸ n.lt_succ_self
  have hdelta : loop.delta = loop.stepValue ∨ loop.delta = -loop.stepValue := by
    rw [delta_eq]
    split
    · exact .inl rfl
    · exact .inr rfl
  rcases lt_or_ge 0 loop.delta with hd | hd
  · rw [lt_rangeLength_iff _ _ hd] at hlast
    have hk : 0 ≤ n * loop.delta := by positivity
    omega
  · rw [lt_rangeLength_iff_of_neg _ _ (by omega)] at hlast
    have hk : n * loop.delta ≤ 0 := mul_nonpos_of_nonneg_of_nonpos (by positivity) hd
    omega

/-- The moved bound does not depend on whether the step is one. -/
theorem reversedBound1_eq (start stop stepValue : ℤ) :
    reversedBound1 start stop stepValue =
      if stepValue < 0 then start - -stepValue * ((start - stop - 1) / -stepValue) - 1
      else start + stepValue * ((stop - start - 1) / stepValue) + 1 := by
  rw [reversedBound1]
  split
  next hone =>
    split
    next hneg =>
      rw [abs_of_neg hneg] at hone
      rw [hone, Int.ediv_one]
      ring
    next hpos =>
      rw [abs_of_nonneg (by omega)] at hone
      rw [hone, Int.ediv_one]
      ring
  next hone =>
    split
    next hneg => rw [abs_of_neg hneg]
    next hpos => rw [abs_of_nonneg (by omega)]

/-- The constants of a transformed loop. -/
theorem materialize_transformRangeIteration {args : RangeArgs} {reversed : Bool}
    {stat : ForFromStat t} (h : transformRangeIteration args reversed = some stat)
    {bound1 : ℤ}
    (h₁ : bound1 = if reversed then reversedBound1 args.start args.stop args.step else args.start)
    (hr₁ : t.InRange bound1) (hstart : t.InRange args.start) (hstop : t.InRange args.stop)
    (hstep : t.InRange |args.step|) :
    ∃ loop, stat.materialize = .ok loop ∧ args.step ≠ 0 ∧ loop.stepValue = |args.step| ∧
      (loop.relation1, loop.relation2) =
        findForFromNodeRelations (decide (args.step < 0)) reversed ∧
      (loop.bound1 : ℤ) = bound1 ∧
      (loop.bound2 : ℤ) = if reversed then args.start else args.stop := by
  rw [transformRangeIteration] at h
  split at h
  next hzero => cases h
  next hzero =>
    cases h
    refine ⟨_, rfl, hzero, CIntType.convert_of_inRange hstep, rfl, ?_, ?_⟩
    · rw [← CIntType.convert_of_inRange hr₁, h₁]
    · cases reversed with
      | true => exact CIntType.convert_of_inRange hstart
      | false => exact CIntType.convert_of_inRange hstop

theorem RangeArgs.small {args : RangeArgs} (h : ∀ c ∈ args.toList, -2 ^ 30 ≤ c ∧ c < 2 ^ 30) :
    (-2 ^ 30 ≤ args.start ∧ args.start < 2 ^ 30) ∧ (-2 ^ 30 ≤ args.stop ∧ args.stop < 2 ^ 30) ∧
      (-2 ^ 30 ≤ args.step ∧ args.step < 2 ^ 30) := by
  cases args <;> simp_all [RangeArgs.toList, RangeArgs.start, RangeArgs.stop, RangeArgs.step]

/-- The first bound of a transformed loop is at most a step away from the bounds of the range. -/
theorem reversedBound1_bounds (start : ℤ) {stop stepValue : ℤ}
    (hstep : stepValue ≠ 0) (hstop : -2 ^ 30 ≤ stop ∧ stop < 2 ^ 30)
    (hsmall : -2 ^ 30 ≤ stepValue ∧ stepValue < 2 ^ 30) :
    if stepValue < 0 then
      -2 ^ 30 ≤ reversedBound1 start stop stepValue ∧
        reversedBound1 start stop stepValue < 2 ^ 31 - 1
    else -2 ^ 31 < reversedBound1 start stop stepValue ∧
      reversedBound1 start stop stepValue < 2 ^ 30 := by
  rw [reversedBound1_eq]
  split
  next hneg =>
    have hpos : 0 < -stepValue := by omega
    have h₁ := Int.mul_ediv_self_le (x := start - stop - 1) hpos.ne'
    have h₂ := Int.lt_mul_ediv_self_add (x := start - stop - 1) hpos
    omega
  next hpos =>
    have hpos' : 0 < stepValue := by omega
    have h₁ := Int.mul_ediv_self_le (x := stop - start - 1) hpos'.ne'
    have h₂ := Int.lt_mul_ediv_self_add (x := stop - start - 1) hpos'
    omega

/-- A transformed loop over a range has the values of the range, in order or reversed, and
    fits. -/
theorem optimiseRange_fits {args : RangeArgs} {reversed : Bool} {stat : ForFromStat t}
    (h : optimiseRange args reversed = some stat) :
    ∃ loop values, stat.materialize = .ok loop ∧ args.values = some values ∧
      loop.range = some (if reversed then values.reverse else values) ∧ loop.Fits := by
  rw [optimiseRange] at h
  split at h
  next hsmall =>
    obtain ⟨hstart, hstop, hstep⟩ := RangeArgs.small hsmall
    have hzero : args.step ≠ 0 := by
      intro hzero
      rw [transformRangeIteration, if_pos hzero] at h
      cases h
    have hbounds := reversedBound1_bounds args.start hzero hstop hstep
    have habs : 0 < |args.step| ∧ |args.step| ≤ 2 ^ 30 :=
      ⟨abs_pos.2 hzero, abs_le.2 ⟨hstep.1, by omega⟩⟩
    have hr₁ : t.InRange
        (if reversed then reversedBound1 args.start args.stop args.step else args.start) := by
      refine t.inRange_of_small ?_
      cases reversed <;> split at hbounds <;> simp only [Bool.false_eq_true, if_true, if_false] <;>
        omega
    obtain ⟨loop, hloop, -, hvalue, hrelations, h₁, h₂⟩ :=
      materialize_transformRangeIteration h rfl hr₁ (t.inRange_of_small (by omega))
        (t.inRange_of_small (by omega)) (t.inRange_of_small (by omega))
    refine ⟨loop, _, hloop, pyRange_eq_progression hzero, ?_⟩
    rw [loop.range_eq (by omega)]
    have hfits := loop.fits_of_small (by omega) (by omega)
    rw [reversedBound1_eq] at h₁ hbounds
    rw [Prod.mk.injEq] at hrelations
    rcases lt_or_gt_of_ne hzero with hneg | hpos
    · rw [if_pos hneg] at h₁ hbounds
      rw [decide_eq_true hneg] at hrelations
      rw [abs_of_neg hneg] at hvalue
      cases reversed with
      | false =>
        obtain ⟨hr₁, hr₂⟩ : loop.relation1 = .ge ∧ loop.relation2 = .gt := hrelations
        have hs : loop.start = args.start := by
          rw [CountedLoop.start, hr₁, h₁]
          exact add_zero _
        have he : loop.stop = args.stop := by
          rw [CountedLoop.stop, hr₂, h₂]
          rfl
        have hd : loop.delta = args.step := by
          rw [CountedLoop.delta_eq, hr₂, hvalue]
          exact neg_neg _
        rw [hs, he] at hfits
        refine ⟨by rw [hs, he, hd]; rfl, hfits (by omega) (by omega)⟩
      | true =>
        obtain ⟨hr₁, hr₂⟩ : loop.relation1 = .lt ∧ loop.relation2 = .le := hrelations
        have hs : loop.start =
            args.start - -args.step * ((args.start - args.stop - 1) / -args.step) := by
          rw [CountedLoop.start, hr₁, h₁]
          exact sub_add_cancel _ _
        have he : loop.stop = args.start + 1 := by
          rw [CountedLoop.stop, hr₂, h₂]
          rfl
        have hd : loop.delta = -args.step := by
          rw [CountedLoop.delta_eq, hr₂, hvalue]
          rfl
        rw [he] at hfits
        refine ⟨?_, hfits (by omega) (by omega)⟩
        rw [hs, he, hd, if_pos rfl, reverse_range_of_neg _ _ hneg]
    · rw [if_neg hpos.not_gt] at h₁ hbounds
      rw [decide_eq_false hpos.not_gt] at hrelations
      rw [abs_of_pos hpos] at hvalue
      cases reversed with
      | false =>
        obtain ⟨hr₁, hr₂⟩ : loop.relation1 = .le ∧ loop.relation2 = .lt := hrelations
        have hs : loop.start = args.start := by
          rw [CountedLoop.start, hr₁, h₁]
          exact add_zero _
        have he : loop.stop = args.stop := by
          rw [CountedLoop.stop, hr₂, h₂]
          rfl
        have hd : loop.delta = args.step := by
          rw [CountedLoop.delta_eq, hr₂, hvalue]
          rfl
        rw [hs, he] at hfits
        refine ⟨by rw [hs, he, hd]; rfl, hfits (by omega) (by omega)⟩
      | true =>
        obtain ⟨hr₁, hr₂⟩ : loop.relation1 = .gt ∧ loop.relation2 = .ge := hrelations
        have hs : loop.start =
            args.start + args.step * ((args.stop - args.start - 1) / args.step) := by
          rw [CountedLoop.start, hr₁, h₁]
          exact add_neg_cancel_right _ _
        have he : loop.stop = args.start - 1 := by
          rw [CountedLoop.stop, hr₂, h₂]
          rfl
        have hd : loop.delta = -args.step := by
          rw [CountedLoop.delta_eq, hr₂, hvalue]
          rfl
        rw [he] at hfits
        refine ⟨?_, hfits (by omega) (by omega)⟩
        rw [hs, he, hd, if_pos rfl, reverse_range_of_pos _ _ hpos]
  next hsmall => cases h

/-! ## For-from statements -/

/-- A for-from statement whose bounds are accepted binds the values of its range exactly if its
    loop fits, and the statements that replace loops over `range` all do. -/
theorem forFromStat_bindsRange {stat : ForFromStat t} {loop : CountedLoop t}
    (h : stat.materialize = .ok loop) :
    (loop.BindsRange ↔ loop.Fits) ∧
    ∀ (args : RangeArgs) (reversed : Bool), optimiseRange args reversed = some stat →
      ∃ values, args.values = some values ∧
        loop.range = some (if reversed then values.reverse else values) ∧ loop.BindsRange := by
  refine ⟨⟨CountedLoop.BindsRange.fits, CountedLoop.Fits.bindsRange⟩, fun args reversed hstat => ?_⟩
  obtain ⟨loop', values, hloop', hvalues, hrange, hfits⟩ := optimiseRange_fits hstat
  obtain rfl : loop' = loop := Except.ok.inj (hloop'.symm.trans h)
  exact ⟨values, hvalues, hrange, hfits.bindsRange⟩

/-- `for i from start <= i < stop by 2`, with objects as bounds. -/
def byTwo (start stop : ℤ) : ForFromStat ssize64 :=
  ⟨.object (.int start), .le, .lt, .object (.int stop), some (.int 2), rfl⟩

theorem inRange_ssize64 {v : ℤ} : ssize64.InRange v ↔ -2 ^ 63 ≤ v ∧ v < 2 ^ 63 :=
  CIntType.inRange_signed rfl

theorem materialize_byTwo {start stop : ℤ} (hstart : ssize64.InRange start)
    (hstop : ssize64.InRange stop) :
    ∃ loop, (byTwo start stop).materialize = .ok loop ∧ loop.start = start ∧ loop.stop = stop ∧
      loop.delta = 2 := by
  have h₁ : materializeSsizeExpression (.object (.int start)) = .ok ⟨start, hstart⟩ :=
    materializeSsizeExpression_object.2 rfl
  have h₂ : materializeSsizeExpression (.object (.int stop)) = .ok ⟨stop, hstop⟩ :=
    materializeSsizeExpression_object.2 rfl
  have h₃ : ssize64.convert 2 = 2 :=
    CIntType.convert_of_inRange (inRange_ssize64.2 (by norm_num))
  refine ⟨⟨⟨start, hstart⟩, .le, .lt, ⟨stop, hstop⟩, some ⟨_, CIntType.inRange_convert _ 2⟩, rfl⟩,
    ?_, add_zero _, rfl, h₃⟩
  simp only [ForFromStat.materialize, byTwo, h₁, h₂]
  rfl

theorem forFromStat_bindsRange_byTwo :
    ∃ loop, (byTwo 1 6).materialize = .ok loop ∧ loop.range = some [1, 3, 5] ∧
      (loop.BindsRange ↔ loop.Fits) := by
  obtain ⟨loop, hloop, hstart, hstop, hdelta⟩ := materialize_byTwo
    (inRange_ssize64.2 (by norm_num : (-2 ^ 63 : ℤ) ≤ 1 ∧ (1 : ℤ) < 2 ^ 63))
    (inRange_ssize64.2 (by norm_num : (-2 ^ 63 : ℤ) ≤ 6 ∧ (6 : ℤ) < 2 ^ 63))
  refine ⟨loop, hloop, ?_, (forFromStat_bindsRange hloop).1⟩
  rw [CountedLoop.range, hstart, hstop, hdelta]
  decide

/-- The range has one value, and the addition after it overflows. -/
theorem forFromStat_bindsRange_overflow :
    ∃ loop, (byTwo (2 ^ 63 - 2) (2 ^ 63 - 1)).materialize = .ok loop ∧
      loop.range = some [2 ^ 63 - 2] ∧ ¬loop.BindsRange := by
  obtain ⟨loop, hloop, hstart, hstop, hdelta⟩ := materialize_byTwo
    (inRange_ssize64.2 (by norm_num : (-2 ^ 63 : ℤ) ≤ 2 ^ 63 - 2 ∧ (2 ^ 63 - 2 : ℤ) < 2 ^ 63))
    (inRange_ssize64.2 (by norm_num : (-2 ^ 63 : ℤ) ≤ 2 ^ 63 - 1 ∧ (2 ^ 63 - 1 : ℤ) < 2 ^ 63))
  have hlength : rangeLength loop.start loop.stop loop.delta = 1 := by
    rw [hstart, hstop, hdelta]
    decide
  refine ⟨loop, hloop, ?_, fun h => ?_⟩
  · rw [CountedLoop.range, pyRange, hlength, hstart, hdelta]
    rfl
  · rcases h.fits.past with ⟨-, hpast⟩ | ⟨-, heq⟩
    · rw [hlength, hstart, hdelta, inRange_ssize64] at hpast
      have := hpast Nat.one_pos
      norm_num at this
    · rw [hstart, hstop] at heq
      norm_num at heq

end AHPy.ModuleWriter
