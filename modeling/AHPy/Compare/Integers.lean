import AHPy.Lib.Lexicographic
import AHPy.Compare.FastPaths

/-!
# Comparing integers

* `PyLong.value_of_isCompact`, `PyLong.le_magnitude`: what the number of digits says of
  the value;
* `PyLong.compareSignAndSize_spec`, `compareDigits_spec`: the steps of the comparison;
* `compareIntInt_spec`: the comparison is that of the values.
-/

namespace AHPy.Compare

/-! ## Operators -/

theorem Op.ints_eq (op : Op) (a b : Int) : op.ints a b = op.holds (compare a b) := by
  rcases lt_trichotomy a b with h | h | h
  · rw [compare_lt_iff_lt.2 h]
    rcases op <;> simp [Op.ints, Op.holds, h, h.ne, h.le, h.not_gt, h.not_ge]
  · subst h
    rw [compare_eq_iff_eq.2 rfl]
    rcases op <;> simp [Op.ints, Op.holds]
  · rw [compare_gt_iff_gt.2 h]
    rcases op <;> simp [Op.ints, Op.holds, h, h.ne', h.le, h.not_gt, h.not_ge]

/-- An integer in the place of an order. -/
def orderOf (cmp : Int) : Ordering := compare cmp 0

theorem Op.ints_zero (op : Op) (cmp : Int) : op.ints cmp 0 = op.holds (orderOf cmp) :=
  op.ints_eq cmp 0

theorem orderOf_sub (a b : Int) : orderOf (a - b) = compare a b := by
  rw [orderOf]
  rcases lt_trichotomy a b with h | h | h
  · rw [compare_lt_iff_lt.2 h, compare_lt_iff_lt.2 (Int.sub_neg_of_lt h)]
  · rw [h, Int.sub_self, compare_eq_iff_eq.2 rfl, compare_eq_iff_eq.2 rfl]
  · rw [compare_gt_iff_gt.2 h, compare_gt_iff_gt.2 (Int.sub_pos_of_lt h)]

theorem orderOf_zero : orderOf 0 = .eq := rfl

theorem orderOf_eq_eq {cmp : Int} : orderOf cmp = .eq ↔ cmp = 0 := compare_eq_iff_eq

theorem orderOf_neg (cmp : Int) : orderOf (-cmp) = (orderOf cmp).swap := by
  rw [orderOf, orderOf]
  rcases lt_trichotomy cmp 0 with h | h | h
  · rw [compare_lt_iff_lt.2 h, compare_gt_iff_gt.2 (Int.neg_pos_of_neg h)]
    rfl
  · rw [h]
    rfl
  · rw [compare_gt_iff_gt.2 h, compare_lt_iff_lt.2 (Int.neg_neg_of_pos h)]
    rfl

theorem compare_natCast (a b : Nat) : compare (a : Int) b = compare a b := by
  rcases lt_trichotomy a b with h | h | h
  · rw [compare_lt_iff_lt.2 h, compare_lt_iff_lt.2 (Int.ofNat_lt.2 h)]
  · rw [compare_eq_iff_eq.2 h, compare_eq_iff_eq.2 (congrArg _ h)]
  · rw [compare_gt_iff_gt.2 h, compare_gt_iff_gt.2 (Int.ofNat_lt.2 h)]

theorem compare_neg_neg (a b : Int) : compare (-a) (-b) = (compare a b).swap := by
  rw [← orderOf_sub, ← orderOf_sub, ← orderOf_neg]
  congr 1
  omega

/-! ## Digits -/

namespace PyLong

variable {shift : Nat} {x a b : PyLong shift}

theorem magnitude_lt (hshift : 0 < shift) (x : PyLong shift) :
    x.magnitude < (2 ^ shift) ^ x.digitCount :=
  Nat.ofDigits_lt_base_pow_length (Nat.one_lt_two_pow hshift.ne') x.digits_lt

theorem pow_le_magnitude (hshift : 0 < shift) (h : x.digits ≠ []) :
    (2 ^ shift) ^ (x.digitCount - 1) ≤ x.magnitude := by
  obtain ⟨base, hbase⟩ := Nat.exists_eq_add_of_le' (Nat.one_lt_two_pow hshift.ne')
  have hlast : x.digits.getLast h ≠ 0 := fun hzero =>
    x.normalized (by rw [List.getLast?_eq_some_getLast h, hzero])
  have hle := Nat.pow_length_le_mul_ofDigits (b := base) h hlast
  have hpos : 0 < x.digits.length := List.length_pos_iff.2 h
  rw [magnitude, digitCount, hbase]
  rw [← Nat.succ_pred_eq_of_pos hpos, Nat.pow_succ, Nat.mul_comm] at hle
  exact Nat.le_of_mul_le_mul_left hle (Nat.succ_pos _)

/-- An integer with more than one digit. -/
theorem le_magnitude (hshift : 0 < shift) (h : 1 < x.digitCount) : 2 ^ shift ≤ x.magnitude := by
  have hne : x.digits ≠ [] := List.length_pos_iff.1 (Nat.lt_of_succ_lt h)
  calc 2 ^ shift = (2 ^ shift) ^ 1 := (Nat.pow_one _).symm
    _ ≤ (2 ^ shift) ^ (x.digitCount - 1) :=
      Nat.pow_le_pow_right (Nat.two_pow_pos shift) (Nat.le_sub_one_of_lt h)
    _ ≤ x.magnitude := pow_le_magnitude hshift hne

/-- More digits make a larger magnitude. -/
theorem magnitude_lt_of_digitCount_lt (hshift : 0 < shift) (h : a.digitCount < b.digitCount) :
    a.magnitude < b.magnitude := by
  have hne : b.digits ≠ [] := List.length_pos_iff.1 (Nat.zero_lt_of_lt h)
  calc a.magnitude < (2 ^ shift) ^ a.digitCount := magnitude_lt hshift a
    _ ≤ (2 ^ shift) ^ (b.digitCount - 1) :=
      Nat.pow_le_pow_right (Nat.two_pow_pos shift) (Nat.le_sub_one_of_lt h)
    _ ≤ b.magnitude := pow_le_magnitude hshift hne

/-- The three kinds of integers. -/
inductive Kind (x : PyLong shift) : Prop where
  | zero (sign : x.sign = 0) (neg : x.negative = false) (count : x.digitCount = 0)
      (value : x.value = 0)
  | positive (sign : x.sign = 1) (neg : x.negative = false) (count : 0 < x.digitCount)
      (value : x.value = x.magnitude) (pos : 0 < x.magnitude)
  | negative (sign : x.sign = -1) (neg : x.negative = true) (count : 0 < x.digitCount)
      (value : x.value = -x.magnitude) (pos : 0 < x.magnitude)

theorem kind (hshift : 0 < shift) (x : PyLong shift) : x.Kind := by
  by_cases hdigits : x.digits = []
  · have hneg : x.negative = false := by
      rw [← Bool.not_eq_true]
      exact fun h => x.negative_ne h hdigits
    refine .zero (if_pos hdigits) hneg (congrArg List.length hdigits) ?_
    rw [value, hneg, magnitude, hdigits]
    rfl
  · have hcount : 0 < x.digitCount := List.length_pos_iff.2 hdigits
    have hpos : 0 < x.magnitude :=
      (Nat.pow_pos (Nat.two_pow_pos shift)).trans_le (pow_le_magnitude hshift hdigits)
    rcases hneg : x.negative
    · refine .positive ?_ hneg hcount (by rw [value, hneg]; rfl) hpos
      rw [sign, if_neg hdigits, hneg]
      rfl
    · refine .negative ?_ hneg hcount (by rw [value, hneg]; rfl) hpos
      rw [sign, if_neg hdigits, hneg]
      rfl

theorem value_of_isCompact (h : x.isCompact = true) : x.value = x.compactValue := by
  have hlength : x.digits.length ≤ 1 := of_decide_eq_true h
  rcases hdigits : x.digits with _ | ⟨d, rest⟩
  · have hneg : x.negative = false := by
      rw [← Bool.not_eq_true]
      exact fun h => x.negative_ne h hdigits
    rw [value, hneg, magnitude, hdigits, compactValue, sign, if_pos hdigits, Int.zero_mul]
    rfl
  · obtain rfl : rest = [] := by
      rw [hdigits, List.length_cons] at hlength
      exact List.length_eq_zero_iff.1 (by omega)
    have hne : x.digits ≠ [] := by
      rw [hdigits]
      exact List.cons_ne_nil d []
    have hdigit : x.digit 0 = d := by
      rw [digit, hdigits]
      rfl
    rw [value, magnitude, compactValue, sign, if_neg hne, hdigit, hdigits,
      Nat.ofDigits_singleton]
    rcases x.negative
    · exact (Int.one_mul _).symm
    · exact (Int.neg_one_mul _).symm

theorem pySize_lt (hshift : 0 < shift) (h : a.sign < b.sign) : a.pySize < b.pySize := by
  rw [pySize, pySize]
  rcases kind hshift a with ⟨hs, _, hc, _⟩ | ⟨hs, _, hc, _, _⟩ | ⟨hs, _, hc, _, _⟩ <;>
  rcases kind hshift b with ⟨hs', _, hc', _⟩ | ⟨hs', _, hc', _, _⟩ | ⟨hs', _, hc', _, _⟩ <;>
  rw [hs, hs'] at h ⊢ <;>
  omega

theorem compareSignAndSize_of_lt (hshift : 0 < shift) (tagged : Bool) (h : a.sign < b.sign) :
    a.compareSignAndSize b tagged < 0 := by
  rw [compareSignAndSize]
  rcases tagged
  · exact Int.sub_neg_of_lt (pySize_lt hshift h)
  · rw [if_pos rfl, if_pos (by rw [signBits, signBits]; omega)]
    decide

theorem compareSignAndSize_of_gt (hshift : 0 < shift) (tagged : Bool) (h : b.sign < a.sign) :
    0 < a.compareSignAndSize b tagged := by
  rw [compareSignAndSize]
  rcases tagged
  · exact Int.sub_pos_of_lt (pySize_lt hshift h)
  · rw [if_pos rfl, if_neg (by rw [signBits, signBits]; omega),
      if_pos (by rw [signBits, signBits]; omega)]
    decide

theorem compareSignAndSize_of_eq (tagged : Bool) (h : a.sign = b.sign) :
    a.compareSignAndSize b tagged = a.sign * (a.digitCount - b.digitCount) := by
  rw [compareSignAndSize]
  rcases tagged
  · rw [if_neg Bool.false_ne_true, pySize, pySize, h, Int.mul_sub]
  · rw [if_pos rfl, signBits, signBits, h, if_neg (lt_irrefl _), if_neg (lt_irrefl _),
      Int.sub_sub_self]

theorem value_lt_of_sign_lt (hshift : 0 < shift) (h : a.sign < b.sign) : a.value < b.value := by
  rcases kind hshift a with ⟨hs, _, _, hv⟩ | ⟨hs, _, _, hv, hp⟩ | ⟨hs, _, _, hv, hp⟩ <;>
  rcases kind hshift b with ⟨hs', _, _, hv'⟩ | ⟨hs', _, _, hv', hp'⟩ | ⟨hs', _, _, hv', hp'⟩ <;>
  rw [hs, hs'] at h <;>
  omega

/-- The comparison of signs and sizes decides the order, unless they are the same. -/
theorem compareSignAndSize_spec (hshift : 0 < shift) (tagged : Bool) (a b : PyLong shift) :
    a.compareSignAndSize b tagged ≠ 0 ∧
        orderOf (a.compareSignAndSize b tagged) = compare a.value b.value ∨
      a.compareSignAndSize b tagged = 0 ∧ a.sign = b.sign ∧ a.digitCount = b.digitCount := by
  have less : a.compareSignAndSize b tagged < 0 → a.value < b.value →
      a.compareSignAndSize b tagged ≠ 0 ∧
        orderOf (a.compareSignAndSize b tagged) = compare a.value b.value := fun hc hv =>
    ⟨hc.ne, (compare_lt_iff_lt.2 hc).trans (compare_lt_iff_lt.2 hv).symm⟩
  have greater : 0 < a.compareSignAndSize b tagged → b.value < a.value →
      a.compareSignAndSize b tagged ≠ 0 ∧
        orderOf (a.compareSignAndSize b tagged) = compare a.value b.value := fun hc hv =>
    ⟨hc.ne', (compare_gt_iff_gt.2 hc).trans (compare_gt_iff_gt.2 hv).symm⟩
  rcases lt_trichotomy a.sign b.sign with hsign | hsign | hsign
  · exact .inl (less (compareSignAndSize_of_lt hshift tagged hsign)
      (value_lt_of_sign_lt hshift hsign))
  · rw [compareSignAndSize_of_eq tagged hsign] at *
    rcases lt_trichotomy a.digitCount b.digitCount with h | h | h
    · -- More digits make a larger magnitude, and for negative integers a smaller value.
      have hlt := magnitude_lt_of_digitCount_lt hshift h
      left
      rcases kind hshift a with ⟨hs, _, hc, hv⟩ | ⟨hs, _, hc, hv, hp⟩ | ⟨hs, _, hc, hv, hp⟩ <;>
      rcases kind hshift b with ⟨hs', _, hc', hv'⟩ | ⟨hs', _, hc', hv', hp'⟩ |
        ⟨hs', _, hc', hv', hp'⟩ <;>
      rw [hs, hs'] at hsign <;> try omega
      · exact less (by rw [hs]; omega) (by omega)
      · exact greater (by rw [hs]; omega) (by omega)
    · refine .inr ⟨?_, hsign, h⟩
      rw [h, Int.sub_self, Int.mul_zero]
    · have hgt := magnitude_lt_of_digitCount_lt hshift h
      left
      rcases kind hshift a with ⟨hs, _, hc, hv⟩ | ⟨hs, _, hc, hv, hp⟩ | ⟨hs, _, hc, hv, hp⟩ <;>
      rcases kind hshift b with ⟨hs', _, hc', hv'⟩ | ⟨hs', _, hc', hv', hp'⟩ |
        ⟨hs', _, hc', hv', hp'⟩ <;>
      rw [hs, hs'] at hsign <;> try omega
      · exact greater (by rw [hs]; omega) (by omega)
      · exact less (by rw [hs]; omega) (by omega)
  · exact .inl (greater (compareSignAndSize_of_gt hshift tagged hsign)
      (value_lt_of_sign_lt hshift hsign))

end PyLong

variable {shift : Nat} {a b : PyLong shift}

/-! ## Loops over digits -/

theorem ofDigits_take_succ (base : Nat) (digits : List Nat) (i : Nat) :
    Nat.ofDigits base (digits.take (i + 1)) =
      Nat.ofDigits base (digits.take i) + base ^ i * digits[i]?.getD 0 := by
  rcases Nat.lt_or_ge i digits.length with h | h
  · rw [List.take_succ_eq_append_getElem h, Nat.ofDigits_append, Nat.ofDigits_singleton,
      List.length_take_of_le h.le, List.getElem?_eq_getElem h, Option.getD_some]
  · rw [List.take_of_length_le h, List.take_of_length_le (Nat.le_succ_of_le h),
      List.getElem?_eq_none h, Option.getD_none, Nat.mul_zero, Nat.add_zero]

theorem ofDigits_take_lt (hshift : 0 < shift) (x : PyLong shift) {i : Nat} :
    Nat.ofDigits (2 ^ shift) (x.digits.take i) < (2 ^ shift) ^ i := by
  have hlt := Nat.ofDigits_lt_base_pow_length (Nat.one_lt_two_pow hshift.ne')
    fun d hd => x.digits_lt d (List.mem_of_mem_take (i := i) hd)
  exact hlt.trans_le (Nat.pow_le_pow_right (Nat.two_pow_pos shift) (List.length_take_le i _))

/-- The loop compares the numbers that the digits make. -/
theorem compareDigits_spec (hshift : 0 < shift) (a b : PyLong shift) (i : Nat) :
    orderOf (compareDigits a b i) = compare (Nat.ofDigits (2 ^ shift) (a.digits.take i))
      (Nat.ofDigits (2 ^ shift) (b.digits.take i)) := by
  induction i with
  | zero => rfl
  | succ i ih =>
    rw [ofDigits_take_succ, ofDigits_take_succ,
      compare_add_mul (ofDigits_take_lt hshift a) (ofDigits_take_lt hshift b), ← ih]
    have hdigit : orderOf (a.digit i - b.digit i) =
        compare (a.digits[i]?.getD 0) (b.digits[i]?.getD 0) := by
      rw [orderOf_sub, PyLong.digit, PyLong.digit, compare_natCast]
    rw [← hdigit, compareDigits]
    by_cases h : a.digit i - b.digit i = 0
    · simp only [h, ne_eq, not_true_eq_false, if_false]
      rfl
    · simp only [ne_eq, h, not_false_eq_true, if_true]
      have hne : orderOf (a.digit i - b.digit i) ≠ .eq := fun heq => h (orderOf_eq_eq.1 heq)
      rcases horder : orderOf (a.digit i - b.digit i)
      · rfl
      · exact absurd horder hne
      · rfl

theorem take_digitCount (x : PyLong shift) {n : Nat} (h : x.digitCount = n) :
    Nat.ofDigits (2 ^ shift) (x.digits.take n) = x.magnitude := by
  rw [List.take_of_length_le (Nat.le_of_eq h), PyLong.magnitude]

/-! ## The comparison -/

theorem asIntegerAndOverflow_spec (x : PyLong shift) (bits : Nat) :
    x.asIntegerAndOverflow bits = (-1, 1) ∧ 2 ^ (bits - 1) ≤ x.value ∨
      x.asIntegerAndOverflow bits = (-1, -1) ∧ x.value < -2 ^ (bits - 1) ∨
      x.asIntegerAndOverflow bits = (x.value, 0) ∧ -2 ^ (bits - 1) ≤ x.value ∧
        x.value < 2 ^ (bits - 1) := by
  rw [PyLong.asIntegerAndOverflow]
  by_cases hlarge : x.value ≥ 2 ^ (bits - 1)
  · exact .inl ⟨if_pos hlarge, hlarge⟩
  · rw [if_neg hlarge]
    by_cases hsmall : x.value < -2 ^ (bits - 1)
    · exact .inr (.inl ⟨if_pos hsmall, hsmall⟩)
    · exact .inr (.inr ⟨if_neg hsmall, not_lt.1 hsmall, not_le.1 hlarge⟩)

theorem Config.shift_pos (cfg : Config) : 0 < cfg.shift := by
  rcases cfg.shift_eq with h | h <;> rw [h] <;> decide

theorem joinDigits_eq (x : PyLong shift) :
    joinDigits x = ((Nat.ofDigits (2 ^ shift) (x.digits.take 2) : Nat) : Int) := by
  rw [ofDigits_take_succ, ofDigits_take_succ, joinDigits, PyLong.digit, PyLong.digit,
    List.take_zero, Nat.ofDigits_nil]
  push_cast
  ring

theorem compareAllDigits_spec (cfg : Config) (a b : PyLong cfg.shift)
    (h : a.digitCount = b.digitCount) :
    orderOf (compareAllDigits cfg a b) = compare a.magnitude b.magnitude := by
  have hloop := compareDigits_spec cfg.shift_pos a b a.digitCount
  rw [take_digitCount a rfl, take_digitCount b h.symm] at hloop
  rw [compareAllDigits]
  by_cases h₀ : a.digitCount = 0
  · rw [if_pos h₀]
    rwa [h₀] at hloop
  · rw [if_neg h₀]
    by_cases h₁ : a.digitCount = 1
    · rw [if_pos h₁, ← hloop, h₁, compareDigits]
      by_cases hzero : a.digit 0 - b.digit 0 = 0
      · simp [hzero, compareDigits]
      · simp [hzero]
    · rw [if_neg h₁]
      by_cases h₂ : a.digitCount = 2 ∧ cfg.ssizeBits ≥ 2 * cfg.shift
      · rw [if_pos h₂, orderOf_sub, joinDigits_eq, joinDigits_eq, compare_natCast,
          take_digitCount a h₂.1, take_digitCount b (h.symm.trans h₂.1)]
      · rw [if_neg h₂, hloop]

theorem unequalResult_eq (op : Op) {cmp : Int} (h : cmp ≠ 0) :
    unequalResult op cmp = op.holds (orderOf cmp) := by
  rcases lt_or_gt_of_ne h with hlt | hgt
  · rw [show orderOf cmp = .lt from compare_lt_iff_lt.2 hlt]
    rcases op <;> simp [unequalResult, hlt, Op.holds]
  · rw [show orderOf cmp = .gt from compare_gt_iff_gt.2 hgt]
    rcases op <;> simp [unequalResult, hgt.not_gt, Op.holds]

theorem mem_eq_le_ge (op : Op) : (op ∈ [Op.eq, .le, .ge] : Bool) = op.holds .eq := by
  rcases op <;> rfl

/-- Integers are compared by their values. -/
theorem compareIntInt_spec (cfg : Config) (op : Op) (a b : PyLong cfg.shift) {r : Bool}
    (h : compareIntInt cfg op a b = some r) : r = op.holds (compare a.value b.value) := by
  rw [compareIntInt] at h
  by_cases hinternals : cfg.usePyLongInternals
  · rw [if_pos hinternals] at h
    rcases PyLong.compareSignAndSize_spec cfg.shift_pos cfg.tagged a b with
      ⟨hne, horder⟩ | ⟨hzero, hsign, hcount⟩
    · simp only [if_neg hne, Option.some.injEq] at h
      rw [← h, unequalResult_eq op hne, horder]
    · simp only [if_pos hzero] at h
      have hdigits := compareAllDigits_spec cfg a b hcount
      -- The sign decides which way the magnitudes are compared.
      have hvalue : orderOf (if a.isNeg then -compareAllDigits cfg a b else
          compareAllDigits cfg a b) = compare a.value b.value := by
        rw [PyLong.isNeg]
        rcases PyLong.kind cfg.shift_pos a with ⟨hs, hn, hc, hv⟩ | ⟨hs, hn, hc, hv, hp⟩ |
          ⟨hs, hn, hc, hv, hp⟩ <;>
        rcases PyLong.kind cfg.shift_pos b with ⟨hs', hn', hc', hv'⟩ | ⟨hs', hn', hc', hv', hp'⟩ |
          ⟨hs', hn', hc', hv', hp'⟩ <;>
        rw [hs, hs'] at hsign <;> try omega
        · rw [hv, hv', hn, compareAllDigits, if_pos hc]
          rfl
        · rw [hv, hv', hn, compare_natCast, ← hdigits]
          rfl
        · rw [hv, hv', hn, compare_neg_neg, compare_natCast, ← hdigits, ← orderOf_neg]
          rfl
      by_cases hcmp : compareAllDigits cfg a b = 0
      · rw [if_pos hcmp, Option.some.injEq] at h
        rw [← h, mem_eq_le_ge, ← hvalue, hcmp, Int.neg_zero, ite_self, orderOf_zero]
      · rw [if_neg hcmp, Option.some.injEq] at h
        rw [← h, unequalResult_eq op (by split <;> omega), hvalue]
  · rw [if_neg hinternals] at h
    have hpos : (0 : Int) < 2 ^ (64 - 1) := by decide
    have less : a.value < b.value → Ordering.lt = compare a.value b.value := fun h =>
      (compare_lt_iff_lt.2 h).symm
    have greater : b.value < a.value → Ordering.gt = compare a.value b.value := fun h =>
      (compare_gt_iff_gt.2 h).symm
    rcases asIntegerAndOverflow_spec a 64 with ⟨ha, hv⟩ | ⟨ha, hv⟩ | ⟨ha, hv, hv₂⟩ <;>
    rcases asIntegerAndOverflow_spec b 64 with ⟨hb, hv'⟩ | ⟨hb, hv'⟩ | ⟨hb, hv', hv₂'⟩ <;>
    simp [ha, hb, Op.ints_eq] at h <;>
    rw [← h] <;>
    congr 1
    · exact greater (by omega)
    · exact greater (by omega)
    · exact less (by omega)
    · exact less (by omega)
    · exact less (by omega)
    · exact greater (by omega)

end AHPy.Compare
