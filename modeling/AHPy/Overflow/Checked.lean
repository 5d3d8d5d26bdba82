import AHPy.Overflow.Helpers

/-!
# The base cases

The portable functions for `int`, `long` and `long long` do what the builtins of
compilers do.

* `baseCase_eq_builtin`: the value is the result, converted to the type, and the flag is
  set if it does not fit.
-/

namespace AHPy.Overflow

open CIntType

variable {p : CPlatform} {t wide : CIntType} {a b v : ℤ}

/-! ## Limits -/

theorem min_eq_lo (t : CIntType) : min t = t.lo := by
  rw [min, lo]
  by_cases ht : t.signed = true
  · have hpow : (2 : ℤ) ^ (t.width - 1) = 2 * 2 ^ (t.width - 2) := by
      have hwidth := t.le_width
      rw [← pow_succ']
      congr 1
      omega
    rw [if_pos ht, if_pos ht, halfMax, hpow]
    ring
  · rw [if_neg ht, if_neg ht]

/-- In types that are not promoted, the limit is the greatest value. -/
theorem max_eq (h : p.int ≤ t.width) : max p t = t.lo + 2 ^ t.width - 1 := by
  rw [max, CPlatform.promoted, if_neg (Nat.not_lt.2 h), min_eq_lo]
  have hpos : (0 : ℤ) < 2 ^ (t.width - 1) := by positivity
  have hwidth := two_pow_width t
  by_cases ht : t.signed = true
  · have hlo : t.lo = -2 ^ (t.width - 1) := if_pos ht
    rw [convert_of_inRange ((inRange_signed ht).2 (by omega))]
    omega
  · have hlo : t.lo = 0 := if_neg ht
    refine convert_eq_of_inRange ((inRange_unsigned (Bool.eq_false_iff.2 ht)).2 (by omega)) ?_
    rw [hlo]
    exact (Int.modEq_iff_dvd).2 ⟨-1, by ring⟩

/-! ## Wider types -/

/-- A result that fits into a wider type is checked by a conversion. -/
theorem ne_convert_iff : v ≠ t.convert v ↔ ¬t.InRange v :=
  not_congr ⟨fun h => h ▸ inRange_convert t v, fun h => (convert_of_inRange h).symm⟩

theorem decide_eq_not_decide {c d : Prop} [Decidable c] [Decidable d] (h : c ↔ ¬d) :
    decide c = !decide d := by
  rw [← decide_not]
  exact decide_eq_decide.2 h

theorem decide_ne_convert (t : CIntType) (v : ℤ) :
    decide (v ≠ t.convert v) = !decide (t.InRange v) :=
  decide_eq_not_decide ne_convert_iff

theorem add_inRange (ht : t.signed = true) (hwide : wide.signed = true)
    (hwidth : 2 * t.width ≤ wide.width) (ha : t.InRange a) (hb : t.InRange b) :
    wide.InRange (a + b) := by
  have ha := (inRange_signed ht).1 ha
  have hb := (inRange_signed ht).1 hb
  have hle : (2 : ℤ) ^ t.width ≤ 2 ^ (wide.width - 1) :=
    pow_le_pow_right₀ (by norm_num) (by have := t.le_width; omega)
  have hpow := two_pow_width t
  exact (inRange_signed hwide).2 (by omega)

theorem mul_inRange (h : wide.signed = t.signed) (hwidth : 2 * t.width ≤ wide.width)
    (ha : t.InRange a) (hb : t.InRange b) : wide.InRange (a * b) := by
  by_cases ht : t.signed = true
  · have ha := (inRange_signed ht).1 ha
    have hb := (inRange_signed ht).1 hb
    have habs : |a * b| ≤ 2 ^ (t.width - 1) * 2 ^ (t.width - 1) := by
      rw [abs_mul]
      exact mul_le_mul (abs_le.2 ⟨ha.1, ha.2.le⟩) (abs_le.2 ⟨hb.1, hb.2.le⟩) (abs_nonneg b)
        (by positivity)
    have hlt : (2 : ℤ) ^ (t.width - 1) * 2 ^ (t.width - 1) < 2 ^ (wide.width - 1) := by
      rw [← pow_add]
      exact pow_lt_pow_right₀ (by norm_num) (by have := t.le_width; omega)
    have hle := abs_le.1 habs
    exact (inRange_signed (h.trans ht)).2 (by omega)
  · have ht := Bool.eq_false_iff.2 ht
    have ha := (inRange_unsigned ht).1 ha
    have hb := (inRange_unsigned ht).1 hb
    refine (inRange_unsigned (h.trans ht)).2 ⟨mul_nonneg ha.1 hb.1, ?_⟩
    calc a * b < 2 ^ t.width * 2 ^ t.width := mul_lt_mul'' ha.2 hb.2 ha.1 hb.1
      _ = 2 ^ (2 * t.width) := by rw [← pow_add, two_mul]
      _ ≤ 2 ^ wide.width := pow_le_pow_right₀ (by norm_num) hwidth

variable (overflow : Bool)

theorem addWide_eq (h : wide.InRange (a + b)) :
    addWide t a b overflow wide = builtinOverflow t overflow (a + b) := by
  rw [addWide, arith_of_inRange h, builtinOverflow, ← decide_ne_convert]
  rfl

theorem mulWide_eq (h : wide.InRange (a * b)) :
    mulWide t a b overflow wide = builtinOverflow t overflow (a * b) := by
  rw [mulWide, arith_of_inRange h, builtinOverflow, ← decide_ne_convert]
  rfl

/-! ## Unsigned types -/

theorem addUnsigned_eq (ht : t.signed = false) (ha : t.InRange a) (hb : t.InRange b) :
    addUnsigned t a b overflow = builtinOverflow t overflow (a + b) := by
  have hflag : decide (t.convert (a + b) < a) = !decide (t.InRange (a + b)) := by
    refine decide_eq_not_decide ?_
    have ha' := (inRange_unsigned ht).1 ha
    have hb' := (inRange_unsigned ht).1 hb
    by_cases h : t.InRange (a + b)
    · rw [convert_of_inRange h]
      exact iff_of_false (by omega) (not_not.2 h)
    · refine iff_of_true ?_ h
      rw [inRange_unsigned ht] at h
      have hwrap : t.convert (a + b) = a + b - 2 ^ t.width :=
        convert_eq_of_inRange ((inRange_unsigned ht).2 (by omega)) (Int.modEq_iff_dvd.2 ⟨1, by ring⟩)
      omega
  rw [addUnsigned, arith_unsigned ht, builtinOverflow, ← hflag]
  rfl

theorem subUnsigned_eq (ht : t.signed = false) (ha : t.InRange a) (hb : t.InRange b) :
    subUnsigned t a b overflow = builtinOverflow t overflow (a - b) := by
  have hflag : decide (t.convert (a - b) > a) = !decide (t.InRange (a - b)) := by
    refine decide_eq_not_decide ?_
    have ha' := (inRange_unsigned ht).1 ha
    have hb' := (inRange_unsigned ht).1 hb
    by_cases h : t.InRange (a - b)
    · rw [convert_of_inRange h]
      exact iff_of_false (by omega) (not_not.2 h)
    · refine iff_of_true ?_ h
      rw [inRange_unsigned ht] at h
      have hwrap : t.convert (a - b) = a - b + 2 ^ t.width :=
        convert_eq_of_inRange ((inRange_unsigned ht).2 (by omega)) Int.add_modEq_right
      omega
  rw [subUnsigned, arith_unsigned ht, builtinOverflow, ← hflag]
  rfl

/-- The division tells whether a product is at most the limit. -/
theorem mulConstUnsigned'_eq (hp : p.int ≤ t.width) (ht : t.signed = false) (ha : t.InRange a)
    (hb : t.InRange b) :
    mulConstUnsigned' p t a b overflow = builtinOverflow t overflow (a * b) := by
  have ha' := (inRange_unsigned ht).1 ha
  have hb' := (inRange_unsigned ht).1 hb
  have hmax : max p t = 2 ^ t.width - 1 := by
    rw [max_eq hp, lo, ht]
    exact congrArg (· - 1) (zero_add _)
  have hrange : t.InRange (a * b) ↔ a * b < 2 ^ t.width :=
    (inRange_unsigned ht).trans (and_iff_right (mul_nonneg ha'.1 hb'.1))
  rw [mulConstUnsigned', arith_unsigned ht, builtinOverflow]
  show some (_, if b ≠ 0 then overflow || decide (a > max p t / b) else overflow) = _
  by_cases hzero : b = 0
  · have hin : t.InRange (a * b) := by
      rw [hzero, mul_zero]
      exact inRange_zero
    rw [if_neg (not_not.2 hzero), decide_eq_true hin, Bool.not_true, Bool.or_false]
  · have hflag : decide (a > max p t / b) = !decide (t.InRange (a * b)) := by
      refine decide_eq_not_decide ?_
      have hpos : 0 < b := by omega
      rw [hrange, hmax, gt_iff_lt, Int.ediv_lt_iff_lt_mul hpos]
      omega
    rw [if_pos hzero, hflag]

/-! ## Signed types -/

/-- Where a sum or a difference wraps to. -/
theorem convert_of_lt_two_mul (ht : t.signed = true) (hlo : -2 ^ t.width ≤ v)
    (hhi : v < 2 ^ t.width) :
    t.InRange v ∧ t.convert v = v ∨ 2 ^ (t.width - 1) ≤ v ∧ t.convert v = v - 2 ^ t.width ∨
      v < -2 ^ (t.width - 1) ∧ t.convert v = v + 2 ^ t.width := by
  have hwidth := two_pow_width t
  have hpos : (0 : ℤ) < 2 ^ (t.width - 1) := by positivity
  rcases lt_or_ge v (-2 ^ (t.width - 1)) with h | h
  · refine .inr (.inr ⟨h, convert_eq_of_inRange ((inRange_signed ht).2 (by omega)) ?_⟩)
    exact Int.add_modEq_right
  rcases lt_or_ge v (2 ^ (t.width - 1)) with h' | h'
  · have hin : t.InRange v := (inRange_signed ht).2 ⟨h, h'⟩
    exact .inl ⟨hin, convert_of_inRange hin⟩
  · refine .inr (.inl ⟨h', convert_eq_of_inRange ((inRange_signed ht).2 (by omega)) ?_⟩)
    exact Int.modEq_iff_dvd.2 ⟨1, by ring⟩

theorem convert_unsigned_convert (t : CIntType) (v : ℤ) :
    t.convert (t.unsigned.convert v) = t.convert v :=
  convert_eq_convert_iff.2 (convert_modEq (t := t.unsigned) v)

theorem convert_add (t : CIntType) (a b : ℤ) :
    t.convert (t.unsigned.convert (t.unsigned.convert a + t.unsigned.convert b)) =
      t.convert (a + b) := by
  rw [convert_unsigned_convert, convert_eq_convert_iff]
  exact (convert_modEq (t := t.unsigned) a).add (convert_modEq (t := t.unsigned) b)

theorem convert_sub (t : CIntType) (a b : ℤ) :
    t.convert (t.unsigned.convert (t.unsigned.convert a - t.unsigned.convert b)) =
      t.convert (a - b) := by
  rw [convert_unsigned_convert, convert_eq_convert_iff]
  exact (convert_modEq (t := t.unsigned) a).sub (convert_modEq (t := t.unsigned) b)

theorem convert_mul (t : CIntType) (a b : ℤ) :
    t.convert (t.unsigned.convert (t.unsigned.convert a * t.unsigned.convert b)) =
      t.convert (a * b) := by
  rw [convert_unsigned_convert, convert_eq_convert_iff]
  exact (convert_modEq (t := t.unsigned) a).mul (convert_modEq (t := t.unsigned) b)

/-- The signs tell whether a sum fits. -/
theorem add_signs (ht : t.signed = true) (ha : t.InRange a) (hb : t.InRange b) :
    ((t.bits a ^^^ t.bits (t.convert (a + b))) &&& (t.bits b ^^^ t.bits (t.convert (a + b)))) >>>
      (t.width - 1) ≠ 0 ↔ ¬t.InRange (a + b) := by
  have hr := inRange_convert t (a + b)
  rw [signs_differ_iff ht ha hr hb hr]
  have ha' := (inRange_signed ht).1 ha
  have hb' := (inRange_signed ht).1 hb
  have hwidth := two_pow_width t
  rcases convert_of_lt_two_mul ht (v := a + b) (by omega) (by omega) with
    ⟨hin, h⟩ | ⟨hout, h⟩ | ⟨hout, h⟩
  · rw [h]
    exact iff_of_false (by omega) (not_not.2 hin)
  · rw [h, inRange_signed ht]
    exact iff_of_true (by omega) (by omega)
  · rw [h, inRange_signed ht]
    exact iff_of_true (by omega) (by omega)

/-- The signs tell whether a difference fits. -/
theorem sub_signs (ht : t.signed = true) (ha : t.InRange a) (hb : t.InRange b) :
    ((t.bits a ^^^ t.bits b) &&& (t.bits a ^^^ t.bits (t.convert (a - b)))) >>>
      (t.width - 1) ≠ 0 ↔ ¬t.InRange (a - b) := by
  have hr := inRange_convert t (a - b)
  rw [signs_differ_iff ht ha hb ha hr]
  have ha' := (inRange_signed ht).1 ha
  have hb' := (inRange_signed ht).1 hb
  have hwidth := two_pow_width t
  rcases convert_of_lt_two_mul ht (v := a - b) (by omega) (by omega) with
    ⟨hin, h⟩ | ⟨hout, h⟩ | ⟨hout, h⟩
  · rw [h]
    exact iff_of_false (by omega) (not_not.2 hin)
  · rw [h, inRange_signed ht]
    exact iff_of_true (by omega) (by omega)
  · rw [h, inRange_signed ht]
    exact iff_of_true (by omega) (by omega)

theorem addSigned_eq (ht : t.signed = true) (ha : t.InRange a) (hb : t.InRange b)
    (hlong : t.width < p.long → 2 * t.width ≤ p.long)
    (hlongLong : t.width < p.longLong → 2 * t.width ≤ p.longLong) :
    addSigned p t a b overflow = builtinOverflow t overflow (a + b) := by
  rw [addSigned]
  by_cases h : t.width < p.long
  · rw [if_pos h]
    exact addWide_eq overflow (add_inRange ht rfl (hlong h) ha hb)
  rw [if_neg h]
  by_cases h : t.width < p.longLong
  · rw [if_pos h]
    exact addWide_eq overflow (add_inRange ht rfl (hlongLong h) ha hb)
  rw [if_neg h, arith_unsigned rfl]
  generalize hr : t.unsigned.convert (t.unsigned.convert a + t.unsigned.convert b) = r
  have hconvert : t.convert r = t.convert (a + b) := by rw [← hr, convert_add]
  have hbits : t.bits r = t.bits (t.convert (a + b)) := by rw [← hconvert, bits_convert]
  show some (t.convert r, overflow || decide (((t.bits a ^^^ t.bits r) &&&
    (t.bits b ^^^ t.bits r)) >>> (t.width - 1) ≠ 0)) = _
  rw [builtinOverflow, hconvert, hbits, decide_eq_not_decide (add_signs ht ha hb)]

theorem subSigned_eq (ht : t.signed = true) (ha : t.InRange a) (hb : t.InRange b) :
    subSigned t a b overflow = builtinOverflow t overflow (a - b) := by
  rw [subSigned, arith_unsigned rfl]
  generalize hr : t.unsigned.convert (t.unsigned.convert a - t.unsigned.convert b) = r
  have hconvert : t.convert r = t.convert (a - b) := by rw [← hr, convert_sub]
  have hbits : t.bits r = t.bits (t.convert (a - b)) := by rw [← hconvert, bits_convert]
  show some (t.convert r, overflow || decide (((t.bits a ^^^ t.bits b) &&&
    (t.bits a ^^^ t.bits r)) >>> (t.width - 1) ≠ 0)) = _
  rw [builtinOverflow, hconvert, hbits, decide_eq_not_decide (sub_signs ht ha hb)]

/-- The quotients of the limits tell whether a product is between them. -/
theorem quotients_pos {limit : ℤ} (hlimit : 0 < limit) (hb : 0 < b) :
    a > (limit - 1).tdiv b ∨ a < (-limit).tdiv b ↔ ¬(-limit ≤ a * b ∧ a * b < limit) := by
  have hmax : a > (limit - 1).tdiv b ↔ limit - 1 < a * b := by
    rw [Int.tdiv_eq_ediv_of_nonneg (by omega), gt_iff_lt, Int.ediv_lt_iff_lt_mul hb]
  have hmin : a < (-limit).tdiv b ↔ limit < -a * b := by
    rw [Int.neg_tdiv, Int.tdiv_eq_ediv_of_nonneg hlimit.le, lt_neg, Int.ediv_lt_iff_lt_mul hb]
  rw [hmax, hmin, neg_mul]
  omega

theorem quotients_neg {limit : ℤ} (hlimit : 0 < limit) (hb : b < 0) :
    a > (-limit).tdiv b ∨ a < (limit - 1).tdiv b ↔ ¬(-limit ≤ a * b ∧ a * b < limit) := by
  have h := quotients_pos (a := -a) hlimit (Int.neg_pos_of_neg hb)
  rw [Int.tdiv_neg, Int.tdiv_neg, neg_mul_neg] at h
  rw [← h]
  omega

/-- The quotients tell whether a product fits. -/
theorem mulConstSigned'_eq (hp : p.int ≤ t.width) (ht : t.signed = true) (ha : t.InRange a) :
    mulConstSigned' p t a b overflow = builtinOverflow t overflow (a * b) := by
  have ha' := (inRange_signed ht).1 ha
  have hlimit : (0 : ℤ) < 2 ^ (t.width - 1) := by positivity
  have hwidth := two_pow_width t
  have hmin : min t = -2 ^ (t.width - 1) := by
    rw [min_eq_lo, lo, if_pos ht]
  have hmax : max p t = 2 ^ (t.width - 1) - 1 := by
    rw [max_eq hp, lo, if_pos ht]
    omega
  have hflag : (if b > 1 then overflow || decide (a > (max p t).tdiv b) ||
        decide (a < (min t).tdiv b)
      else if b = -1 then overflow || decide (a = min t)
      else if b < -1 then overflow || decide (a > (min t).tdiv b) ||
        decide (a < (max p t).tdiv b)
      else overflow) = (overflow || !decide (t.InRange (a * b))) := by
    rw [hmin, hmax]
    by_cases h : b > 1
    · rw [if_pos h, Bool.or_assoc, ← Bool.decide_or,
        decide_eq_not_decide ((quotients_pos hlimit (by omega)).trans
          (not_congr (inRange_signed ht).symm))]
    rw [if_neg h]
    by_cases h : b = -1
    · have hlast : a = -2 ^ (t.width - 1) ↔ ¬t.InRange (a * b) := by
        rw [inRange_signed ht, h]
        omega
      rw [if_pos h, decide_eq_not_decide hlast]
    rw [if_neg h]
    by_cases h : b < -1
    · rw [if_pos h, Bool.or_assoc, ← Bool.decide_or,
        decide_eq_not_decide ((quotients_neg hlimit (by omega)).trans
          (not_congr (inRange_signed ht).symm))]
    · have hin : t.InRange (a * b) := by
        have hb : b = 0 ∨ b = 1 := by omega
        rcases hb with rfl | rfl
        · rw [mul_zero]
          exact inRange_zero
        · rwa [mul_one]
      rw [if_neg h, decide_eq_true hin, Bool.not_true, Bool.or_false]
  rw [mulConstSigned', arith_unsigned rfl, builtinOverflow, ← hflag]
  exact congrArg (fun prod => some (prod, _)) (convert_mul t a b)

/-! ## All base cases -/

variable (build : Build)

theorem mulConstUnsigned_eq (hp : p.int ≤ t.width) (ht : t.signed = false) (ha : t.InRange a)
    (hb : t.InRange b) :
    mulConstUnsigned p build t a b overflow = builtinOverflow t overflow (a * b) := by
  rw [mulConstUnsigned, mulConstUnsigned'_eq overflow hp ht ha hb,
    mulConstUnsigned'_eq overflow hp ht hb ha, mul_comm, ite_self]

theorem mulConstSigned_eq (hp : p.int ≤ t.width) (ht : t.signed = true) (ha : t.InRange a)
    (hb : t.InRange b) :
    mulConstSigned p build t a b overflow = builtinOverflow t overflow (a * b) := by
  rw [mulConstSigned, mulConstSigned'_eq overflow hp ht ha, mulConstSigned'_eq overflow hp ht hb,
    mul_comm, ite_self]

/-- The type of a base case: one of the three, after which the next ones are as wide or
    twice as wide. -/
structure IsBase (p : CPlatform) (t : CIntType) : Prop where
  int_le : p.int ≤ t.width
  long_or : t.width < p.long → 2 * t.width ≤ p.long
  longLong_or : t.width < p.longLong → 2 * t.width ≤ p.longLong

/-- A multiplication in a wider type, if there is one, or with divisions. -/
theorem mul_eq (h : IsBase p t) (ha : t.InRange a) (hb : t.InRange b) {mulConst : Result}
    (hconst : mulConst = builtinOverflow t overflow (a * b)) :
    (if t.width < p.long then mulWide t a b overflow (p.longType t.signed)
      else if t.width < p.longLong then mulWide t a b overflow (p.longLongType t.signed)
      else mulConst) = builtinOverflow t overflow (a * b) := by
  by_cases hlong : t.width < p.long
  · rw [if_pos hlong]
    exact mulWide_eq overflow (mul_inRange (t := t) rfl (h.long_or hlong) ha hb)
  rw [if_neg hlong]
  by_cases hlongLong : t.width < p.longLong
  · rw [if_pos hlongLong]
    exact mulWide_eq overflow (mul_inRange (t := t) rfl (h.longLong_or hlongLong) ha hb)
  · rw [if_neg hlongLong, hconst]

theorem mulUnsigned_eq (h : IsBase p t) (ht : t.signed = false) (ha : t.InRange a)
    (hb : t.InRange b) :
    mulUnsigned p build t a b overflow = builtinOverflow t overflow (a * b) := by
  have hconst := mulConstUnsigned_eq overflow build h.int_le ht ha hb
  have hmul := mul_eq overflow h ha hb hconst
  rw [ht] at hmul
  rw [mulUnsigned, hmul, hconst, mulConstUnsigned_eq overflow build h.int_le ht hb ha, mul_comm,
    ite_self, ite_self]

theorem mulSigned_eq (h : IsBase p t) (ht : t.signed = true) (ha : t.InRange a)
    (hb : t.InRange b) :
    mulSigned p build t a b overflow = builtinOverflow t overflow (a * b) := by
  have hconst := mulConstSigned_eq overflow build h.int_le ht ha hb
  have hmul := mul_eq overflow h ha hb hconst
  rw [ht] at hmul
  rw [mulSigned, hmul, hconst, mulConstSigned_eq overflow build h.int_le ht hb ha, mul_comm,
    ite_self, ite_self]

/-- The portable functions do what the builtins do. -/
theorem baseCase_eq_builtin {op : Op} (hop : op ≠ .lshift) (h : IsBase p t) (ha : t.InRange a)
    (hb : t.InRange b) (constRhs : Bool) :
    baseCase p build t a b overflow op constRhs =
      builtinOverflow t overflow (op.exact a b) := by
  rw [baseCase.eq_def]
  by_cases hbuiltin : build.haveBuiltinOverflow = true
  · rw [if_pos hbuiltin]
  rw [if_neg hbuiltin]
  rcases ht : t.signed <;> rcases op
  · exact addUnsigned_eq overflow ht ha hb
  · exact subUnsigned_eq overflow ht ha hb
  · show (if constRhs = true then mulConstUnsigned p build t a b overflow else
      mulUnsigned p build t a b overflow) = _
    rw [mulConstUnsigned_eq overflow build h.int_le ht ha hb,
      mulUnsigned_eq overflow build h ht ha hb, ite_self]
    rfl
  · exact absurd rfl hop
  · exact addSigned_eq overflow ht ha hb h.long_or h.longLong_or
  · exact subSigned_eq overflow ht ha hb
  · show (if constRhs = true then mulConstSigned p build t a b overflow else
      mulSigned p build t a b overflow) = _
    rw [mulConstSigned_eq overflow build h.int_le ht ha hb,
      mulSigned_eq overflow build h ht ha hb, ite_self]
    rfl
  · exact absurd rfl hop

/-!
## Checked arithmetic

For the types that are not narrower than `int`, an operation is checked exactly. For the
narrower ones, `+`, `-` and `*` are not checked at all: the result is cast to the type.

* `checks_iff`: when a checked operation can be relied on.
-/

variable {p : CPlatform} {t : CIntType} {a b : ℤ} {op : Op}

/-! ## Types that are checked -/

theorem isBase_int (p : CPlatform) (signed : Bool) : IsBase p (p.intType signed) := by
  have hlong := p.long_or
  have hlongLong := p.longLong_or
  refine ⟨le_rfl, fun h => ?_, fun h => ?_⟩
  · show 2 * p.int ≤ p.long
    exact hlong.resolve_left fun heq => absurd h (by rw [heq]; exact lt_irrefl _)
  · have h : p.int < p.longLong := h
    show 2 * p.int ≤ p.longLong
    omega

theorem isBase_long (p : CPlatform) (signed : Bool) : IsBase p (p.longType signed) := by
  have hlongLong := p.longLong_or
  refine ⟨p.int_le_long, fun h => absurd h (lt_irrefl _), fun h => ?_⟩
  have h : p.long < p.longLong := h
  show 2 * p.long ≤ p.longLong
  omega

theorem isBase_longLong (p : CPlatform) (signed : Bool) : IsBase p (p.longLongType signed) :=
  ⟨p.int_le_long.trans p.long_le_longLong, fun h => absurd h (not_lt.2 p.long_le_longLong),
    fun h => absurd h (lt_irrefl _)⟩

theorem eq_of_width_eq {u : CIntType} (hwidth : t.width = u.width)
    (hsigned : u.signed = t.signed) : u = t := by
  rcases t with ⟨w, s, h⟩
  rcases u with ⟨w', s', h'⟩
  obtain rfl : w = w' := hwidth
  obtain rfl : s' = s := hsigned
  rfl

/-- A type that is not narrower than `int` is handled as one of the base cases. -/
theorem binop_eq_builtin (hop : op ≠ .lshift) (hsane : checkSane p t = true)
    (hint : p.int ≤ t.width) (ha : t.InRange a) (hb : t.InRange b) (build : Build)
    (overflow constRhs : Bool) :
    binop p build t a b overflow op constRhs = builtinOverflow t overflow (op.exact a b) := by
  have hsane : t.width ≤ p.int ∨ t.width = p.longLong ∨ t.width = p.long :=
    of_decide_eq_true hsane
  rw [binop, if_neg (not_lt.2 hint)]
  by_cases h : t.width = p.int
  · rw [if_pos h, eq_of_width_eq (u := p.intType t.signed) h rfl]
    exact baseCase_eq_builtin overflow build hop
      (eq_of_width_eq (u := p.intType t.signed) h rfl ▸ isBase_int p t.signed) ha hb constRhs
  rw [if_neg h]
  by_cases h : t.width = p.long
  · rw [if_pos h, eq_of_width_eq (u := p.longType t.signed) h rfl]
    exact baseCase_eq_builtin overflow build hop
      (eq_of_width_eq (u := p.longType t.signed) h rfl ▸ isBase_long p t.signed) ha hb constRhs
  rw [if_neg h]
  have h : t.width = p.longLong := by omega
  rw [if_pos h, eq_of_width_eq (u := p.longLongType t.signed) h rfl]
  exact baseCase_eq_builtin overflow build hop
    (eq_of_width_eq (u := p.longLongType t.signed) h rfl ▸ isBase_longLong p t.signed) ha hb
    constRhs

/-! ## Narrow types -/

/-- What fits is returned. -/
theorem noOverflow_eq (h : t.InRange (op.exact a b)) (overflow : Bool) :
    noOverflow p t a b overflow op = some (op.exact a b, overflow) := by
  rw [noOverflow, arith_of_inRange (inRange_promoted h)]
  show some (t.convert _, _) = _
  rw [convert_of_inRange h]

/-! ## Shifts -/

/-- The limit is at most the greatest value. For unsigned types narrower than `int`, it is
    `-1`, since it is computed in `int`. -/
theorem max_le (p : CPlatform) (t : CIntType) : max p t < t.lo + 2 ^ t.width := by
  by_cases hwidth : p.int ≤ t.width
  · rw [max_eq hwidth]
    omega
  have hpromoted : p.promoted t = p.intType true := if_pos (not_le.1 hwidth)
  have hpow := two_pow_width t
  have hpos : (0 : ℤ) < 2 ^ (t.width - 1) := by positivity
  have hle : (2 : ℤ) ^ t.width ≤ 2 ^ (p.int - 1) := pow_le_pow_right₀ (by norm_num) (by omega)
  have hin : (p.intType true).InRange (-1 - t.lo) := by
    refine (inRange_signed rfl).2 (show -2 ^ (p.int - 1) ≤ _ ∧ _ < 2 ^ (p.int - 1) from ?_)
    rw [lo]
    split_ifs <;> omega
  rw [max, hpromoted, min_eq_lo, convert_of_inRange hin, lo]
  split_ifs <;> omega

theorem lo_nonpos (t : CIntType) : t.lo ≤ 0 := by
  rw [lo]
  split_ifs
  · exact neg_nonpos.2 (by positivity)
  · exact le_rfl

/-- A shift that is not flagged is exact. -/
theorem lshift_spec (ha : t.InRange a) (overflow : Bool) :
    lshift p t a b overflow = some (0, true) ∨
      lshift p t a b overflow = some (a * 2 ^ b.toNat, overflow) := by
  rw [lshift]
  by_cases hflag : t.signed = true ∧ (a < 0 ∨ b < 0) ∨ b ≥ t.convert t.width ∨
      a > max p t / 2 ^ b.toNat
  · rw [if_pos hflag]
    exact .inl rfl
  rw [if_neg hflag]
  have hnonneg : 0 ≤ a := by
    by_cases ht : t.signed = true
    · exact not_lt.1 fun h => hflag (.inl ⟨ht, .inl h⟩)
    · exact ((inRange_unsigned (Bool.eq_false_iff.2 ht)).1 ha).1
  have hpos : (0 : ℤ) < 2 ^ b.toNat := by positivity
  have hle : a * 2 ^ b.toNat ≤ max p t :=
    (Int.le_ediv_iff_mul_le hpos).1 (not_lt.1 fun h => hflag (.inr (.inr h)))
  have hin : t.InRange (a * 2 ^ b.toNat) :=
    ⟨(lo_nonpos t).trans (mul_nonneg hnonneg hpos.le), hle.trans_lt (max_le p t)⟩
  rw [arith_of_inRange (inRange_promoted hin)]
  refine .inr ?_
  show some (t.convert _, _) = _
  rw [convert_of_inRange hin]

/-! ## When operations are checked -/

/-- What is relied on: a behaviour that is defined, with the exact result if the flag is not
    set; no flag for a result that fits, from `int` on; the same with builtins. -/
def Checks (p : CPlatform) (t : CIntType) (op : Op) (a b : ℤ) : Prop :=
  ∀ (build : Build) (overflow constRhs : Bool), ∃ r flag,
    checkingOverflow p build t a b overflow op constRhs = some (r, flag) ∧
    (flag = false → r = op.exact a b) ∧
    (p.int ≤ t.width → op ≠ .lshift → flag = true → overflow = true ∨ ¬t.InRange (op.exact a b)) ∧
    (p.int ≤ t.width → op ≠ .lshift →
      some (r, flag) = builtinOverflow t overflow (op.exact a b))

/-- What the builtins return can be relied on. -/
theorem checks_builtin {v r : ℤ} {overflow flag : Bool}
    (h : some (r, flag) = builtinOverflow t overflow v) :
    (flag = false → r = v) ∧ (flag = true → overflow = true ∨ ¬t.InRange v) := by
  obtain ⟨rfl, rfl⟩ := Prod.mk.inj (Option.some.inj h)
  by_cases hin : t.InRange v
  · rw [decide_eq_true hin, Bool.not_true, Bool.or_false]
    exact ⟨fun _ => convert_of_inRange hin, .inl⟩
  · rw [decide_eq_false hin, Bool.not_false, Bool.or_true]
    exact ⟨fun h => absurd h.symm Bool.false_ne_true, fun _ => .inr hin⟩

/-- An operation is checked if the type is not narrower than `int`, for shifts, and for
    results that fit. -/
theorem checks_iff (hsane : checkSane p t = true) (ha : t.InRange a) (hb : t.InRange b) :
    Checks p t op a b ↔ p.int ≤ t.width ∨ op = .lshift ∨ t.InRange (op.exact a b) := by
  constructor
  · intro h
    by_contra hne
    obtain ⟨hwidth, hop, hin⟩ := by simpa only [not_or] using hne
    obtain ⟨r, flag, hr, hexact, -⟩ := h ⟨false, false, false, false⟩ false false
    rw [checkingOverflow, if_neg hop, binop, if_pos (not_le.1 hwidth), noOverflow] at hr
    -- The result is cast to the type, and the flag is never set.
    rcases harith : (p.promoted t).arith (op.exact a b) with _ | v
    · rw [harith] at hr
      exact absurd hr (by simp)
    · rw [harith] at hr
      obtain ⟨rfl, rfl⟩ := Prod.mk.inj (Option.some.inj hr)
      exact hin (hexact rfl ▸ inRange_convert t v)
  · intro h build overflow constRhs
    rw [checkingOverflow]
    by_cases hop : op = .lshift
    · subst hop
      rw [if_pos rfl]
      rcases lshift_spec (p := p) (b := b) ha overflow with h | h
      · exact ⟨0, true, h, fun h => absurd h.symm Bool.false_ne_true,
          fun _ h => absurd rfl h, fun _ h => absurd rfl h⟩
      · exact ⟨_, overflow, h, fun _ => rfl, fun _ h => absurd rfl h, fun _ h => absurd rfl h⟩
    rw [if_neg hop]
    by_cases hwidth : p.int ≤ t.width
    · have heq := binop_eq_builtin hop hsane hwidth ha hb build overflow constRhs
      have hbuiltin := @checks_builtin t (op.exact a b) _ overflow _ rfl
      exact ⟨_, _, heq, hbuiltin.1, fun _ _ => hbuiltin.2, fun _ _ => rfl⟩
    · have hin := (h.resolve_left hwidth).resolve_left hop
      refine ⟨_, overflow, ?_, fun _ => rfl, fun h => absurd h hwidth, fun h => absurd h hwidth⟩
      rw [binop, if_pos (not_le.1 hwidth), noOverflow_eq hin]

/-- `1 + 2`, in `int`. -/
theorem checks_int : Checks .lp64 (CPlatform.lp64.intType true) .add 1 2 :=
  (checks_iff (by decide) (by decide) (by decide)).2 (.inl le_rfl)

/-- `32767 + 1`, in a type of 16 bits: the sum is wrong, and not flagged. -/
theorem checkingOverflow_narrow_counterexample :
    checkingOverflow .lp64 ⟨true, false, false, false⟩ ⟨16, true, by decide⟩ 32767 1 false .add
      false = some (-32768, false) := by
  decide

end AHPy.Overflow
