import AHPy.Operators.FastPaths
import AHPy.Operators.LongBinop

/-!
# The arithmetic of unpacked ints

* `unpack_eq`: the variable that an int is unpacked into has its value;
* `calculate_eq`, `calculateLongLong_eq`, `calculateLong_eq`: the results are those of Python,
  and no operation overflows that is not a left shift.
-/

namespace AHPy.Operators

open Compare (PyLong)
open IntConversion (pylongJoin)
open ModuleWriter (binary64)

variable {t : CIntType} {a b c v : ℤ} {k : ℕ}

/-! ## Ranges -/

theorem inRange_of_abs_lt (ht : t.signed = true) (h : |v| < 2 ^ (t.width - 1)) : t.InRange v := by
  rw [abs_lt] at h
  exact (CIntType.inRange_signed ht).2 ⟨h.1.le, h.2⟩

theorem inRange_of_abs_le (ht : t.signed = true) (h : |v| ≤ 2 ^ (t.width - 2)) : t.InRange v := by
  refine inRange_of_abs_lt ht (h.trans_lt ?_)
  have := t.le_width
  exact pow_lt_pow_right₀ (by norm_num) (by omega)

/-- Two values of which the sum is in the range. -/
structure Fits (t : CIntType) (a b : ℤ) : Prop where
  signed : t.signed = true
  left : |a| ≤ 2 ^ (t.width - 2)
  right : |b| ≤ 2 ^ (t.width - 2)
  lt : |a| + |b| < 2 ^ (t.width - 1)

theorem Fits.inRange_left (h : Fits t a b) : t.InRange a := inRange_of_abs_le h.signed h.left

theorem Fits.arith_of_abs_le (h : Fits t a b) (hv : |v| ≤ |a| + |b|) : t.arith v = some v :=
  CIntType.arith_of_inRange (inRange_of_abs_lt h.signed (hv.trans_lt h.lt))

/-! ## The operations -/

variable {B : LongBuild} {op : LongOp}

theorem remainder_eq (h : Fits t a b) (hb : b ≠ 0) :
    B.calculate t .remainder a b = some (LongOp.remainder.python a b) := by
  have hq : t.InRange (a.tdiv b) := by
    refine inRange_of_abs_le h.signed (le_trans ?_ h.left)
    rw [Int.abs_eq_natAbs, Int.abs_eq_natAbs]
    exact_mod_cast Int.natAbs_tdiv_le_natAbs a b
  obtain ⟨-, -, hlt, hle⟩ := CMath.tmod_bounds (a := a) hb
  have hcorrect := (CMath.adaptPython_correct (a := a) false hb).2
  have hadapt : |CMath.adaptPython false (a.tmod b) b * b| ≤ |a| + |b| := by
    rw [CMath.adaptPython_eq]
    split
    · rw [one_mul]
      exact le_add_of_nonneg_left (abs_nonneg a)
    · rw [zero_mul, abs_zero]
      exact add_nonneg (abs_nonneg a) (abs_nonneg b)
  have hf : |a.fmod b| ≤ |a| + |b| := by
    rw [hcorrect, CMath.adaptPython_eq]
    simp only [Int.abs_eq_natAbs]
    split <;> omega
  simp only [LongBuild.calculate, CMath.cMod, if_neg hb, if_pos hq, Option.bind_eq_bind,
    Option.bind_some, h.arith_of_abs_le hadapt, ← hcorrect, h.arith_of_abs_le hf, Option.pure_def,
    LongOp.python]

theorem floorDivide_eq (h : Fits t a b) (hb : b ≠ 0) :
    B.calculate t .floorDivide a b = some (LongOp.floorDivide.python a b) := by
  obtain ⟨hnonneg, hnonpos, -, hle⟩ := CMath.tmod_bounds (a := a) hb
  have hcorrect := (CMath.adaptPython_correct (a := a) false hb).1
  have hmul : a.tdiv b * b = a - a.tmod b := Int.tdiv_mul_self a b
  have hq : |a.tdiv b| ≤ |a| + |b| := by
    have := Int.natAbs_tdiv_le_natAbs a b
    simp only [Int.abs_eq_natAbs]
    omega
  have hqb : |a.tdiv b * b| ≤ |a| + |b| := by
    rw [hmul]
    simp only [Int.abs_eq_natAbs]
    omega
  have hr : |a - a.tdiv b * b| ≤ |a| + |b| := by
    rw [hmul, sub_sub_cancel]
    simp only [Int.abs_eq_natAbs]
    omega
  have hf : |a.fdiv b| ≤ |a| + |b| := by
    have := Int.natAbs_fdiv_le_natAbs a b
    simp only [Int.abs_eq_natAbs]
    omega
  simp only [LongBuild.calculate, CMath.cDiv, if_neg hb, Option.bind_eq_bind, h.arith_of_abs_le hq,
    Option.bind_some, h.arith_of_abs_le hqb, h.arith_of_abs_le hr]
  rw [hmul, sub_sub_cancel, ← hcorrect, h.arith_of_abs_le hf]
  simp only [Option.bind_some, Option.pure_def, LongOp.python, if_neg hb]

/-- All bits but the sign are shifted out. -/
theorem div_two_pow_of_le {a : ℤ} {n k : ℕ} (ha : |a| ≤ 2 ^ n) (hk : n < k) :
    a / 2 ^ k = if a < 0 then -1 else 0 := by
  have hlt : |a| < 2 ^ k := ha.trans_lt (pow_lt_pow_right₀ (by norm_num) hk)
  rw [abs_lt] at hlt
  split
  next hneg => exact Int.ediv_eq_neg_one_of_neg_of_le hneg (by omega)
  next hneg => exact Int.ediv_eq_zero_of_lt (not_lt.1 hneg) hlt.2

theorem rshift_eq (h : Fits t a b) (hb : 0 ≤ b) :
    B.calculate t .rshift a b = some (LongOp.rshift.python a b) := by
  obtain ⟨n, rfl⟩ := Int.eq_ofNat_of_zero_le hb
  simp only [LongBuild.calculate, LongOp.python, Int.toNat_natCast, if_neg hb.not_gt]
  split
  · rfl
  next hneg =>
    split
    next hwide =>
      have := t.le_width
      rw [div_two_pow_of_le h.left (by omega)]
    next hwide =>
      have hsign : 0 ≤ a ∨ B.negativeShiftWorks = true := by
        by_contra hcon
        rw [not_or, not_le, Bool.not_eq_true] at hcon
        exact hneg ⟨by rw [hcon.2]; rfl, hcon.1⟩
      rw [B.shiftRight_eq t a n h.inRange_left hb (by omega) hsign, Option.map_some,
        Int.toNat_natCast]

/-- The operations that are the same in both types. -/
theorem calculate_eq (h : Fits t a b) (hmultiply : op ≠ .multiply) (htrue : op ≠ .trueDivide)
    (hlshift : op ≠ .lshift) (hdivision : op.isDivision = true → b ≠ 0)
    (hshift : op.isShift = true → 0 ≤ b) :
    B.calculate t op a b = some (op.python a b) := by
  have hadd : |a + b| ≤ |a| + |b| := abs_add_le a b
  have hsub : |a - b| ≤ |a| + |b| := abs_sub a b
  cases op with
  | add => simp only [LongBuild.calculate, h.arith_of_abs_le hadd, Option.map_some, LongOp.python]
  | subtract =>
    simp only [LongBuild.calculate, h.arith_of_abs_le hsub, Option.map_some, LongOp.python]
  | multiply => exact absurd rfl hmultiply
  | remainder => exact remainder_eq h (hdivision rfl)
  | trueDivide => exact absurd rfl htrue
  | floorDivide => exact floorDivide_eq h (hdivision rfl)
  | rshift => exact rshift_eq h (hshift rfl)
  | lshift => exact absurd rfl hlshift
  | _ => rfl

/-! ## Left shifts -/

/-- The compiler shifts signed values to the left as it shifts unsigned ones, and negative values
    to the right with their sign. -/
structure LongBuild.WrapsShifts (B : LongBuild) : Prop where
  works : B.negativeShiftWorks = true
  shiftLeft_eq : ∀ t a b, t.signed = true → t.InRange a → 0 ≤ b → b < t.width →
    B.shiftLeft t a b = some (t.convert (a * 2 ^ b.toNat))
  isSome_shiftLeft : ∀ t a b, t.width ≤ b → (B.shiftLeft t a b).isSome = true

/-- What is shifted back to the value has not lost a bit. -/
theorem eq_of_shifted_back {n : ℕ} (hn : n < t.width) (h : a = t.convert (a * 2 ^ n) / 2 ^ n) :
    t.convert (a * 2 ^ n) = a * 2 ^ n := by
  obtain ⟨j, hj⟩ := CIntType.exists_convert t (a * 2 ^ n)
  have hdvd : (2 : ℤ) ^ n ∣ t.convert (a * 2 ^ n) := by
    rw [hj]
    exact dvd_add (dvd_mul_left _ _) (Dvd.dvd.mul_right (pow_dvd_pow 2 hn.le) j)
  calc t.convert (a * 2 ^ n) = t.convert (a * 2 ^ n) / 2 ^ n * 2 ^ n :=
        (Int.ediv_mul_cancel hdvd).symm
    _ = a * 2 ^ n := by rw [← h]

theorem calculateLongLong_lshift (hB : B.WrapsShifts) (ha : B.longLong.InRange a) (hb : 1 ≤ b)
    (hb' : b ≤ 63) :
    B.calculateLongLong .lshift a b = some (LongOp.lshift.python a b) := by
  obtain ⟨n, rfl⟩ := Int.eq_ofNat_of_zero_le (by omega : 0 ≤ b)
  have hwidth : (n : ℤ) < B.longLong.width := by
    show (n : ℤ) < B.platform.longLong
    rw [B.longLong_eq]
    omega
  have hin := CIntType.inRange_convert B.longLong (a * 2 ^ n)
  simp only [LongBuild.calculateLongLong, hB.shiftLeft_eq _ _ _ rfl ha (by omega) hwidth,
    Option.bind_eq_bind, Option.bind_some, Int.toNat_natCast,
    B.shiftRight_eq _ _ _ hin (by omega : (0 : ℤ) ≤ n) hwidth (.inr hB.works), Option.pure_def]
  split
  · rfl
  next hback =>
    rw [eq_of_shifted_back (by omega) (not_not.1 hback), LongOp.python, if_neg (by omega),
      Int.toNat_natCast]

theorem calculateLong_lshift {x : PyLong B.shift} {ival : ℤ} (hB : B.WrapsShifts)
    (ha : B.long.InRange a) (hlong : B.longLong.InRange a) (hzero : a ≠ 0) (hb : 1 ≤ b)
    (hb' : b ≤ 63) :
    B.calculateLong .lshift x ival a b = some (LongOp.lshift.python a b) := by
  have hlonger := calculateLongLong_lshift hB hlong hb hb'
  obtain ⟨n, rfl⟩ := Int.eq_ofNat_of_zero_le (by omega : 0 ≤ b)
  rw [LongBuild.calculateLong, hB.works]
  rw [if_neg fun h => Bool.false_ne_true h.1]
  by_cases hwidth : (n : ℤ) < B.long.width
  · have hin := CIntType.inRange_convert B.long (a * 2 ^ n)
    simp only [hB.shiftLeft_eq _ _ _ rfl ha (by omega) hwidth, Option.bind_eq_bind,
      Option.bind_some, if_pos hwidth, Int.toNat_natCast,
      B.shiftRight_eq _ _ _ hin (by omega : (0 : ℤ) ≤ n) hwidth (.inr hB.works),
      Option.map_some]
    by_cases hback : a = B.long.convert (a * 2 ^ n) / 2 ^ n
    · rw [if_neg (by simp [← hback]), eq_of_shifted_back (by omega) hback, Option.pure_def,
        LongOp.python, if_neg (by omega), Int.toNat_natCast]
    · rw [if_pos ⟨by simp [hback], hzero⟩, hlonger]
  · obtain ⟨v, hv⟩ := Option.isSome_iff_exists.1 (hB.isSome_shiftLeft B.long a n (not_lt.1 hwidth))
    simp only [hv, Option.bind_eq_bind, Option.bind_some, if_neg hwidth]
    rw [if_pos ⟨rfl, hzero⟩, hlonger]

/-! ## True division -/

theorem representable_of_abs_le {n : ℤ} (h : |n| ≤ 2 ^ 53) : binary64.Representable |(n : ℚ)| := by
  have hcast : |(n : ℚ)| = (n.natAbs : ℚ) := by rw [← Int.cast_abs, Nat.cast_natAbs]
  rw [hcast]
  have hle : n.natAbs ≤ 2 ^ 53 := by
    rw [Int.abs_eq_natAbs] at h
    exact_mod_cast h
  have hmax : ((2 ^ 53 : ℕ) : ℚ) < 2 ^ (1024 : ℤ) := by
    rw [Nat.cast_pow, ← zpow_natCast]
    exact zpow_lt_zpow_right₀ (by norm_num) (by norm_num)
  rcases hle.lt_or_eq with hlt | heq
  · refine FloatFormat.representable_natCast hlt (by decide) (lt_trans ?_ hmax)
    exact_mod_cast hlt
  · rw [heq]
    exact ⟨hmax, 2 ^ 52, 1, by decide, by decide, by norm_num⟩

/-- The quotient of two floats is that of the ints. -/
theorem div_eq_trueDivision (ha : |a| ≤ 2 ^ 53) (hb : |b| ≤ 2 ^ 53) (hzero : b ≠ 0) :
    LongResult.float ((binary64.ofInt a).div (binary64.ofInt b)) = trueDivision a b := by
  have hone : (1 : ℚ) ≤ |(b : ℚ)| := by
    rw [← Int.cast_abs]
    exact_mod_cast Int.one_le_abs hzero
  have hle : |(a : ℚ)| ≤ 2 ^ 53 := by
    rw [← Int.cast_abs]
    exact_mod_cast ha
  have hfinite := FloatFormat.isFinite_round (f := binary64)
    (q := ⟨|(a : ℚ)| / |(b : ℚ)|, div_nonneg (abs_nonneg _) (abs_nonneg _)⟩) (k := 53)
    ((div_le_self (abs_nonneg _) hone).trans hle) (by decide) (by decide)
    (decide (a < 0) ^^ decide (b < 0))
  rw [FloatValue.div_ofInt (representable_of_abs_le ha) (representable_of_abs_le hb) hzero,
    trueDivision, if_neg hzero, if_pos hfinite]

/-- The int has no more bits than a float, or is left to the slot. -/
theorem divideLong_eq {x : PyLong B.shift} {ival : ℤ} (h : Fits B.long a b) (hzero : b ≠ 0)
    (hcount : |ival| < 2 ^ (x.digitCount * B.shift))
    (hival : ival = a ∧ |b| ≤ 2 ^ 53 ∨ ival = b ∧ |a| ≤ 2 ^ 53) :
    B.divideLong x ival a b = some (LongOp.trueDivide.python a b) := by
  have hrange : |ival| ≤ 2 ^ (B.platform.long - 2) := by
    rcases hival with ⟨rfl, -⟩ | ⟨rfl, -⟩
    · exact h.left
    · exact h.right
  have hdiv (hsmall : |ival| ≤ 2 ^ 53) :
      LongResult.float ((binary64.ofInt a).div (binary64.ofInt b)) =
        LongOp.trueDivide.python a b := by
    rcases hival with ⟨rfl, hb⟩ | ⟨rfl, ha⟩
    · exact div_eq_trueDivision hsmall hb hzero
    · exact div_eq_trueDivision ha hsmall hzero
  have hdigits (hle : x.digitCount ≤ 52 / B.shift) : |ival| ≤ 2 ^ 53 := by
    refine hcount.le.trans (pow_le_pow_right₀ (by norm_num) ?_)
    have := Nat.mul_le_of_le_div _ _ _ hle
    omega
  have habs : |(|ival|)| ≤ |a| + |b| := by
    rw [abs_abs]
    rcases hival with ⟨rfl, -⟩ | ⟨rfl, -⟩
    · exact le_add_of_nonneg_right (abs_nonneg b)
    · exact le_add_of_nonneg_left (abs_nonneg a)
  rw [LongBuild.divideLong]
  by_cases hlong : B.platform.long ≤ 53
  · have hsmall : |ival| ≤ 2 ^ 53 := hrange.trans (pow_le_pow_right₀ (by norm_num) (by omega))
    rw [if_pos hlong]
    simp only [Option.bind_eq_bind, Option.bind_some, true_or, if_true, Option.pure_def,
      hdiv hsmall]
  · rw [if_neg hlong, h.arith_of_abs_le habs]
    simp only [Option.map_some, Option.bind_eq_bind, Option.bind_some, Option.pure_def,
      decide_eq_true_eq]
    split
    next hfits => rw [hdiv (hfits.elim id hdigits)]
    next => rfl

/-! ## Digits -/

section

variable {x : PyLong B.shift}

theorem shift_pos (B : LongBuild) : 0 < B.shift := by
  rcases B.shift_eq with h | h <;> omega

theorem abs_value (x : PyLong B.shift) : |x.value| = x.magnitude := by
  rw [PyLong.value]
  split
  · rw [abs_neg, Nat.abs_cast]
  · exact Nat.abs_cast _

theorem abs_value_lt (x : PyLong B.shift) : |x.value| < 2 ^ (x.digitCount * B.shift) := by
  rw [abs_value, Nat.mul_comm, pow_mul]
  exact_mod_cast PyLong.magnitude_lt (shift_pos B) x

theorem digit_zero (x : PyLong B.shift) : x.digit 0 = (x.magnitude % 2 ^ B.shift : ℕ) := by
  rw [PyLong.digit, PyLong.magnitude]
  cases hdigits : x.digits with
  | nil => simp
  | cons d rest =>
    have hlt : d < 2 ^ B.shift := x.digits_lt d (by rw [hdigits]; exact List.mem_cons_self)
    rw [Nat.ofDigits_cons, Nat.add_mul_mod_self_left, Nat.mod_eq_of_lt hlt]
    rfl

/-- The variable that an int is unpacked into has its value. -/
theorem unpack_eq (ht : t.signed = true) (hx : x.digitCount * B.shift < t.width) :
    B.unpack t x = some x.value := by
  have hmagnitude : (x.magnitude : ℤ) < 2 ^ (t.width - 1) := by
    have hlt := abs_value_lt x
    rw [abs_value] at hlt
    exact hlt.trans_le (pow_le_pow_right₀ (by norm_num) (by omega))
  have hin (v : ℤ) (hv : |v| = x.magnitude) : t.InRange v :=
    inRange_of_abs_lt ht (hv ▸ hmagnitude)
  have hjoin : (if x.digitCount = 1 then x.digit 0
      else t.convert (pylongJoin B.shift t.width x.digits)) = x.magnitude := by
    split
    next hone =>
      have hlt := PyLong.magnitude_lt (shift_pos B) x
      rw [hone, pow_one] at hlt
      rw [digit_zero, Nat.mod_eq_of_lt hlt]
    next =>
      rw [(IntConversion.pylongJoin_eq x.digits_lt hx.le).1]
      exact CIntType.convert_of_inRange (hin _ (Nat.abs_cast _))
  simp only [LongBuild.unpack, hjoin]
  rcases PyLong.kind (shift_pos B) x with ⟨hs, -, hc, hv⟩ | ⟨hs, -, -, hv, -⟩ | ⟨hs, -, -, hv, -⟩
  · have hzero : x.magnitude = 0 := by
      have habs := abs_value x
      rw [hv, abs_zero] at habs
      exact_mod_cast habs.symm
    rw [hs, if_neg (lt_irrefl 0), hzero, hv]
    exact CIntType.arith_of_inRange CIntType.inRange_zero
  · rw [hs, if_pos one_pos, hv]
  · rw [hs, if_neg (by decide), hv, mul_neg_one]
    exact CIntType.arith_of_inRange (hin _ (by rw [abs_neg, Nat.abs_cast]))

end

end AHPy.Operators
