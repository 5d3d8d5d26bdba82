import AHPy.Lib.CInteger

/-!
# Powers of C integers

The function `__Pyx_pow_<type>` (`IntPow` in `CMath.c`): three small exponents are unrolled, the
others go through a loop over the bits of the exponent. Products are computed in the promoted type
and assigned to the type itself; signed ones wrap, as the documented compiler flags (`-fwrapv`) have
it.

* `powLoop_eq`: what the loop multiplies with what it has, by induction on the bits that are left;
* `pow_eq`: the power modulo two to the width.
-/

namespace AHPy.CMath

variable (p : CPlatform) (t : CIntType)

/-- The value of a variable of the type after an operation on promoted operands. -/
def assign (v : ℤ) : ℤ := t.convert ((p.promoted t).convert v)

/-- `(b * (e&1)) | ((~e)&1)` -/
def factor (b : ℤ) (e : ℕ) : ℤ :=
  Int.lor ((p.promoted t).convert (b * Int.land e 1))
    (Int.land ((p.promoted t).convert (Int.lnot e)) 1)

/-- `while (e)`, with `b`, `e` and `t` as the loop has them. -/
def powLoop (b : ℤ) (e : ℕ) (r : ℤ) : ℤ :=
  if e = 0 then r
  else powLoop (assign p t (b * b)) (e / 2) (assign p t (r * factor p t b e))
termination_by e
decreasing_by omega

/-- `__Pyx_pow_<type>` -/
def pow (b e : ℤ) : ℤ :=
  if e = 3 then assign p t (assign p t (b * b) * b)
  else if e = 2 then assign p t (b * b)
  else if e = 1 then b
  else if e = 0 then t.convert 1
  else if t.signed = true ∧ e < 0 then t.convert 0
  else powLoop p t b e.toNat (t.convert 1)

variable {p t}

/-! ## Bits -/

theorem ldiff_one (n : ℕ) : Nat.ldiff 1 n = 1 - n % 2 := by
  refine Nat.eq_of_testBit_eq fun i => ?_
  rw [Nat.testBit_ldiff]
  cases i with
  | zero => rcases Nat.mod_two_eq_zero_or_one n with h | h <;> simp [Nat.testBit_zero, h]
  | succ i =>
    have hone : Nat.testBit 1 (i + 1) = false := by simp [Nat.testBit_succ]
    have hbit : Nat.testBit (1 - n % 2) (i + 1) = false := by
      rw [Nat.testBit_succ, Nat.div_eq_of_lt (by omega), Nat.zero_testBit]
    rw [hone, hbit, Bool.false_and]

theorem land_one (x : ℤ) : Int.land x 1 = x % 2 := by
  cases x with
  | ofNat n =>
    show ((n &&& 1 : ℕ) : ℤ) = (n : ℤ) % 2
    rw [Nat.and_one_is_mod]
    rfl
  | negSucc n =>
    show ((Nat.ldiff 1 n : ℕ) : ℤ) = Int.negSucc n % 2
    rw [ldiff_one, Int.negSucc_eq]
    omega

theorem lor_zero (x : ℤ) : Int.lor x 0 = x := by
  cases x with
  | ofNat n => exact congrArg Int.ofNat (Nat.or_zero n)
  | negSucc n =>
    have h : Nat.ldiff n 0 = n := Nat.eq_of_testBit_eq fun i => by simp [Nat.testBit_ldiff]
    exact congrArg Int.negSucc h

theorem lnot_eq (e : ℕ) : Int.lnot e = -e - 1 := by
  show Int.negSucc e = -e - 1
  omega

/-- A conversion keeps the parity. -/
theorem convert_emod_two (t : CIntType) (v : ℤ) : t.convert v % 2 = v % 2 := by
  have hwidth : (2 : ℤ) ∣ 2 ^ t.width := dvd_pow_self 2 (by have := t.le_width; omega)
  exact (CIntType.convert_modEq v).of_dvd hwidth

/-- The factor is the base where the exponent has a bit. -/
theorem factor_eq {b : ℤ} (hb : (p.promoted t).InRange b) (e : ℕ) :
    factor p t b e = if e % 2 = 1 then b else 1 := by
  rw [factor, land_one, land_one, convert_emod_two, lnot_eq]
  split
  next h =>
    have h₁ : (e : ℤ) % 2 = 1 := by omega
    have h₂ : (-e - 1 : ℤ) % 2 = 0 := by omega
    rw [h₁, h₂, mul_one, CIntType.convert_of_inRange hb, lor_zero]
  next h =>
    have h₁ : (e : ℤ) % 2 = 0 := by omega
    have h₂ : (-e - 1 : ℤ) % 2 = 1 := by omega
    rw [h₁, h₂, mul_zero, CIntType.convert_of_inRange CIntType.inRange_zero]
    rfl

/-! ## The loop -/

theorem assign_eq (v : ℤ) : assign p t v = t.convert v :=
  CIntType.convert_convert_of_width_le CIntType.width_le_promoted v

theorem convert_mul_pow_convert (u v : ℤ) (e : ℕ) :
    t.convert (t.convert u * t.convert v ^ e) = t.convert (u * v ^ e) :=
  CIntType.convert_eq_convert_iff.mpr
    ((CIntType.convert_modEq u).mul ((CIntType.convert_modEq v).pow e))

/-- The loop multiplies what it has with the power that is left. -/
theorem powLoop_eq {b r : ℤ} (hb : t.InRange b) (hr : t.InRange r) (e : ℕ) :
    powLoop p t b e r = t.convert (r * b ^ e) := by
  induction e using Nat.strong_induction_on generalizing b r with
  | _ e ih =>
    rw [powLoop]
    split
    next h => rw [h, pow_zero, mul_one, CIntType.convert_of_inRange hr]
    next h =>
      rw [assign_eq, assign_eq, ih (e / 2) (by omega) (CIntType.inRange_convert t _)
        (CIntType.inRange_convert t _), convert_mul_pow_convert, factor_eq (CIntType.inRange_promoted hb)]
      refine congrArg t.convert ?_
      -- The last bit of the exponent is in the factor, the others are in the square.
      conv_rhs => rw [← Nat.div_add_mod e 2, pow_add, pow_mul]
      rw [← sq]
      rcases Nat.mod_two_eq_zero_or_one e with he | he
      · rw [he, if_neg (by decide), pow_zero]
        ring
      · rw [he, if_pos rfl, pow_one]
        ring

/-! ## The function -/

/-- The unrolled cases agree with the loop. -/
theorem pow_eq_powLoop {b : ℤ} (hb : t.InRange b) (e : ℕ) :
    pow p t b e = powLoop p t b e (t.convert 1) := by
  have hone := CIntType.inRange_convert t 1
  have hconvert (v : ℤ) (n : ℕ) : t.convert (t.convert 1 * v ^ n) = t.convert (v ^ n) := by
    have h : t.convert (1 * v ^ n) = t.convert (v ^ n) := by rw [one_mul]
    exact (CIntType.convert_eq_convert_iff.mpr
      ((CIntType.convert_modEq 1).mul_right (v ^ n))).trans h
  rw [powLoop_eq hb hone, hconvert, pow]
  split
  next h =>
    obtain rfl : e = 3 := by omega
    have hsquare : t.convert (t.convert (b * b) * b) = t.convert (b * b * b) :=
      CIntType.convert_eq_convert_iff.mpr ((CIntType.convert_modEq (b * b)).mul_right b)
    rw [assign_eq, assign_eq, hsquare]
    congr 1
    ring
  next h =>
    split
    next h' =>
      obtain rfl : e = 2 := by omega
      rw [assign_eq, sq]
    next h' =>
      split
      next h'' =>
        obtain rfl : e = 1 := by omega
        rw [pow_one, CIntType.convert_of_inRange hb]
      next h'' =>
        split
        next h₀ =>
          obtain rfl : e = 0 := by omega
          rw [pow_zero]
        next h₀ =>
          rw [if_neg (by omega), Int.toNat_natCast, powLoop_eq hb hone, hconvert]

/-- The function returns the power modulo two to the width, and so the power if it fits; the
    unrolled cases agree with the loop. -/
theorem pow_eq (p : CPlatform) (t : CIntType) {b e : ℤ} (hb : t.InRange b) (he : t.InRange e)
    (hnonneg : 0 ≤ e) :
    t.InRange (pow p t b e) ∧ pow p t b e ≡ b ^ e.toNat [ZMOD 2 ^ t.width] ∧
      (t.InRange (b ^ e.toNat) → pow p t b e = b ^ e.toNat) ∧
      pow p t b e = powLoop p t b e.toNat (t.convert 1) := by
  obtain ⟨n, rfl⟩ := Int.eq_ofNat_of_zero_le hnonneg
  rw [Int.toNat_natCast]
  have hloop := pow_eq_powLoop (p := p) hb n
  have hpow : pow p t b n = t.convert (b ^ n) := by
    rw [hloop, powLoop_eq hb (CIntType.inRange_convert t 1)]
    refine CIntType.convert_eq_convert_iff.mpr ?_
    calc t.convert 1 * b ^ n ≡ 1 * b ^ n [ZMOD 2 ^ t.width] :=
          (CIntType.convert_modEq 1).mul_right (b ^ n)
      _ = b ^ n := one_mul _
  refine ⟨?_, ?_, fun hfits => ?_, hloop⟩
  · rw [hpow]
    exact CIntType.inRange_convert t _
  · rw [hpow]
    exact CIntType.convert_modEq _
  · rw [hpow, CIntType.convert_of_inRange hfits]

/-- The thirteenth power of -5 as an `int`: the last square wraps. -/
theorem pow_eq_int : (CPlatform.lp64.intType true).InRange (-5) ∧
    (CPlatform.lp64.intType true).InRange 13 ∧
    pow CPlatform.lp64 (CPlatform.lp64.intType true) (-5) 13 = (-5) ^ 13 := by
  have hb : (CPlatform.lp64.intType true).InRange (-5) := by decide
  have he : (CPlatform.lp64.intType true).InRange 13 := by decide
  exact ⟨hb, he, (pow_eq CPlatform.lp64 _ hb he (by decide)).2.2.1 (by decide)⟩

end AHPy.CMath
