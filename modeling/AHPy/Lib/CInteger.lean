import Mathlib

/-!
# Integers of C
-/

/-!
## Integer types of C

An integer type has a width and a sign (`CIntType`); its values are the
integers in its range, and any integer is converted to it modulo two to the
width (`CIntType.convert`). Before two integers are compared, both are promoted
and then converted to a common type (`CIntType.usual`); the labels of a
`switch` are converted to the promoted type of its operand instead. The two
differ for a label of a wider type, which may wrap onto a value it is not equal
to (`equal_imp_convert_promote`, `equal_convert_promote_of_width_le`).

The width of `int` is 32, as on the platforms of the compiler.
-/

namespace AHPy

/-- An integer type of C. -/
structure CIntType where
  width : ℕ
  signed : Bool
  /-- No type is narrower than a character. -/
  le_width : 8 ≤ width
  deriving DecidableEq

namespace CIntType

/-- The type `int`. -/
def int : CIntType := ⟨32, true, by decide⟩

/-- The type `unsigned int`. -/
def unsignedInt : CIntType := ⟨32, false, by decide⟩

/-- The type `unsigned char`. -/
def unsignedChar : CIntType := ⟨8, false, by decide⟩

variable (t : CIntType)

/-- The least value. -/
def lo : ℤ := if t.signed then -2 ^ (t.width - 1) else 0

/-- The values of the type. -/
def InRange (v : ℤ) : Prop := t.lo ≤ v ∧ v < t.lo + 2 ^ t.width

instance (v : ℤ) : Decidable (t.InRange v) := inferInstanceAs (Decidable (_ ∧ _))

/-- The conversion of an integer to the type. -/
def convert (v : ℤ) : ℤ := t.lo + (v - t.lo) % 2 ^ t.width

theorem inRange_convert (v : ℤ) : t.InRange (t.convert v) := by
  have h := Int.emod_nonneg (v - t.lo) (pow_ne_zero t.width (by norm_num : (2 : ℤ) ≠ 0))
  have h' := Int.emod_lt_of_pos (v - t.lo) (by positivity : (0 : ℤ) < 2 ^ t.width)
  simp only [InRange, convert]
  omega

variable {t}

theorem convert_of_inRange {v : ℤ} (h : t.InRange v) : t.convert v = v := by
  have h' : (v - t.lo) % 2 ^ t.width = v - t.lo := by
    refine Int.emod_eq_of_lt ?_ ?_ <;> have := h.1 <;> have := h.2 <;> omega
  rw [convert, h']
  omega

theorem convert_eq_convert_iff {v v' : ℤ} :
    t.convert v = t.convert v' ↔ v ≡ v' [ZMOD 2 ^ t.width] := by
  rw [convert, convert, add_right_inj]
  constructor
  · intro h
    simpa using Int.ModEq.add_right t.lo h
  · exact fun h => h.sub_right t.lo

theorem convert_modEq (v : ℤ) : t.convert v ≡ v [ZMOD 2 ^ t.width] :=
  convert_eq_convert_iff.1 (convert_of_inRange (inRange_convert t v))

/-- The least integer above the values. -/
theorem lo_add_two_pow :
    t.lo + 2 ^ t.width = if t.signed then 2 ^ (t.width - 1) else 2 ^ t.width := by
  have hp : (2 : ℤ) ^ t.width = 2 * 2 ^ (t.width - 1) := by
    rw [← pow_succ', Nat.sub_add_cancel (Nat.le_trans (by decide) t.le_width)]
  rw [lo]
  split
  · rw [hp]
    ring
  · exact zero_add _

theorem inRange_zero : t.InRange 0 := by
  have h : (0 : ℤ) < 2 ^ (t.width - 1) := by positivity
  have h' : (0 : ℤ) < 2 ^ t.width := by positivity
  rw [InRange, lo_add_two_pow, lo]
  split_ifs <;> omega

/-! ## Promotion and the common type -/

variable (t) in
/-- Types narrower than `int` are promoted to it. -/
def promote : CIntType := if t.width < 32 then int else t

/-- The common type of two promoted types: the wider one, or the unsigned one. -/
def usual (t t' : CIntType) : CIntType :=
  if t.width = t'.width then ⟨t.width, t.signed && t'.signed, t.le_width⟩
  else if t.width < t'.width then t' else t

theorem le_width_promote : 32 ≤ t.promote.width := by
  rw [promote]
  split
  next h => exact le_rfl
  next h => exact Nat.le_of_not_lt h

theorem width_le_usual (t t' : CIntType) : t.width ≤ (usual t t').width := by
  rw [usual]
  split_ifs
  · exact le_rfl
  · omega
  · exact le_rfl

theorem width_usual (t t' : CIntType) (h : t'.width ≤ t.width) :
    (usual t t').width = t.width := by
  rw [usual]
  split_ifs
  · rfl
  · omega
  · rfl

/-- The values of a type are values of the promoted type. -/
theorem InRange.promote {v : ℤ} (h : t.InRange v) : t.promote.InRange v := by
  rw [CIntType.promote]
  split
  next hw =>
    have h₁ : (2 : ℤ) ^ (t.width - 1) ≤ 2 ^ 31 := pow_le_pow_right₀ (by norm_num) (by omega)
    have h₂ : (2 : ℤ) ^ t.width ≤ 2 ^ 31 := pow_le_pow_right₀ (by norm_num) (by omega)
    have h₃ : (0 : ℤ) < 2 ^ (t.width - 1) := by positivity
    rw [InRange, lo_add_two_pow, lo] at h
    rw [InRange, lo_add_two_pow, lo]
    norm_num [int] at h₁ h₂ ⊢
    split_ifs at h <;> omega
  next => exact h

/-! ## Equality -/

/-- `a == b`, for `a` of type `t` and `b` of type `t'`. -/
def Equal (t t' : CIntType) (a b : ℤ) : Prop :=
  (usual t.promote t'.promote).convert a = (usual t.promote t'.promote).convert b

instance (t t' : CIntType) (a b : ℤ) : Decidable (Equal t t' a b) :=
  inferInstanceAs (Decidable (_ = _))

theorem usual_comm (t t' : CIntType) : usual t t' = usual t' t := by
  rw [usual, usual]
  split_ifs with h₁ h₂ h₃ h₄ h₅
  · cases t
    cases t'
    simp_all [Bool.and_comm]
  all_goals first | rfl | omega

theorem equal_comm {t t' : CIntType} {a b : ℤ} : Equal t t' a b ↔ Equal t' t b a := by
  rw [Equal, Equal, usual_comm, eq_comm]

/-- A value equal to `b` is `b` converted to its promoted type. -/
theorem eq_convert_of_equal {t' : CIntType} {a b : ℤ} (ha : t.InRange a) (h : Equal t t' a b) :
    a = t.promote.convert b := by
  have h' : a ≡ b [ZMOD 2 ^ t.promote.width] :=
    (convert_eq_convert_iff.1 h).of_dvd (pow_dvd_pow 2 (width_le_usual _ _))
  rw [← convert_of_inRange ha.promote, convert_eq_convert_iff]
  exact h'

/-- A value is equal to an integer that converts to it, if the type of that is not wider. -/
theorem equal_of_eq_convert {t' : CIntType} {a b : ℤ} (hw : t'.promote.width ≤ t.promote.width)
    (h : a = t.promote.convert b) : Equal t t' a b := by
  rw [Equal, convert_eq_convert_iff, width_usual _ _ hw, h]
  exact convert_modEq b

end CIntType

/-!
## Arithmetic of C

The result of an operation in an integer type (`CIntType.arith`): signed types
have it only for results in their range, unsigned types wrap.

* `CPlatform`: the widths of the standard types;
* `signs_differ_iff`: what the sign bits of values tell.
-/

/-- The widths of the standard integer types. A type is as wide as the next smaller one,
    or at least twice as wide. -/
structure CPlatform where
  int : ℕ
  long : ℕ
  longLong : ℕ
  le_int : 16 ≤ int
  long_or : long = int ∨ 2 * int ≤ long
  longLong_or : longLong = long ∨ 2 * long ≤ longLong

namespace CPlatform

variable (p : CPlatform)

theorem int_le_long : p.int ≤ p.long := by
  rcases p.long_or with h | h <;> omega

theorem long_le_longLong : p.long ≤ p.longLong := by
  rcases p.longLong_or with h | h <;> omega

/-- Two thirty-two bits: `int` and `long`; sixty-four bits: `long long`. -/
def llp64 : CPlatform := ⟨32, 32, 64, by decide, by decide, by decide⟩

/-- Thirty-two bits: `int`; sixty-four bits: `long` and `long long`. -/
def lp64 : CPlatform := ⟨32, 64, 64, by decide, by decide, by decide⟩

/-- `int`, or `unsigned int`. -/
def intType (signed : Bool) : CIntType := ⟨p.int, signed, by have := p.le_int; omega⟩

/-- `long`, or `unsigned long`. -/
def longType (signed : Bool) : CIntType :=
  ⟨p.long, signed, by have := p.le_int; have := p.int_le_long; omega⟩

/-- `long long`, or `unsigned long long`. -/
def longLongType (signed : Bool) : CIntType :=
  ⟨p.longLong, signed, by have := p.le_int; have := p.int_le_long; have := p.long_le_longLong; omega⟩

/-- The type that operands of a type are promoted to. -/
def promoted (t : CIntType) : CIntType := if t.width < p.int then p.intType true else t

end CPlatform

namespace CIntType

variable (t : CIntType)

/-- The result of an operation, `none` where it is undefined. -/
def arith (v : ℤ) : Option ℤ :=
  if t.signed then (if t.InRange v then some v else none) else some (t.convert v)

/-- The unsigned type of the same width. -/
def unsigned : CIntType := { t with signed := false }

variable {t} {v a b : ℤ}

theorem arith_of_inRange (h : t.InRange v) : t.arith v = some v := by
  rw [arith, if_pos h, convert_of_inRange h, ite_self]

theorem arith_unsigned (h : t.signed = false) (v : ℤ) : t.arith v = some (t.convert v) := by
  rw [arith, h]
  rfl

/-- A conversion adds a multiple of what the type wraps at. -/
theorem exists_convert (t : CIntType) (v : ℤ) : ∃ k : ℤ, t.convert v = v + 2 ^ t.width * k := by
  obtain ⟨k, hk⟩ := (convert_modEq (t := t) v).symm.dvd
  exact ⟨k, by rw [← hk]; ring⟩

/-- The only value of the type that an integer can be converted to. -/
theorem convert_eq_of_inRange (h : t.InRange b) (hab : b ≡ a [ZMOD 2 ^ t.width]) :
    t.convert a = b := by
  rw [← convert_of_inRange h, convert_eq_convert_iff]
  exact hab.symm

theorem convert_convert_of_width_le {t' : CIntType} (h : t.width ≤ t'.width) (v : ℤ) :
    t.convert (t'.convert v) = t.convert v :=
  convert_eq_convert_iff.2 ((convert_modEq v).of_dvd (pow_dvd_pow 2 h))

theorem inRange_unsigned (ht : t.signed = false) : t.InRange v ↔ 0 ≤ v ∧ v < 2 ^ t.width := by
  rw [InRange, lo_add_two_pow, lo, ht]
  rfl

theorem inRange_signed (ht : t.signed = true) :
    t.InRange v ↔ -2 ^ (t.width - 1) ≤ v ∧ v < 2 ^ (t.width - 1) := by
  rw [InRange, lo_add_two_pow, lo, ht]
  rfl

theorem two_pow_width (t : CIntType) : (2 : ℤ) ^ t.width = 2 * 2 ^ (t.width - 1) := by
  rw [← pow_succ', Nat.sub_add_cancel (Nat.le_trans (by decide) t.le_width)]

/-- The test of generated code for an unsigned type. -/
theorem convert_neg_one_pos_iff (t : CIntType) : t.convert (-1) > 0 ↔ t.signed = false := by
  have hpow := CIntType.two_pow_width t
  have hpos : (1 : ℤ) ≤ 2 ^ (t.width - 1) := one_le_pow₀ (by norm_num)
  cases hsigned : t.signed with
  | true =>
    have h : t.InRange (-1) := (CIntType.inRange_signed hsigned).2 (by omega)
    rw [CIntType.convert_of_inRange h]
    simp
  | false =>
    have h : t.convert (-1) = 2 ^ t.width - 1 := by
      refine CIntType.convert_eq_of_inRange ((CIntType.inRange_unsigned hsigned).2 (by omega)) ?_
      rw [Int.modEq_iff_dvd]
      exact ⟨-1, by ring⟩
    rw [h]
    simp only [iff_true]
    omega

/-! ## Promotion -/

theorem width_le_promoted {p : CPlatform} : t.width ≤ (p.promoted t).width := by
  rw [CPlatform.promoted]
  split
  next h => exact h.le
  next => exact le_rfl

/-- The values of a type are values of the promoted type. -/
theorem inRange_promoted {p : CPlatform} (h : t.InRange v) : (p.promoted t).InRange v := by
  rw [CPlatform.promoted]
  by_cases hwidth : t.width < p.int
  · rw [if_pos hwidth]
    have hle : (2 : ℤ) ^ t.width ≤ 2 ^ (p.int - 1) := pow_le_pow_right₀ (by norm_num) (by omega)
    have hpow := two_pow_width t
    refine (inRange_signed rfl).2 (show -2 ^ (p.int - 1) ≤ v ∧ v < 2 ^ (p.int - 1) from ?_)
    by_cases ht : t.signed = true
    · have h := (inRange_signed ht).1 h
      have hpos : (0 : ℤ) < 2 ^ (t.width - 1) := by positivity
      omega
    · have h := (inRange_unsigned (Bool.eq_false_iff.2 ht)).1 h
      omega
  · rwa [if_neg hwidth]

/-! ## Sign bits -/

/-- The bits of a value, as a natural number. -/
def bits (t : CIntType) (v : ℤ) : ℕ := (t.unsigned.convert v).toNat

theorem bits_lt (t : CIntType) (v : ℤ) : t.bits v < 2 ^ t.width := by
  have h := (inRange_unsigned (t := t.unsigned) rfl).1 (inRange_convert t.unsigned v)
  have hlt : t.unsigned.convert v < ((2 ^ t.width : ℕ) : ℤ) := by exact_mod_cast h.2
  rw [bits]
  omega

theorem bits_convert (t : CIntType) (v : ℤ) : t.bits (t.convert v) = t.bits v :=
  congrArg Int.toNat (convert_eq_convert_iff.2 (convert_modEq (t := t) v))

/-- The highest bit is set in the negative values. -/
theorem testBit_bits (ht : t.signed = true) (h : t.InRange v) :
    (t.bits v).testBit (t.width - 1) = decide (v < 0) := by
  have hrange := (inRange_signed ht).1 h
  have hwidth := two_pow_width t
  by_cases hv : v < 0
  · have hconvert : t.unsigned.convert v = v + 2 ^ t.width := by
      refine convert_eq_of_inRange ((inRange_unsigned rfl).2 ?_) ?_
      · show 0 ≤ v + 2 ^ t.width ∧ v + 2 ^ t.width < 2 ^ t.width
        omega
      · exact Int.add_modEq_right
    rw [decide_eq_true hv, Nat.testBit_eq_decide_div_mod_eq, decide_eq_true_iff]
    have hdiv : t.bits v / 2 ^ (t.width - 1) = 1 := by
      have hlt := bits_lt t v
      have hle : 2 ^ (t.width - 1) ≤ t.bits v := by
        rw [bits, hconvert, Int.le_toNat (by omega)]
        push_cast
        omega
      have hpow : 2 ^ t.width = 2 * 2 ^ (t.width - 1) := by exact_mod_cast hwidth
      rw [Nat.div_eq_iff (Nat.two_pow_pos _)]
      omega
    rw [hdiv]
  · have hconvert : t.unsigned.convert v = v := by
      refine convert_eq_of_inRange ((inRange_unsigned rfl).2 ?_) (Int.ModEq.refl v)
      show 0 ≤ v ∧ v < 2 ^ t.width
      omega
    rw [decide_eq_false hv, bits, hconvert]
    refine Nat.testBit_lt_two_pow ?_
    have hlt : v < ((2 ^ (t.width - 1) : ℕ) : ℤ) := by exact_mod_cast hrange.2
    omega

/-- The highest bit is what is left after a shift. -/
theorem shiftRight_ne_zero_iff {x : ℕ} (h : x < 2 ^ t.width) :
    x >>> (t.width - 1) ≠ 0 ↔ x.testBit (t.width - 1) = true := by
  have hpow : 2 ^ t.width = 2 * 2 ^ (t.width - 1) := by exact_mod_cast two_pow_width t
  have hlt : x / 2 ^ (t.width - 1) < 2 := Nat.div_lt_of_lt_mul (by omega)
  rw [Nat.shiftRight_eq_div_pow, Nat.testBit_eq_decide_div_mod_eq, decide_eq_true_iff]
  generalize x / 2 ^ (t.width - 1) = bit at hlt
  omega

/-- Two values have different sign bits, and two others. -/
theorem signs_differ_iff {c d : ℤ} (ht : t.signed = true) (ha : t.InRange a) (hb : t.InRange b)
    (hc : t.InRange c) (hd : t.InRange d) :
    ((t.bits a ^^^ t.bits b) &&& (t.bits c ^^^ t.bits d)) >>> (t.width - 1) ≠ 0 ↔
      (a < 0 ↔ ¬b < 0) ∧ (c < 0 ↔ ¬d < 0) := by
  have hlt := Nat.and_lt_two_pow (t.bits a ^^^ t.bits b)
    (Nat.xor_lt_two_pow (bits_lt t c) (bits_lt t d))
  rw [shiftRight_ne_zero_iff hlt, Nat.testBit_and, Nat.testBit_xor, Nat.testBit_xor,
    testBit_bits ht ha, testBit_bits ht hb, testBit_bits ht hc, testBit_bits ht hd]
  by_cases a < 0 <;> by_cases b < 0 <;> by_cases c < 0 <;> by_cases d < 0 <;> simp [*]

end CIntType

end AHPy
