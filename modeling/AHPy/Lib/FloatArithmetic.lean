import AHPy.Lib.FloatFormat

/-!
# Floating-point arithmetic

Addition, subtraction, multiplication and division of the values of a format: the exact
result is rounded. An exact result of zero has a sign of its own, which is positive for the
sum of opposite values.

* `FloatValue.add_zero_eq_iff`: a sum with zero is the value, except for the negative zero;
* `FloatValue.sub_zero_eq`: a difference to zero is the value;
* `FloatValue.zero_mul_finite`: a product of zero has the signs of both;
* `FloatFormat.ofInt_of_lt`: the integers that are not rounded.
-/

namespace AHPy

variable {f : FloatFormat}

namespace FloatFormat

theorem representable_zero (f : FloatFormat) : f.Representable 0 :=
  ⟨by positivity, 0, f.minExponent, by positivity, le_rfl, by simp⟩

/-- A magnitude that is not below its last place is not rounded to zero. -/
theorem roundToPlace_pos {q : ℚ} (hq : 0 < q) (h : f.lastPlace q ≤ Int.log 2 q) :
    0 < f.roundToPlace q := by
  have hone : (1 : ℚ) ≤ q / 2 ^ f.lastPlace q := by
    rw [one_le_div (by positivity)]
    exact (zpow_le_zpow_right₀ (by norm_num) h).trans (Int.zpow_log_le_self (by norm_num) hq)
  have hfloor : 1 ≤ ⌊q / 2 ^ f.lastPlace q⌋ := Int.le_floor.2 (mod_cast hone)
  have hround : 1 ≤ roundHalfEven (q / 2 ^ f.lastPlace q) := by
    rw [roundHalfEven]
    split_ifs <;> omega
  have hcast : (0 : ℚ) < roundHalfEven (q / 2 ^ f.lastPlace q) := by
    exact_mod_cast hround
  rw [roundToPlace]
  positivity

/-- Rounding to the last place does not double a magnitude that is not below one. -/
theorem roundToPlace_lt {q : ℚ} {k : ℕ} (hq : 0 ≤ q) (hk : q ≤ 2 ^ k) (hmin : f.minExponent ≤ 0)
    (hmax : k + 1 < f.maxExponent) : f.roundToPlace q < 2 ^ f.maxExponent := by
  have hpow : (1 : ℚ) ≤ 2 ^ k := one_le_pow₀ (by norm_num)
  have hplace : (2 : ℚ) ^ f.lastPlace q ≤ 2 ^ k := by
    have hprecision := f.precision_pos
    rcases hq.eq_or_lt with rfl | hpos
    · have hle : f.lastPlace 0 ≤ 0 := by
        rw [lastPlace, Int.log_zero_right]
        exact max_le (by omega) hmin
      exact (zpow_le_one_of_nonpos₀ (by norm_num) hle).trans hpow
    · rcases le_max_iff.1 (le_refl (f.lastPlace q)) with h | h
      · have hle : f.lastPlace q ≤ Int.log 2 q := by omega
        exact ((zpow_le_zpow_right₀ (by norm_num) hle).trans
          (Int.zpow_log_le_self (by norm_num) hpos)).trans hk
      · exact (zpow_le_one_of_nonpos₀ (by norm_num) (h.trans hmin)).trans hpow
  have hround : (roundHalfEven (q / 2 ^ f.lastPlace q) : ℚ) ≤ q / 2 ^ f.lastPlace q + 1 := by
    have hfloor := Int.floor_le (q / 2 ^ f.lastPlace q)
    have hle : roundHalfEven (q / 2 ^ f.lastPlace q) ≤ ⌊q / 2 ^ f.lastPlace q⌋ + 1 := by
      rw [roundHalfEven]
      split_ifs <;> omega
    have hcast : (roundHalfEven (q / 2 ^ f.lastPlace q) : ℚ) ≤ ⌊q / 2 ^ f.lastPlace q⌋ + 1 := by
      exact_mod_cast hle
    linarith
  have hdouble : f.roundToPlace q ≤ 2 ^ (k + 1) := by
    have hpos : (0 : ℚ) < 2 ^ f.lastPlace q := by positivity
    calc f.roundToPlace q
        ≤ (q / 2 ^ f.lastPlace q + 1) * 2 ^ f.lastPlace q :=
          mul_le_mul_of_nonneg_right hround hpos.le
      _ = q + 2 ^ f.lastPlace q := by rw [add_mul, div_mul_cancel₀ _ hpos.ne', one_mul]
      _ ≤ 2 ^ k + 2 ^ k := add_le_add hk hplace
      _ = 2 ^ (k + 1) := by ring
  refine hdouble.trans_lt ?_
  rw [← zpow_natCast]
  exact zpow_lt_zpow_right₀ (by norm_num) (by push_cast; exact hmax)

theorem isFinite_round {q : {q : ℚ // 0 ≤ q}} {k : ℕ} (hk : q.1 ≤ 2 ^ k)
    (hmin : f.minExponent ≤ 0) (hmax : k + 1 < f.maxExponent) (negative : Bool) :
    (f.round negative q).isFinite = true := by
  rw [round, dif_pos (roundToPlace_lt q.2 hk hmin hmax)]
  rfl

/-- No other integer than zero is rounded to zero. -/
theorem isZero_ofInt (h : f.minExponent ≤ 0) {n : ℤ} (hn : n ≠ 0) :
    (f.ofInt n).isZero = false := by
  have hone : (1 : ℚ) ≤ |(n : ℚ)| := by
    rw [← Int.cast_abs]
    exact_mod_cast Int.one_le_abs hn
  have hlog : 0 ≤ Int.log 2 |(n : ℚ)| := by
    rw [Int.log_of_one_le_right _ hone]
    exact Int.natCast_nonneg _
  have hplace : f.lastPlace |(n : ℚ)| ≤ Int.log 2 |(n : ℚ)| := by
    have := f.precision_pos
    exact max_le (by omega) (h.trans hlog)
  have hpos := roundToPlace_pos (f := f) (one_pos.trans_le hone) hplace
  rw [ofInt, round]
  split
  next => exact decide_eq_false hpos.ne'
  next => rfl

theorem ofInt_of_isFinite {n : ℤ} (h : (f.ofInt n).isFinite = true) :
    ∃ q, f.ofInt n = .finite (decide (n < 0)) q := by
  rw [ofInt, round] at h ⊢
  split at h
  next hlt => exact ⟨_, dif_pos hlt⟩
  next => cases h

/-- Integers that fit in the precision are values of the format. -/
theorem ofInt_of_lt {n : ℤ} (hn : |n| < 2 ^ f.precision) (hmin : f.minExponent ≤ 0)
    (hmax : f.precision ≤ f.maxExponent) :
    ∃ h : f.Representable |(n : ℚ)|, f.ofInt n = .finite (decide (n < 0)) ⟨|(n : ℚ)|, h⟩ := by
  have hlt : (n.natAbs : ℚ) < 2 ^ f.maxExponent := by
    refine lt_of_lt_of_le ?_ (zpow_le_zpow_right₀ (by norm_num) hmax)
    rw [zpow_natCast]
    exact_mod_cast show n.natAbs < 2 ^ f.precision by zify; exact hn
  have h := representable_natCast (f := f) (v := n.natAbs) (by zify; exact hn) hmin hlt
  rw [Nat.cast_natAbs, Int.cast_abs] at h
  exact ⟨h, f.round_of_representable (q := ⟨_, abs_nonneg _⟩) h _⟩

/-- The nearest value to a rational, with the sign of a zero. -/
def roundSigned (f : FloatFormat) (zeroNegative : Bool) (x : ℚ) : FloatValue f :=
  f.round (if x = 0 then zeroNegative else decide (x < 0)) ⟨|x|, abs_nonneg x⟩

end FloatFormat

namespace FloatValue

/-- Zero, with a sign. -/
def zero (negative : Bool) : FloatValue f := .finite negative ⟨0, f.representable_zero⟩

/-- The rational of a sign and a magnitude. -/
def signed (negative : Bool) (q : ℚ) : ℚ := if negative then -q else q

/-- The sum of two values. -/
def add : FloatValue f → FloatValue f → FloatValue f
  | .nan, _ => .nan
  | .inf _, .nan => .nan
  | .inf a, .inf b => if a = b then .inf a else .nan
  | .inf a, .finite _ _ => .inf a
  | .finite _ _, .nan => .nan
  | .finite _ _, .inf b => .inf b
  | .finite a p, .finite b q => f.roundSigned (a && b) (signed a p + signed b q)

/-- The difference of two values. -/
def sub (x y : FloatValue f) : FloatValue f := x.add y.neg

/-- The product of two values. -/
def mul : FloatValue f → FloatValue f → FloatValue f
  | .nan, _ => .nan
  | .inf _, .nan => .nan
  | .inf a, .inf b => .inf (a ^^ b)
  | .inf a, .finite b q => if q.1 = 0 then .nan else .inf (a ^^ b)
  | .finite _ _, .nan => .nan
  | .finite a p, .inf b => if p.1 = 0 then .nan else .inf (a ^^ b)
  | .finite a p, .finite b q =>
    f.round (a ^^ b) ⟨p.1 * q.1, mul_nonneg p.2.nonneg q.2.nonneg⟩

/-- The quotient of two values. -/
def div : FloatValue f → FloatValue f → FloatValue f
  | .nan, _ => .nan
  | .inf _, .nan => .nan
  | .inf _, .inf _ => .nan
  | .inf a, .finite b _ => .inf (a ^^ b)
  | .finite _ _, .nan => .nan
  | .finite a _, .inf b => zero (a ^^ b)
  | .finite a p, .finite b q =>
    if q.1 = 0 then (if p.1 = 0 then .nan else .inf (a ^^ b))
    else f.round (a ^^ b) ⟨p.1 / q.1, div_nonneg p.2.nonneg q.2.nonneg⟩

variable {x : FloatValue f} {a b : Bool}

@[simp]
theorem zero_inj : (zero a : FloatValue f) = zero b ↔ a = b := by
  rw [zero, zero, finite.injEq, and_iff_left rfl]

theorem isZero_iff : x.isZero = true ↔ ∃ a, x = zero a := by
  constructor
  · intro h
    cases x with
    | nan => cases h
    | inf negative => cases h
    | finite negative q => exact ⟨negative, congrArg _ (Subtype.ext (of_decide_eq_true h))⟩
  · rintro ⟨a, rfl⟩
    exact decide_eq_true (p := (0 : ℚ) = 0) rfl

theorem abs_signed (a : Bool) {q : ℚ} (hq : 0 ≤ q) : |signed a q| = q := by
  cases a
  · exact abs_of_nonneg hq
  · rw [signed, if_pos rfl, abs_neg, abs_of_nonneg hq]

/-- A value is what its rational is rounded to, if that is not zero. -/
theorem roundSigned_signed {a : Bool} {q : {q : ℚ // f.Representable q}} {zeroNegative : Bool}
    (h : q.1 = 0 → zeroNegative = a) : f.roundSigned zeroNegative (signed a q) = .finite a q := by
  have hsign : (if signed a q = 0 then zeroNegative else decide (signed a q < 0)) = a := by
    by_cases hq : q.1 = 0
    · rw [if_pos (by rw [hq, signed, neg_zero, ite_self]), h hq]
    · have hpos : 0 < q.1 := lt_of_le_of_ne q.2.nonneg (Ne.symm hq)
      cases a
      · rw [show signed false q.1 = q.1 from rfl, if_neg hq, decide_eq_false_iff_not]
        exact hpos.le.not_gt
      · rw [show signed true q.1 = -q.1 from rfl, if_neg (neg_ne_zero.2 hq), decide_eq_true_iff]
        exact neg_lt_zero.2 hpos
  rw [FloatFormat.roundSigned, hsign]
  have habs : (⟨|signed a q|, abs_nonneg _⟩ : {q : ℚ // 0 ≤ q}) = ⟨q.1, q.2.nonneg⟩ :=
    Subtype.ext (abs_signed a q.2.nonneg)
  rw [habs]
  exact f.round_of_representable q.2 a

theorem ofInt_zero : f.ofInt 0 = zero false := by
  have h : f.Representable |((0 : ℤ) : ℚ)| := by
    rw [Int.cast_zero, abs_zero]
    exact f.representable_zero
  rw [FloatFormat.ofInt, f.round_of_representable (q := ⟨_, abs_nonneg _⟩) h]
  exact congrArg _ (Subtype.ext (show |((0 : ℤ) : ℚ)| = 0 by rw [Int.cast_zero, abs_zero]))

/-! ## Sums with zero -/

/-- A sum with a zero is the value, unless both are zeros of different signs. -/
theorem add_zero_eq (h : ∀ a, x = zero a → (a && b) = a) : x.add (zero b) = x := by
  cases x with
  | nan => rfl
  | inf negative => rfl
  | finite a q =>
    have hsum : signed a q + signed b (0 : ℚ) = signed a q := by
      rw [show signed b 0 = (0 : ℚ) by rw [signed, neg_zero, ite_self], add_zero]
    rw [zero, add, hsum]
    exact roundSigned_signed fun hq => h a (congrArg _ (Subtype.ext hq))

theorem add_swap (x y : FloatValue f) : x.add y = y.add x := by
  cases x with
  | nan => cases y <;> rfl
  | inf a =>
    cases y with
    | nan => rfl
    | inf b =>
      by_cases h : a = b
      · rw [add, add, if_pos h, if_pos h.symm, h]
      · rw [add, add, if_neg h, if_neg (Ne.symm h)]
    | finite b q => rfl
  | finite a p =>
    cases y with
    | nan => rfl
    | inf b => rfl
    | finite b q => rw [add, add, Bool.and_comm, add_comm]

/-- The negative zero is the only value that the positive zero changes. -/
theorem add_zero_eq_iff : x.add (zero false) = x ↔ x ≠ zero true := by
  constructor
  · rintro h rfl
    have hsum : (zero true : FloatValue f).add (zero false) = zero false :=
      (add_swap _ _).trans (add_zero_eq fun a h => by rw [Bool.and_true])
    exact Bool.noConfusion (zero_inj.1 (h.symm.trans hsum))
  · refine fun h => add_zero_eq fun a ha => ?_
    cases a
    · rfl
    · exact absurd ha h

theorem neg_zero_false : (zero false : FloatValue f).neg = zero true := rfl

/-- The difference to the positive zero is the value. -/
theorem sub_zero_eq : x.sub (zero false) = x := by
  rw [sub, neg_zero_false]
  exact add_zero_eq fun a _ => Bool.and_true a

/-! ## Products with zero -/

/-- The product of a zero has the signs of both. -/
theorem zero_mul_finite {q : {q : ℚ // f.Representable q}} :
    (zero a : FloatValue f).mul (.finite b q) = zero (a ^^ b) := by
  have h : f.Representable (0 * q.1) := by
    rw [zero_mul]
    exact f.representable_zero
  rw [zero, mul, f.round_of_representable (q := ⟨0 * q.1, _⟩) h]
  exact congrArg _ (Subtype.ext (zero_mul _))

/-! ## Quotients -/

/-- The quotient of two integers that are values of the format is rounded once. -/
theorem div_ofInt {m n : ℤ} (hm : f.Representable |(m : ℚ)|) (hn : f.Representable |(n : ℚ)|)
    (hzero : n ≠ 0) : (f.ofInt m).div (f.ofInt n) =
      f.round (decide (m < 0) ^^ decide (n < 0))
        ⟨|(m : ℚ)| / |(n : ℚ)|, div_nonneg (abs_nonneg _) (abs_nonneg _)⟩ := by
  rw [FloatFormat.ofInt, FloatFormat.ofInt, f.round_of_representable (q := ⟨_, abs_nonneg _⟩) hm,
    f.round_of_representable (q := ⟨_, abs_nonneg _⟩) hn, div,
    if_neg (abs_ne_zero.2 (Int.cast_ne_zero.2 hzero))]

end FloatValue

end AHPy
