import Mathlib

/-!
# Binary floating-point formats

The values of a format are zeros and infinities with a sign, NaN, and the rationals
that the format can represent: an integer of at most `precision` bits times a power
of two. Rationals are rounded to the nearest value, ties to even.

* `FloatFormat.round`: rounding, to an infinity if the result is out of range;
* `FloatFormat.round_of_representable`: a value of the format is not changed;
* `FloatValue.convert`: the conversion between formats, which is exact to a wider one.
-/

namespace AHPy

/-- A binary floating-point format. -/
structure FloatFormat where
  precision : ℕ
  /-- The exponent of the last bit of subnormal values. -/
  minExponent : ℤ
  /-- Values are less than this power of two. -/
  maxExponent : ℤ
  precision_pos : 0 < precision

/-! ## Rounding to integers -/

/-- The nearest integer, ties to even. -/
def roundHalfEven (x : ℚ) : ℤ :=
  if x - ⌊x⌋ < 1 / 2 then ⌊x⌋
  else if 1 / 2 < x - ⌊x⌋ then ⌊x⌋ + 1
  else if Even ⌊x⌋ then ⌊x⌋ else ⌊x⌋ + 1

@[simp]
theorem roundHalfEven_intCast (n : ℤ) : roundHalfEven n = n := by
  rw [roundHalfEven, Int.floor_intCast, sub_self, if_pos (by norm_num)]

theorem roundHalfEven_nonneg {x : ℚ} (hx : 0 ≤ x) : 0 ≤ roundHalfEven x := by
  have h := Int.floor_nonneg.2 hx
  rw [roundHalfEven]
  split_ifs <;> omega

/-- An integer that bounds a rational bounds what it is rounded to. -/
theorem roundHalfEven_le {x : ℚ} {n : ℤ} (hx : x < n) : roundHalfEven x ≤ n := by
  have h : ⌊x⌋ < n := Int.floor_lt.2 hx
  rw [roundHalfEven]
  split_ifs <;> omega

/-! ## Representable numbers -/

namespace FloatFormat

variable (f : FloatFormat)

/-- The magnitudes of the finite values. -/
def Representable (q : ℚ) : Prop :=
  q < 2 ^ f.maxExponent ∧
    ∃ (m : ℕ) (k : ℤ), m < 2 ^ f.precision ∧ f.minExponent ≤ k ∧ q = m * 2 ^ k

/-- The exponent of the last place of a magnitude. -/
def lastPlace (q : ℚ) : ℤ := max (Int.log 2 q - f.precision + 1) f.minExponent

/-- The magnitude rounded to its last place, without regard to the range. -/
def roundToPlace (q : ℚ) : ℚ := roundHalfEven (q / 2 ^ f.lastPlace q) * 2 ^ f.lastPlace q

variable {f} {q : ℚ}

theorem Representable.nonneg (h : f.Representable q) : 0 ≤ q := by
  obtain ⟨-, m, k, -, -, rfl⟩ := h
  positivity

theorem lt_two_pow_lastPlace (q : ℚ) : q / 2 ^ f.lastPlace q < 2 ^ f.precision := by
  have hlog := Int.lt_zpow_succ_log_self (b := 2) (by norm_num) q
  have hle : Int.log 2 q + 1 ≤ f.precision + f.lastPlace q := by
    have := le_max_left (Int.log 2 q - f.precision + 1) f.minExponent
    rw [lastPlace]
    omega
  rw [div_lt_iff₀ (by positivity), ← zpow_natCast (2 : ℚ) f.precision,
    ← zpow_add₀ (by norm_num)]
  exact hlog.trans_le (zpow_le_zpow_right₀ (by norm_num) hle)

/-- A representable magnitude has its last bit at or above its last place. -/
theorem Representable.roundToPlace_eq (h : f.Representable q) : f.roundToPlace q = q := by
  obtain ⟨-, m, k, hm, hk, hq⟩ := h
  obtain rfl | hpos := m.eq_zero_or_pos
  · rw [hq]
    simp [roundToPlace, roundHalfEven]
  have hqpos : 0 < q := by
    rw [hq]
    positivity
  have hle : f.lastPlace q ≤ k := by
    refine max_le ?_ hk
    have hlog : (2 : ℚ) ^ Int.log 2 q ≤ q := Int.zpow_log_le_self (by norm_num) hqpos
    have hlt : q < 2 ^ (f.precision + k) := by
      rw [hq, zpow_add₀ (by norm_num), zpow_natCast]
      have : (m : ℚ) < 2 ^ f.precision := mod_cast hm
      gcongr
    have := (zpow_lt_zpow_iff_right₀ (by norm_num : (1 : ℚ) < 2)).1 (hlog.trans_lt hlt)
    omega
  have hint : q / 2 ^ f.lastPlace q = ((m * 2 ^ (k - f.lastPlace q).toNat : ℤ) : ℚ) := by
    have hsub : ((k - f.lastPlace q).toNat : ℤ) = k - f.lastPlace q :=
      Int.toNat_of_nonneg (by omega)
    push_cast
    rw [← zpow_natCast (2 : ℚ), hsub, zpow_sub₀ (by norm_num), hq]
    ring
  rw [roundToPlace, hint, roundHalfEven_intCast, ← hint, div_mul_cancel₀]
  positivity

/-- What a magnitude is rounded to is representable, if it is in range. -/
theorem representable_roundToPlace (hq : 0 ≤ q) (hlt : f.roundToPlace q < 2 ^ f.maxExponent) :
    f.Representable (f.roundToPlace q) := by
  obtain ⟨m, hm⟩ := Int.eq_ofNat_of_zero_le
    (roundHalfEven_nonneg (x := q / 2 ^ f.lastPlace q) (by positivity))
  have hle : m ≤ 2 ^ f.precision := by
    have h := roundHalfEven_le (n := 2 ^ f.precision) (mod_cast lt_two_pow_lastPlace (f := f) q)
    rw [hm] at h
    exact mod_cast h
  have hplace : f.minExponent ≤ f.lastPlace q := le_max_right ..
  have heq : f.roundToPlace q = m * 2 ^ f.lastPlace q := by
    rw [roundToPlace, hm]
    rfl
  refine ⟨hlt, ?_⟩
  rw [heq]
  obtain hlt | rfl := hle.lt_or_eq
  · exact ⟨m, f.lastPlace q, hlt, hplace, rfl⟩
  · -- The magnitude was rounded up to a power of two, whose last place is one higher.
    obtain ⟨p, hp⟩ := Nat.exists_eq_succ_of_ne_zero f.precision_pos.ne'
    refine ⟨2 ^ p, f.lastPlace q + 1, ?_, by omega, ?_⟩
    · rw [hp]
      exact Nat.pow_lt_pow_right (by norm_num) p.lt_succ_self
    · rw [hp, zpow_add_one₀ (by norm_num), pow_succ]
      push_cast
      ring

/-- Integers that fit in the precision are representable. -/
theorem representable_natCast {v : ℕ} (hv : v < 2 ^ f.precision) (hmin : f.minExponent ≤ 0)
    (hmax : (v : ℚ) < 2 ^ f.maxExponent) : f.Representable v :=
  ⟨hmax, v, 0, hv, hmin, by rw [zpow_zero, mul_one]⟩

/-- An odd integer with more bits than the precision is not representable. -/
theorem not_representable_of_odd {v : ℕ} (hv : 2 ^ f.precision ≤ v) (hodd : Odd v) :
    ¬f.Representable v := by
  rintro ⟨-, m, k, hm, -, hq⟩
  rcases le_or_gt k 0 with hk | hk
  · have hle : (v : ℚ) ≤ m := by
      rw [hq]
      exact mul_le_of_le_one_right (by positivity) (zpow_le_one_of_nonpos₀ (by norm_num) hk)
    have hle : v ≤ m := mod_cast hle
    omega
  · obtain ⟨j, rfl⟩ := Int.eq_ofNat_of_zero_le hk.le
    obtain ⟨i, rfl⟩ := Nat.exists_eq_succ_of_ne_zero (by omega : j ≠ 0)
    have hv : v = m * 2 ^ (i + 1) := mod_cast hq
    rw [hv, pow_succ, ← mul_assoc] at hodd
    exact Nat.not_even_iff_odd.2 hodd (even_two.mul_left _)

/-- One format has the values of another. -/
structure Contains (g f : FloatFormat) : Prop where
  precision_le : f.precision ≤ g.precision
  minExponent_le : g.minExponent ≤ f.minExponent
  maxExponent_le : f.maxExponent ≤ g.maxExponent

theorem Contains.refl (f : FloatFormat) : f.Contains f := ⟨le_rfl, le_rfl, le_rfl⟩

theorem Contains.representable {g : FloatFormat} (h : g.Contains f) (hq : f.Representable q) :
    g.Representable q := by
  obtain ⟨hlt, m, k, hm, hk, rfl⟩ := hq
  refine ⟨hlt.trans_le (zpow_le_zpow_right₀ (by norm_num) h.maxExponent_le), m, k, ?_, ?_, rfl⟩
  · exact hm.trans_le (Nat.pow_le_pow_right (by norm_num) h.precision_le)
  · exact h.minExponent_le.trans hk

end FloatFormat

/-! ## Values -/

/-- The values of a format. -/
inductive FloatValue (f : FloatFormat)
  | nan
  | inf (negative : Bool)
  | finite (negative : Bool) (magnitude : {q : ℚ // f.Representable q})
  deriving DecidableEq

variable {f g : FloatFormat}

namespace FloatFormat

/-- The nearest value. -/
def round (f : FloatFormat) (negative : Bool) (q : {q : ℚ // 0 ≤ q}) : FloatValue f :=
  if h : f.roundToPlace q.1 < 2 ^ f.maxExponent then
    .finite negative ⟨f.roundToPlace q.1, representable_roundToPlace q.2 h⟩
  else .inf negative

theorem round_of_representable {q : {q : ℚ // 0 ≤ q}} (h : f.Representable q.1)
    (negative : Bool) : f.round negative q = .finite negative ⟨q.1, h⟩ := by
  have heq := h.roundToPlace_eq
  rw [round, dif_pos (heq.symm ▸ h.1)]
  simp only [heq]

/-- The nearest value to an integer. -/
def ofInt (f : FloatFormat) (n : ℤ) : FloatValue f :=
  f.round (decide (n < 0)) ⟨|(n : ℚ)|, abs_nonneg _⟩

end FloatFormat

namespace FloatValue

/-- The conversion to another format. -/
def convert (g : FloatFormat) : FloatValue f → FloatValue g
  | .nan => .nan
  | .inf negative => .inf negative
  | .finite negative q => g.round negative ⟨q.1, q.2.nonneg⟩

/-- The negation of a value. -/
def neg : FloatValue f → FloatValue f
  | .nan => .nan
  | .inf negative => .inf !negative
  | .finite negative q => .finite (!negative) q

def isFinite : FloatValue f → Bool
  | .finite _ _ => true
  | _ => false

def isZero : FloatValue f → Bool
  | .finite _ q => decide (q.1 = 0)
  | _ => false

/-- Whether another format has the value. -/
def In (g : FloatFormat) : FloatValue f → Prop
  | .finite _ q => g.Representable q.1
  | _ => True

theorem convert_of_representable {negative : Bool} {q : {q : ℚ // f.Representable q}}
    (h : g.Representable q.1) :
    convert g (.finite negative q) = .finite negative ⟨q.1, h⟩ :=
  g.round_of_representable h negative

/-- A value that another format has is not changed by the conversion to it and back. -/
theorem convert_convert {x : FloatValue f} (h : x.In g) : (x.convert g).convert f = x := by
  cases x with
  | nan => rfl
  | inf negative => rfl
  | finite negative q =>
    have h' : g.Representable q.1 := h
    rw [convert_of_representable h']
    exact convert_of_representable (f := g) (q := ⟨q.1, h'⟩) q.2

/-- What is in a format after a conversion is in both. -/
theorem in_convert (hfg : f.Contains g) {x : FloatValue f} (h : (x.convert g).convert f = x) :
    x.In g := by
  cases x with
  | nan => trivial
  | inf negative => trivial
  | finite negative q =>
    rw [convert, FloatFormat.round] at h
    split at h
    next hlt =>
      rw [convert_of_representable (hfg.representable
        (FloatFormat.representable_roundToPlace q.2.nonneg hlt))] at h
      injection h with _ h
      rw [In, ← congrArg Subtype.val h]
      exact FloatFormat.representable_roundToPlace q.2.nonneg hlt
    next => cases h

/-- The conversion to a narrower format and back changes exactly the values that it does not
    have. -/
theorem convert_convert_eq_iff (hfg : f.Contains g) {x : FloatValue f} :
    (x.convert g).convert f = x ↔ x.In g :=
  ⟨in_convert hfg, convert_convert⟩

theorem in_of_contains (h : g.Contains f) (x : FloatValue f) : x.In g := by
  cases x with
  | nan => trivial
  | inf negative => trivial
  | finite negative q => exact h.representable q.2

end FloatValue

end AHPy
