import AHPy.Compare.Integers

/-!
# Comparing floats with integers

* `compareFloatInt_iff`: a float is compared with the value of an integer, except where
  a C `long` is too small to tell that both are near (`Misjudges`);
* `compareIntFloat_spec`: an integer is compared with the value of a float.
-/

namespace AHPy.Compare

variable {shift : Nat} {f : Double} {q : ℚ} {op : Op}

/-! ## Orders of numbers -/

/-- A number among those with infinities. -/
abbrev rational (q : ℚ) : WithBot (WithTop ℚ) := (q : WithTop ℚ)

theorem compare_rational (a b : ℚ) : compare (rational a) (rational b) = compare a b := by
  have hlt : ∀ a b : ℚ, rational a < rational b ↔ a < b := fun a b =>
    WithBot.coe_lt_coe.trans WithTop.coe_lt_coe
  rcases lt_trichotomy a b with h | h | h
  · rw [compare_lt_iff_lt.2 h, compare_lt_iff_lt.2 ((hlt a b).2 h)]
  · rw [h, compare_eq_iff_eq.2 rfl, compare_eq_iff_eq.2 rfl]
  · rw [compare_gt_iff_gt.2 h, compare_gt_iff_gt.2 ((hlt b a).2 h)]

theorem Double.value_ofInt (i : Int) : (Double.ofInt i).value = some (rational i) := by
  rw [Double.ofInt, Double.value]
  congr 3
  rw [zpow_zero, mul_one]
  by_cases h : i < 0
  · rw [decide_eq_true h, if_pos rfl, Nat.cast_natAbs, abs_of_neg h]
    push_cast
    ring
  · rw [decide_eq_false h, if_neg Bool.false_ne_true, Nat.cast_natAbs,
      abs_of_nonneg (not_lt.1 h), one_mul]

theorem Double.order_eq {a b : Double} {u v : WithBot (WithTop ℚ)} (ha : a.value = some u)
    (hb : b.value = some v) : a.order b = some (compare u v) := by
  rw [order, ha, hb]
  rfl

/-- Finite floats are numbers; the others are compared with all integers alike. -/
theorem Double.finite_or (f : Double) : (f.isFinite = true ∧ ∃ q, f.value = some (rational q)) ∨
    f.isFinite = false ∧ ∀ i j : Int, f.order (.ofInt i) = f.order (.ofInt j) := by
  rcases f with _ | ⟨_ | _⟩ | ⟨negative, mantissa, exponent⟩
  · exact .inr ⟨rfl, fun i j => rfl⟩
  · have hlt : ∀ i : Int, rational i < ⊤ := fun i =>
      WithBot.coe_lt_coe.2 (WithTop.coe_lt_top (i : ℚ))
    refine .inr ⟨rfl, fun i j => ?_⟩
    rw [order_eq rfl (value_ofInt i), order_eq rfl (value_ofInt j),
      compare_gt_iff_gt.2 (hlt i), compare_gt_iff_gt.2 (hlt j)]
  · have hlt : ∀ i : Int, ⊥ < rational i := fun i => WithBot.bot_lt_coe _
    refine .inr ⟨rfl, fun i j => ?_⟩
    rw [order_eq rfl (value_ofInt i), order_eq rfl (value_ofInt j),
      compare_lt_iff_lt.2 (hlt i), compare_lt_iff_lt.2 (hlt j)]
  · exact .inl ⟨rfl, _, rfl⟩

/-- The operator for the operands the other way round. -/
def Op.swap : Op → Op
  | .eq => .eq
  | .ne => .ne
  | .lt => .gt
  | .le => .ge
  | .gt => .lt
  | .ge => .le

theorem Op.swap_doubles (op : Op) (a b : Double) : op.swap.doubles b a = op.doubles a b := by
  rw [doubles, doubles, Double.order, Double.order]
  rcases a.value with _ | u <;> rcases b.value with _ | v
  · cases op <;> rfl
  · cases op <;> rfl
  · cases op <;> rfl
  · show op.swap.holds (compare v u) = op.holds (compare u v)
    rcases lt_trichotomy u v with h | rfl | h
    · rw [compare_lt_iff_lt.2 h, compare_gt_iff_gt.2 h]
      cases op <;> rfl
    · rw [compare_eq_iff_eq.2 rfl]
      cases op <;> rfl
    · rw [compare_lt_iff_lt.2 h, compare_gt_iff_gt.2 h]
      cases op <;> rfl

theorem Op.doubles_ofInt (h : f.value = some (rational q)) (op : Op) (i : Int) :
    op.doubles f (.ofInt i) = op.holds (compare q i) := by
  rw [doubles, Double.order_eq h (Double.value_ofInt i), compare_rational]
  rfl

theorem Op.ofInt_doubles (h : f.value = some (rational q)) (op : Op) (i : Int) :
    op.doubles (.ofInt i) f = op.holds (compare (i : ℚ) q) := by
  rw [doubles, Double.order_eq (Double.value_ofInt i) h, compare_rational]
  rfl

theorem Op.lt_doubles (h : f.value = some (rational q)) {i : Int} :
    Op.lt.doubles f (.ofInt i) = true ↔ q < i := by
  rw [doubles_ofInt h, holds, Ordering.isLT_iff_eq_lt, compare_lt_iff_lt]

theorem Op.gt_doubles (h : f.value = some (rational q)) {i : Int} :
    Op.gt.doubles f (.ofInt i) = true ↔ (i : ℚ) < q := by
  rw [doubles_ofInt h, holds, Ordering.isGT_iff_eq_gt, compare_gt_iff_gt]

theorem Op.ge_doubles (h : f.value = some (rational q)) {i : Int} :
    Op.ge.doubles f (.ofInt i) = true ↔ (i : ℚ) ≤ q := by
  rw [doubles_ofInt h, holds, Ordering.isGE_iff_ne_lt, ← not_lt, ← compare_lt_iff_lt]

theorem mem_ne_ge_gt (op : Op) : (op ∈ [Op.ne, .ge, .gt] : Bool) = op.holds .gt := by
  rcases op <;> rfl

theorem mem_ne_le_lt (op : Op) : (op ∈ [Op.ne, .le, .lt] : Bool) = op.holds .lt := by
  rcases op <;> rfl

theorem not_mem_eq_le_lt (op : Op) : (op ∉ [Op.eq, .le, .lt] : Bool) = op.holds .gt := by
  rcases op <;> rfl

/-! ## Floats and integers -/

/-- The result of a function, or of `PyObject_RichCompare` with a float first. -/
def orCompareFloat (op : Op) (f : Double) (x : PyLong shift) (result : Option Bool) : Bool :=
  result.getD (op.doubles f (.ofInt x.value))

def orCompareInt (op : Op) (x : PyLong shift) (f : Double) (result : Option Bool) : Bool :=
  result.getD (op.doubles (.ofInt x.value) f)

/-- With a `long` that is smaller than a mantissa: the integer does not fit, and is taken
    to be larger than any mantissa, which the float is not. -/
def Misjudges (cfg : Config) (op : Op) (f : Double) (x : PyLong cfg.shift) : Prop :=
  cfg.usePyLongInternals = false ∧ ∃ q : ℚ, f.value = some (rational q) ∧
    (2 ^ (cfg.longBits - 1) ≤ x.value ∧ (x.value : ℚ) ≤ q ∧ q < two53 ∧
        op.holds .lt ≠ op.holds (compare q x.value) ∨
      x.value < -2 ^ (cfg.longBits - 1) ∧ q ≤ (x.value : ℚ) ∧ -(two53 : ℚ) < q ∧
        op.holds .gt ≠ op.holds (compare q x.value))

section

variable {cfg : Config} {x : PyLong cfg.shift}

/-- An integer that is not compact, and a float below it. -/
theorem compare_of_not_isCompact_pos (hcompact : ¬x.isCompact) (hsign : ¬x.sign < 0)
    (hq : q < ((2 ^ cfg.shift : Int) : ℚ)) : q < x.value := by
  have hcount : 1 < x.digitCount := not_le.1 fun h => hcompact (decide_eq_true h)
  have hle := PyLong.le_magnitude cfg.shift_pos hcount
  refine hq.trans_le (Int.cast_le.2 ?_)
  rcases PyLong.kind cfg.shift_pos x with ⟨hs, _, hc, _⟩ | ⟨_, _, _, hv, _⟩ | ⟨hs, _, _, _, _⟩
  · omega
  · rw [hv]
    exact_mod_cast hle
  · omega

theorem compare_of_not_isCompact_neg (hcompact : ¬x.isCompact) (hsign : ¬x.sign > 0)
    (hq : ((-2 ^ cfg.shift : Int) : ℚ) < q) : (x.value : ℚ) < q := by
  have hcount : 1 < x.digitCount := not_le.1 fun h => hcompact (decide_eq_true h)
  have hle := PyLong.le_magnitude cfg.shift_pos hcount
  refine lt_of_le_of_lt (Int.cast_le.2 ?_) hq
  rcases PyLong.kind cfg.shift_pos x with ⟨hs, _, hc, _⟩ | ⟨hs, _, _, _, _⟩ | ⟨_, _, _, hv, _⟩
  · omega
  · omega
  · rw [hv]
    exact Int.neg_le_neg (by exact_mod_cast hle)

theorem value_neg_of_sign (h : x.sign < 0) : (x.value : ℚ) < 0 := by
  rcases PyLong.kind cfg.shift_pos x with ⟨hs, _, _, _⟩ | ⟨hs, _, _, _, _⟩ | ⟨_, _, _, hv, hp⟩
  · omega
  · omega
  · rw [hv]
    exact_mod_cast Int.neg_neg_of_pos (Int.natCast_pos.2 hp)

theorem value_pos_of_sign (h : x.sign > 0) : 0 < (x.value : ℚ) := by
  rcases PyLong.kind cfg.shift_pos x with ⟨hs, _, _, _⟩ | ⟨_, _, _, hv, hp⟩ | ⟨hs, _, _, _, _⟩
  · omega
  · rw [hv]
    exact_mod_cast hp
  · omega

/-- With the internals of integers, floats are compared with their values. -/
theorem compareFloatInt_internals (hinternals : cfg.usePyLongInternals = true) :
    orCompareFloat op f x (compareFloatInt cfg op f x) = op.doubles f (.ofInt x.value) := by
  rw [compareFloatInt, if_pos hinternals]
  by_cases hcompact : x.isCompact
  · rw [if_pos hcompact, PyLong.value_of_isCompact hcompact]
    rfl
  rw [if_neg hcompact]
  rcases f.finite_or with ⟨hfinite, q, hq⟩ | ⟨hfinite, halike⟩
  · rw [if_neg (not_not.2 hfinite)]
    by_cases hpos : Op.ge.doubles f (.ofInt 0) = true
    · rw [if_pos hpos]
      have hpos : 0 ≤ q := by exact_mod_cast (Op.ge_doubles hq).1 hpos
      by_cases hsign : x.sign < 0
      · rw [if_pos hsign, mem_ne_ge_gt, Op.doubles_ofInt hq,
          compare_gt_iff_gt.2 ((value_neg_of_sign hsign).trans_le hpos)]
        rfl
      · rw [if_neg hsign]
        by_cases hlt : Op.lt.doubles f (.ofInt (2 ^ cfg.shift)) = true
        · rw [if_pos hlt, mem_ne_le_lt, Op.doubles_ofInt hq, compare_lt_iff_lt.2
            (compare_of_not_isCompact_pos hcompact hsign ((Op.lt_doubles hq).1 hlt))]
          rfl
        · rw [if_neg hlt]
          rfl
    · rw [if_neg hpos]
      have hneg : q < 0 := by exact_mod_cast not_le.1 ((Op.ge_doubles hq).not.1 hpos)
      by_cases hsign : x.sign > 0
      · rw [if_pos hsign, mem_ne_le_lt, Op.doubles_ofInt hq,
          compare_lt_iff_lt.2 (hneg.trans (value_pos_of_sign hsign))]
        rfl
      · rw [if_neg hsign]
        by_cases hgt : Op.gt.doubles f (.ofInt (-2 ^ cfg.shift)) = true
        · rw [if_pos hgt, not_mem_eq_le_lt, Op.doubles_ofInt hq, compare_gt_iff_gt.2
            (compare_of_not_isCompact_neg hcompact hsign ((Op.gt_doubles hq).1 hgt))]
          rfl
        · rw [if_neg hgt]
          rfl
  · rw [if_pos (by rw [hfinite]; exact Bool.false_ne_true), Op.doubles, halike 0 x.value]
    rfl

/-- What is known of an integer from its value as a `long`. -/
theorem longOverflow (cfg : Config) (x : PyLong cfg.shift) :
    (x.asIntegerAndOverflow cfg.longBits).2 = 1 ∧ 2 ^ (cfg.longBits - 1) ≤ x.value ∨
      (x.asIntegerAndOverflow cfg.longBits).2 = -1 ∧ x.value < -2 ^ (cfg.longBits - 1) ∨
      x.asIntegerAndOverflow cfg.longBits = (x.value, 0) ∧ -2 ^ (cfg.longBits - 1) ≤ x.value ∧
        x.value < 2 ^ (cfg.longBits - 1) := by
  rcases asIntegerAndOverflow_spec x cfg.longBits with ⟨h, hv⟩ | ⟨h, hv⟩ | h
  · exact .inl ⟨by rw [h], hv⟩
  · exact .inr (.inl ⟨by rw [h], hv⟩)
  · exact .inr (.inr h)

/-- An integer is taken to be at least as large as the mantissas. -/
theorem judged_large (hq : f.value = some (rational q)) {i : Int} :
    (if Op.lt.doubles f (.ofInt two53) then some (op.holds .lt) else none).getD
        (op.holds (compare q i)) = op.holds (compare q i) ↔
      ¬((i : ℚ) ≤ q ∧ q < two53 ∧ op.holds .lt ≠ op.holds (compare q i)) := by
  rw [← Op.lt_doubles hq]
  by_cases hlt : Op.lt.doubles f (.ofInt two53) = true
  · rw [if_pos hlt, Option.getD_some]
    refine ⟨fun h h' => h'.2.2 h, fun h => ?_⟩
    by_contra hne
    by_cases hle : (i : ℚ) ≤ q
    · exact h ⟨hle, hlt, hne⟩
    · exact hne (by rw [compare_lt_iff_lt.2 (not_le.1 hle)])
  · rw [if_neg hlt]
    exact iff_of_true rfl fun h => hlt h.2.1

/-- An integer is taken to be at most as large as the negative mantissas. -/
theorem judged_small (hq : f.value = some (rational q)) {i : Int} :
    (if Op.gt.doubles f (.ofInt (-two53)) then some (op.holds .gt) else none).getD
        (op.holds (compare q i)) = op.holds (compare q i) ↔
      ¬(q ≤ (i : ℚ) ∧ -(two53 : ℚ) < q ∧ op.holds .gt ≠ op.holds (compare q i)) := by
  have hgt : Op.gt.doubles f (.ofInt (-two53)) = true ↔ -(two53 : ℚ) < q := by
    rw [Op.gt_doubles hq, Int.cast_neg]
  rw [← hgt]
  by_cases hlt : Op.gt.doubles f (.ofInt (-two53)) = true
  · rw [if_pos hlt, Option.getD_some]
    refine ⟨fun h h' => h'.2.2 h, fun h => ?_⟩
    by_contra hne
    by_cases hle : q ≤ (i : ℚ)
    · exact h ⟨hle, hlt, hne⟩
    · exact hne (by rw [compare_gt_iff_gt.2 (not_le.1 hle)])
  · rw [if_neg hlt]
    exact iff_of_true rfl fun h => hlt h.2.1

/-- A float is compared with the value of an integer, unless it is misjudged. -/
theorem compareFloatInt_iff :
    orCompareFloat op f x (compareFloatInt cfg op f x) = op.doubles f (.ofInt x.value) ↔
      ¬Misjudges cfg op f x := by
  by_cases hinternals : cfg.usePyLongInternals = true
  · refine ⟨fun _ h => ?_, fun _ => compareFloatInt_internals hinternals⟩
    rw [h.1] at hinternals
    exact absurd hinternals Bool.false_ne_true
  have hportable := Bool.eq_false_iff.2 hinternals
  rw [compareFloatInt, if_neg hinternals]
  rcases f.finite_or with ⟨hfinite, q, hq⟩ | ⟨hfinite, halike⟩
  · rw [if_neg (not_not.2 hfinite)]
    -- What a misjudgement is for this float.
    have hmisjudges : Misjudges cfg op f x ↔
        (2 ^ (cfg.longBits - 1) ≤ x.value ∧ (x.value : ℚ) ≤ q ∧ q < two53 ∧
          op.holds .lt ≠ op.holds (compare q x.value) ∨
        x.value < -2 ^ (cfg.longBits - 1) ∧ q ≤ (x.value : ℚ) ∧ -(two53 : ℚ) < q ∧
          op.holds .gt ≠ op.holds (compare q x.value)) := by
      constructor
      · rintro ⟨-, q', hq', h⟩
        obtain rfl : q' = q := by simpa [hq] using hq'.symm
        exact h
      · exact fun h => ⟨hportable, q, hq, h⟩
    have hlarge : (0 : Int) < 2 ^ (cfg.longBits - 1) := pow_pos (by decide) _
    rw [hmisjudges, orCompareFloat, Op.doubles_ofInt hq op x.value]
    rcases longOverflow cfg x with ⟨ho, hv⟩ | ⟨ho, hv⟩ | ⟨h, hlo, hhi⟩
    · rw [if_neg (fun h => one_ne_zero (ho.symm.trans h.1)), ho, if_neg one_ne_zero,
        if_pos one_pos, mem_ne_le_lt, judged_large hq]
      exact not_congr ⟨fun h => .inl ⟨hv, h⟩, fun h => h.elim (fun h => h.2)
        fun h => absurd h.1 (by omega)⟩
    · have hne : (-1 : Int) ≠ 0 := by decide
      rw [if_neg (fun h => hne (ho.symm.trans h.1)), ho, if_neg hne,
        if_neg (show ¬(-1 : Int) > 0 by decide), mem_ne_ge_gt, judged_small hq]
      exact not_congr ⟨fun h => .inr ⟨hv, h⟩, fun h => h.elim
        (fun h => absurd h.1 (by omega)) fun h => h.2⟩
    -- The integer is known, and need not be near the mantissas.
    · refine iff_of_true ?_ (by omega)
      rw [h]
      by_cases hge : x.value ≥ two53
      · rw [if_neg (fun h => h.2.1 hge), if_pos rfl, if_pos hge, if_pos one_pos, mem_ne_le_lt]
        refine (judged_large hq).2 fun hq' => ?_
        exact absurd (hq'.1.trans_lt hq'.2.1) (not_lt.2 (Int.cast_le.2 hge))
      by_cases hle : x.value ≤ -two53
      · rw [if_neg (fun h => h.2.2 hle), if_pos rfl, if_neg hge,
          if_neg (show ¬(-1 : Int) > 0 by decide), mem_ne_ge_gt]
        refine (judged_small hq).2 fun hq' => ?_
        have hle : (x.value : ℚ) ≤ -two53 := by exact_mod_cast hle
        exact absurd (hq'.2.1.trans_le hq'.1) (not_lt.2 hle)
      · rw [if_pos ⟨rfl, hge, hle⟩, Op.doubles_ofInt hq]
        rfl
  · rw [if_pos (by rw [hfinite]; exact Bool.false_ne_true), orCompareFloat, Option.getD_some,
      Op.doubles, halike 0 x.value]
    refine ⟨fun _ => ?_, fun _ => rfl⟩
    rintro ⟨-, q, hq, -⟩
    rcases f with _ | ⟨_ | _⟩ | _
    · exact absurd hq (by simp [Double.value])
    · simp [Double.value] at hq
    · simp [Double.value] at hq
    · exact absurd hfinite (by simp [Double.isFinite])

/-- With the internals of integers, the two functions mirror each other. -/
theorem compareIntFloat_eq_swap (hinternals : cfg.usePyLongInternals = true) :
    compareIntFloat cfg op x f = compareFloatInt cfg op.swap f x := by
  rw [compareIntFloat, compareFloatInt, if_pos hinternals, if_pos hinternals, op.swap_doubles,
    op.swap_doubles]
  cases op <;> rfl

/-- With the internals of integers, integers are compared with the values of floats. -/
theorem compareIntFloat_internals (hinternals : cfg.usePyLongInternals = true) :
    orCompareInt op x f (compareIntFloat cfg op x f) = op.doubles (.ofInt x.value) f := by
  have h : orCompareFloat op.swap f x (compareFloatInt cfg op.swap f x) = _ :=
    compareFloatInt_internals hinternals
  rw [orCompareFloat, op.swap_doubles] at h
  rw [orCompareInt, compareIntFloat_eq_swap hinternals]
  exact h

/-- An integer that is above the negative mantissas' end, and a float that is not. -/
theorem orCompareInt_small (hq : f.value = some (rational q)) (hle : -two53 ≤ x.value) :
    (if Op.lt.doubles f (.ofInt (-two53)) then some (op.holds .gt) else none).getD
      (op.holds (compare (x.value : ℚ) q)) = op.holds (compare (x.value : ℚ) q) := by
  by_cases hlt : Op.lt.doubles f (.ofInt (-two53)) = true
  · have hcast : ((-two53 : Int) : ℚ) ≤ x.value := Int.cast_le.2 hle
    rw [if_pos hlt, compare_gt_iff_gt.2 (((Op.lt_doubles hq).1 hlt).trans_le hcast)]
    rfl
  · rw [if_neg hlt]
    rfl

theorem orCompareInt_large (hq : f.value = some (rational q)) (hle : x.value ≤ two53) :
    (if Op.gt.doubles f (.ofInt two53) then some (op.holds .lt) else none).getD
      (op.holds (compare (x.value : ℚ) q)) = op.holds (compare (x.value : ℚ) q) := by
  by_cases hgt : Op.gt.doubles f (.ofInt two53) = true
  · have hcast : (x.value : ℚ) ≤ (two53 : Int) := Int.cast_le.2 hle
    rw [if_pos hgt, compare_lt_iff_lt.2 (hcast.trans_lt ((Op.gt_doubles hq).1 hgt))]
    rfl
  · rw [if_neg hgt]
    rfl

/-- An integer is compared with the value of a float. -/
theorem compareIntFloat_spec :
    orCompareInt op x f (compareIntFloat cfg op x f) = op.doubles (.ofInt x.value) f := by
  by_cases hinternals : cfg.usePyLongInternals = true
  · exact compareIntFloat_internals hinternals
  rw [compareIntFloat, if_neg hinternals]
  rcases f.finite_or with ⟨hfinite, q, hq⟩ | ⟨hfinite, halike⟩
  · rw [if_neg (not_not.2 hfinite), orCompareInt, Op.ofInt_doubles hq op x.value]
    have hlarge : (0 : Int) < 2 ^ (cfg.longBits - 1) := pow_pos (by decide) _
    have hpos : (0 : Int) < two53 := by decide
    have hne : (-1 : Int) ≠ 0 := by decide
    rcases longOverflow cfg x with ⟨ho, hv⟩ | ⟨ho, hv⟩ | ⟨h, hlo, hhi⟩
    · rw [if_neg (fun h => one_ne_zero (ho.symm.trans h.1)), ho, if_neg one_ne_zero,
        if_neg (show ¬(1 : Int) < 0 by decide), mem_ne_ge_gt, orCompareInt_small hq (by omega)]
    · rw [if_neg (fun h => hne (ho.symm.trans h.1)), ho, if_neg hne,
        if_pos (show (-1 : Int) < 0 by decide), mem_ne_le_lt, orCompareInt_large hq (by omega)]
    · rw [h]
      by_cases hge : x.value ≥ two53
      · rw [if_neg (fun h => h.2.1 hge), if_pos rfl, if_pos hge,
          if_neg (show ¬(1 : Int) < 0 by decide), mem_ne_ge_gt, orCompareInt_small hq (by omega)]
      by_cases hle : x.value ≤ -two53
      · rw [if_neg (fun h => h.2.2 hle), if_pos rfl, if_neg hge,
          if_pos (show (-1 : Int) < 0 by decide), mem_ne_le_lt, orCompareInt_large hq (by omega)]
      · rw [if_pos ⟨rfl, hge, hle⟩, Op.ofInt_doubles hq]
        rfl
  · rw [if_pos (by rw [hfinite]; exact Bool.false_ne_true), orCompareInt, Option.getD_some,
      ← op.swap_doubles, ← op.swap_doubles, Op.doubles, halike 0 x.value]
    rfl

end

end AHPy.Compare
