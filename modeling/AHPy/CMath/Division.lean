import AHPy.Lib.CInteger

/-!
# Floor division and modulo of C integers

The code for `//` and `%` of C integers, without `cdivision`: `DivNode` and `ModNode`
(`ExprNodes.py`) emit guards and a call of `__Pyx_div_<type>` or `__Pyx_mod_<type>` (`CMath.c`),
which correct the results of C. `none` stands for undefined behaviour.

* `IntDivision.generated`: the guards and the operation;
* `divInt_eq`, `modInt_eq`: the corrections, where the operations of C are defined;
* `IntDivision.dividesAsPython_iff`: when this is what Python has.
-/

namespace AHPy.CMath

/-! ## `CMath.c` -/

/-- `a / b`, in the type of the operands. -/
def cDiv (t : CIntType) (a b : ℤ) : Option ℤ := if b = 0 then none else t.arith (a.tdiv b)

/-- `a % b`, which is undefined where `a / b` is. -/
def cMod (t : CIntType) (a b : ℤ) : Option ℤ :=
  if b = 0 then none else if t.InRange (a.tdiv b) then some (a.tmod b) else none

/-- `adapt_python` -/
def adaptPython (bIsConstant : Bool) (r b : ℤ) : ℤ :=
  if bIsConstant then if r ≠ 0 ∧ ¬(r < 0 ↔ b < 0) then 1 else 0
  else if r ≠ 0 ∧ Int.xor r b < 0 then 1 else 0

/-- `__Pyx_div_<type>` -/
def divInt (p : CPlatform) (t : CIntType) (bIsConstant : Bool) (a b : ℤ) : Option ℤ := do
  let q ← cDiv (p.promoted t) a b
  let q := t.convert q
  let qb ← (p.promoted t).arith (q * b)
  let r ← (p.promoted t).arith (a - qb)
  let r := t.convert r
  let result ← (p.promoted t).arith (q - adaptPython bIsConstant r b)
  return t.convert result

/-- `__Pyx_mod_<type>` -/
def modInt (p : CPlatform) (t : CIntType) (bIsConstant : Bool) (a b : ℤ) : Option ℤ := do
  let r ← cMod (p.promoted t) a b
  let r := t.convert r
  let adapt ← (p.promoted t).arith (adaptPython bIsConstant r b * b)
  let result ← (p.promoted t).arith (r + adapt)
  return t.convert result

/-- `__Pyx_UNARY_NEG_WOULD_OVERFLOW` -/
def unaryNegWouldOverflow (p : CPlatform) (x : ℤ) : Bool :=
  decide (x < 0) && decide ((p.longType false).convert x =
    (p.longType false).convert (0 - (p.longType false).convert x))

/-! ## `ExprNodes.py` -/

/-- The operators of `DivNode` and of `ModNode`. -/
inductive DivOperator
  | floorDiv
  | mod
  deriving DecidableEq

/-- `type.signed`: 0, 1 and 2. What is declared may not be what the C type is, unless it is
    explicitly signed or unsigned. -/
inductive Signedness
  | unsigned
  | signed
  | explicitlySigned
  deriving DecidableEq

/-- A division of C integers. -/
structure IntDivision where
  type : CIntType
  declared : Signedness
  operator : DivOperator
  /-- `operand2.has_constant_result()` -/
  isConstant : Bool
  operand1 : ℤ
  operand2 : ℤ
  inRange1 : type.InRange operand1
  inRange2 : type.InRange operand2
  is_unsigned : declared = .unsigned → type.signed = false
  is_signed : declared = .explicitlySigned → type.signed = true

/-- A result, or the exception that is raised. -/
inductive DivOutcome
  | value (v : ℤ)
  | zeroDivisionError
  | overflowError
  deriving DecidableEq

namespace IntDivision

variable (p : CPlatform) (d : IntDivision)

/-- `zerodivision_check` -/
def zerodivisionCheck : Bool := !d.isConstant || decide (d.operand2 = 0)

/-- `minus1_check` -/
def minus1Check : Bool :=
  if d.declared = .explicitlySigned then decide (d.operand2 = -1)
  else !decide (d.type.convert (-1) > 0) && decide (d.operand2 = d.type.convert (-1))

/-- The test for `OverflowError`. -/
def overflowCheck : Bool :=
  decide (d.declared ≠ .unsigned) && decide (d.operator ≠ .mod) &&
    (decide (d.type.width = p.long) && d.minus1Check && unaryNegWouldOverflow p d.operand1)

/-- `cdivision`, which is set for types that are declared unsigned. -/
def cdivision : Bool := decide (d.declared = .unsigned)

/-- `calculate_result_code` -/
def result : Option ℤ :=
  match d.operator with
  | .floorDiv =>
    if d.cdivision then (cDiv (p.promoted d.type) d.operand1 d.operand2).map d.type.convert
    else divInt p d.type d.isConstant d.operand1 d.operand2
  | .mod =>
    if d.cdivision then (cMod (p.promoted d.type) d.operand1 d.operand2).map d.type.convert
    else modInt p d.type d.isConstant d.operand1 d.operand2

/-- `generate_div_warning_code`, and the result. -/
def generated : Option DivOutcome :=
  if d.zerodivisionCheck && decide (d.operand2 = 0) then some .zeroDivisionError
  else if d.zerodivisionCheck && d.overflowCheck p then some .overflowError
  else (d.result p).map .value

/-! ## Python -/

/-- The floored quotient, or the remainder that goes with it. -/
def pyValue : ℤ :=
  match d.operator with
  | .floorDiv => d.operand1.fdiv d.operand2
  | .mod => d.operand1 - d.operand2 * d.operand1.fdiv d.operand2

/-- What Python has, in the type. -/
def pyOutcome : DivOutcome :=
  if d.operand2 = 0 then .zeroDivisionError
  else if d.type.InRange d.pyValue then .value d.pyValue
  else .overflowError

/-- The least value, divided by -1. -/
def NegatesMin : Prop :=
  d.type.signed = true ∧ d.operand1 = d.type.lo ∧ d.operand2 = -1

/-- Where the guards are enough. -/
def Guarded : Prop :=
  match d.operator with
  | .floorDiv => d.isConstant = false ∧ d.type.width = p.long
  | .mod => d.type.width < p.int

end IntDivision

/-! ## Truncated and floored division -/

section

variable {a b : ℤ}

theorem xor_neg_iff : Int.xor a b < 0 ↔ ¬(a < 0 ↔ b < 0) := by
  have hnat (m n : ℕ) : ¬((m ^^^ n : ℕ) : ℤ) < 0 := by omega
  cases a <;> cases b <;>
    simp [Int.xor, Int.negSucc_lt_zero, hnat, Int.not_lt.2 (Int.natCast_nonneg _)]

theorem adaptPython_eq (bIsConstant : Bool) (r b : ℤ) :
    adaptPython bIsConstant r b = if r ≠ 0 ∧ ¬(r < 0 ↔ b < 0) then 1 else 0 := by
  simp only [adaptPython, xor_neg_iff, ite_self]

/-- The signs and the size of C's remainder. -/
theorem tmod_bounds (hb : b ≠ 0) :
    (0 ≤ a → 0 ≤ a.tmod b) ∧ (a ≤ 0 → a.tmod b ≤ 0) ∧ (a.tmod b).natAbs < b.natAbs ∧
      (a.tmod b).natAbs ≤ a.natAbs := by
  have hneg : (-a).tmod b = -a.tmod b := Int.neg_tmod a b
  refine ⟨fun ha => Int.tmod_nonneg b ha, fun ha => ?_, ?_, ?_⟩
  · have h := Int.tmod_nonneg b (Int.neg_nonneg_of_nonpos ha)
    omega
  · rw [Int.natAbs_tmod]
    exact Nat.mod_lt _ (Int.natAbs_pos.2 hb)
  · rw [Int.natAbs_tmod]
    exact Nat.mod_le _ _

theorem fdiv_fmod_neg_one (a : ℤ) : a.fdiv (-1) = -a ∧ a.fmod (-1) = 0 :=
  (Int.fdiv_fmod_unique' (by decide)).2 ⟨by ring, by decide, le_rfl⟩

/-- The corrections of C's quotient and of its remainder. -/
theorem adaptPython_correct (bIsConstant : Bool) (hb : b ≠ 0) :
    a.fdiv b = a.tdiv b - adaptPython bIsConstant (a.tmod b) b ∧
      a.fmod b = a.tmod b + adaptPython bIsConstant (a.tmod b) b * b := by
  obtain ⟨-, -, hlt, -⟩ := tmod_bounds (a := a) hb
  have ht := Int.tmod_add_mul_tdiv a b
  rw [adaptPython_eq]
  rcases lt_or_gt_of_ne hb with hneg | hpos
  · rw [Int.fdiv_fmod_unique' hneg]
    split
    next h =>
      refine ⟨by rw [mul_sub]; omega, ?_⟩
      omega
    next h =>
      refine ⟨by rw [mul_sub]; omega, ?_⟩
      omega
  · rw [Int.fdiv_fmod_unique hpos]
    split
    next h =>
      refine ⟨by rw [mul_sub]; omega, ?_⟩
      omega
    next h =>
      refine ⟨by rw [mul_sub]; omega, ?_⟩
      omega

end

/-! ## The results in the type -/

section

variable {p : CPlatform} {t : CIntType} {a b v : ℤ}

/-- A value between 0 and a value of the type. -/
theorem inRange_of_between (ha : t.InRange a) (h : 0 ≤ v ∧ v ≤ a ∨ a ≤ v ∧ v ≤ 0) :
    t.InRange v := by
  have hzero := CIntType.inRange_zero (t := t)
  rw [CIntType.InRange] at ha hzero ⊢
  omega

/-- The quotient leaves the type for one pair of operands only. -/
theorem inRange_tdiv (ha : t.InRange a) (hb : t.InRange b) (hb0 : b ≠ 0)
    (h : ¬(t.signed = true ∧ a = t.lo ∧ b = -1)) : t.InRange (a.tdiv b) := by
  by_cases hsigned : t.signed = true
  · have hlo : t.lo = -2 ^ (t.width - 1) := by rw [CIntType.lo, if_pos hsigned]
    have hpos : (0 : ℤ) < 2 ^ (t.width - 1) := by positivity
    have hrange := (CIntType.inRange_signed hsigned).1 ha
    have hle := Int.natAbs_tdiv_le_natAbs a b
    refine (CIntType.inRange_signed hsigned).2 ⟨by omega, ?_⟩
    by_contra hge
    have hamin : a = -2 ^ (t.width - 1) := by omega
    have hone : b = -1 ∨ b = 1 := by
      by_contra hb
      have hhalf : (a.tdiv b).natAbs ≤ a.natAbs / 2 := by
        rw [Int.natAbs_tdiv]
        exact Nat.div_le_div_left (by omega) (by decide)
      omega
    rcases hone with rfl | rfl
    · exact h ⟨hsigned, hamin.trans hlo.symm, rfl⟩
    · rw [Int.tdiv_one] at hge
      omega
  · have hunsigned := Bool.eq_false_iff.2 hsigned
    have ha0 := ((CIntType.inRange_unsigned hunsigned).1 ha).1
    have hb0 := ((CIntType.inRange_unsigned hunsigned).1 hb).1
    have hle := Int.natAbs_tdiv_le_natAbs a b
    have hq := Int.tdiv_nonneg ha0 hb0
    exact inRange_of_between ha (Or.inl ⟨hq, by omega⟩)

/-- The floored quotient is in the type where the truncated one is. -/
theorem inRange_fdiv (ha : t.InRange a) (hb : t.InRange b) (hb0 : b ≠ 0)
    (hq : t.InRange (a.tdiv b)) : t.InRange (a.fdiv b) := by
  have hle := Int.natAbs_fdiv_le_natAbs a b
  have hadapt := (adaptPython_correct (a := a) false hb0).1
  have hadapt' : a.fdiv b ≤ a.tdiv b := by
    rw [hadapt, adaptPython_eq]
    split <;> omega
  by_cases hsigned : t.signed = true
  · have hrange := (CIntType.inRange_signed hsigned).1 ha
    have hqrange := (CIntType.inRange_signed hsigned).1 hq
    exact (CIntType.inRange_signed hsigned).2 (by omega)
  · have hunsigned := Bool.eq_false_iff.2 hsigned
    have ha0 := ((CIntType.inRange_unsigned hunsigned).1 ha).1
    have hb0 := ((CIntType.inRange_unsigned hunsigned).1 hb).1
    have hnonneg := Int.fdiv_nonneg ha0 hb0
    exact inRange_of_between ha (Or.inl ⟨hnonneg, by omega⟩)

/-- `a - q*b` is the remainder. -/
theorem divInt_eq (bIsConstant : Bool) (ha : t.InRange a) (hb : t.InRange b) (hb0 : b ≠ 0)
    (hq : t.InRange (a.tdiv b)) : divInt p t bIsConstant a b = some (a.fdiv b) := by
  obtain ⟨hnonneg, hnonpos, -, hle⟩ := tmod_bounds (a := a) hb0
  have hmul : a.tdiv b * b = a - a.tmod b := Int.tdiv_mul_self a b
  have hr : t.InRange (a.tmod b) := inRange_of_between ha (by omega)
  have hqb : t.InRange (a.tdiv b * b) := inRange_of_between ha (by omega)
  have hf := inRange_fdiv ha hb hb0 hq
  have hsub : a - a.tdiv b * b = a.tmod b := by omega
  rw [divInt, cDiv, if_neg hb0, CIntType.arith_of_inRange (CIntType.inRange_promoted hq)]
  simp only [Option.bind_eq_bind, Option.bind_some, Option.pure_def]
  rw [CIntType.convert_of_inRange hq, CIntType.arith_of_inRange (CIntType.inRange_promoted hqb),
    Option.bind_some, hsub, CIntType.arith_of_inRange (CIntType.inRange_promoted hr),
    Option.bind_some, CIntType.convert_of_inRange hr, ← (adaptPython_correct bIsConstant hb0).1,
    CIntType.arith_of_inRange (CIntType.inRange_promoted hf), Option.bind_some,
    CIntType.convert_of_inRange hf]

theorem inRange_fmod (ha : t.InRange a) (hb : t.InRange b) (hb0 : b ≠ 0) :
    t.InRange (a.fmod b) := by
  obtain ⟨hnonneg, hnonpos, hlt, hle⟩ := tmod_bounds (a := a) hb0
  rw [(adaptPython_correct false hb0).2, adaptPython_eq]
  split
  next h =>
    refine inRange_of_between hb ?_
    omega
  next =>
    rw [zero_mul, add_zero]
    exact inRange_of_between ha (by omega)

/-- The remainder is defined where the quotient fits the promoted type. -/
theorem modInt_eq (bIsConstant : Bool) (ha : t.InRange a) (hb : t.InRange b) (hb0 : b ≠ 0)
    (hq : (p.promoted t).InRange (a.tdiv b)) :
    modInt p t bIsConstant a b = some (a.fmod b) := by
  obtain ⟨hnonneg, hnonpos, hlt, hle⟩ := tmod_bounds (a := a) hb0
  have hr : t.InRange (a.tmod b) := inRange_of_between ha (by omega)
  have hadapt : t.InRange (adaptPython bIsConstant (a.tmod b) b * b) := by
    rw [adaptPython_eq]
    split
    next => rwa [one_mul]
    next =>
      rw [zero_mul]
      exact CIntType.inRange_zero
  have hcorrect := (adaptPython_correct (a := a) bIsConstant hb0).2
  have hf := inRange_fmod ha hb hb0
  rw [modInt, cMod, if_neg hb0, if_pos hq]
  simp only [Option.bind_eq_bind, Option.bind_some, Option.pure_def]
  rw [CIntType.convert_of_inRange hr, CIntType.arith_of_inRange (CIntType.inRange_promoted hadapt),
    Option.bind_some, ← hcorrect, CIntType.arith_of_inRange (CIntType.inRange_promoted hf),
    Option.bind_some, CIntType.convert_of_inRange hf]

/-- Negating a value of `long` overflows for the least one. -/
theorem unaryNegWouldOverflow_iff (hsigned : t.signed = true) (hwidth : t.width = p.long)
    (ha : t.InRange a) : unaryNegWouldOverflow p a = true ↔ a = t.lo := by
  have hlo : t.lo = -2 ^ (t.width - 1) := by rw [CIntType.lo, if_pos hsigned]
  have hpow := CIntType.two_pow_width t
  have hpos : (0 : ℤ) < 2 ^ (t.width - 1) := by positivity
  have hrange := (CIntType.inRange_signed hsigned).1 ha
  have hmod : ((p.longType false).convert a =
      (p.longType false).convert (0 - (p.longType false).convert a)) ↔
        (2 ^ t.width : ℤ) ∣ 2 * a := by
    obtain ⟨k, hk⟩ := (p.longType false).exists_convert a
    have hw : (p.longType false).width = t.width := hwidth.symm
    rw [CIntType.convert_eq_convert_iff, hk, hw, Int.modEq_iff_dvd]
    have hsum : 0 - (a + 2 ^ t.width * k) - a = -(2 * a) + 2 ^ t.width * -k := by ring
    rw [hsum, dvd_add_left (dvd_mul_right _ _), dvd_neg]
  rw [unaryNegWouldOverflow, Bool.and_eq_true, decide_eq_true_iff, decide_eq_true_iff, hmod, hpow,
    mul_dvd_mul_iff_left (by norm_num)]
  constructor
  · rintro ⟨hneg, m, hm⟩
    have hm1 : m = -1 := by nlinarith
    rw [hlo, hm, hm1]
    ring
  · rintro rfl
    exact ⟨by omega, -1, by rw [hlo]; ring⟩

end

/-! ## The generated code -/

namespace IntDivision

variable {p : CPlatform} {d : IntDivision}

/-- The test for -1 is the test for a signed type, too. -/
theorem minus1Check_iff :
    d.minus1Check = true ↔ d.type.signed = true ∧ d.operand2 = -1 := by
  have hneg (h : d.type.signed = true) : d.type.convert (-1) = -1 := by
    have hpow := CIntType.two_pow_width d.type
    have hpos : (1 : ℤ) ≤ 2 ^ (d.type.width - 1) := one_le_pow₀ (by norm_num)
    exact CIntType.convert_of_inRange ((CIntType.inRange_signed h).2 (by omega))
  rw [minus1Check]
  split
  next h => simp [d.is_signed h]
  next =>
    simp only [CIntType.convert_neg_one_pos_iff, Bool.and_eq_true, Bool.not_eq_true', decide_eq_false_iff_not,
      Bool.not_eq_false, decide_eq_true_iff]
    constructor
    · rintro ⟨h, heq⟩
      exact ⟨h, heq.trans (hneg h)⟩
    · rintro ⟨h, heq⟩
      exact ⟨h, heq.trans (hneg h).symm⟩

/-- `OverflowError` is raised for one pair of operands only, if the type is as wide as `long`. -/
theorem overflowCheck_iff :
    d.overflowCheck p = true ↔
      d.operator = .floorDiv ∧ d.type.width = p.long ∧ d.NegatesMin := by
  have hop : d.operator ≠ .mod ↔ d.operator = .floorDiv := by cases d.operator <;> decide
  simp only [overflowCheck, NegatesMin, Bool.and_eq_true, decide_eq_true_iff, minus1Check_iff, hop]
  constructor
  · rintro ⟨⟨-, hdiv⟩, ⟨hwidth, hsigned, hb⟩, hneg⟩
    exact ⟨hdiv, hwidth, hsigned, (unaryNegWouldOverflow_iff hsigned hwidth d.inRange1).1 hneg, hb⟩
  · rintro ⟨hdiv, hwidth, hsigned, ha, hb⟩
    refine ⟨⟨fun h => ?_, hdiv⟩, ⟨hwidth, hsigned, hb⟩,
      (unaryNegWouldOverflow_iff hsigned hwidth d.inRange1).2 ha⟩
    rw [d.is_unsigned h] at hsigned
    exact Bool.false_ne_true hsigned

/-- Nothing goes wrong but for the least value, divided by -1. -/
theorem result_eq (hb : d.operand2 ≠ 0) (h : ¬d.NegatesMin) :
    d.result p = some d.pyValue ∧ d.type.InRange d.pyValue := by
  have hq : d.type.InRange (d.operand1.tdiv d.operand2) := inRange_tdiv d.inRange1 d.inRange2 hb h
  have hq' := CIntType.inRange_promoted (p := p) hq
  obtain ⟨hnonneg, hnonpos, -, hle⟩ := tmod_bounds (a := d.operand1) hb
  have hr : d.type.InRange (d.operand1.tmod d.operand2) :=
    inRange_of_between d.inRange1 (by omega)
  have hunsigned (hc : d.cdivision = true) : 0 ≤ d.operand1 ∧ 0 ≤ d.operand2 := by
    have htype := d.is_unsigned (of_decide_eq_true hc)
    exact ⟨((CIntType.inRange_unsigned htype).1 d.inRange1).1,
      ((CIntType.inRange_unsigned htype).1 d.inRange2).1⟩
  rw [result, pyValue]
  cases d.operator with
  | floorDiv =>
    refine ⟨?_, inRange_fdiv d.inRange1 d.inRange2 hb hq⟩
    simp only
    split
    next hc =>
      rw [cDiv, if_neg hb, CIntType.arith_of_inRange hq', Option.map_some,
        CIntType.convert_of_inRange hq, Int.fdiv_eq_tdiv_of_nonneg (hunsigned hc).1 (hunsigned hc).2]
    next => exact divInt_eq _ d.inRange1 d.inRange2 hb hq
  | mod =>
    simp only [← Int.fmod_def]
    refine ⟨?_, inRange_fmod d.inRange1 d.inRange2 hb⟩
    split
    next hc =>
      rw [cMod, if_neg hb, if_pos hq', Option.map_some, CIntType.convert_of_inRange hr,
        Int.fmod_eq_tmod_of_nonneg (hunsigned hc).1 (hunsigned hc).2]
    next => exact modInt_eq _ d.inRange1 d.inRange2 hb hq'

theorem fdiv_of_negatesMin (h : d.NegatesMin) :
    d.operand1.fdiv d.operand2 = 2 ^ (d.type.width - 1) := by
  obtain ⟨hsigned, ha, hb⟩ := h
  rw [ha, hb, (fdiv_fmod_neg_one _).1, CIntType.lo, if_pos hsigned, neg_neg]

/-- C's remainder of the least value and -1 is 0 in a narrow type, and undefined in others. -/
theorem mod_result_of_negatesMin (h : d.NegatesMin) (hop : d.operator = .mod) :
    d.result p = if d.type.width < p.int then some 0 else none := by
  obtain ⟨hsigned, ha, hb⟩ := h
  have hlo : d.type.lo = -2 ^ (d.type.width - 1) := by rw [CIntType.lo, if_pos hsigned]
  have hb0 : d.operand2 ≠ 0 := by omega
  have hc : d.cdivision = false := by
    refine decide_eq_false fun h => ?_
    rw [d.is_unsigned h] at hsigned
    exact Bool.false_ne_true hsigned
  have hq : d.operand1.tdiv d.operand2 = 2 ^ (d.type.width - 1) := by
    rw [ha, hb, Int.tdiv_neg, Int.tdiv_one, hlo, neg_neg]
  have hpromoted : (p.promoted d.type).InRange (d.operand1.tdiv d.operand2) ↔
      d.type.width < p.int := by
    rw [hq, CPlatform.promoted]
    split
    next hwidth =>
      refine iff_of_true ((CIntType.inRange_signed rfl).2 ?_) hwidth
      have hpos : (0 : ℤ) < 2 ^ (d.type.width - 1) := by positivity
      have hlt : (2 : ℤ) ^ (d.type.width - 1) < 2 ^ (p.int - 1) :=
        pow_lt_pow_right₀ (by norm_num) (by have := d.type.le_width; omega)
      exact ⟨by show -2 ^ (p.int - 1) ≤ _; omega, hlt⟩
    next hwidth =>
      exact iff_of_false (fun h => lt_irrefl _ ((CIntType.inRange_signed hsigned).1 h).2) hwidth
  rw [result, hop]
  simp only [hc, Bool.false_eq_true, if_false]
  split
  next hwidth =>
    rw [modInt_eq _ d.inRange1 d.inRange2 hb0 (hpromoted.2 hwidth), hb,
      (fdiv_fmod_neg_one _).2]
  next hwidth => rw [modInt, cMod, if_neg hb0, if_neg (mt hpromoted.1 hwidth)]; rfl

theorem pyOutcome_of_negatesMin (h : d.NegatesMin) :
    (d.operator = .floorDiv → d.pyOutcome = .overflowError) ∧
      (d.operator = .mod → d.pyOutcome = .value 0) := by
  have hq := fdiv_of_negatesMin h
  obtain ⟨hsigned, ha, hb⟩ := h
  have hlo : d.type.lo = -2 ^ (d.type.width - 1) := by rw [CIntType.lo, if_pos hsigned]
  rw [pyOutcome, if_neg (by omega)]
  refine ⟨fun hop => ?_, fun hop => ?_⟩
  · have hvalue : d.pyValue = 2 ^ (d.type.width - 1) := by rw [pyValue, hop, ← hq]
    rw [hvalue]
    exact if_neg fun h => lt_irrefl _ ((CIntType.inRange_signed hsigned).1 h).2
  · have hvalue : d.pyValue = 0 := by
      rw [pyValue, hop]
      show d.operand1 - d.operand2 * d.operand1.fdiv d.operand2 = 0
      rw [hq, ha, hb, hlo]
      ring
    rw [hvalue, if_pos CIntType.inRange_zero]

/-- The generated code raises what Python raises, or has Python's result, and nothing in it is
    undefined: unless the least value is divided by -1 where no guard covers this. -/
theorem dividesAsPython_iff (p : CPlatform) (d : IntDivision) :
    d.generated p = some d.pyOutcome ↔ ¬d.NegatesMin ∨ d.Guarded p := by
  by_cases hb : d.operand2 = 0
  · have hmin : ¬d.NegatesMin := fun h => by
      have := h.2.2
      omega
    refine iff_of_true ?_ (Or.inl hmin)
    have hcheck : (d.zerodivisionCheck && decide (d.operand2 = 0)) = true := by
      simp [zerodivisionCheck, hb]
    rw [generated, if_pos hcheck, pyOutcome, if_pos hb]
  have hzero : ¬(d.zerodivisionCheck && decide (d.operand2 = 0)) = true := by simp [hb]
  have hcheck : d.zerodivisionCheck = true ↔ d.isConstant = false := by
    simp [zerodivisionCheck, hb]
  rw [generated, if_neg hzero]
  by_cases hmin : d.NegatesMin
  · obtain ⟨hdiv, hmod⟩ := pyOutcome_of_negatesMin hmin
    simp only [Guarded, Bool.and_eq_true, overflowCheck_iff, hcheck, hmin, not_true_eq_false,
      false_or, and_true]
    cases hop : d.operator with
    | floorDiv =>
      rw [hdiv hop]
      simp only [true_and]
      split
      next h => exact iff_of_true rfl h
      next h =>
        refine iff_of_false (fun heq => ?_) h
        obtain ⟨v, -, hv⟩ := Option.map_eq_some_iff.1 heq
        exact DivOutcome.noConfusion hv
    | mod =>
      rw [hmod hop, mod_result_of_negatesMin hmin hop]
      simp only [reduceCtorEq, false_and, and_false, if_false]
      split
      next h => exact iff_of_true rfl h
      next h => exact iff_of_false nofun h
  · refine iff_of_true ?_ (Or.inl hmin)
    obtain ⟨hresult, hrange⟩ := result_eq (p := p) hb hmin
    have hover : ¬(d.zerodivisionCheck && d.overflowCheck p) = true := by
      simp only [Bool.and_eq_true, overflowCheck_iff]
      rintro ⟨-, -, -, h⟩
      exact hmin h
    rw [if_neg hover, hresult, pyOutcome, if_neg hb, if_pos hrange]
    rfl

/-- `x % y` of a C `int`, for the least value and -1. -/
def minModMinusOne : IntDivision where
  type := CPlatform.lp64.intType true
  declared := .signed
  operator := .mod
  isConstant := false
  operand1 := -2147483648
  operand2 := -1
  inRange1 := by decide
  inRange2 := by decide
  is_unsigned := by decide
  is_signed := by decide

/-- The remainder is undefined, where Python has 0. -/
theorem minModMinusOne_undefined :
    minModMinusOne.generated .lp64 = none ∧ minModMinusOne.pyOutcome = .value 0 := by
  decide

end IntDivision

end AHPy.CMath
