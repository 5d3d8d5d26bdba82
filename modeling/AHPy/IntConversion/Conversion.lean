import AHPy.Lib.CInteger
import AHPy.Compare.Integers

/-!
# Conversions from Python integers

`{{FROM_PY_FUNCTION}}` of `TypeConversion.c`, for an `int` object and an integer type of C,
in all configurations.

* `pyULong`, `pySLong`: with the digits of the object, or functions of the C API;
* `largePyLong`: for types that are wider than `long long`;
* `fromPy`: the conversion.
-/

namespace AHPy.IntConversion

open Compare (PyLong)

/-- How the value of an object is copied to a large type. -/
inductive LargeApi where
  /-- `PyLong_AsNativeBytes` -/
  | nativeBytes
  /-- `_PyLong_AsByteArray` -/
  | byteArray
  /-- chunks of bits -/
  | chunks

/-- What the C code is compiled for. -/
structure Config where
  platform : CPlatform
  le_long : 32 ≤ platform.long
  /-- `PyLong_SHIFT` -/
  shift : ℕ
  shift_eq : shift = 15 ∨ shift = 30
  /-- `8 * sizeof(Py_ssize_t)` -/
  ssizeBits : ℕ
  le_ssizeBits : 32 ≤ ssizeBits
  /-- `CYTHON_USE_PYLONG_INTERNALS` -/
  usePyLongInternals : Bool
  /-- Compact values are of type `Py_ssize_t`, as from CPython 3.12 on. -/
  compactSsize : Bool
  /-- The limited API has `PyLong_AsInt`. -/
  hasAsInt : Bool
  largeApi : LargeApi

/-- The texts of errors, for the name of a type. -/
inductive Message where
  | negative
  | tooLarge
  /-- a text of the C API -/
  | api

def Message.text (typeName : String) : Message → Option String
  | .negative => some ("can't convert negative value to " ++ typeName)
  | .tooLarge => some ("value too large to convert to " ++ typeName)
  | .api => none

inductive Exn where
  | overflowError (message : Message)
  /-- a negative value, for `Py_ASNATIVEBYTES_REJECT_NEGATIVE` -/
  | valueError

/-- What is returned, and the exception that is set. -/
structure Outcome where
  value : ℤ
  exception : Option Exn

variable (cfg : Config) (t : CIntType)

/-! ## Errors -/

/-- `__Pyx_raise_neg_overflow_{{FROM_PY_FUNCTION}}` -/
def raiseNegOverflow : Outcome := ⟨t.convert (-1), some (.overflowError .negative)⟩

/-- `__Pyx_raise_overflow_{{FROM_PY_FUNCTION}}` -/
def raiseOverflow : Outcome := ⟨t.convert (-1), some (.overflowError .tooLarge)⟩

/-- `__PYX__VERIFY_RETURN_INT`, where `func` is the value of a function, of a type. -/
def verifyReturnInt (funcType : CIntType) (func : Outcome) (isUnsigned : Bool) : Outcome :=
  if t.width < funcType.width then
    if func.value ≠ funcType.convert (t.convert func.value) then
      if func.value = funcType.convert (-1) ∧ func.exception ≠ none then
        ⟨t.convert (-1), func.exception⟩
      else if isUnsigned ∧ func.value < 0 then raiseNegOverflow t
      else raiseOverflow t
    else ⟨t.convert func.value, func.exception⟩
  else ⟨t.convert func.value, func.exception⟩

/-! ## The C API -/

/-- `PyLong_AsLong` and the functions like it. -/
def asInteger (funcType : CIntType) (v : ℤ) : Outcome :=
  if funcType.InRange v then ⟨v, none⟩
  else ⟨funcType.convert (-1), some (.overflowError .api)⟩

/-! ## Large types -/

/-- The bits of a chunk. -/
def chunkSize : ℕ := if cfg.platform.long < 64 then 30 else 62

theorem chunkSize_pos : 0 < chunkSize cfg := by
  rw [chunkSize]
  split <;> decide

/-- The loop that unpacks full chunks of bits: what is left, the bits that are unpacked and
    the value that they make. -/
def unpackChunks (stepval bits val : ℕ) : ℕ × ℕ × ℕ :=
  if bits + chunkSize cfg < t.width then
    let idigit := stepval &&& (1 <<< chunkSize cfg - 1)
    unpackChunks (stepval >>> chunkSize cfg) (bits + chunkSize cfg)
      (val ||| (idigit <<< bits) % 2 ^ t.width)
  else (stepval, bits, val)
termination_by t.width - bits
decreasing_by
  have := chunkSize_pos cfg
  omega

/-- The last bits, and the sign. -/
def addLastBits (isNegative : Bool) (unpacked : ℕ × ℕ × ℕ) : Outcome :=
  let (stepval, bits, val) := unpacked
  let idigit := asInteger (cfg.platform.longType true) stepval
  if idigit.value < 0 then ⟨t.convert (-1), idigit.exception⟩
  else
    let remainingBits := t.width - bits - (if t.signed then 1 else 0)
    if stepval ≥ 1 <<< remainingBits then raiseOverflow t
    else
      let val := val ||| (stepval <<< bits) % 2 ^ t.width
      if t.signed then
        if val &&& (1 <<< (t.width - 1)) ≠ 0 then raiseOverflow t
        -- undo the inversion
        else ⟨if isNegative then -1 - (val : ℤ) else val, none⟩
      else ⟨val, none⟩

/-- The copy of chunks of bits. -/
def fromChunks (v : ℤ) : Outcome :=
  let isNegative : Bool := v < 0
  if ¬t.signed ∧ isNegative then raiseNegOverflow t
  else
    -- A negative value is inverted.
    let stepval := if isNegative then -1 - v else v
    addLastBits cfg t isNegative (unpackChunks cfg t stepval.toNat 0 0)

/-- `__Pyx_LargePyLong_{{FROM_PY_FUNCTION}}` -/
def largePyLong (v : ℤ) : Outcome :=
  match cfg.largeApi with
  | .nativeBytes =>
    if ¬t.signed ∧ v < 0 then ⟨t.convert (-1), some .valueError⟩
    else if t.InRange v then ⟨v, none⟩
    else raiseOverflow t
  | .byteArray => asInteger t v
  | .chunks => fromChunks cfg t v

/-! ## The conversion -/

/-- `pylong_join`: the digits, shifted and joined in a type of some bits. -/
def pylongJoin (shift width : ℕ) (digits : List ℕ) : ℕ :=
  digits.foldr (fun digit joined => (joined <<< shift) % 2 ^ width ||| digit) 0

variable (x : PyLong cfg.shift)

/-- The objects whose digits are joined. -/
def joinsDigits : Bool :=
  cfg.usePyLongInternals ∧ x.digitCount ∈ [2, 3, 4] ∧
    t.width > (x.digitCount - 1) * cfg.shift

/-- `__Pyx_PyULong_{{FROM_PY_FUNCTION}}` -/
def pyULong : Outcome :=
  let unsignedLong := cfg.platform.longType false
  let unsignedLongLong := cfg.platform.longLongType false
  if joinsDigits cfg t x ∧ unsignedLong.width > x.digitCount * cfg.shift then
    verifyReturnInt t unsignedLong ⟨pylongJoin cfg.shift unsignedLong.width x.digits, none⟩ true
  else if joinsDigits cfg t x ∧ t.width ≥ x.digitCount * cfg.shift then
    ⟨t.convert (pylongJoin cfg.shift t.width x.digits), none⟩
  else if ¬cfg.usePyLongInternals ∧ x.value < 0 then raiseNegOverflow t
  else if t.width ≤ unsignedLong.width then
    verifyReturnInt t unsignedLong (asInteger unsignedLong x.value) true
  else if t.width ≤ unsignedLongLong.width then
    verifyReturnInt t unsignedLongLong (asInteger unsignedLongLong x.value) true
  else largePyLong cfg t x.value

/-- `__Pyx_PySLong_{{FROM_PY_FUNCTION}}` -/
def pySLong : Outcome :=
  let int := cfg.platform.intType true
  let long := cfg.platform.longType true
  let unsignedLong := cfg.platform.longType false
  let longLong := cfg.platform.longLongType true
  if joinsDigits cfg t x ∧ long.width > x.digitCount * cfg.shift then
    if x.isNeg then
      verifyReturnInt t long ⟨-(long.convert (pylongJoin cfg.shift long.width x.digits)), none⟩
        false
    else
      verifyReturnInt t unsignedLong ⟨pylongJoin cfg.shift long.width x.digits, none⟩ false
  else if joinsDigits cfg t x ∧ t.width - 1 > x.digitCount * cfg.shift then
    if x.isNeg then ⟨t.convert (-1 * pylongJoin cfg.shift t.width x.digits), none⟩
    else ⟨t.convert (pylongJoin cfg.shift t.width x.digits), none⟩
  else if cfg.hasAsInt ∧ t.width ≤ int.width ∧ int.width < long.width then
    verifyReturnInt t int (asInteger int x.value) false
  else if t.width ≤ long.width then verifyReturnInt t long (asInteger long x.value) false
  else if t.width ≤ longLong.width then
    verifyReturnInt t longLong (asInteger longLong x.value) false
  else largePyLong cfg t x.value

theorem le_short : 8 ≤ 16 := by decide

theorem le_unsigned : 8 ≤ 32 := by decide

theorem le_ssize : 8 ≤ cfg.ssizeBits := by
  have := cfg.le_ssizeBits
  omega

/-- `__Pyx_compact_pylong` and `__Pyx_compact_upylong` -/
def compactType (signed : Bool) : CIntType :=
  if cfg.compactSsize then ⟨cfg.ssizeBits, signed, le_ssize cfg⟩
  else if cfg.shift = 15 then ⟨16, signed, le_short⟩
  else ⟨32, signed, le_unsigned⟩

/-- `__Pyx_PyLong_{{FROM_PY_FUNCTION}}` -/
def fromPy : Outcome :=
  if t.signed then
    if cfg.usePyLongInternals ∧ x.isCompact then
      verifyReturnInt t (compactType cfg true) ⟨x.compactValue, none⟩ false
    else pySLong cfg t x
  else
    if cfg.usePyLongInternals ∧ x.isNeg then raiseNegOverflow t
    else if cfg.usePyLongInternals ∧ x.isCompact then
      verifyReturnInt t (compactType cfg false) ⟨x.digit 0, none⟩ true
    else pyULong cfg t x

/-!
## Conversions are exact

Every configuration returns the value of the object, or raises `OverflowError` if the type
does not have it.

* `verifyReturnInt_api`, `verifyReturnInt_value`: the check of a narrower type;
* `unpackChunks_spec`: what the loop over chunks keeps;
* `fromPy_correct`: the conversion.
-/

open CIntType

variable {cfg : Config} {t funcType : CIntType} {v : ℤ}

/-- The outcome of a conversion of an integer. -/
def Correct (t : CIntType) (v : ℤ) (o : Outcome) : Prop :=
  (t.InRange v → o = ⟨v, none⟩) ∧
    (¬t.InRange v → o.value = t.convert (-1) ∧ ∃ m, o.exception = some (.overflowError m))

theorem correct_of_inRange (h : t.InRange v) : Correct t v ⟨v, none⟩ :=
  ⟨fun _ => rfl, fun h' => absurd h h'⟩

theorem correct_raiseOverflow (h : ¬t.InRange v) : Correct t v (raiseOverflow t) :=
  ⟨fun h' => absurd h' h, fun _ => ⟨rfl, _, rfl⟩⟩

theorem correct_raiseNegOverflow (h : ¬t.InRange v) : Correct t v (raiseNegOverflow t) :=
  ⟨fun h' => absurd h' h, fun _ => ⟨rfl, _, rfl⟩⟩

theorem correct_asInteger (funcType : CIntType) (v : ℤ) :
    Correct funcType v (asInteger funcType v) := by
  rw [asInteger]
  by_cases h : funcType.InRange v
  · rw [if_pos h]
    exact correct_of_inRange h
  · rw [if_neg h]
    exact ⟨fun h' => absurd h' h, fun _ => ⟨rfl, _, rfl⟩⟩

/-! ## Checks of narrower types -/

theorem InRange.of_width_le (hsigned : t.signed = funcType.signed)
    (hwidth : t.width ≤ funcType.width) (h : t.InRange v) : funcType.InRange v := by
  have h₁ : (2 : ℤ) ^ t.width ≤ 2 ^ funcType.width := pow_le_pow_right₀ (by norm_num) hwidth
  have h₂ : (2 : ℤ) ^ (t.width - 1) ≤ 2 ^ (funcType.width - 1) :=
    pow_le_pow_right₀ (by norm_num) (by omega)
  by_cases ht : t.signed = true
  · rw [inRange_signed ht] at h
    exact (inRange_signed (hsigned ▸ ht)).2 (by omega)
  · have ht := Bool.eq_false_iff.2 ht
    rw [inRange_unsigned ht] at h
    exact (inRange_unsigned (hsigned ▸ ht)).2 (by omega)

/-- The value of a function that cannot fail. -/
theorem verifyReturnInt_value {isUnsigned : Bool} (hcast : t.width < funcType.width →
      v = funcType.convert (t.convert v) → t.InRange v)
    (hfunc : t.InRange v → funcType.InRange v)
    (hwide : ¬t.width < funcType.width → t.InRange v) :
    Correct t v (verifyReturnInt t funcType ⟨v, none⟩ isUnsigned) := by
  rw [verifyReturnInt]
  by_cases hwidth : t.width < funcType.width
  · rw [if_pos hwidth]
    by_cases heq : v = funcType.convert (t.convert v)
    · rw [if_neg (not_not.2 heq), convert_of_inRange (hcast hwidth heq)]
      exact correct_of_inRange (hcast hwidth heq)
    · have hout : ¬t.InRange v := fun h =>
        heq (by rw [convert_of_inRange h, convert_of_inRange (hfunc h)])
      rw [if_pos heq, if_neg fun h => h.2 rfl]
      split_ifs
      · exact correct_raiseNegOverflow hout
      · exact correct_raiseOverflow hout
  · rw [if_neg hwidth, convert_of_inRange (hwide hwidth)]
    exact correct_of_inRange (hwide hwidth)

/-- A value of a type with the same sign. -/
theorem verifyReturnInt_same {isUnsigned : Bool} (hsigned : t.signed = funcType.signed)
    (h : funcType.InRange v) : Correct t v (verifyReturnInt t funcType ⟨v, none⟩ isUnsigned) := by
  refine verifyReturnInt_value (fun hlt heq => ?_) (fun _ => h) fun hge => ?_
  · have hin := inRange_convert t v
    rw [convert_of_inRange (InRange.of_width_le hsigned hlt.le hin)] at heq
    exact heq ▸ hin
  · exact InRange.of_width_le hsigned.symm (not_lt.1 hge) h

/-- A function of the C API, for a type that is as wide or wider. -/
theorem verifyReturnInt_api {isUnsigned : Bool} (hsigned : t.signed = funcType.signed)
    (hwidth : t.width ≤ funcType.width) :
    Correct t v (verifyReturnInt t funcType (asInteger funcType v) isUnsigned) := by
  have hfunc : t.InRange v → funcType.InRange v := InRange.of_width_le hsigned hwidth
  rw [asInteger]
  by_cases h : funcType.InRange v
  · rw [if_pos h]
    exact verifyReturnInt_same hsigned h
  · rw [if_neg h, verifyReturnInt]
    refine ⟨fun h' => absurd (hfunc h') h, fun _ => ?_⟩
    have hconvert : t.convert (funcType.convert (-1)) = t.convert (-1) :=
      convert_convert_of_width_le hwidth (-1)
    by_cases hlt : t.width < funcType.width
    · rw [if_pos hlt]
      by_cases heq : funcType.convert (-1) = funcType.convert (t.convert (funcType.convert (-1)))
      · rw [if_neg (not_not.2 heq)]
        exact ⟨hconvert, _, rfl⟩
      · rw [if_pos heq, if_pos ⟨rfl, by simp⟩]
        exact ⟨rfl, _, rfl⟩
    · rw [if_neg hlt]
      exact ⟨hconvert, _, rfl⟩

/-- A value that is not negative, and has no sign bit in the type of the function. -/
theorem verifyReturnInt_unsigned {isUnsigned : Bool} (ht : t.signed = true)
    (hfunc : funcType.signed = false) (hnonneg : 0 ≤ v) (hlt : v < 2 ^ (funcType.width - 1)) :
    Correct t v (verifyReturnInt t funcType ⟨v, none⟩ isUnsigned) := by
  have hpow := two_pow_width funcType
  have hin : funcType.InRange v := (inRange_unsigned hfunc).2 (by omega)
  refine verifyReturnInt_value (fun hwidth heq => ?_) (fun _ => hin) fun hwidth => ?_
  · have hrange := (inRange_signed ht).1 (inRange_convert t v)
    have hle : (2 : ℤ) ^ t.width ≤ 2 ^ (funcType.width - 1) :=
      pow_le_pow_right₀ (by norm_num) (by omega)
    have hpow' := two_pow_width t
    by_cases hneg : t.convert v < 0
    -- A value that became negative is large in the type of the function.
    · have hwrap : funcType.convert (t.convert v) = t.convert v + 2 ^ funcType.width :=
        convert_eq_of_inRange ((inRange_unsigned hfunc).2 (by omega)) Int.add_modEq_right
      omega
    · rw [convert_of_inRange ((inRange_unsigned hfunc).2 (by omega))] at heq
      exact heq ▸ inRange_convert t v
  · have hle : (2 : ℤ) ^ (funcType.width - 1) ≤ 2 ^ (t.width - 1) :=
      pow_le_pow_right₀ (by norm_num) (by omega)
    have hpos : (0 : ℤ) < 2 ^ (t.width - 1) := by positivity
    exact (inRange_signed ht).2 (by omega)

/-! ## Digits -/

/-- Digits are joined to their number in a type that has all their bits. -/
theorem pylongJoin_eq {shift width : ℕ} {digits : List ℕ} (hdigits : ∀ d ∈ digits, d < 2 ^ shift)
    (hwidth : digits.length * shift ≤ width) :
    pylongJoin shift width digits = Nat.ofDigits (2 ^ shift) digits ∧
      Nat.ofDigits (2 ^ shift) digits < 2 ^ (digits.length * shift) := by
  induction digits with
  | nil => exact ⟨rfl, Nat.two_pow_pos _⟩
  | cons d digits ih =>
    rw [List.length_cons, Nat.succ_mul] at hwidth
    have hd := hdigits d List.mem_cons_self
    obtain ⟨hjoin, hlt⟩ := ih (fun d hd => hdigits d (List.mem_cons_of_mem _ hd)) (by omega)
    have hshift : Nat.ofDigits (2 ^ shift) digits <<< shift <
        2 ^ (digits.length * shift + shift) := by
      rw [Nat.shiftLeft_eq, pow_add]
      exact Nat.mul_lt_mul_of_pos_right hlt (Nat.two_pow_pos shift)
    have hmod : (Nat.ofDigits (2 ^ shift) digits <<< shift) % 2 ^ width =
        Nat.ofDigits (2 ^ shift) digits <<< shift :=
      Nat.mod_eq_of_lt (hshift.trans_le (Nat.pow_le_pow_right (by decide) hwidth))
    have hof : Nat.ofDigits (2 ^ shift) (d :: digits) =
        Nat.ofDigits (2 ^ shift) digits <<< shift + d := by
      rw [Nat.ofDigits_cons, Nat.shiftLeft_eq, Nat.mul_comm, Nat.add_comm]
    constructor
    · show (pylongJoin shift width digits <<< shift) % 2 ^ width ||| d = _
      rw [hjoin, hmod, hof, Nat.shiftLeft_add_eq_or_of_lt hd]
    · rw [hof, List.length_cons, Nat.succ_mul, Nat.shiftLeft_eq, pow_add]
      calc Nat.ofDigits (2 ^ shift) digits * 2 ^ shift + d
          < Nat.ofDigits (2 ^ shift) digits * 2 ^ shift + 2 ^ shift := Nat.add_lt_add_left hd _
        _ = (Nat.ofDigits (2 ^ shift) digits + 1) * 2 ^ shift := by rw [Nat.succ_mul]
        _ ≤ 2 ^ (digits.length * shift) * 2 ^ shift := Nat.mul_le_mul_right _ hlt

/-! ## Chunks -/

theorem chunkSize_lt (cfg : Config) : chunkSize cfg < cfg.platform.long := by
  have := cfg.le_long
  rw [chunkSize]
  split_ifs <;> omega

/-- What is unpacked and what is left make the value; what is left has at most as many bits
    as a chunk, if the value has at most as many as the type. -/
theorem unpackChunks_spec {stepval bits val : ℕ} (hbits : bits < t.width) (hval : val < 2 ^ bits) :
    ∃ stepval' bits' val', unpackChunks cfg t stepval bits val = (stepval', bits', val') ∧
      bits' < t.width ∧ t.width ≤ bits' + chunkSize cfg ∧ val' < 2 ^ bits' ∧
      val' + 2 ^ bits' * stepval' = val + 2 ^ bits * stepval := by
  induction stepval, bits, val using unpackChunks.induct cfg t with
  | case1 stepval bits val hlt idigit ih =>
    have hidigit : idigit = stepval % 2 ^ chunkSize cfg := by
      show stepval &&& (1 <<< chunkSize cfg - 1) = _
      rw [Nat.one_shiftLeft, Nat.and_two_pow_sub_one_eq_mod]
    have hidigit_lt : idigit < 2 ^ chunkSize cfg := hidigit ▸ Nat.mod_lt _ (Nat.two_pow_pos _)
    have hor : val ||| (idigit <<< bits) % 2 ^ t.width = idigit <<< bits + val := by
      have hlt' : idigit <<< bits < 2 ^ t.width := by
        rw [Nat.shiftLeft_eq]
        calc idigit * 2 ^ bits < 2 ^ chunkSize cfg * 2 ^ bits :=
              Nat.mul_lt_mul_of_pos_right hidigit_lt (Nat.two_pow_pos bits)
          _ = 2 ^ (bits + chunkSize cfg) := by rw [← pow_add, Nat.add_comm]
          _ ≤ 2 ^ t.width := Nat.pow_le_pow_right (by decide) hlt.le
      rw [Nat.mod_eq_of_lt hlt', Nat.or_comm, Nat.shiftLeft_add_eq_or_of_lt hval]
    have hval' : idigit <<< bits + val < 2 ^ (bits + chunkSize cfg) := by
      rw [Nat.shiftLeft_eq, Nat.add_comm bits, pow_add]
      calc idigit * 2 ^ bits + val < (idigit + 1) * 2 ^ bits := by
            rw [Nat.succ_mul]
            exact Nat.add_lt_add_left hval _
        _ ≤ 2 ^ chunkSize cfg * 2 ^ bits := Nat.mul_le_mul_right _ hidigit_lt
    have hsum : idigit <<< bits + val + 2 ^ (bits + chunkSize cfg) * (stepval >>> chunkSize cfg) =
        val + 2 ^ bits * stepval := by
      have hdiv := Nat.mod_add_div stepval (2 ^ chunkSize cfg)
      rw [Nat.shiftLeft_eq, Nat.shiftRight_eq_div_pow, pow_add, hidigit]
      calc stepval % 2 ^ chunkSize cfg * 2 ^ bits + val +
            2 ^ bits * 2 ^ chunkSize cfg * (stepval / 2 ^ chunkSize cfg) =
          val + 2 ^ bits * (stepval % 2 ^ chunkSize cfg +
            2 ^ chunkSize cfg * (stepval / 2 ^ chunkSize cfg)) := by ring
        _ = val + 2 ^ bits * stepval := by rw [hdiv]
    rw [hor] at ih
    obtain ⟨stepval', bits', val', h, h₁, h₂, h₃, h₄⟩ := ih hlt hval'
    rw [unpackChunks, if_pos hlt]
    have heq := (congrArg (unpackChunks cfg t _ _) hor).trans h
    exact ⟨stepval', bits', val', heq, h₁, h₂, h₃, h₄.trans hsum⟩
  | case2 stepval bits val hge =>
    rw [unpackChunks, if_neg hge]
    exact ⟨stepval, bits, val, rfl, hbits, not_lt.1 hge, hval, rfl⟩

/-- The magnitudes of the values of a type, after an inversion. -/
theorem inRange_invert {isNegative : Bool} {u : ℕ} (hsigned : t.signed = false → isNegative = false)
    (hv : v = if isNegative then -1 - (u : ℤ) else u) :
    t.InRange v ↔ u < 2 ^ (t.width - if t.signed then 1 else 0) := by
  rcases ht : t.signed
  · rw [hsigned ht, if_neg Bool.false_ne_true] at hv
    rw [inRange_unsigned ht, hv, if_neg Bool.false_ne_true, Nat.sub_zero]
    have hcast : (u : ℤ) < 2 ^ t.width ↔ u < 2 ^ t.width := by exact_mod_cast Iff.rfl
    omega
  · have hcast : (u : ℤ) < 2 ^ (t.width - 1) ↔ u < 2 ^ (t.width - 1) := by exact_mod_cast Iff.rfl
    rw [inRange_signed ht, if_pos rfl, ← hcast, hv]
    rcases isNegative
    · rw [if_neg Bool.false_ne_true]
      omega
    · rw [if_pos rfl]
      omega

theorem lt_two_pow_iff {stepval bits val n : ℕ} (hval : val < 2 ^ bits) :
    val + 2 ^ bits * stepval < 2 ^ (bits + n) ↔ stepval < 2 ^ n := by
  rw [pow_add]
  constructor
  · intro h
    exact Nat.lt_of_mul_lt_mul_left (a := 2 ^ bits) (by omega)
  · intro h
    calc val + 2 ^ bits * stepval < 2 ^ bits + 2 ^ bits * stepval := Nat.add_lt_add_right hval _
      _ = 2 ^ bits * (stepval + 1) := by ring
      _ ≤ 2 ^ bits * 2 ^ n := Nat.mul_le_mul_left _ h

/-- The last bits and the sign complete the value. -/
theorem addLastBits_correct {isNegative : Bool} {stepval bits val : ℕ}
    (hbits : bits < t.width) (hchunk : t.width ≤ bits + chunkSize cfg) (hval : val < 2 ^ bits)
    (hsigned : t.signed = false → isNegative = false)
    (hv : v = if isNegative then -1 - ((val + 2 ^ bits * stepval : ℕ) : ℤ)
      else ((val + 2 ^ bits * stepval : ℕ) : ℤ)) :
    Correct t v (addLastBits cfg t isNegative (stepval, bits, val)) := by
  generalize hremaining : t.width - bits - (if t.signed then 1 else 0) = remaining
  have hrange : t.InRange v ↔ stepval < 2 ^ remaining := by
    rw [inRange_invert hsigned hv, ← lt_two_pow_iff hval (n := remaining)]
    have hle : (if t.signed = true then 1 else 0) ≤ 1 := by split_ifs <;> omega
    rw [show t.width - (if t.signed = true then 1 else 0) = bits + remaining by omega]
  have hremaining_le : remaining ≤ chunkSize cfg := by omega
  have hlong := (chunkSize_lt cfg)
  rw [addLastBits, hremaining]
  by_cases hfits : (cfg.platform.longType true).InRange stepval
  · have hidigit : asInteger (cfg.platform.longType true) stepval = ⟨stepval, none⟩ := if_pos hfits
    rw [hidigit, if_neg (not_lt.2 (Int.natCast_nonneg stepval))]
    simp only [Nat.one_shiftLeft]
    by_cases hlt : stepval < 2 ^ remaining
    swap
    · rw [if_pos (not_lt.1 hlt)]
      exact correct_raiseOverflow (hrange.not.2 hlt)
    have hin := hrange.2 hlt
    have hu := (inRange_invert hsigned hv).1 hin
    have hu' : val + 2 ^ bits * stepval < 2 ^ t.width :=
      hu.trans_le (Nat.pow_le_pow_right (by decide) (Nat.sub_le _ _))
    have hor : val ||| (stepval <<< bits) % 2 ^ t.width = val + 2 ^ bits * stepval := by
      have hlt' : stepval <<< bits < 2 ^ t.width := by
        rw [Nat.shiftLeft_eq, Nat.mul_comm]
        omega
      rw [Nat.mod_eq_of_lt hlt', Nat.or_comm, ← Nat.shiftLeft_add_eq_or_of_lt hval,
        Nat.shiftLeft_eq, Nat.mul_comm, Nat.add_comm]
    rw [if_neg (not_le.2 hlt), hor]
    rcases ht : t.signed
    · rw [hsigned ht, if_neg Bool.false_ne_true] at hv
      rw [if_neg Bool.false_ne_true, ← hv]
      exact correct_of_inRange hin
    · rw [ht, if_pos rfl] at hu
      have hbit : (val + 2 ^ bits * stepval) &&& 2 ^ (t.width - 1) = 0 := by
        rw [Nat.and_two_pow, Nat.testBit_lt_two_pow hu]
        exact Nat.zero_mul _
      rw [if_pos rfl, if_neg (not_not.2 hbit), ← hv]
      exact correct_of_inRange hin
  -- What is left does not even fit into a `long`.
  · have hidigit : asInteger (cfg.platform.longType true) stepval =
        ⟨(cfg.platform.longType true).convert (-1), some (.overflowError .api)⟩ := if_neg hfits
    have hminus : (cfg.platform.longType true).convert (-1) = -1 :=
      convert_of_inRange ((inRange_signed rfl).2 (by
        have hpos : (0 : ℤ) < 2 ^ ((cfg.platform.longType true).width - 1) := by positivity
        omega))
    rw [hidigit, hminus, if_pos (by decide)]
    refine ⟨fun hin => ?_, fun _ => ⟨rfl, _, rfl⟩⟩
    refine absurd ((inRange_signed rfl).2 ⟨?_, ?_⟩) hfits
    · exact (neg_nonpos.2 (by positivity)).trans (Int.natCast_nonneg stepval)
    · have hle : 2 ^ remaining ≤ 2 ^ (cfg.platform.long - 1) :=
        Nat.pow_le_pow_right (by decide) (by omega)
      exact_mod_cast (hrange.1 hin).trans_le hle

/-- The copy of chunks is exact. -/
theorem fromChunks_correct : Correct t v (fromChunks cfg t v) := by
  rw [fromChunks]
  by_cases hneg : ¬t.signed = true ∧ decide (v < 0) = true
  · rw [if_pos hneg]
    refine correct_raiseNegOverflow fun h => ?_
    have h := (inRange_unsigned (Bool.eq_false_iff.2 hneg.1)).1 h
    have hv := of_decide_eq_true hneg.2
    omega
  rw [if_neg hneg]
  obtain ⟨stepval, bits, val, h, hbits, hchunk, hval, hsum⟩ :=
    @unpackChunks_spec cfg t (if decide (v < 0) = true then -1 - v else v).toNat 0 0
      (lt_of_lt_of_le (by decide) t.le_width) (by decide)
  simp only [h]
  refine addLastBits_correct hbits hchunk hval (fun ht => ?_) ?_
  · by_contra hv
    exact hneg ⟨by rw [ht]; exact Bool.false_ne_true, Bool.eq_true_of_not_eq_false hv⟩
  · rw [hsum]
    by_cases hv : v < 0
    · rw [decide_eq_true hv, if_pos rfl, if_pos rfl]
      omega
    · rw [decide_eq_false hv, if_neg Bool.false_ne_true, if_neg Bool.false_ne_true]
      omega

theorem largePyLong_correct (hneg : ¬(¬t.signed = true ∧ v < 0)) :
    Correct t v (largePyLong cfg t v) := by
  rw [largePyLong]
  rcases cfg.largeApi
  · show Correct t v (if ¬t.signed = true ∧ v < 0 then _ else _)
    rw [if_neg hneg]
    by_cases h : t.InRange v
    · rw [if_pos h]
      exact correct_of_inRange h
    · rw [if_neg h]
      exact correct_raiseOverflow h
  · exact correct_asInteger t v
  · exact fromChunks_correct

/-! ## The conversion -/

section

variable {x : PyLong cfg.shift}

theorem shift_pos (cfg : Config) : 0 < cfg.shift := by
  rcases cfg.shift_eq with h | h <;> omega

theorem not_inRange_of_neg (ht : t.signed = false) (h : v < 0) : ¬t.InRange v := fun h' => by
  have h' := (inRange_unsigned ht).1 h'
  omega

theorem nonneg_of_not_isNeg (hneg : ¬x.isNeg = true) : x.value = x.magnitude :=
  if_neg hneg

theorem eq_neg_of_isNeg (hneg : x.isNeg = true) : x.value = -x.magnitude :=
  if_pos hneg

theorem neg_of_isNeg (hneg : x.isNeg = true) : x.value < 0 := by
  rcases PyLong.kind (shift_pos cfg) x with ⟨_, hn, _, _⟩ | ⟨_, hn, _, _, _⟩ | ⟨_, _, _, hv, hp⟩
  · exact absurd hneg (by rw [PyLong.isNeg, hn]; exact Bool.false_ne_true)
  · exact absurd hneg (by rw [PyLong.isNeg, hn]; exact Bool.false_ne_true)
  · omega

theorem join_eq {width : ℕ} (h : x.digitCount * cfg.shift ≤ width) :
    pylongJoin cfg.shift width x.digits = x.magnitude :=
  (pylongJoin_eq x.digits_lt h).1

theorem magnitude_lt (x : PyLong cfg.shift) : x.magnitude < 2 ^ (x.digitCount * cfg.shift) :=
  (pylongJoin_eq x.digits_lt le_rfl).2

theorem magnitude_lt_two_pow {n : ℕ} (h : x.digitCount * cfg.shift ≤ n) :
    (x.magnitude : ℤ) < 2 ^ n := by
  exact_mod_cast (magnitude_lt x).trans_le (Nat.pow_le_pow_right (by decide) h)

theorem pyULong_correct (ht : t.signed = false)
    (hneg : cfg.usePyLongInternals = true → ¬x.isNeg = true) :
    Correct t x.value (pyULong cfg t x) := by
  have hjoins : joinsDigits cfg t x = true → x.value = x.magnitude := fun h =>
    nonneg_of_not_isNeg (hneg (of_decide_eq_true h).1)
  rw [pyULong]
  by_cases h : joinsDigits cfg t x = true ∧
      (cfg.platform.longType false).width > x.digitCount * cfg.shift
  · rw [if_pos h, join_eq h.2.le, hjoins h.1]
    exact verifyReturnInt_same ht ((inRange_unsigned rfl).2
      ⟨Int.natCast_nonneg _, magnitude_lt_two_pow h.2.le⟩)
  rw [if_neg h]
  by_cases h : joinsDigits cfg t x = true ∧ t.width ≥ x.digitCount * cfg.shift
  · have hin : t.InRange x.magnitude :=
      (inRange_unsigned ht).2 ⟨Int.natCast_nonneg _, magnitude_lt_two_pow h.2⟩
    rw [if_pos h, join_eq h.2, hjoins h.1, convert_of_inRange hin]
    exact correct_of_inRange hin
  rw [if_neg h]
  by_cases h : ¬cfg.usePyLongInternals = true ∧ x.value < 0
  · rw [if_pos h]
    exact correct_raiseNegOverflow (not_inRange_of_neg ht h.2)
  rw [if_neg h]
  have hnonneg : ¬x.value < 0 := fun hv => by
    by_cases hinternals : cfg.usePyLongInternals = true
    · rw [nonneg_of_not_isNeg (hneg hinternals)] at hv
      omega
    · exact h ⟨hinternals, hv⟩
  by_cases h : t.width ≤ (cfg.platform.longType false).width
  · rw [if_pos h]
    exact verifyReturnInt_api ht h
  rw [if_neg h]
  by_cases h : t.width ≤ (cfg.platform.longLongType false).width
  · rw [if_pos h]
    exact verifyReturnInt_api ht h
  · rw [if_neg h]
    exact largePyLong_correct fun h => hnonneg h.2

theorem pySLong_correct (ht : t.signed = true) : Correct t x.value (pySLong cfg t x) := by
  rw [pySLong]
  by_cases h : joinsDigits cfg t x = true ∧
      (cfg.platform.longType true).width > x.digitCount * cfg.shift
  · have hlt : (x.magnitude : ℤ) < 2 ^ (cfg.platform.long - 1) :=
      magnitude_lt_two_pow (Nat.le_sub_one_of_lt h.2)
    have hin : ∀ v : ℤ, |v| = x.magnitude → (cfg.platform.longType true).InRange v :=
      fun v hv => (inRange_signed rfl).2 ((abs_lt.1 (hv ▸ hlt)).imp le_of_lt id)
    rw [if_pos h, join_eq h.2.le]
    by_cases hneg : x.isNeg = true
    · rw [if_pos hneg, convert_of_inRange (hin _ (Nat.abs_cast _)), eq_neg_of_isNeg hneg]
      exact verifyReturnInt_same ht (hin _ (by rw [abs_neg, Nat.abs_cast]))
    · rw [if_neg hneg, nonneg_of_not_isNeg hneg]
      exact verifyReturnInt_unsigned ht rfl (Int.natCast_nonneg _) hlt
  rw [if_neg h]
  by_cases h : joinsDigits cfg t x = true ∧ t.width - 1 > x.digitCount * cfg.shift
  · have hlt : (x.magnitude : ℤ) < 2 ^ (t.width - 1) := magnitude_lt_two_pow h.2.le
    have hin : ∀ v : ℤ, |v| = x.magnitude → t.InRange v :=
      fun v hv => (inRange_signed ht).2 ((abs_lt.1 (hv ▸ hlt)).imp le_of_lt id)
    rw [if_pos h, join_eq (h.2.le.trans (Nat.sub_le _ _))]
    by_cases hneg : x.isNeg = true
    · have hin := hin (-x.magnitude) (by rw [abs_neg, Nat.abs_cast])
      rw [if_pos hneg, eq_neg_of_isNeg hneg, neg_one_mul, convert_of_inRange hin]
      exact correct_of_inRange hin
    · have hin := hin x.magnitude (Nat.abs_cast _)
      rw [if_neg hneg, nonneg_of_not_isNeg hneg, convert_of_inRange hin]
      exact correct_of_inRange hin
  rw [if_neg h]
  by_cases h : cfg.hasAsInt = true ∧ t.width ≤ (cfg.platform.intType true).width ∧
      (cfg.platform.intType true).width < (cfg.platform.longType true).width
  · rw [if_pos h]
    exact verifyReturnInt_api ht h.2.1
  rw [if_neg h]
  by_cases h : t.width ≤ (cfg.platform.longType true).width
  · rw [if_pos h]
    exact verifyReturnInt_api ht h
  rw [if_neg h]
  by_cases h : t.width ≤ (cfg.platform.longLongType true).width
  · rw [if_pos h]
    exact verifyReturnInt_api ht h
  · rw [if_neg h]
    exact largePyLong_correct fun h => h.1 ht

/-- The type of compact values has them. -/
theorem shift_lt_compactType (cfg : Config) (signed : Bool) :
    cfg.shift < (compactType cfg signed).width ∧ (compactType cfg signed).signed = signed := by
  have := cfg.le_ssizeBits
  rw [compactType]
  split_ifs with hssize hshift
  · refine ⟨show cfg.shift < cfg.ssizeBits from ?_, rfl⟩
    rcases cfg.shift_eq with h | h <;> omega
  · exact ⟨show cfg.shift < 16 by omega, rfl⟩
  · exact ⟨show cfg.shift < 32 by have := cfg.shift_eq; omega, rfl⟩

theorem magnitude_lt_of_isCompact (h : x.isCompact = true) :
    (x.magnitude : ℤ) < 2 ^ cfg.shift := by
  have hcount : x.digitCount ≤ 1 := of_decide_eq_true h
  exact magnitude_lt_two_pow ((Nat.mul_le_mul_right _ hcount).trans_eq (Nat.one_mul _))

/-- The digit of a compact object that is not negative. -/
theorem digit_of_isCompact (h : x.isCompact = true) (hneg : ¬x.isNeg = true) :
    x.digit 0 = x.value := by
  rw [PyLong.value_of_isCompact h, PyLong.compactValue]
  rcases PyLong.kind (shift_pos cfg) x with ⟨hs, _, hc, _⟩ | ⟨hs, _, _, _, _⟩ | ⟨_, hn, _, _, _⟩
  · have hdigits : x.digits = [] := List.length_eq_zero_iff.1 hc
    rw [hs, Int.zero_mul, PyLong.digit, hdigits]
    rfl
  · rw [hs, Int.one_mul]
  · exact absurd hn hneg

/-- The conversion returns the value, or raises `OverflowError`. -/
theorem fromPy_correct (cfg : Config) (t : CIntType) (x : PyLong cfg.shift) :
    Correct t x.value (fromPy cfg t x) := by
  rw [fromPy]
  rcases ht : t.signed
  · rw [if_neg Bool.false_ne_true]
    by_cases hneg : cfg.usePyLongInternals = true ∧ x.isNeg = true
    · rw [if_pos hneg]
      exact correct_raiseNegOverflow (not_inRange_of_neg ht (neg_of_isNeg hneg.2))
    rw [if_neg hneg]
    by_cases hcompact : cfg.usePyLongInternals = true ∧ x.isCompact = true
    · have hneg : ¬x.isNeg = true := fun h => hneg ⟨hcompact.1, h⟩
      obtain ⟨hshift, hsigned⟩ := shift_lt_compactType cfg false
      rw [if_pos hcompact, digit_of_isCompact hcompact.2 hneg]
      refine verifyReturnInt_same (ht.trans hsigned.symm) ((inRange_unsigned hsigned).2 ?_)
      rw [nonneg_of_not_isNeg hneg]
      exact ⟨Int.natCast_nonneg _, (magnitude_lt_of_isCompact hcompact.2).trans_le
        (pow_le_pow_right₀ (by norm_num) hshift.le)⟩
    · rw [if_neg hcompact]
      exact pyULong_correct ht fun h h' => hneg ⟨h, h'⟩
  · rw [if_pos rfl]
    by_cases hcompact : cfg.usePyLongInternals = true ∧ x.isCompact = true
    · obtain ⟨hshift, hsigned⟩ := shift_lt_compactType cfg true
      have hlt : |x.value| < 2 ^ ((compactType cfg true).width - 1) := by
        have hvalue : |x.value| = x.magnitude := by
          by_cases hneg : x.isNeg = true
          · rw [eq_neg_of_isNeg hneg, abs_neg, Nat.abs_cast]
          · rw [nonneg_of_not_isNeg hneg, Nat.abs_cast]
        rw [hvalue]
        exact (magnitude_lt_of_isCompact hcompact.2).trans_le
          (pow_le_pow_right₀ (by norm_num) (Nat.le_sub_one_of_lt hshift))
      rw [if_pos hcompact, ← PyLong.value_of_isCompact hcompact.2]
      exact verifyReturnInt_same (ht.trans hsigned.symm)
        ((inRange_signed hsigned).2 ((abs_lt.1 hlt).imp le_of_lt id))
    · rw [if_neg hcompact]
      exact pySLong_correct ht

end

end AHPy.IntConversion
