import AHPy.Operators.NumberBinop

/-!
# The shortcuts of operators on numbers

What the generated functions compute themselves, for operands that are exact ints and floats.

* `onInts_eq`: two ints; the shortcuts have the result, and no operation of C overflows;
* `floatWithInt_eq_iff`, `intWithFloat_eq_iff`: a float and an int; a float that is returned
  itself is the result, but for some zeros.
-/

namespace AHPy.Operators

open ModuleWriter (binary64)

/-! ## Ints and floats -/

theorem ofInt_zero : binary64.ofInt 0 = FloatValue.zero false := FloatValue.ofInt_zero

theorem isZero_ofInt_iff {n : ℤ} : (binary64.ofInt n).isZero = true ↔ n = 0 := by
  constructor
  · intro h
    by_contra hn
    rw [FloatFormat.isZero_ofInt (show (-1074 : ℤ) ≤ 0 by decide) hn] at h
    cases h
  · rintro rfl
    exact FloatValue.isZero_iff.2 ⟨false, ofInt_zero⟩

variable {ω ε : Type*} {B : Build} {m n : ℤ} {x y : Double}

theorem asDouble_of_isFinite (h : (binary64.ofInt n).isFinite = true) :
    (asDouble n : Except (NumberExc ε) Double) = .ok (binary64.ofInt n) := if_pos h

theorem asDouble_of_not_isFinite (h : ¬(binary64.ofInt n).isFinite = true) :
    (asDouble n : Except (NumberExc ε) Double) = .error .overflowError := if_neg h

/-- An int of one digit is a float. -/
theorem asDouble_of_isCompact (h : B.IsCompact n) :
    (asDouble n : Except (NumberExc ε) Double) = .ok (binary64.ofInt n) := by
  have hlt : |n| < 2 ^ binary64.precision :=
    h.trans_le (pow_le_pow_right₀ (by norm_num) (B.digitBits_le.trans (by decide)))
  obtain ⟨_, hfinite⟩ := FloatFormat.ofInt_of_lt hlt (by decide) (by decide)
  exact asDouble_of_isFinite (by rw [hfinite]; rfl)

theorem isCompact_zero : B.IsCompact 0 := by
  rw [Build.IsCompact, abs_zero]
  positivity

theorem ofExcept_asDouble_inj {g h : Double → Double} :
    (ofExcept (asDouble n) (fun y => .float (g y)) : Returned (PyObject ω) (NumberExc ε)) =
        ofExcept (asDouble n) (fun y => .float (h y)) ↔
      ((binary64.ofInt n).isFinite = true → g (binary64.ofInt n) = h (binary64.ofInt n)) := by
  by_cases hfinite : (binary64.ofInt n).isFinite = true
  · rw [asDouble_of_isFinite hfinite, imp_iff_right hfinite]
    simp only [ofExcept, Returned.value.injEq, PyObject.float.injEq]
  · rw [asDouble_of_not_isFinite hfinite]
    exact iff_of_true rfl fun h => absurd h hfinite

/-- What a float on the left and an int on the right give. -/
theorem floatWithInt_eq (op : Arith) :
    (B.floatWithInt op x n : Returned (PyObject ω) (NumberExc ε)) =
      ofExcept (asDouble n) fun y => .float
        (if (op ≠ .multiply ∧ n = 0) ∨ (op = .multiply ∧ x.isZero = true) then x
          else op.onDoubles x y) := by
  have hfinish (y : Double) (h : ¬(op ≠ .multiply ∧ n = 0)) :
      (if op = .multiply ∧ x.isZero = true then .value (.float x)
        else .value (.float (op.onDoubles x y)) : Returned (PyObject ω) (NumberExc ε)) =
      .value (.float (if (op ≠ .multiply ∧ n = 0) ∨ (op = .multiply ∧ x.isZero = true) then x
        else op.onDoubles x y)) := by
    by_cases hzero : op = .multiply ∧ x.isZero = true
    · rw [if_pos hzero, if_pos (.inr hzero)]
    · rw [if_neg hzero, if_neg (not_or.2 ⟨h, hzero⟩)]
  simp only [Build.floatWithInt]
  by_cases hcompact : B.pylongInternals = true ∧ B.IsCompact n
  · rw [if_pos hcompact, asDouble_of_isCompact hcompact.2, ofExcept]
    by_cases hzero : op ≠ .multiply ∧ n = 0
    · rw [if_pos hzero, if_pos (.inl hzero)]
    · rw [if_neg hzero, hfinish _ hzero]
  · rw [if_neg hcompact]
    by_cases hfinite : (binary64.ofInt n).isFinite = true
    · simp only [asDouble_of_isFinite hfinite, isZero_ofInt_iff, ofExcept]
      by_cases hzero : op ≠ .multiply ∧ n = 0
      · have hinternals : B.pylongInternals = false := by
          rw [hzero.2, and_iff_left isCompact_zero, Bool.not_eq_true] at hcompact
          exact hcompact
        rw [if_pos ⟨hzero.1, by rw [hinternals]; rfl, hzero.2⟩, if_pos (.inl hzero)]
      · rw [if_neg fun h => hzero ⟨h.1, h.2.2⟩, hfinish _ hzero]
    · simp only [asDouble_of_not_isFinite hfinite, ofExcept]

/-- What an int on the left and a float on the right give. -/
theorem intWithFloat_eq (op : Arith) :
    (B.intWithFloat op m y : Returned (PyObject ω) (NumberExc ε)) =
      ofExcept (asDouble m) fun x => .float
        (if op = .add ∧ m = 0 then y else op.onDoubles x y) := by
  rw [Build.intWithFloat]
  by_cases hcompact : B.pylongInternals = true ∧ B.IsCompact m
  · rw [if_pos hcompact, asDouble_of_isCompact hcompact.2, ofExcept]
    by_cases hzero : op = .add ∧ m = 0
    · rw [if_pos hzero, if_pos hzero]
    · rw [if_neg hzero, if_neg hzero]
  · rw [if_neg hcompact]
    by_cases hfinite : (binary64.ofInt m).isFinite = true
    · simp only [asDouble_of_isFinite hfinite, isZero_ofInt_iff, ofExcept]
      by_cases hzero : op = .add ∧ m = 0
      · have hinternals : B.pylongInternals = false := by
          rw [hzero.2, and_iff_left isCompact_zero, Bool.not_eq_true] at hcompact
          exact hcompact
        rw [if_pos ⟨hzero.1, by rw [hinternals]; rfl, hzero.2⟩, if_pos hzero]
      · rw [if_neg fun h => hzero ⟨h.1, h.2.2⟩, if_neg hzero]
    · simp only [asDouble_of_not_isFinite hfinite, ofExcept]

/-- A float on the left is returned itself where it should be, unless it is a negative zero, or
    a zero that a negative int is multiplied with. -/
theorem floatWithInt_eq_iff (op : Arith) :
    (B.floatWithInt op x n : Returned (PyObject ω) (NumberExc ε)) =
        ofExcept (asDouble n) (fun y => .float (op.onDoubles x y)) ↔
      (op = .add → x = .zero true → n ≠ 0) ∧
        (op = .multiply → ∀ a, x = .zero a → n < 0 → ¬(binary64.ofInt n).isFinite = true) := by
  have hzero : (binary64.ofInt 0).isFinite = true := by
    rw [ofInt_zero]
    rfl
  rw [floatWithInt_eq, ofExcept_asDouble_inj, ite_eq_right_iff]
  cases op with
  | add =>
    simp only [reduceCtorEq, ne_eq, not_false_eq_true, true_and, false_and, or_false,
      false_implies, and_true, Arith.onDoubles, forall_const]
    constructor
    · rintro h rfl rfl
      have hsum := h hzero rfl
      rw [ofInt_zero] at hsum
      exact FloatValue.add_zero_eq_iff.1 hsum.symm rfl
    · rintro h - rfl
      rw [ofInt_zero]
      exact (FloatValue.add_zero_eq_iff.2 fun hx => h hx rfl).symm
  | subtract =>
    refine iff_of_true ?_ ⟨fun h => (by cases h), fun h => by cases h⟩
    rintro - (⟨-, rfl⟩ | ⟨h, -⟩)
    · rw [ofInt_zero]
      exact FloatValue.sub_zero_eq.symm
    · cases h
  | multiply =>
    simp only [reduceCtorEq, ne_eq, not_true_eq_false, true_and, false_and, false_or,
      false_implies, Arith.onDoubles, forall_const, FloatValue.isZero_iff]
    constructor
    · rintro h a rfl hn hfinite
      obtain ⟨q, hq⟩ := FloatFormat.ofInt_of_isFinite hfinite
      have hmul := h hfinite ⟨a, rfl⟩
      rw [hq, FloatValue.zero_mul_finite, FloatValue.zero_inj, decide_eq_true hn] at hmul
      cases a <;> cases hmul
    · rintro h hfinite ⟨a, rfl⟩
      obtain ⟨q, hq⟩ := FloatFormat.ofInt_of_isFinite hfinite
      have hn : ¬n < 0 := fun hn => h a rfl hn hfinite
      rw [hq, FloatValue.zero_mul_finite, decide_eq_false hn, Bool.xor_false]

/-- A float on the right is returned itself where it should be, unless it is a negative zero. -/
theorem intWithFloat_eq_iff (op : Arith) :
    (B.intWithFloat op m y : Returned (PyObject ω) (NumberExc ε)) =
        ofExcept (asDouble m) (fun x => .float (op.onDoubles x y)) ↔
      (op = .add → m = 0 → y ≠ .zero true) := by
  have hzero : (binary64.ofInt 0).isFinite = true := by
    rw [ofInt_zero]
    rfl
  rw [intWithFloat_eq, ofExcept_asDouble_inj, ite_eq_right_iff]
  constructor
  · rintro h rfl rfl
    have hsum := h hzero ⟨rfl, rfl⟩
    rw [ofInt_zero, Arith.onDoubles, FloatValue.add_swap] at hsum
    exact FloatValue.add_zero_eq_iff.1 hsum.symm
  · rintro h - ⟨rfl, rfl⟩
    rw [ofInt_zero, Arith.onDoubles, FloatValue.add_swap]
    exact (FloatValue.add_zero_eq_iff.2 (h rfl rfl)).symm

/-- The operations of C on ints of one digit are defined. -/
theorem compactOp_eq (op : NumberOp) (hm : B.IsCompact m) (hn : B.IsCompact n) :
    B.compactOp op m n = some (op.onInts m n) := by
  have habs : (2 : ℤ) ^ (B.digitBits + 1) ≤ 2 ^ (B.ssize.width - 1) :=
    pow_le_pow_right₀ (by norm_num) (by have := B.digitBits_lt_ssize; omega)
  rw [Build.IsCompact, abs_lt] at hm hn
  rw [pow_succ] at habs
  cases op with
  | bitwise op => rfl
  | arith op =>
    cases op with
    | add =>
      refine CIntType.arith_of_inRange ((CIntType.inRange_signed B.ssize_signed).2 ?_)
      show -2 ^ (B.ssize.width - 1) ≤ m + n ∧ m + n < 2 ^ (B.ssize.width - 1)
      omega
    | subtract =>
      refine CIntType.arith_of_inRange ((CIntType.inRange_signed B.ssize_signed).2 ?_)
      show -2 ^ (B.ssize.width - 1) ≤ m - n ∧ m - n < 2 ^ (B.ssize.width - 1)
      omega
    | multiply =>
      refine CIntType.arith_of_inRange ((CIntType.inRange_signed B.longLong_signed).2 ?_)
      have hle : (2 : ℤ) ^ (2 * B.digitBits) ≤ 2 ^ (B.longLong.width - 1) :=
        pow_le_pow_right₀ (by norm_num) (by have := B.digitBits_lt_longLong; omega)
      have hlt : |m * n| < 2 ^ (2 * B.digitBits) := by
        rw [abs_mul, two_mul, pow_add]
        exact mul_lt_mul'' (abs_lt.2 hm) (abs_lt.2 hn) (abs_nonneg m) (abs_nonneg n)
      rw [abs_lt] at hlt
      omega

theorem ldiff_zero (a : ℕ) : Nat.ldiff a 0 = a :=
  Nat.eq_of_testBit_eq fun i => by simp [Nat.testBit_ldiff]

theorem zero_ldiff (a : ℕ) : Nat.ldiff 0 a = 0 :=
  Nat.eq_of_testBit_eq fun i => by simp [Nat.testBit_ldiff]

theorem onInts_zero_left {op : NumberOp} (hop : op ≠ .arith .subtract) :
    op.onInts 0 n = if Build.zeroAbsorbs op then 0 else n := by
  cases op with
  | arith op =>
    cases op with
    | add => exact zero_add n
    | subtract => exact absurd rfl hop
    | multiply => exact zero_mul n
  | bitwise op =>
    cases op with
    | or =>
      cases n <;>
        simp [NumberOp.onInts, Bitwise.onInts, Int.lor, Build.zeroAbsorbs, ldiff_zero]
    | xor => cases n <;> simp [NumberOp.onInts, Bitwise.onInts, Int.xor, Build.zeroAbsorbs]
    | and =>
      cases n <;>
        simp [NumberOp.onInts, Bitwise.onInts, Int.land, Build.zeroAbsorbs, zero_ldiff]

theorem onInts_zero_right (op : NumberOp) :
    op.onInts m 0 = if Build.zeroAbsorbs op then 0 else m := by
  cases op with
  | arith op =>
    cases op with
    | add => exact add_zero m
    | subtract => exact sub_zero m
    | multiply => exact mul_zero m
  | bitwise op =>
    cases op with
    | or =>
      cases m <;>
        simp [NumberOp.onInts, Bitwise.onInts, Int.lor, Build.zeroAbsorbs, ldiff_zero]
    | xor => cases m <;> simp [NumberOp.onInts, Bitwise.onInts, Int.xor, Build.zeroAbsorbs]
    | and =>
      cases m <;>
        simp [NumberOp.onInts, Bitwise.onInts, Int.land, Build.zeroAbsorbs, zero_ldiff]

/-- Two ints: the shortcuts are right. -/
theorem onInts_eq (op : NumberOp) : B.onInts op m n = some (op.onInts m n) := by
  rw [Build.onInts]
  split
  next =>
    split
    next hm =>
      by_cases habsorbs : m = 0 ∧ Build.zeroAbsorbs op = true
      · have hop : op ≠ .arith .subtract := by
          rintro rfl
          cases habsorbs.2
        rw [if_pos habsorbs, habsorbs.1, onInts_zero_left hop, if_pos habsorbs.2]
      rw [if_neg habsorbs]
      by_cases hneutral : m = 0 ∧ op ≠ .arith .subtract
      · rw [if_pos hneutral, hneutral.1, onInts_zero_left hneutral.2,
          if_neg fun h => habsorbs ⟨hneutral.1, h⟩]
      rw [if_neg hneutral]
      by_cases hn : B.IsCompact n
      · rw [if_pos hn]
        by_cases hzero : n = 0
        · rw [if_pos hzero, hzero, onInts_zero_right]
        · rw [if_neg hzero, compactOp_eq op hm hn]
      · rw [if_neg hn]
    next =>
      by_cases hzero : n = 0
      · rw [if_pos hzero, hzero, onInts_zero_right]
      · rw [if_neg hzero]
  next => rfl

end AHPy.Operators

/-!
## Python's dispatch for exact numbers

What Python's operators do if the left operand is an exact int or float: which slots they call.

* `World.pyOperator_int`: the right operand is no int;
* `World.pyOperator_float_of_operand`: the right operand can be converted to a float;
* `World.pyOperator_of_same`, `World.pyOperator_of_own`: the type of the right operand derives
  from that of the left one.
-/

namespace AHPy.Operators

variable {ω ε : Type*} {B : Build} {m n : ℤ} {x y : Double}

/-- Exact ints and floats. -/
def PyObject.IsExact : PyObject ω → Prop
  | int _ => True
  | float _ => True
  | _ => False

/-- What the declared type of an operand leaves. -/
def PyObject.HasType : DeclaredType → PyObject ω → Prop
  | .object, _ => True
  | .int, .int _ => True
  | .float, .float _ => True
  | _, .none => True
  | _, _ => False

theorem PyObject.isExact_int : (int m : PyObject ω).IsExact := trivial

theorem PyObject.isExact_float : (float x : PyObject ω).IsExact := trivial

namespace World

variable {κ φ σ : Type*} {W : World ω κ φ ε σ} {op : NumberOp} {v w : PyObject ω}
  {inplace : Bool} {s s' : σ}

theorem ofExcept_ne {α : Type*} {r : Except (NumberExc ε) α} {value : α → PyObject ω} :
    ofExcept r value ≠ .notImplemented := by
  cases r <;> exact fun h => by cases h

theorem floatSlot_eq {r : Except (NumberExc ε) Double} (op : Arith)
    (h : W.asFloatOperand w = some r) :
    W.floatSlot op (.float x) w = ofExcept r fun y => .float (op.onDoubles x y) := by
  have hx : W.asFloatOperand (.float x) = some (.ok x) := rfl
  cases r <;> simp only [floatSlot, h, hx, ofExcept]

theorem asLong_eq_none (h : W.isSubtypeOf (W.pyType w) .int = false) : W.asLong w = none := by
  cases w with
  | int n => cases h
  | other o => exact if_neg (of_decide_eq_false h)
  | _ => rfl

theorem slotOf_ne_long (h : W.isSubtypeOf (W.pyType w) .int = false) :
    W.slotOf op (W.pyType w) ≠ some .long := by
  cases w with
  | none => exact fun h => by cases h
  | int n => cases h
  | float x => cases op <;> simp [pyType, slotOf, inheritedSlot]
  | other o =>
    have hbase : W.base (W.typeOf o) ≠ .int := of_decide_eq_false h
    rw [pyType, slotOf]
    cases W.slot op (W.typeOf o) with
    | some f => simp
    | none =>
      cases hb : W.base (W.typeOf o) with
      | int => exact absurd hb hbase
      | float => cases op <;> simp [inheritedSlot]
      | neither => simp [inheritedSlot]

theorem isSubtypeOf_float (h : W.asFloatOperand w = none) :
    W.isSubtypeOf (W.pyType w) .float = false := by
  cases w with
  | none => rfl
  | other o =>
    refine decide_eq_false fun hbase => ?_
    rw [asFloatOperand, hbase] at h
    cases h
  | _ => cases h

theorem slotOf_ne_float {op : Arith} (h : W.asFloatOperand w = none) :
    W.slotOf (.arith op) (W.pyType w) ≠ some .float := by
  cases w with
  | none => exact fun h => by cases h
  | other o =>
    rw [pyType, slotOf]
    cases W.slot (.arith op) (W.typeOf o) with
    | some f => simp
    | none =>
      rw [asFloatOperand] at h
      cases hb : W.base (W.typeOf o) with
      | neither => simp [inheritedSlot]
      | _ =>
        rw [hb] at h
        cases h
  | _ => cases h

theorem lastResort_float (op : Arith) : (W.protocol B (.arith op)).lastResort
    (fallback (.arith op)) (.float x) w = binopTypeError := by
  cases op with
  | add => rfl
  | subtract => rfl
  | multiply =>
    cases w with
    | other o =>
      simp only [fallback, NumberProtocol.lastResort, protocol, pyType, Option.bind_none,
        NumberProtocol.sequenceRepeat]
      cases (W.sequence (W.typeOf o)).bind (·.sqRepeat) <;> rfl
    | _ => rfl

theorem lastResort_int : (W.protocol B op).lastResort (fallback op) (.int m) w =
    W.repeatRight B op (.int m) w := by
  cases op with
  | bitwise op => rfl
  | arith op =>
    cases op with
    | add => rfl
    | subtract => rfl
    | multiply =>
      cases w with
      | other o =>
        simp only [fallback, NumberProtocol.lastResort, protocol, pyType, Option.bind_none,
          repeatRight, NumberProtocol.sequenceRepeat]
        cases (W.sequence (W.typeOf o)).bind (·.sqRepeat) with
        | none => rfl
        | some repeatFunc =>
          cases asSsize B m <;> rfl
      | _ => rfl

variable [DecidableEq κ] [DecidableEq φ]

/-- No in-place slot goes before the slots of exact numbers. -/
theorem pyOperator_of_isExact (hv : v.IsExact) :
    W.pyOperator B op inplace v w = ((W.protocol B op).binaryOp1 v w).orElse
      ((W.protocol B op).lastResort (fallback op) v w) := by
  cases v with
  | int m => exact NumberProtocol.operator_inplace rfl rfl inplace
  | float x => exact NumberProtocol.operator_inplace rfl rfl inplace
  | _ => exact hv.elim

/-- What is left of Python's dispatch if the left slot has nothing to say. -/
theorem callRight_of_pass {next : Call (PyObject ω) (NumberExc ε) σ} {f : Slot φ}
    (hv : W.slotOf op (W.pyType v) = some f)
    (hpass : ∀ s, W.callSlot op f v w s = (.notImplemented, s))
    (hslot : W.slotOf op (W.pyType w) ≠ W.slotOf op (W.pyType v))
    (hsub : W.isSubtypeOf (W.pyType w) (W.pyType v) = false) :
    ((W.protocol B op).binaryOp1 v w).orElse next = W.callRight op v w next := by
  have hright : (W.protocol B op).rightSlot v w = W.slotOf op (W.pyType w) :=
    SlotProtocol.rightSlot_of_slot_ne hslot
  rw [SlotProtocol.binaryOp1_of_pass hv hpass hsub, hright, callRight]
  cases W.slotOf op (W.pyType w) with
  | none => exact Call.firstOf_nil_orElse
  | some g =>
    rw [Option.toList_some, List.map_singleton, Call.firstOf_singleton]
    rfl

/-- An operand that is no int: the slot of the right type, then its repetition. -/
theorem pyOperator_int (hw : W.isSubtypeOf (W.pyType w) .int = false) :
    W.pyOperator B op inplace (.int m) w =
      W.callRight op (.int m) w (W.repeatRight B op (.int m) w) := by
  have hslot : W.slotOf op (W.pyType (.int m)) = some .long := by cases op <;> rfl
  have hpass (s : σ) : W.callSlot op .long (.int m) w s = (.notImplemented, s) := by
    have hm : W.asLong (.int m) = some m := rfl
    simp only [callSlot, longSlot, asLong_eq_none hw, hm]
  rw [pyOperator_of_isExact PyObject.isExact_int, lastResort_int]
  exact callRight_of_pass hslot hpass (hslot ▸ slotOf_ne_long hw) hw

/-- An operand that is no number: the slot of the right type. -/
theorem pyOperator_float (op : Arith) (hw : W.asFloatOperand w = none) :
    W.pyOperator B (.arith op) inplace (.float x) w =
      W.callRight (.arith op) (.float x) w binopTypeError := by
  have hx : W.asFloatOperand (.float x) = some (.ok x) := rfl
  have hpass (s : σ) : W.callSlot (.arith op) .float (.float x) w s = (.notImplemented, s) := by
    simp only [callSlot, floatSlot, hw, hx]
  rw [pyOperator_of_isExact PyObject.isExact_float, lastResort_float]
  exact callRight_of_pass rfl hpass (slotOf_ne_float hw) (isSubtypeOf_float hw)

/-- An operand that float slots take, of a type that does not derive from `float`. -/
theorem pyOperator_float_of_operand {r : Except (NumberExc ε) Double} (op : Arith)
    (hr : W.asFloatOperand w = some r) (hw : W.isSubtypeOf (W.pyType w) .float = false) :
    W.pyOperator B (.arith op) inplace (.float x) w s =
      (ofExcept r fun y => .float (op.onDoubles x y), s) := by
  have hcall : (W.protocol B (.arith op)).call .float (.float x) w s =
      (ofExcept r fun y => .float (op.onDoubles x y), s) :=
    congrArg (·, s) (floatSlot_eq op hr)
  have hresult : (W.protocol B (.arith op)).binaryOp1 (.float x) w s =
      (ofExcept r fun y => .float (op.onDoubles x y), s) := by
    rw [SlotProtocol.binaryOp1_of_result (f := .float) rfl (by rw [hcall]; exact ofExcept_ne) hw,
      hcall]
  rw [pyOperator_of_isExact PyObject.isExact_float,
    Call.orElse_of_ne (by rw [hresult]; exact ofExcept_ne), hresult]

/-- The type of the right operand derives from that of the left, but has the same slot. -/
theorem pyOperator_of_same {r : PyObject ω} {f : Slot φ} (hexact : v.IsExact)
    (hv : W.slotOf op (W.pyType v) = some f) (hw : W.slotOf op (W.pyType w) = some f)
    (hsub : W.isSubtypeOf (W.pyType w) (W.pyType v) = true)
    (hcall : W.callSlot op f v w s = (.value r, s)) :
    W.pyOperator B op inplace v w s = (.value r, s) := by
  have hright : (W.protocol B op).rightSlot v w = none :=
    SlotProtocol.rightSlot_of_slot_eq (hw.trans hv.symm)
  rw [pyOperator_of_isExact hexact]
  refine Call.orElse_of_value ?_
  rw [SlotProtocol.binaryOp1, SlotProtocol.slots_of_subtype hv hsub, hright, Option.toList_none,
    List.nil_append, List.map_singleton, Call.firstOf_singleton]
  exact hcall

/-- The type of the right operand derives from that of the left, and has a slot of its own. -/
theorem pyOperator_of_own {r : PyObject ω} {f : Slot φ} {g : φ} (hexact : v.IsExact)
    (hv : W.slotOf op (W.pyType v) = some f) (hw : W.slotOf op (W.pyType w) = some (.own g))
    (hsub : W.isSubtypeOf (W.pyType w) (W.pyType v) = true) (hne : f ≠ .own g)
    (hcall : ∀ s, W.callSlot op f v w s = (.value r, s)) :
    W.pyOperator B op inplace v w s = (W.call g v w).orElse (fun s => (.value r, s)) s := by
  have hright : (W.protocol B op).rightSlot v w = some (.own g) := by
    refine (SlotProtocol.rightSlot_of_slot_ne fun h => hne ?_).trans hw
    exact Option.some.inj (hv.symm.trans (h.symm.trans hw))
  have hslots : (W.protocol B op).binaryOp1 v w =
      (W.call g v w).orElse fun s => (.value r, s) := by
    rw [SlotProtocol.binaryOp1, SlotProtocol.slots_of_subtype hv hsub, hright,
      Option.toList_some, List.singleton_append, List.map_cons, List.map_singleton,
      Call.firstOf, Call.firstOf_singleton]
    exact congrArg (W.call g v w).orElse (funext hcall)
  rw [pyOperator_of_isExact hexact, hslots, Call.orElse_assoc]
  rfl

end World

end AHPy.Operators
