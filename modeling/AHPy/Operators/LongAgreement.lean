import AHPy.Operators.LongArithmetic

/-!
# The result of an int and a constant

* `LongBuild.unpacked_eq`: an operator has the result of Python's;
* `LongBuild.longCompare_eq`: `==` and `!=` compare the values;
* `LongBuild.fastPaths_eq_python`: both.
-/

namespace AHPy.Operators

open Compare (PyLong)

/-! ## Bits of constants -/

theorem lt_of_land_mask {c : ℤ} {k : ℕ} (h : c.land (2 ^ k - 1 : ℕ) = c) :
    ∃ n : ℕ, c = n ∧ n < 2 ^ k := by
  cases c with
  | ofNat n =>
    have hland : n &&& (2 ^ k - 1) = n := Int.ofNat.inj h
    rw [Nat.and_two_pow_sub_one_eq_mod] at hland
    exact ⟨n, rfl, hland ▸ Nat.mod_lt _ (Nat.two_pow_pos k)⟩
  | negSucc n => cases h

/-- A constant of some bits does not see others. -/
theorem land_mod {n k : ℕ} (hn : n < 2 ^ k) (m : ℕ) :
    (n : ℤ).land (m % 2 ^ k : ℕ) = (n : ℤ).land m := by
  have hand : n &&& m % 2 ^ k = n &&& m := by
    refine Nat.eq_of_testBit_eq fun i => ?_
    rw [Nat.testBit_and, Nat.testBit_and, Nat.testBit_mod_two_pow]
    by_cases hi : i < k
    · rw [decide_eq_true hi, Bool.true_and]
    · rw [Nat.testBit_lt_two_pow (hn.trans_le (Nat.pow_le_pow_right (by decide) (not_lt.1 hi))),
        Bool.false_and, Bool.false_and]
  exact congrArg Int.ofNat hand

/-- The last digit of a negative int is that of its complement. -/
theorem land_neg {n k : ℕ} (hn : n < 2 ^ k) (m : ℕ) (hm : 0 < m) :
    (n : ℤ).land ((2 ^ k : ℕ) - (m % 2 ^ k : ℕ)) = (n : ℤ).land (-m) := by
  obtain ⟨m, rfl⟩ := Nat.exists_eq_succ_of_ne_zero hm.ne'
  have hlt := Nat.mod_lt (m + 1) (Nat.two_pow_pos k)
  have hsub : (((2 ^ k : ℕ) : ℤ) - ((m + 1) % 2 ^ k : ℕ)) = (2 ^ k - (m + 1) % 2 ^ k : ℕ) := by
    omega
  rw [hsub]
  have hldiff : n &&& (2 ^ k - (m + 1) % 2 ^ k) = Nat.ldiff n m := by
    refine Nat.eq_of_testBit_eq fun i => ?_
    rw [Nat.testBit_and, Nat.testBit_ldiff]
    by_cases hi : i < k
    · have hbit : m.testBit i = (m % 2 ^ k).testBit i := by
        rw [Nat.testBit_mod_two_pow, decide_eq_true hi, Bool.true_and]
      have hr := Nat.mod_lt m (Nat.two_pow_pos k)
      rcases Nat.lt_or_ge (m % 2 ^ k + 1) (2 ^ k) with hsucc | hsucc
      · have hmod : (m + 1) % 2 ^ k = m % 2 ^ k + 1 := by
          rw [Nat.add_mod, Nat.mod_eq_of_lt (by omega : 1 < 2 ^ k), Nat.mod_eq_of_lt hsucc]
        rw [hmod, Nat.testBit_two_pow_sub_succ hr, decide_eq_true hi, Bool.true_and, hbit]
      · -- All bits of the complement are set: the digit is zero.
        have hfull : m % 2 ^ k = 2 ^ k - 1 := by omega
        have hmod : (m + 1) % 2 ^ k = 0 := by
          rw [← Nat.mod_add_mod, hfull, Nat.sub_add_cancel Nat.one_le_two_pow, Nat.mod_self]
        rw [hmod, Nat.sub_zero, Nat.testBit_two_pow_of_ne hi.ne', hbit, hfull,
          Nat.testBit_two_pow_sub_one, decide_eq_true hi]
        rfl
    · rw [Nat.testBit_lt_two_pow (hn.trans_le (Nat.pow_le_pow_right (by decide) (not_lt.1 hi))),
        Bool.false_and, Bool.false_and]
  exact congrArg Int.ofNat hldiff

namespace LongBuild

variable {B : LongBuild} {op : LongOp} {order : ArgOrder} {x : PyLong B.shift} {c : ℤ}
  {check : Bool}

theorem long_width (B : LongBuild) : B.long.width = 32 ∨ B.long.width = 64 := B.long_eq

theorem longLong_width (B : LongBuild) : B.longLong.width = 64 := B.longLong_eq

theorem mask_eq (B : LongBuild) : (B.mask : ℤ) + 1 = (2 ^ B.shift : ℕ) := by
  have := Nat.two_pow_pos B.shift
  rw [mask]
  omega

/-- `and` with a constant of one digit. -/
theorem andDigit_eq (hsign : x.sign ≠ 0) (hc : c.land B.mask = c) :
    B.andDigit x c = some (.int (c.land x.value)) := by
  obtain ⟨n, rfl, hn⟩ := lt_of_land_mask hc
  have hdigit : x.digit 0 = (x.magnitude % 2 ^ B.shift : ℕ) := digit_zero x
  rcases PyLong.kind (shift_pos B) x with ⟨hs, -⟩ | ⟨hs, -, -, hv, -⟩ | ⟨hs, -, -, hv, hpos⟩
  · exact absurd hs hsign
  · rw [andDigit, hs, if_pos one_pos, hdigit, hv]
    exact congrArg (fun v => some (LongResult.int v)) (land_mod hn x.magnitude)
  · have hlt := Nat.mod_lt x.magnitude (Nat.two_pow_pos B.shift)
    have hmask := B.mask_eq
    have hrange {v : ℤ} (h : 0 ≤ v) (h' : v ≤ (2 ^ B.shift : ℕ)) : B.long.InRange v := by
      have hpow : (2 : ℤ) ^ B.shift < 2 ^ (B.long.width - 1) :=
        pow_lt_pow_right₀ (by norm_num) (by
          rcases B.shift_eq with h | h <;> rcases B.long_width with h' | h' <;> omega)
      push_cast at h'
      exact inRange_of_abs_lt rfl (by rw [abs_of_nonneg h]; omega)
    rw [andDigit, hs, if_neg (by decide), hdigit]
    rw [CIntType.arith_of_inRange (hrange (by omega) (by omega)), Option.bind_eq_bind,
      Option.bind_some, CIntType.arith_of_inRange (hrange (by omega) (by omega))]
    have hsub : (B.mask : ℤ) - (x.magnitude % 2 ^ B.shift : ℕ) + 1 =
        (2 ^ B.shift : ℕ) - (x.magnitude % 2 ^ B.shift : ℕ) := by omega
    rw [hsub, hv]
    exact congrArg (fun v => some (LongResult.int v)) (land_neg hn x.magnitude hpos)

/-! ## Bits of ints -/

/-- What is unpacked into a `long` leaves the bits that an operation needs. -/
theorem pos_of_mem_sizes : ∀ size ∈ [2, 3, 4], 0 < size := by decide

theorem unpacks_long {size : ℕ} (h : B.unpacks op size = .long) :
    0 < size ∧ size * B.shift + 1 < B.long.width ∧ size * B.shift + spareBits op < 63 := by
  have hspare : spareBits op ≤ 30 := by
    rw [spareBits]
    split <;> omega
  have hshift : B.shift ≤ 30 := by rcases B.shift_eq with h | h <;> omega
  rcases B.long_width with hw | hw
  all_goals
    rw [unpacks] at h
    split at h
    next hone =>
      rw [hone, hw]
      omega
    next =>
      split at h
      next hsize =>
        have hpos : 0 < size := pos_of_mem_sizes size hsize
        split at h
        next hbits =>
          have hlong : B.platform.long = B.long.width := rfl
          rw [hlong, hw] at hbits
          rw [hw]
          omega
        next => split at h <;> cases h
      next => cases h

theorem unpacks_longLong {size : ℕ} (h : B.unpacks op size = .longLong) :
    0 < size ∧ op ≠ .trueDivide ∧ size * B.shift + spareBits op < 63 := by
  rw [unpacks] at h
  split at h
  next => cases h
  next =>
    split at h
    next hsize =>
      have hpos : 0 < size := pos_of_mem_sizes size hsize
      split at h
      next => cases h
      next =>
        split at h
        next hbits =>
          rw [B.longLong_eq] at hbits
          exact ⟨hpos, hbits.1, by omega⟩
        next => cases h
    next => cases h

/-- An int of some bits and a constant. -/
theorem fits_operands {t : CIntType} (ht : t.signed = true) (hwidth : 32 ≤ t.width)
    (hx : x.digitCount * B.shift + 1 < t.width) (hc : |c| ≤ 2 ^ 30) :
    Fits t (order.operands x.value c).1 (order.operands x.value c).2 := by
  have hvalue : |x.value| < 2 ^ (t.width - 2) :=
    (abs_value_lt x).trans_le (pow_le_pow_right₀ (by norm_num) (by omega))
  have hconst : |c| ≤ 2 ^ (t.width - 2) :=
    hc.trans (pow_le_pow_right₀ (by norm_num) (by omega))
  have hdouble : (2 : ℤ) ^ (t.width - 1) = 2 ^ (t.width - 2) + 2 ^ (t.width - 2) := by
    rw [← two_mul, ← pow_succ']
    congr 1
    omega
  cases order with
  | cObj => exact ⟨ht, hconst, hvalue.le, hdouble ▸ add_lt_add_of_le_of_lt hconst hvalue⟩
  | objC => exact ⟨ht, hvalue.le, hconst, hdouble ▸ add_lt_add_of_lt_of_le hvalue hconst⟩

theorem value_ne_zero (h : 0 < x.digitCount) : x.value ≠ 0 := by
  rcases PyLong.kind (shift_pos B) x with ⟨-, -, hc, -⟩ | ⟨-, -, -, hv, hp⟩ | ⟨-, -, -, hv, hp⟩
  · omega
  · omega
  · omega

/-- The operands that the guards let through. -/
theorem Accepts.right_ne_zero (h : op.Accepts order c) (hx : x.value ≠ 0)
    (hop : op.isDivision = true) : (order.operands x.value c).2 ≠ 0 := by
  cases order with
  | cObj => exact hx
  | objC => exact h.2.1 hop rfl

theorem multiply_eq (hx : x.digitCount * B.shift + 30 < 63) (hc : |c| ≤ 2 ^ 30) :
    B.calculateLongLong .multiply (order.operands x.value c).1 (order.operands x.value c).2 =
      some (LongOp.multiply.python (order.operands x.value c).1 (order.operands x.value c).2) := by
  have hproduct : |x.value| * |c| < 2 ^ (B.longLong.width - 1) := by
    have hvalue := abs_value_lt x
    calc |x.value| * |c| ≤ |x.value| * 2 ^ 30 := mul_le_mul_of_nonneg_left hc (abs_nonneg _)
      _ < 2 ^ (x.digitCount * B.shift) * 2 ^ 30 := mul_lt_mul_of_pos_right hvalue (by norm_num)
      _ = 2 ^ (x.digitCount * B.shift + 30) := (pow_add 2 _ 30).symm
      _ ≤ 2 ^ (B.longLong.width - 1) :=
        pow_le_pow_right₀ (by norm_num) (by rw [B.longLong_width]; omega)
  have hin : B.longLong.InRange ((order.operands x.value c).1 * (order.operands x.value c).2) := by
    refine inRange_of_abs_lt rfl ?_
    cases order with
    | cObj =>
      rw [ArgOrder.operands, abs_mul, mul_comm]
      exact hproduct
    | objC =>
      rw [ArgOrder.operands, abs_mul]
      exact hproduct
  simp only [calculateLongLong, calculate, CIntType.arith_of_inRange hin, Option.map_some,
    LongOp.python]

/-! ## The operators -/

/-- `op1 <op> op2` -/
def pythonOperands (op : LongOp) (order : ArgOrder) (x : PyLong B.shift) (c : ℤ) : LongResult :=
  op.python (order.operands x.value c).1 (order.operands x.value c).2

theorem calculateLongLong_eq (h : op.Accepts order c) (hB : op = .lshift → B.WrapsShifts)
    (htrue : op ≠ .trueDivide) (hpos : 0 < x.digitCount)
    (hx : x.digitCount * B.shift + spareBits op < 63) :
    B.calculateLongLong op (order.operands x.value c).1 (order.operands x.value c).2 =
      some (pythonOperands op order x c) := by
  have hzero := value_ne_zero hpos
  have hfits : Fits B.longLong (order.operands x.value c).1 (order.operands x.value c).2 :=
    fits_operands rfl (by rw [B.longLong_width]; decide) (by rw [B.longLong_width]; omega) h.1
  by_cases hmultiply : op = .multiply
  · subst hmultiply
    exact multiply_eq hx h.1
  by_cases hlshift : op = .lshift
  · subst hlshift
    obtain ⟨rfl, hlo, hhi⟩ := h.2.2 rfl
    exact calculateLongLong_lshift (hB rfl) hfits.inRange_left hlo hhi
  have hrest : B.calculateLongLong op (order.operands x.value c).1 (order.operands x.value c).2 =
      B.calculate B.longLong op (order.operands x.value c).1 (order.operands x.value c).2 := by
    cases op with
    | lshift => exact absurd rfl hlshift
    | _ => rfl
  rw [hrest]
  refine calculate_eq hfits hmultiply htrue hlshift (Accepts.right_ne_zero h hzero) fun hshift => ?_
  obtain ⟨rfl, hlo, -⟩ := h.2.2 hshift
  exact (by omega : 0 ≤ c)

theorem calculateLong_eq (h : op.Accepts order c) (hB : op = .lshift → B.WrapsShifts)
    (hx : B.unpacks op x.digitCount = .long) :
    B.calculateLong op x x.value (order.operands x.value c).1 (order.operands x.value c).2 =
      some (pythonOperands op order x c) := by
  obtain ⟨hpos, hlong, hspare⟩ := unpacks_long hx
  have hzero := value_ne_zero hpos
  have hwidth : 32 ≤ B.long.width := by rcases B.long_width with h | h <;> omega
  have hfits : Fits B.long (order.operands x.value c).1 (order.operands x.value c).2 :=
    fits_operands rfl hwidth hlong h.1
  have hright := Accepts.right_ne_zero h hzero
  by_cases htrue : op = .trueDivide
  · subst htrue
    have hc : |c| ≤ 2 ^ 53 := h.1.trans (by norm_num)
    refine divideLong_eq hfits (hright rfl) (abs_value_lt x) ?_
    cases order with
    | cObj => exact .inr ⟨rfl, hc⟩
    | objC => exact .inl ⟨rfl, hc⟩
  by_cases hmultiply : op = .multiply
  · subst hmultiply
    exact calculateLongLong_eq h hB htrue hpos hspare
  by_cases hlshift : op = .lshift
  · subst hlshift
    obtain ⟨rfl, hlo, hhi⟩ := h.2.2 rfl
    have hlonger : B.longLong.InRange x.value := inRange_of_abs_lt rfl
      ((abs_value_lt x).trans_le (pow_le_pow_right₀ (by norm_num) (by
        rw [B.longLong_width]
        omega)))
    exact calculateLong_lshift (hB rfl) hfits.inRange_left hlonger hzero hlo hhi
  have hrest : B.calculateLong op x x.value (order.operands x.value c).1
      (order.operands x.value c).2 =
      B.calculate B.long op (order.operands x.value c).1 (order.operands x.value c).2 := by
    cases op with
    | multiply => exact absurd rfl hmultiply
    | trueDivide => exact absurd rfl htrue
    | lshift => exact absurd rfl hlshift
    | _ => rfl
  rw [hrest]
  refine calculate_eq hfits hmultiply htrue hlshift hright fun hshift => ?_
  obtain ⟨rfl, hlo, -⟩ := h.2.2 hshift
  exact (by omega : 0 ≤ c)

theorem lor_zero (c : ℤ) : c.lor 0 = c := onInts_zero_right (.bitwise .or)

theorem xor_zero (c : ℤ) : c.xor 0 = c := onInts_zero_right (.bitwise .xor)

theorem land_zero (c : ℤ) : c.land 0 = 0 := onInts_zero_right (.bitwise .and)

theorem zero_lor (c : ℤ) : Int.lor 0 c = c :=
  show NumberOp.onInts (.bitwise .or) 0 c = _ from onInts_zero_left (by decide)

theorem zero_xor (c : ℤ) : Int.xor 0 c = c :=
  show NumberOp.onInts (.bitwise .xor) 0 c = _ from onInts_zero_left (by decide)

theorem zero_land (c : ℤ) : Int.land 0 c = 0 :=
  show NumberOp.onInts (.bitwise .and) 0 c = _ from onInts_zero_left (by decide)

/-- A special case for zero has the result of the operator. -/
theorem zeroCase_eq {r : Option LongResult} (h : op.Accepts order c) (hx : x.value = 0)
    (hr : B.zeroCase op order c check = some r) : r = some (pythonOperands op order x c) := by
  rw [pythonOperands, hx]
  have hint {v w : ℤ} (hr : some (some (LongResult.int v)) = some r) (hvw : v = w) :
      r = some (.int w) := by
    rw [← Option.some.inj hr, hvw]
  cases order with
  | cObj =>
    have hzero (hr : (if check = true then some (some LongResult.zeroDivisionError) else none) =
        some r) : r = some .zeroDivisionError := by
      split at hr
      next => exact (Option.some.inj hr).symm
      next => cases hr
    cases op with
    | add => exact hint hr (add_zero c).symm
    | subtract => exact hint hr (sub_zero c).symm
    | multiply => exact hint hr (mul_zero c).symm
    | remainder => exact hzero hr
    | trueDivide => exact hzero hr
    | floorDivide => exact hzero hr
    | or => exact hint hr (lor_zero c).symm
    | xor => exact hint hr (xor_zero c).symm
    | and => exact hint hr (land_zero c).symm
    | rshift => exact hint hr (Int.ediv_one c).symm
    | lshift => exact hint hr (mul_one c).symm
  | objC =>
    cases op with
    | add => exact hint hr (zero_add c).symm
    | subtract =>
      have hin : B.long.InRange (-c) := by
        refine inRange_of_abs_lt rfl ?_
        rw [abs_neg]
        refine h.1.trans_lt (pow_lt_pow_right₀ (by norm_num) ?_)
        rcases B.long_width with h | h <;> omega
      have hr : some ((B.long.arith (-c)).map LongResult.int) = some r := hr
      rw [CIntType.arith_of_inRange hin] at hr
      exact hint hr (zero_sub c).symm
    | multiply => exact hint hr (zero_mul c).symm
    | remainder =>
      have hc : c ≠ 0 := h.2.1 rfl rfl
      rw [LongOp.python, ArgOrder.operands, if_neg hc]
      exact hint hr (Int.zero_fmod c).symm
    | trueDivide => cases hr
    | floorDivide =>
      have hc : c ≠ 0 := h.2.1 rfl rfl
      rw [LongOp.python, ArgOrder.operands, if_neg hc]
      exact hint hr (Int.zero_fdiv c).symm
    | or => exact hint hr (zero_lor c).symm
    | xor => exact hint hr (zero_xor c).symm
    | and => exact hint hr (zero_land c).symm
    | rshift =>
      have hc : 1 ≤ c := (h.2.2 rfl).2.1
      rw [LongOp.python, ArgOrder.operands, if_neg (by omega)]
      exact hint hr (Int.zero_ediv _).symm
    | lshift =>
      have hc : 1 ≤ c := (h.2.2 rfl).2.1
      rw [LongOp.python, ArgOrder.operands, if_neg (by omega)]
      exact hint hr (zero_mul _).symm

theorem land_swap (a b : ℤ) : a.land b = b.land a := by
  cases a <;> cases b <;> simp [Int.land, Nat.and_comm, Nat.or_comm]

/-- An operator has the result of Python's. -/
theorem unpacked_eq (h : op.Accepts order c) (hB : op = .lshift → B.WrapsShifts) :
    B.unpacked op order x c check = some (pythonOperands op order x c) := by
  rw [unpacked]
  split
  next r hr =>
    split at hr
    next hsign =>
      have hvalue : x.value = 0 := by
        rcases PyLong.kind (shift_pos B) x with ⟨-, -, -, hv⟩ | ⟨hs, -⟩ | ⟨hs, -⟩
        · exact hv
        · rw [hs] at hsign
          cases hsign
        · rw [hs] at hsign
          cases hsign
      exact zeroCase_eq h hvalue hr
    next => cases hr
  next hnone =>
    split
    next hand =>
      obtain ⟨rfl, hc⟩ := hand
      have hsign : x.sign ≠ 0 := by
        intro hsign
        rw [if_pos hsign] at hnone
        cases order <;> cases hnone
      rw [andDigit_eq hsign hc]
      cases order with
      | cObj => rfl
      | objC => exact congrArg (fun v => some (LongResult.int v)) (land_swap c x.value)
    next =>
      split
      next => rfl
      next hx =>
        obtain ⟨hpos, hlong, -⟩ := unpacks_long hx
        rw [unpack_eq rfl (by omega)]
        exact calculateLong_eq h hB hx
      next hx =>
        obtain ⟨hpos, htrue, hspare⟩ := unpacks_longLong hx
        rw [unpack_eq rfl (by rw [B.longLong_width]; omega)]
        exact calculateLongLong_eq h hB htrue hpos hspare

/-! ## Comparison -/

/-- Two numbers of so many digits with the same digits are equal. -/
theorem eq_of_digits_eq {base : ℕ} (k : ℕ) : ∀ {a b : ℕ}, a < base ^ k → b < base ^ k →
    (∀ i < k, a / base ^ i % base = b / base ^ i % base) → a = b := by
  induction k with
  | zero =>
    intro a b ha hb _
    rw [pow_zero] at ha hb
    omega
  | succ k ih =>
    intro a b ha hb h
    have hbase : 0 < base := by
      rcases base.eq_zero_or_pos with rfl | hpos
      · rw [zero_pow k.succ_ne_zero] at ha
        omega
      · exact hpos
    have hrest : a / base = b / base := by
      refine ih ?_ ?_ fun i hi => ?_
      · rwa [Nat.div_lt_iff_lt_mul hbase, ← pow_succ]
      · rwa [Nat.div_lt_iff_lt_mul hbase, ← pow_succ]
      · rw [Nat.div_div_eq_div_mul, Nat.div_div_eq_div_mul, ← pow_succ']
        exact h (i + 1) (by omega)
    have hlast := h 0 k.succ_pos
    rw [pow_zero, Nat.div_one, Nat.div_one] at hlast
    rw [← Nat.div_add_mod a base, ← Nat.div_add_mod b base, hrest, hlast]

theorem digits_eq (x : PyLong B.shift) : x.digits = Nat.digits (2 ^ B.shift) x.magnitude := by
  refine (Nat.digits_ofDigits _ (Nat.one_lt_two_pow (shift_pos B).ne') _ x.digits_lt ?_).symm
  exact fun hne hlast => x.normalized (by rw [List.getLast?_eq_some_getLast hne, hlast])

theorem digit_eq (x : PyLong B.shift) (i : ℕ) :
    x.digit i = (x.magnitude / (2 ^ B.shift) ^ i % 2 ^ B.shift : ℕ) := by
  have hbase : 2 ≤ 2 ^ B.shift := Nat.one_lt_two_pow (shift_pos B).ne'
  rw [PyLong.digit, ← List.getD_eq_getElem?_getD, digits_eq, Nat.getD_digits _ _ hbase]

/-- The digits of the constant. -/
theorem shiftRight_and_mask (n i : ℕ) :
    (n >>> (i * B.shift)) &&& B.mask = n / (2 ^ B.shift) ^ i % 2 ^ B.shift := by
  rw [mask, Nat.and_two_pow_sub_one_eq_mod, Nat.shiftRight_eq_div_pow, Nat.mul_comm, pow_mul]

/-- The numbers of digits and the digits decide. -/
theorem differs_iff {size n : ℕ} (hlo : (2 ^ B.shift) ^ size ≤ n)
    (hhi : n < (2 ^ B.shift) ^ (size + 1)) :
    (x.digitCount ≠ size + 1 ∨ ∃ i < size + 1,
      x.digit i ≠ ((n >>> (i * B.shift)) &&& B.mask : ℕ)) ↔ x.magnitude ≠ n := by
  have hbase : 1 < 2 ^ B.shift := Nat.one_lt_two_pow (shift_pos B).ne'
  constructor
  · rintro h rfl
    rcases h with hcount | ⟨i, -, hdigit⟩
    · have hle := (Nat.digits_length_le_iff hbase x.magnitude).2 hhi
      have hlt := (Nat.lt_digits_length_iff hbase x.magnitude).2 hlo
      rw [← digits_eq] at hle hlt
      exact hcount (le_antisymm hle hlt)
    · exact hdigit (by rw [digit_eq, shiftRight_and_mask])
  · intro hne
    by_contra hcon
    rw [not_or, not_not] at hcon
    obtain ⟨hcount, hdigits⟩ := hcon
    refine hne (eq_of_digits_eq (size + 1) (hcount ▸ PyLong.magnitude_lt (shift_pos B) x) hhi ?_)
    intro i hi
    have hdigit := not_not.1 fun h => hdigits ⟨i, hi, h⟩
    rw [digit_eq, shiftRight_and_mask] at hdigit
    exact_mod_cast hdigit

/-- The largest of four sizes that passes a test. -/
theorem find_size (p : ℕ → Bool) :
    (∃ size, [4, 3, 2, 1].find? p = some size ∧ p size = true ∧ size ≤ 4 ∧
      (size < 4 → p (size + 1) = false)) ∨ [4, 3, 2, 1].find? p = none ∧ p 1 = false := by
  cases h4 : p 4 with
  | true => exact .inl ⟨4, by simp [h4], h4, le_rfl, fun h => absurd h (by decide)⟩
  | false =>
    cases h3 : p 3 with
    | true => exact .inl ⟨3, by simp [h4, h3], h3, by decide, fun _ => h4⟩
    | false =>
      cases h2 : p 2 with
      | true => exact .inl ⟨2, by simp [h4, h3, h2], h2, by decide, fun _ => h3⟩
      | false =>
        cases h1 : p 1 with
        | true => exact .inl ⟨1, by simp [h4, h3, h2, h1], h1, by decide, fun _ => h2⟩
        | false => exact .inr ⟨by simp [h4, h3, h2, h1], rfl⟩

theorem unequal_eq {n : ℕ} (hpos : 0 < n) (hn : n ≤ 2 ^ 30) :
    B.unequal x n = decide (x.magnitude ≠ n) := by
  have hshift {k : ℕ} : n >>> (B.shift * k) ≠ 0 ↔ (2 ^ B.shift) ^ k ≤ n := by
    rw [Nat.shiftRight_eq_div_pow, pow_mul, Nat.div_ne_zero_iff]
    exact and_iff_right (by positivity)
  have hlong : 32 ≤ B.platform.long := by rcases B.long_eq with h | h <;> omega
  have hsmall : 15 ≤ B.shift ∧ B.shift ≤ 30 := by rcases B.shift_eq with h | h <;> omega
  -- Digits that the constant is not tested for are beyond its bits.
  have hnot {k : ℕ} (h : ¬(B.shift * k < B.platform.long ∧ n >>> (B.shift * k) ≠ 0)) :
      n < (2 ^ B.shift) ^ k := by
    by_contra hge
    rw [hshift] at h
    have hwide : 32 ≤ B.shift * k := by
      by_contra hlt
      exact h ⟨by omega, not_lt.1 hge⟩
    have hpow : 2 ^ 32 ≤ (2 ^ B.shift) ^ k := by
      rw [← pow_mul]
      exact Nat.pow_le_pow_right (by decide) hwide
    omega
  rw [unequal]
  rcases find_size fun size => decide (B.shift * size < B.platform.long ∧
      n >>> (B.shift * size) ≠ 0) with ⟨size, hfind, hsize, hle, hnext⟩ | ⟨hfind, hone⟩
  · have hhi : n < (2 ^ B.shift) ^ (size + 1) := by
      rcases hle.lt_or_eq with hlt | rfl
      · exact hnot (of_decide_eq_false (hnext hlt))
      · have hpow : 2 ^ 32 ≤ (2 ^ B.shift) ^ (4 + 1) := by
          rw [← pow_mul]
          exact Nat.pow_le_pow_right (by decide) (by omega)
        omega
    rw [hfind]
    simp only [← differs_iff (x := x) (hshift.1 (of_decide_eq_true hsize).2) hhi,
      List.any_eq_true, List.mem_range, decide_eq_true_eq]
  · have hhi : n < (2 ^ B.shift) ^ (0 + 1) := hnot (of_decide_eq_false hone)
    have hlo : (2 ^ B.shift) ^ 0 ≤ n := hpos
    rw [hfind]
    simp only [← differs_iff (x := x) hlo hhi, Nat.zero_add, Nat.lt_one_iff, exists_eq_left,
      Nat.zero_mul, Nat.shiftRight_zero]

/-- The digits of an int against those of a constant with the same sign. -/
theorem unequal_abs (hzero : c ≠ 0) (hc : |c| ≤ 2 ^ 30) {v : ℤ} (hv : v = |c|) :
    B.unequal x ((B.platform.longType false).convert v).toNat =
      decide ((x.magnitude : ℤ) ≠ |c|) := by
  have hlong : 32 ≤ B.platform.long := by rcases B.long_eq with h | h <;> omega
  have hin : (B.platform.longType false).InRange |c| := by
    refine (CIntType.inRange_unsigned rfl).2 ⟨abs_nonneg c, hc.trans_lt ?_⟩
    exact pow_lt_pow_right₀ (by norm_num) (show 30 < B.platform.long by omega)
  have hpos := abs_pos.2 hzero
  rw [hv, CIntType.convert_of_inRange hin, unequal_eq (by omega) (by omega), decide_eq_decide,
    not_iff_not]
  omega

/-- A comparison with a constant of at most 31 bits is that of the values. -/
theorem longCompare_eq (isEq : Bool) {sameObject : Bool} (hc : |c| ≤ 2 ^ 30)
    (hsame : sameObject = true → x.value = c) :
    B.longCompare isEq x c sameObject = some (decide (x.value = c) == isEq) := by
  have hdifferent (h : x.value ≠ c) : (!isEq) = (decide (x.value = c) == isEq) := by
    rw [decide_eq_false h]
    cases isEq <;> rfl
  have habs (hsign : x.value < 0 ↔ c < 0) :
      (!decide ((x.magnitude : ℤ) ≠ |c|)) = decide (x.value = c) := by
    rw [← decide_not, decide_eq_decide, not_not, ← abs_value]
    simp only [Int.abs_eq_natAbs]
    omega
  rw [longCompare]
  split
  next h =>
    rw [decide_eq_true (hsame h)]
    cases isEq <;> rfl
  next =>
    split
    next =>
      have hkind := PyLong.kind (shift_pos B) x
      split
      next hzero =>
        have hsign : x.sign = 0 ↔ x.value = c := by
          rw [hzero]
          rcases hkind with ⟨hs, -, -, hv⟩ | ⟨hs, -, -, hv, hp⟩ | ⟨hs, -, -, hv, hp⟩ <;> omega
        rw [decide_eq_decide.2 hsign]
      next hzero =>
        split
        next hneg =>
          split
          next hnonneg =>
            rw [hdifferent]
            rcases hkind with ⟨-, -, -, hv⟩ | ⟨-, -, -, hv, hp⟩ | ⟨-, hn, -⟩
            · omega
            · omega
            · rw [PyLong.isNeg, hn] at hnonneg
              cases hnonneg
          next hisNeg =>
            have hin : B.long.InRange (-c) := by
              refine inRange_of_abs_lt rfl ?_
              rw [abs_neg]
              refine hc.trans_lt (pow_lt_pow_right₀ (by norm_num) ?_)
              rcases B.long_width with h | h <;> omega
            have hvalue : x.value < 0 := by
              rcases hkind with ⟨-, hn, -⟩ | ⟨-, hn, -⟩ | ⟨-, -, -, hv, hp⟩
              · rw [PyLong.isNeg, hn] at hisNeg
                exact absurd rfl hisNeg
              · rw [PyLong.isNeg, hn] at hisNeg
                exact absurd rfl hisNeg
              · omega
            rw [CIntType.arith_of_inRange hin, Option.map_some,
              unequal_abs hzero hc (abs_of_neg hneg).symm, habs (iff_of_true hvalue hneg)]
        next hneg =>
          split
          next hisNeg =>
            rw [hdifferent]
            rcases hkind with ⟨-, hn, -⟩ | ⟨-, hn, -⟩ | ⟨-, -, -, hv, hp⟩
            · rw [PyLong.isNeg, hn] at hisNeg
              cases hisNeg
            · rw [PyLong.isNeg, hn] at hisNeg
              cases hisNeg
            · omega
          next hisNeg =>
            have hvalue : ¬x.value < 0 := by
              rcases hkind with ⟨-, -, -, hv⟩ | ⟨-, -, -, hv, -⟩ | ⟨-, hn, -⟩
              · omega
              · omega
              · rw [PyLong.isNeg, hn] at hisNeg
                exact absurd rfl hisNeg
            rw [unequal_abs hzero hc (abs_of_nonneg (not_lt.1 hneg)).symm,
              habs (iff_of_false hvalue hneg)]
    next => rfl

/-- For an int and a constant that the compiler accepts, the operators have the results of
    Python's, and `==` and `!=` compare the values. No operation of C is undefined, if the
    compiler shifts to the left as it does with unsigned values. -/
theorem fastPaths_eq_python (B : LongBuild) (x : PyLong B.shift) (c : ℤ) (hc : |c| ≤ 2 ^ 30) :
    (∀ op order check, op.Accepts order c → (op = .lshift → B.WrapsShifts) →
      B.longBinop op order x c check = some (pythonOperands op order x c)) ∧
    ∀ isEq sameObject, (sameObject = true → x.value = c) →
      B.longCompare isEq x c sameObject = some (decide (x.value = c) == isEq) := by
  refine ⟨fun op order check h hB => ?_, fun isEq sameObject hsame => longCompare_eq isEq hc hsame⟩
  rw [longBinop]
  split
  next => exact unpacked_eq h hB
  next => rfl

end LongBuild

/-! ## Left shifts that overflow -/

theorem lp64_long : CPlatform.lp64.long = 32 ∨ CPlatform.lp64.long = 64 := .inr rfl

theorem digitBits_eq : 30 = 15 ∨ 30 = 30 := .inr rfl

/-- The right shift of the standard. -/
def isoShiftRight (t : CIntType) (a b : ℤ) : Option ℤ :=
  if b < t.width then some (a / 2 ^ b.toNat) else none

theorem isoShiftRight_eq (t : CIntType) (a b : ℤ) (_ : t.InRange a) (_ : 0 ≤ b) (hb : b < t.width)
    (_ : 0 ≤ a ∨ true = true) : isoShiftRight t a b = some (a / 2 ^ b.toNat) := if_pos hb

/-- Sixty-four bits, and a left shift of signed values. -/
def lp64Build (shiftLeft : CIntType → ℤ → ℤ → Option ℤ) : LongBuild where
  platform := .lp64
  long_eq := lp64_long
  longLong_eq := rfl
  shift := 30
  shift_eq := digitBits_eq
  pylongInternals := true
  negativeShiftWorks := true
  shiftLeft := shiftLeft
  shiftRight := isoShiftRight
  shiftRight_eq := isoShiftRight_eq

/-- The left shift of the standard, which is undefined if the result is not in the type. -/
def isoShiftLeft (t : CIntType) (a b : ℤ) : Option ℤ :=
  if 0 ≤ a ∧ 0 ≤ b ∧ b < t.width ∧ t.InRange (a * 2 ^ b.toNat) then some (a * 2 ^ b.toNat) else none

/-- The left shift of the bits. -/
def wrappingShiftLeft (t : CIntType) (a b : ℤ) : Option ℤ := some (t.convert (a * 2 ^ b.toNat))

theorem wrapsShifts_wrappingShiftLeft : (lp64Build wrappingShiftLeft).WrapsShifts where
  works := rfl
  shiftLeft_eq _ _ _ _ _ _ _ := rfl
  isSome_shiftLeft _ _ _ _ := rfl

/-- `2 ** 40` -/
def twoDigits : PyLong 30 where
  negative := false
  digits := [0, 1024]
  digits_lt := by decide
  normalized := by decide
  negative_ne := by decide

/-- `2 ** 40 << 30`: a signed left shift overflows. -/
theorem lshift_undefined : LongOp.lshift.Accepts .objC 30 ∧
    (lp64Build isoShiftLeft).longBinop .lshift .objC twoDigits 30 false = none := by
  refine ⟨⟨by norm_num, fun h => (by cases h), fun _ => ⟨rfl, by norm_num, by norm_num⟩⟩, ?_⟩
  decide

/-- The result, with a compiler that shifts the bits. -/
theorem lshift_twoDigits :
    (lp64Build wrappingShiftLeft).longBinop .lshift .objC twoDigits 30 false =
      some (.int (2 ^ 70)) :=
  (LongBuild.fastPaths_eq_python (lp64Build wrappingShiftLeft) twoDigits 30 (by norm_num)).1 .lshift
    .objC false ⟨by norm_num, fun h => (by cases h), fun _ => ⟨rfl, by norm_num, by norm_num⟩⟩
    fun _ => wrapsShifts_wrappingShiftLeft

end AHPy.Operators
