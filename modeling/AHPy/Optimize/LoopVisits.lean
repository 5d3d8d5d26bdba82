import AHPy.Optimize.RangeAgreement

/-!
# The values that loops visit

The loop of a reversed range of an unsigned type computes with values that are wrapped. If the
range is empty they are wrapped back, unless the bounds are near the end of the type.

* `LoopTypes.WrapsBack.loop_visits_nil`: such a loop has no values;
* `carray_visits_iff`: loops over slices of arrays;
* `transforms_visit`: all the loops that the transforms build.
-/

namespace AHPy

open ModuleWriter (progression progression_zero progression_succ length_progression)

namespace Optimize

open ModuleWriter (Relation findForFromNodeRelations pyRange rangeLength lt_rangeLength_iff
  lt_rangeLength_iff_of_neg pyRange_eq_progression)

variable {p : CPlatform} {t : CIntType}

/-! ## Unsigned arithmetic -/

/-- In C the expression has the value `v`: as a value of the unsigned type `t`, which may be
    another one, or exactly, as an `int`. -/
def ModuloType (p : CPlatform) (t : CIntType) (e : CExpression) (v : ℤ) : Prop :=
  e.type p = t ∧ e.run .c p = some (t.convert v) ∨
    e.type p = p.intType true ∧ e.run .c p = some v ∧ (p.intType true).InRange v

/-- An unsigned type that is not narrower than `int`. -/
structure WideUnsigned (p : CPlatform) (t : CIntType) : Prop where
  signed : t.signed = false
  int_le : p.int ≤ t.width

theorem promoted_int : p.promoted (p.intType true) = p.intType true :=
  if_neg (lt_irrefl p.int)

theorem common_int_int : p.common (p.intType true) (p.intType true) = p.intType true := by
  rw [CPlatform.common, promoted_int, CIntType.usual, if_pos rfl]
  rfl

namespace WideUnsigned

theorem promoted (h : WideUnsigned p t) : p.promoted t = t := if_neg (Nat.not_lt.2 h.int_le)

theorem common_self (h : WideUnsigned p t) : p.common t t = t := by
  rw [CPlatform.common, h.promoted, CIntType.usual, if_pos rfl, Bool.and_self]

theorem common_int (h : WideUnsigned p t) : p.common t (p.intType true) = t := by
  rw [CPlatform.common, h.promoted, promoted_int, CIntType.usual]
  split_ifs with heq hlt
  · obtain ⟨w, s, hw⟩ := t
    obtain rfl : s = false := h.signed
    rfl
  · exact absurd hlt (Nat.not_lt.2 h.int_le)
  · rfl

theorem int_common (h : WideUnsigned p t) : p.common (p.intType true) t = t := by
  rw [CPlatform.common, CIntType.usual_comm]
  exact h.common_int

/-- With an operand of the unsigned type, C computes in that type. -/
theorem common_eq (h : WideUnsigned p t) {a b : CIntType} (ha : a = t ∨ a = p.intType true)
    (hb : b = t ∨ b = p.intType true) (hab : a = t ∨ b = t) : p.common a b = t := by
  rcases ha with rfl | rfl
  · rcases hb with rfl | rfl
    · exact h.common_self
    · exact h.common_int
  · rcases hab with rfl | rfl
    · exact (hb.elim (fun hb => hb ▸ h.common_self) fun hb => hb ▸ h.common_self)
    · exact h.int_common

theorem arith (h : WideUnsigned p t) (v : ℤ) : t.arith v = some (t.convert v) :=
  CIntType.arith_unsigned h.signed v

end WideUnsigned

theorem apply_modEq {operator : COperator} (hop : operator ≠ .div) {x y x' y' v n : ℤ}
    (h : operator.apply x y = some v) (hx : x' ≡ x [ZMOD n]) (hy : y' ≡ y [ZMOD n]) :
    ∃ v', operator.apply x' y' = some v' ∧ v' ≡ v [ZMOD n] := by
  cases operator
  · exact ⟨_, rfl, Option.some.inj h ▸ hx.add hy⟩
  · exact ⟨_, rfl, Option.some.inj h ▸ hx.sub hy⟩
  · exact ⟨_, rfl, Option.some.inj h ▸ hx.mul hy⟩
  · exact absurd rfl hop

namespace ModuloType

variable {a b e : CExpression} {x y v : ℤ}

theorem type (h : ModuloType p t e v) : e.type p = t ∨ e.type p = p.intType true :=
  h.imp And.left And.left

/-- The value, converted to the unsigned type. -/
theorem convert (h : ModuloType p t e v) : ∃ w, e.run .c p = some w ∧ t.convert w = t.convert v := by
  rcases h with ⟨-, hrun⟩ | ⟨-, hrun, -⟩
  · exact ⟨_, hrun, CIntType.convert_of_inRange (t.inRange_convert v)⟩
  · exact ⟨v, hrun, rfl⟩

/-- An operation with an operand of the unsigned type. -/
theorem binary (hw : WideUnsigned p t) (operator : COperator) (hop : operator ≠ .div)
    (ha : ModuloType p t a x) (hb : ModuloType p t b y) (hab : a.type p = t ∨ b.type p = t)
    (happly : operator.apply x y = some v) :
    (CExpression.binary operator a b).type p = t ∧ ModuloType p t (.binary operator a b) v := by
  have hcommon := hw.common_eq ha.type hb.type hab
  obtain ⟨x', hx, hx'⟩ := ha.convert
  obtain ⟨y', hy, hy'⟩ := hb.convert
  obtain ⟨v', hv', hmod⟩ := apply_modEq hop happly
    (CIntType.convert_modEq (t := t) x) (CIntType.convert_modEq (t := t) y)
  refine ⟨hcommon, .inl ⟨hcommon, CExpression.run_binary_eq_some.2
    ⟨x', y', t.convert x, t.convert y, v', hx, hy, ?_, ?_, hv', ?_⟩⟩⟩
  · rw [hcommon, ← hx']
    rfl
  · rw [hcommon, ← hy']
    rfl
  · rw [hcommon]
    exact (hw.arith v').trans (congrArg some (CIntType.convert_eq_convert_iff.2 hmod))

/-- An operation on two values of type `int` whose result fits. -/
theorem run_binary_int (operator : COperator) (ha : a.type p = p.intType true)
    (hb : b.type p = p.intType true) (hx : a.run .c p = some x) (hy : b.run .c p = some y)
    (hxr : (p.intType true).InRange x) (hyr : (p.intType true).InRange y)
    (happly : operator.apply x y = some v) (hv : (p.intType true).InRange v) :
    (CExpression.binary operator a b).type p = p.intType true ∧
      (CExpression.binary operator a b).run .c p = some v := by
  have hcommon : p.common (a.type p) (b.type p) = p.intType true := by
    rw [ha, hb, common_int_int]
  refine ⟨hcommon, CExpression.run_binary_eq_some.2
    ⟨x, y, x, y, v, hx, hy, ?_, ?_, happly, ?_⟩⟩
  · rw [hcommon]
    exact congrArg some (CIntType.convert_of_inRange hxr)
  · rw [hcommon]
    exact congrArg some (CIntType.convert_of_inRange hyr)
  · rw [hcommon]
    exact CIntType.arith_of_inRange hv

/-- A division of a value of the unsigned type. -/
theorem div (hw : WideUnsigned p t) (ha : ModuloType p t a x) (hat : a.type p = t)
    (hb : b.type p = p.intType true) (hy : b.run .c p = some y) (hyr : t.InRange y) (hpos : 0 < y) :
    (CExpression.binary .div a b).type p = t ∧
      ModuloType p t (.binary .div a b) (t.convert x / y) := by
  have hcommon : p.common (a.type p) (b.type p) = t := by rw [hat, hb, hw.common_int]
  have hx0 := ((CIntType.inRange_unsigned hw.signed).1 (t.inRange_convert x)).1
  obtain ⟨x', hx, hx'⟩ := ha.convert
  refine ⟨hcommon, .inl ⟨hcommon, CExpression.run_binary_eq_some.2
    ⟨x', y, t.convert x, y, t.convert x / y, hx, hy, ?_, ?_, ?_, ?_⟩⟩⟩
  · rw [hcommon, ← hx']
    rfl
  · rw [hcommon]
    exact congrArg some (CIntType.convert_of_inRange hyr)
  · rw [COperator.apply, if_neg hpos.ne', Int.tdiv_eq_ediv_of_nonneg hx0]
  · rw [hcommon]
    exact hw.arith _

end ModuloType

/-! ## Empty ranges of an unsigned type -/

theorem inRange_int_of_le {v w : ℤ} (hv : 0 ≤ v) (hvw : v ≤ w)
    (hw : (p.intType true).InRange w) : (p.intType true).InRange v :=
  CIntType.inRange_zero.of_mem_segment hw (.inl ⟨hv, hvw⟩)

theorem inRange_int_of_small {v : ℤ} (hlo : -2 ^ 15 ≤ v) (hhi : v < 2 ^ 15) :
    (p.intType true).InRange v := by
  have hpow : (2 : ℤ) ^ 15 ≤ 2 ^ (p.int - 1) :=
    pow_le_pow_right₀ (by norm_num) (by have := p.le_int; omega)
  refine (CIntType.inRange_signed rfl).2 (show -2 ^ (p.int - 1) ≤ v ∧ v < 2 ^ (p.int - 1) from ?_)
  exact ⟨by omega, by omega⟩

/-- A literal that fits `int`. -/
theorem literal_int {v : ℤ} (h : (p.intType true).InRange v) :
    (CExpression.literal p v).type p = p.intType true ∧
      (CExpression.literal p v).run .c p = some v := by
  have htype : p.literalType v = p.intType true := if_pos h
  refine ⟨htype, ?_⟩
  rw [CExpression.literal, htype]
  exact if_pos h

theorem moduloType_literal {v : ℤ} (h : (p.intType true).InRange v) :
    ModuloType p t (.literal p v) v :=
  .inr ⟨(literal_int h).1, (literal_int h).2, h⟩

/-- A bound of the type of the target, or a natural number that stays an `int`. -/
def Bound.Absorbed (b : Bound) (p : CPlatform) (t : CIntType) (step : ℤ) : Prop :=
  b.type = t ∨ b.type = p.intType true ∧ 0 ≤ b.value ∧ (p.intType true).InRange (b.value + |step|)

/-- The loop of a reversed range that is empty computes with one unsigned type, and nothing is
    near the end of it: what is wrapped is wrapped back. -/
structure LoopTypes.WrapsBack (types : LoopTypes) (start stop : Bound) (step : ℤ) : Prop where
  wide : WideUnsigned types.platform types.target
  spanningStep_eq : types.spanningStep = types.target
  start_absorbed : start.Absorbed types.platform types.target step
  stop_absorbed : stop.Absorbed types.platform types.target step
  unsigned : start.type = types.target ∨ stop.type = types.target
  step_inRange : (types.platform.intType true).InRange |step|
  empty : dividend start.value stop.value step < 0
  computed : ¬(start.isConstant ∧ stop.isConstant)
  start_lt : start.value + |step| < 2 ^ types.target.width
  stop_lt : stop.value + |step| < 2 ^ types.target.width

theorem Bound.Absorbed.moduloType {b : Bound} {step : ℤ} (h : b.Absorbed p t step) : ModuloType p t b.node b.value := by
  have hrun : b.node.run .c p = some b.value := if_pos b.inRange
  rcases h with ht | ⟨ht, hnonneg, hfits⟩
  · refine .inl ⟨ht, hrun.trans (congrArg some ?_)⟩
    exact (CIntType.convert_of_inRange (ht ▸ b.inRange)).symm
  · exact .inr ⟨ht, hrun, inRange_int_of_le hnonneg (le_add_of_nonneg_right (abs_nonneg step)) hfits⟩

theorem Bound.Absorbed.nonneg {b : Bound} {step : ℤ} (hw : WideUnsigned p t)
    (h : b.Absorbed p t step) : 0 ≤ b.value := by
  rcases h with ht | ⟨-, hnonneg, -⟩
  · exact ((CIntType.inRange_unsigned hw.signed).1 (ht ▸ b.inRange)).1
  · exact hnonneg

/-- A bound that is moved by a literal, in the unsigned type or as an `int`. -/
theorem Bound.Absorbed.binary {b : Bound} {step v w : ℤ} (hw : WideUnsigned p t)
    (h : b.Absorbed p t step) (operator : COperator) (hop : operator ≠ .div)
    (hv : (p.intType true).InRange v) (happly : operator.apply b.value v = some w)
    (hrange : -1 ≤ w ∧ w ≤ b.value + |step|) :
    ModuloType p t (.binary operator b.node (.literal p v)) w := by
  have hb := h.moduloType
  rcases h with ht | ⟨ht, hnonneg, hfits⟩
  · exact (ModuloType.binary hw operator hop hb (moduloType_literal hv) (.inl ht) happly).2
  · have hwr : (p.intType true).InRange w := by
      refine (inRange_int_of_small (p := p) (v := -1) (by norm_num) (by norm_num)).of_mem_segment
        hfits (.inl hrange)
    have hnode : b.node.type p = p.intType true := ht
    obtain ⟨htype, hrun⟩ := ModuloType.run_binary_int operator hnode (literal_int hv).1
      (if_pos b.inRange)
      (literal_int hv).2
      (inRange_int_of_le hnonneg (le_add_of_nonneg_right (abs_nonneg step)) hfits) hv happly hwr
    exact .inr ⟨htype, hrun, hwr⟩

namespace LoopTypes.WrapsBack

variable {types : LoopTypes} {start stop : Bound} {step : ℤ}

/-- The bound that the emitted code computes, up to a multiple of what wraps. -/
theorem buildRangeStepCalculation (h : types.WrapsBack start stop step) (hstep : step ≠ 0) :
    ∃ r q, 0 ≤ r ∧ r < |step| ∧
      dividend start.value stop.value step + 2 ^ types.target.width = |step| * q + r ∧
      (types.buildRangeStepCalculation stop.node start.node step).type types.platform =
        types.target ∧
      ModuloType types.platform types.target
        (types.buildRangeStepCalculation stop.node start.node step)
        (if step < 0 then start.value - |step| * q - 1 else start.value + |step| * q + 1) := by
  have hpos : 0 < |step| := abs_pos.2 hstep
  have hone : (types.platform.intType true).InRange 1 :=
    inRange_int_of_small (by norm_num) (by norm_num)
  have hstart := h.start_absorbed.moduloType
  have hstop := h.stop_absorbed.moduloType
  have hstart0 := h.start_absorbed.nonneg h.wide
  have hstop0 := h.stop_absorbed.nonneg h.wide
  have hstart_lt := h.start_lt
  have hstop_lt := h.stop_lt
  have hempty := h.empty
  have hwrapped : types.target.convert (dividend start.value stop.value step) =
      dividend start.value stop.value step + 2 ^ types.target.width := by
    refine CIntType.convert_eq_of_inRange ((CIntType.inRange_unsigned h.wide.signed).2 ?_)
      (Int.modEq_iff_dvd.2 ⟨-1, by ring⟩)
    rw [dividend] at hempty ⊢
    split <;> omega
  have hstepRange : types.target.InRange |step| :=
    (CIntType.inRange_unsigned h.wide.signed).2 ⟨abs_nonneg step, by omega⟩
  have hdiv : types.divNode = fun a b => .binary .div a b := by
    funext a b
    rw [divNode, if_pos]
    rw [h.spanningStep_eq, h.wide.signed, Bool.not_false, Bool.or_true]
  have hquotient : ∀ e, e.type types.platform = types.target →
      ModuloType types.platform types.target e (dividend start.value stop.value step) → _ :=
    fun e he hmod => ModuloType.div h.wide hmod he (literal_int h.step_inRange).1
      (literal_int h.step_inRange).2 hstepRange hpos
  rw [hwrapped] at hquotient
  set q := (dividend start.value stop.value step + 2 ^ types.target.width) / |step| with hq
  refine ⟨(dividend start.value stop.value step + 2 ^ types.target.width) % |step|, q,
    Int.emod_nonneg _ hpos.ne', Int.emod_lt_of_pos _ hpos, (Int.mul_ediv_add_emod _ _).symm, ?_⟩
  have hproduct : ∀ e, e.type types.platform = types.target →
      ModuloType types.platform types.target e (dividend start.value stop.value step) → _ :=
    fun e he hmod => ModuloType.binary h.wide .mul (by decide)
      (moduloType_literal h.step_inRange) (hquotient e he hmod).2 (.inr (hquotient e he hmod).1) rfl
  rw [LoopTypes.buildRangeStepCalculation, hdiv]
  by_cases hneg : step < 0
  · have hdifference := ModuloType.binary h.wide .sub (by decide) hstart hstop
      h.unsigned rfl
    have hdividend := ModuloType.binary h.wide .sub (by decide) hdifference.2
      (moduloType_literal hone) (.inl hdifference.1) rfl
    have hmul := hproduct _ hdividend.1 (by rw [dividend, if_pos hneg]; exact hdividend.2)
    have hmoved := ModuloType.binary h.wide .sub (by decide) hstart hmul.2
      (.inr hmul.1) rfl
    simp only [if_pos hneg]
    exact ModuloType.binary h.wide _ (by decide) hmoved.2 (moduloType_literal hone) (.inl hmoved.1) rfl
  · have hdifference := ModuloType.binary h.wide .sub (by decide) hstop hstart
      h.unsigned.symm rfl
    have hdividend := ModuloType.binary h.wide .sub (by decide) hdifference.2
      (moduloType_literal hone) (.inl hdifference.1) rfl
    have hmul := hproduct _ hdividend.1 (by rw [dividend, if_neg hneg]; exact hdividend.2)
    have hmoved := ModuloType.binary h.wide .add (by decide) hstart hmul.2
      (.inr hmul.1) rfl
    simp only [if_neg hneg]
    exact ModuloType.binary h.wide _ (by decide) hmoved.2 (moduloType_literal hone) (.inl hmoved.1) rfl

/-- A loop whose test fails at the start. -/
theorem visits_nil {loop : CLoop} {x b : ℤ} (hw : WideUnsigned p loop.type)
    (hx : ModuloType p loop.type loop.initial x) (hb : ModuloType p loop.type loop.bound b)
    (hholds : loop.relation.holds (loop.type.convert x) (loop.type.convert b) = false) :
    loop.Visits .c p [] := by
  obtain ⟨x', hx, hx'⟩ := hx.convert
  have htype : loop.testType p = loop.type := hw.common_eq (.inl rfl) hb.type (.inl rfl)
  obtain ⟨b', hb, hb'⟩ := hb.convert
  refine Counter.visits_iff.2 ⟨loop.type.convert x, Option.bind_eq_some_iff.2
    ⟨x', hx, congrArg some hx'⟩, Option.bind_eq_some_iff.2 ⟨b', hb, ?_⟩⟩
  rw [htype]
  refine congrArg some ?_
  rw [CIntType.convert_of_inRange (CIntType.inRange_convert _ x), hb']
  exact hholds

/-- The loop of a reversed range that goes up. -/
theorem loop_of_neg (bound1 bound2 : CExpression) (step : ℤ) (t : CIntType) :
    ForFromStatNode.loop p ⟨bound1, (findForFromNodeRelations true true).1,
        (findForFromNodeRelations true true).2, bound2, step⟩ t =
      ⟨t, .binary .add bound1 (.literal p 1), .le, bound2, .increment, step, false⟩ := by
  have hmoves : (!t.signed && !Relation.le.ascends) = false := Bool.and_false _
  rw [ForFromStatNode.loop]
  change (⟨t, if (!t.signed && !Relation.le.ascends) then _ else _, _,
    if (!t.signed && !Relation.le.ascends) then _ else _, _, _,
    !t.signed && !Relation.le.ascends⟩ : CLoop) = _
  rw [hmoves]
  rfl

/-- The loop of a reversed range that goes down in an unsigned type. -/
theorem loop_of_pos (bound1 bound2 : CExpression) (step : ℤ) {t : CIntType}
    (ht : t.signed = false) :
    ForFromStatNode.loop p ⟨bound1, (findForFromNodeRelations false true).1,
        (findForFromNodeRelations false true).2, bound2, step⟩ t =
      ⟨t, .binary .add (.binary .sub bound1 (.literal p 1)) (.literal p step), .ge,
        .binary .add bound2 (.literal p step), .decrement, step, true⟩ := by
  have hmoves : (!t.signed && !Relation.ge.ascends) = true := by rw [ht]; rfl
  rw [ForFromStatNode.loop]
  change (⟨t, if (!t.signed && !Relation.ge.ascends) then _ else _, _,
    if (!t.signed && !Relation.ge.ascends) then _ else _, _, _,
    !t.signed && !Relation.ge.ascends⟩ : CLoop) = _
  rw [hmoves]
  rfl

theorem convert_of_lt (h : types.WrapsBack start stop step) {v : ℤ} (hv : 0 ≤ v)
    (hlt : v < 2 ^ types.target.width) : types.target.convert v = v :=
  CIntType.convert_of_inRange ((CIntType.inRange_unsigned h.wide.signed).2 ⟨hv, hlt⟩)

/-- The initial value of a loop that goes up is past the start of the range. -/
theorem initial_of_neg (h : types.WrapsBack start stop step) (hneg : step < 0) :
    ∃ x, ModuloType types.platform types.target
        (.binary .add (types.reversedBound start stop step) (.literal types.platform 1)) x ∧
      start.value < types.target.convert x := by
  have hpos : 0 < |step| := abs_pos.2 hneg.ne
  have hone : (types.platform.intType true).InRange 1 :=
    inRange_int_of_small (by norm_num) (by norm_num)
  have hstop0 := h.stop_absorbed.nonneg h.wide
  have hstop_lt := h.stop_lt
  have hempty := h.empty
  rw [dividend, if_pos hneg] at hempty
  rw [reversedBound]
  by_cases hunit : |step| = 1
  · rw [if_pos hunit]
    refine ⟨stop.value + 1, h.stop_absorbed.binary h.wide .add (by decide) hone rfl
      ⟨by omega, by omega⟩, ?_⟩
    rw [h.convert_of_lt (by omega) (by omega)]
    omega
  · have hcomputed : ¬(start.isConstant && stop.isConstant) = true := by simpa using h.computed
    rw [if_neg hunit, if_neg hcomputed]
    obtain ⟨r, q, hr, hr', hq, htype, hmod⟩ := h.buildRangeStepCalculation hneg.ne
    rw [if_pos hneg] at hmod
    rw [dividend, if_pos hneg] at hq
    have hmoved := ModuloType.binary h.wide .add (by decide) hmod (moduloType_literal hone)
      (.inl htype) rfl
    refine ⟨_, hmoved.2, ?_⟩
    have hvalue : types.target.convert (start.value - |step| * q - 1 + 1) = stop.value + r + 1 := by
      refine CIntType.convert_eq_of_inRange ((CIntType.inRange_unsigned h.wide.signed).2
        ⟨by omega, by omega⟩) (Int.modEq_iff_dvd.2 ⟨-1, ?_⟩)
      linarith
    rw [hvalue]
    omega

/-- The initial value of a loop that goes down is not above the start of the range. -/
theorem initial_of_pos (h : types.WrapsBack start stop step) (hpos : 0 < step) :
    ∃ x, ModuloType types.platform types.target
        (.binary .add (.binary .sub (types.reversedBound start stop step)
          (.literal types.platform 1)) (.literal types.platform |step|)) x ∧
      types.target.convert x < start.value + |step| := by
  have hneg : ¬step < 0 := hpos.le.not_gt
  have habs : |step| = step := abs_of_pos hpos
  have hone : (types.platform.intType true).InRange 1 :=
    inRange_int_of_small (by norm_num) (by norm_num)
  have hstop0 := h.stop_absorbed.nonneg h.wide
  have hstop_lt := h.stop_lt
  have hempty := h.empty
  rw [dividend, if_neg hneg] at hempty
  rw [reversedBound]
  by_cases hunit : |step| = 1
  · rw [if_pos hunit]
    refine ⟨stop.value - 1 + |step|, ?_, ?_⟩
    · have hstop := h.stop_absorbed.moduloType
      rcases h.stop_absorbed with ht | ⟨ht, -, hfits⟩
      · have hlast := ModuloType.binary h.wide .sub (by decide) hstop (moduloType_literal hone)
          (.inl ht) rfl
        exact (ModuloType.binary h.wide .add (by decide) hlast.2
          (moduloType_literal h.step_inRange) (.inl hlast.1) rfl).2
      · have hminus := inRange_int_of_small (p := types.platform) (v := -1) (by norm_num)
          (by norm_num)
        have hlast := hminus.of_mem_segment hfits (v := stop.value - 1) (.inl ⟨by omega, by omega⟩)
        have hvalue := hminus.of_mem_segment hfits (v := stop.value) (.inl ⟨by omega, by omega⟩)
        have hmoved := hminus.of_mem_segment hfits (v := stop.value - 1 + |step|)
          (.inl ⟨by omega, by omega⟩)
        have hnode : stop.node.type types.platform = types.platform.intType true := ht
        obtain ⟨htype, hrun⟩ := ModuloType.run_binary_int .sub hnode
          (literal_int hone).1 (if_pos stop.inRange) (literal_int hone).2 hvalue hone rfl hlast
        obtain ⟨htype', hrun'⟩ := ModuloType.run_binary_int .add htype
          (literal_int h.step_inRange).1 hrun (literal_int h.step_inRange).2 hlast
          h.step_inRange rfl hmoved
        exact .inr ⟨htype', hrun', hmoved⟩
    · rw [h.convert_of_lt (by omega) (by omega)]
      omega
  · have hcomputed : ¬(start.isConstant && stop.isConstant) = true := by simpa using h.computed
    rw [if_neg hunit, if_neg hcomputed]
    obtain ⟨r, q, hr, hr', hq, htype, hmod⟩ := h.buildRangeStepCalculation hpos.ne'
    rw [if_neg hneg] at hmod
    rw [dividend, if_neg hneg] at hq
    have hlast := ModuloType.binary h.wide .sub (by decide) hmod (moduloType_literal hone)
      (.inl htype) rfl
    have hmoved := ModuloType.binary h.wide .add (by decide) hlast.2
      (moduloType_literal h.step_inRange) (.inl hlast.1) rfl
    refine ⟨_, hmoved.2, ?_⟩
    have hvalue : types.target.convert (start.value + |step| * q + 1 - 1 + |step|) =
        stop.value - 1 - r + |step| := by
      refine CIntType.convert_eq_of_inRange ((CIntType.inRange_unsigned h.wide.signed).2
        ⟨by omega, by omega⟩) (Int.modEq_iff_dvd.2 ⟨1, ?_⟩)
      linarith
    rw [hvalue]
    omega

/-- The loop of an empty range that wraps back has no values. -/
theorem loop_visits_nil (h : types.WrapsBack start stop step) (hstep : step ≠ 0) :
    CLoop.Visits .c types.platform (ForFromStatNode.loop types.platform
      ⟨types.reversedBound start stop step,
        (findForFromNodeRelations (decide (step < 0)) true).1,
        (findForFromNodeRelations (decide (step < 0)) true).2, start.node, |step|⟩
      types.target) [] := by
  have hstart0 := h.start_absorbed.nonneg h.wide
  have hstart_lt := h.start_lt
  rcases lt_or_gt_of_ne hstep with hneg | hpos
  · obtain ⟨x, hx, hlt⟩ := h.initial_of_neg hneg
    rw [decide_eq_true hneg, loop_of_neg]
    refine visits_nil h.wide hx h.start_absorbed.moduloType ?_
    rw [h.convert_of_lt hstart0 (by have := abs_nonneg step; omega)]
    exact decide_eq_false hlt.not_ge
  · obtain ⟨x, hx, hlt⟩ := h.initial_of_pos hpos
    rw [decide_eq_false hpos.le.not_gt, loop_of_pos _ _ _ h.wide.signed]
    have hbound := h.start_absorbed.binary h.wide .add (by decide) h.step_inRange rfl
      ⟨by have := abs_nonneg step; omega, le_rfl⟩
    refine visits_nil h.wide hx hbound ?_
    rw [h.convert_of_lt (by have := abs_nonneg step; omega) h.start_lt]
    exact decide_eq_false hlt.not_ge

end LoopTypes.WrapsBack

/-! ## Loops over arrays -/

/-- A slice with a step in `reversed`: its step has been negated, and the relations are swapped. -/
def CarraySequence.TurnsTwice : CarraySequence → Bool → Prop
  | subscript start stop (some _), reversed => reversed = true ∧ stop ≠ some (start.getD 0)
  | _, _ => False

/-- A loop without limits that counts to `n`. -/
theorem steps_progression {c : Counter} {test : ℤ → Bool} {d : ℤ}
    (htest : ∀ i, c.test i = some (test i)) (hnext : ∀ i, c.next i = some (i + d))
    (hmoves : c.movesFirst = false) {n : ℕ} : ∀ {x : ℤ},
    (∀ k : ℕ, test (x + k * d) = true ↔ k < n) → c.Steps x (progression x d n) := by
  induction n with
  | zero =>
    intro x h
    have hx := (h 0).not.2 (lt_irrefl 0)
    rw [Nat.cast_zero, zero_mul, add_zero, Bool.not_eq_true] at hx
    exact (htest x).trans (congrArg some hx)
  | succ n ih =>
    intro x h
    have hx := (h 0).2 n.succ_pos
    rw [Nat.cast_zero, zero_mul, add_zero] at hx
    rw [progression_succ]
    refine ⟨(htest x).trans (congrArg some hx), x + d, hnext x, by rw [hmoves]; rfl,
      ih fun k => ?_⟩
    rw [← Nat.succ_lt_succ_iff, ← h (k + 1), Nat.cast_succ, add_one_mul, add_right_comm, ← add_assoc]

/-- What a loop over pointers counts through. -/
theorem CarrayLoop.visits_iff {bound1 bound2 : ℤ} {negStep reversed : Bool} {step : Option ℤ}
    (hstep : 0 < step.getD 1) {values : List ℤ} :
    (CarrayLoop.counter ⟨bound1, (findForFromNodeRelations negStep reversed).1,
        (findForFromNodeRelations negStep reversed).2, bound2, step⟩).Visits values ↔
      values = progression (bound1 + offsetOf negStep reversed)
        (if negStep = reversed then step.getD 1 else -step.getD 1)
        (rangeLength (bound1 + offsetOf negStep reversed) (bound2 + offsetOf negStep reversed)
          (if negStep = reversed then step.getD 1 else -step.getD 1)) := by
  have hvisits : (CarrayLoop.counter ⟨bound1, (findForFromNodeRelations negStep reversed).1,
        (findForFromNodeRelations negStep reversed).2, bound2, step⟩).Visits
      (progression (bound1 + offsetOf negStep reversed)
        (if negStep = reversed then step.getD 1 else -step.getD 1)
        (rangeLength (bound1 + offsetOf negStep reversed) (bound2 + offsetOf negStep reversed)
          (if negStep = reversed then step.getD 1 else -step.getD 1))) := by
    refine Counter.visits_iff.2 ⟨bound1 + offsetOf negStep reversed, ?_,
      steps_progression (fun i => rfl) (fun i => ?_) rfl fun k => ?_⟩
    · cases negStep <;> cases reversed <;> rfl
    · cases negStep <;> cases reversed <;> rfl
    · cases negStep <;> cases reversed
      · rw [if_pos rfl, lt_rangeLength_iff _ _ hstep]
        exact decide_eq_true_iff.trans (by rw [show bound2 + offsetOf false false = bound2 from
          add_zero bound2])
      · rw [if_neg Bool.false_ne_true, lt_rangeLength_iff_of_neg _ _ (neg_neg_of_pos hstep)]
        exact decide_eq_true_iff.trans Int.sub_one_lt_iff.symm
      · rw [if_neg Bool.false_ne_true.symm,
          lt_rangeLength_iff_of_neg _ _ (neg_neg_of_pos hstep)]
        exact decide_eq_true_iff.trans (by rw [show bound2 + offsetOf true false = bound2 from
          add_zero bound2])
      · rw [if_pos rfl, lt_rangeLength_iff _ _ hstep]
        exact decide_eq_true_iff.trans Int.lt_add_one_iff.symm
  exact ⟨fun h => h.unique hvisits, fun h => h ▸ hvisits⟩

/-- The values of a range, reversed or not. -/
def order (reversed : Bool) (values : List ℤ) : List ℤ := if reversed then values.reverse else values

/-- A slice without a step, reversed or not. -/
theorem visits_of_no_step {start stop : ℤ} {reversed : Bool} {values : List ℤ}
    (hvalues : pyRange start stop 1 = some values) :
    (CarrayLoop.counter ⟨if reversed then stop else start,
        (findForFromNodeRelations false reversed).1, (findForFromNodeRelations false reversed).2,
        if reversed then start else stop, none⟩).Visits (order reversed values) := by
  rw [pyRange_eq_progression one_ne_zero, Option.some.injEq] at hvalues
  subst hvalues
  refine (CarrayLoop.visits_iff one_pos).2 ?_
  cases reversed with
  | false =>
    have hzero (x : ℤ) : x + offsetOf false false = x := add_zero x
    simp only [Bool.false_eq_true, if_false, hzero, if_true, order, Option.getD_none]
  | true =>
    have hreverse := @reverse_range start stop 1 one_ne_zero
    have hlast : start + 1 * (dividend start stop 1 / |1|) = stop + offsetOf false true := by
      rw [abs_one, Int.ediv_one, one_mul, dividend, if_neg (by decide),
        show offsetOf false true = -1 from rfl]
      ring
    rw [hlast] at hreverse
    exact hreverse

/-- A slice with a step, which is not reversed. -/
theorem visits_of_step {start stop v : ℤ} (hv : v ≠ 0) {values : List ℤ}
    (hvalues : pyRange start stop v = some values) :
    (CarrayLoop.counter ⟨start, (findForFromNodeRelations (decide (v < 0)) false).1,
        (findForFromNodeRelations (decide (v < 0)) false).2, stop, some |v|⟩).Visits values := by
  rw [pyRange_eq_progression hv, Option.some.injEq] at hvalues
  subst hvalues
  have hstep : 0 < (some |v|).getD 1 := abs_pos.2 hv
  refine (CarrayLoop.visits_iff hstep).2 ?_
  have hzero (x : ℤ) : x + offsetOf (decide (v < 0)) false = x := add_zero x
  rw [hzero, hzero]
  rcases lt_or_gt_of_ne hv with hneg | hpos
  · rw [decide_eq_true hneg, if_neg Bool.false_ne_true.symm, Option.getD_some, abs_of_neg hneg,
      neg_neg]
  · rw [decide_eq_false hpos.le.not_gt, if_pos rfl, Option.getD_some, abs_of_pos hpos]

/-- A reversed slice with a step, whose step and relations are turned: nothing, or the wrong
    values, unless the slice starts where it stops. -/
theorem visits_turned_iff {start stop v : ℤ} (hv : v ≠ 0) {values : List ℤ}
    (hvalues : pyRange start stop v = some values) :
    (CarrayLoop.counter ⟨stop, (findForFromNodeRelations (decide (-v < 0)) true).1,
        (findForFromNodeRelations (decide (-v < 0)) true).2, start, some |-v|⟩).Visits
        values.reverse ↔ stop = start := by
  rw [pyRange_eq_progression hv, Option.some.injEq] at hvalues
  subst hvalues
  have hstep : 0 < (some |-v|).getD 1 := abs_pos.2 (neg_ne_zero.2 hv)
  rw [CarrayLoop.visits_iff hstep, Option.getD_some, abs_neg]
  have hlength {a d : ℤ} {n : ℕ} (hn : n = 0 ↔ rangeLength start stop v ≠ 0) :
      (progression start v (rangeLength start stop v)).reverse ≠ progression a d n := by
    intro heq
    have hlength := congrArg List.length heq
    rw [List.length_reverse, length_progression, length_progression] at hlength
    rw [← hlength] at hn
    exact (iff_not_self hn)
  rcases lt_or_gt_of_ne hv with hneg | hpos
  · have hle : ¬-v < 0 := by omega
    rw [decide_eq_false hle, if_neg Bool.false_ne_true, abs_of_neg hneg, neg_neg,
      show offsetOf false true = -1 from rfl]
    have hempty (a b : ℤ) : rangeLength a b v = 0 ↔ a ≤ b := by
      rw [← not_iff_not, ← ne_eq, ← Nat.pos_iff_ne_zero, lt_rangeLength_iff_of_neg _ _ hneg]
      simp
    constructor
    · intro heq
      by_contra hne
      refine hlength ?_ heq
      rw [ne_eq, hempty, hempty]
      omega
    · rintro rfl
      rw [(hempty stop stop).2 le_rfl, (hempty (stop + -1) (stop + -1)).2 le_rfl]
      rfl
  · have hlt : -v < 0 := by omega
    rw [decide_eq_true hlt, if_pos rfl, abs_of_pos hpos, show offsetOf true true = 1 from rfl]
    have hempty (a b : ℤ) : rangeLength a b v = 0 ↔ b ≤ a := by
      rw [← not_iff_not, ← ne_eq, ← Nat.pos_iff_ne_zero, lt_rangeLength_iff _ _ hpos]
      simp
    constructor
    · intro heq
      by_contra hne
      refine hlength ?_ heq
      rw [ne_eq, hempty, hempty]
      omega
    · rintro rfl
      rw [(hempty stop stop).2 le_rfl, (hempty (stop + 1) (stop + 1)).2 le_rfl]
      rfl

/-- The loop over a slice or an array visits its indices, unless it is turned twice. -/
theorem carray_visits_iff {sequence : CarraySequence} {reversed : Bool} {loop : CarrayLoop}
    {values : List ℤ} (h : transformCarrayIteration sequence reversed = some loop)
    (hvalues : sequence.indices = some values) :
    loop.counter.Visits (order reversed values) ↔ ¬sequence.TurnsTwice reversed := by
  cases sequence with
  | sliceIndex start stop =>
    obtain ⟨stop, rfl, hvalues⟩ := Option.bind_eq_some_iff.1 hvalues
    obtain rfl := Option.some.inj h
    exact iff_of_true (visits_of_no_step hvalues) id
  | array size =>
    obtain rfl := Option.some.inj h
    exact iff_of_true (visits_of_no_step hvalues) id
  | subscript start stop step =>
    cases step with
    | none =>
      obtain ⟨stop, rfl, hvalues⟩ := Option.bind_eq_some_iff.1 hvalues
      obtain rfl := Option.some.inj h
      exact iff_of_true (visits_of_no_step hvalues) id
    | some step =>
      obtain ⟨v, rfl, hvalues⟩ := Option.bind_eq_some_iff.1 hvalues
      rw [transformCarrayIteration, Option.bind_some] at h
      by_cases hrefused : v = 0 ∨ 0 < v ∧ stop = none ∨ v < 0 ∧ start = none
      · rw [if_pos hrefused] at h
        cases h
      rw [if_neg hrefused] at h
      rw [not_or, not_or] at hrefused
      obtain ⟨hv, hstop, -⟩ := hrefused
      cases reversed with
      | false =>
        refine iff_of_true ?_ fun hturns => Bool.false_ne_true hturns.1
        cases stop with
        | some stop =>
          obtain rfl := Option.some.inj h
          exact visits_of_step hv hvalues
        | none =>
          have hneg : v < 0 := lt_of_le_of_ne (not_lt.1 fun hpos => hstop ⟨hpos, rfl⟩) hv
          rw [if_neg Bool.false_ne_true, carrayLoop, Option.any_some, decide_eq_true hneg] at h
          obtain rfl := Option.some.inj h
          have hvisits := visits_of_step hv hvalues
          rwa [decide_eq_true hneg] at hvisits
      | true =>
        cases stop with
        | none =>
          have hneg : v < 0 := lt_of_le_of_ne (not_lt.1 fun hpos => hstop ⟨hpos, rfl⟩) hv
          rw [if_pos rfl, carrayLoop, Option.any_some,
            decide_eq_false (by omega : ¬-v < 0)] at h
          cases h
        | some stop =>
          obtain rfl := Option.some.inj h
          refine (visits_turned_iff hv hvalues).trans ⟨fun heq hturns => ?_, fun hturns => ?_⟩
          · exact hturns.2 (congrArg some heq)
          · by_contra hne
            exact hturns ⟨rfl, fun heq => hne (Option.some.inj heq)⟩

/-! ## Main results -/

/-- The loop fits the types that it is computed in and its bound is rounded down, or it wraps
    back. -/
def LoopTypes.Agrees (types : LoopTypes) (args : RangeArgs) (reversed : Bool)
    (node : ForFromStatNode) (values : List ℤ) : Prop :=
  (node.loop types.platform types.target).Fits types.platform values.length ∧
      types.Rounds args reversed ∨
    reversed = true ∧ ∀ step, args.step = some step →
      types.WrapsBack (args.start types.platform) args.stop step

theorem LoopTypes.visits_of_wrapsBack {types : LoopTypes} {args : RangeArgs}
    {node : ForFromStatNode} {values : List ℤ}
    (h : types.transformRangeIteration args true = some node)
    (hvalues : args.values true = some values)
    (hwraps : ∀ step, args.step = some step →
      types.WrapsBack (args.start types.platform) args.stop step) :
    (node.loop types.platform types.target).Visits .c types.platform values := by
  obtain ⟨step, hargs, h⟩ := Option.bind_eq_some_iff.1 h
  have hwrap := hwraps step hargs
  by_cases hstep : step = 0
  · rw [if_pos hstep] at h
    cases h
  rw [if_neg hstep] at h
  obtain rfl := Option.some.inj h
  have hempty := (rangeLength_eq_zero_iff hstep).2 hwrap.empty
  rw [value_start] at hempty
  rw [RangeArgs.values, hargs, Option.bind_some, pyRange_eq_progression hstep, hempty] at hvalues
  obtain rfl := Option.some.inj hvalues
  exact hwrap.loop_visits_nil hstep

/-- The loops that the transforms build visit the values of Python: those over ranges if they fit
    and round down, or wrap back, and with signed types in no other case; those over arrays
    exactly if they are not turned twice. -/
theorem transforms_visit (types : LoopTypes) :
    (∀ args reversed node values, types.transformRangeIteration args reversed = some node →
      args.values reversed = some values →
      (types.Agrees args reversed node values →
        (node.loop types.platform types.target).Visits .c types.platform values) ∧
      ((node.loop types.platform types.target).Signed types.platform →
        (node.loop types.platform types.target).Visits .c types.platform values →
          types.Agrees args reversed node values)) ∧
    ∀ sequence reversed loop values, transformCarrayIteration sequence reversed = some loop →
      sequence.indices = some values →
      (loop.counter.Visits (order reversed values) ↔ ¬sequence.TurnsTwice reversed) := by
  refine ⟨fun args reversed node values h hvalues => ⟨?_, fun hsigned hvisits => ?_⟩,
    fun sequence reversed loop values h hvalues => carray_visits_iff h hvalues⟩
  · rintro (⟨hfits, hrounds⟩ | ⟨rfl, hwraps⟩)
    · exact LoopTypes.visits_of_fits h hvalues hfits hrounds
    · exact LoopTypes.visits_of_wrapsBack h hvalues hwraps
  · exact .inl ((LoopTypes.visits_iff_of_signed h hvalues hsigned).1 hvisits)

/-- An `int` variable. -/
def intBound (v : ℤ) (h : CIntType.int.InRange v) : Bound := ⟨CIntType.int, v, false, h⟩

/-- Loops with a target of type `int`. -/
def intLoops (cdivision : Bool) : LoopTypes :=
  ⟨CPlatform.lp64, CIntType.int, CIntType.int, cdivision⟩

/-- `range(start, stop, 2)` of two `int` variables. -/
def everySecond (start stop : ℤ) (hstart : CIntType.int.InRange start)
    (hstop : CIntType.int.InRange stop) : RangeArgs :=
  .three (intBound start hstart) (intBound stop hstop) (some 2)

/-- `reversed(range(0, 5, 2))` without `cdivision`, and an array. -/
theorem transforms_visit_everySecond :
    (∃ node, (intLoops false).transformRangeIteration (everySecond 0 5 (by decide) (by decide)) true =
        some node ∧
      (node.loop CPlatform.lp64 CIntType.int).Visits .c CPlatform.lp64 [4, 2, 0]) ∧
    ∃ loop, transformCarrayIteration (.array 3) true = some loop ∧
      loop.counter.Visits [2, 1, 0] := by
  refine ⟨⟨_, rfl, ?_⟩, ⟨_, rfl, ?_⟩⟩
  · have hagrees := (transforms_visit (intLoops false)).1
      (everySecond 0 5 (by decide) (by decide)) true _ [4, 2, 0] rfl (by decide)
    refine hagrees.1 (.inl ⟨⟨4, 0, by decide, by decide, by decide, by decide, by decide,
      by decide⟩, fun _ step hstep htruncates => ?_⟩)
    obtain rfl := Option.some.inj hstep
    exact absurd htruncates (by decide)
  · exact ((transforms_visit (intLoops false)).2 (.array 3) true _ [0, 1, 2] rfl (by decide)).2 id

/-- With `cdivision`, an empty range that is reversed has a value; and a reversed slice with a
    step has none. -/
theorem not_transforms_visit :
    (¬∀ types args reversed node values,
      LoopTypes.transformRangeIteration types args reversed = some node →
      args.values reversed = some values →
      (node.loop types.platform types.target).Visits .c types.platform values) ∧
    ¬∀ sequence reversed loop values, transformCarrayIteration sequence reversed = some loop →
      sequence.indices = some values → loop.counter.Visits (order reversed values) := by
  refine ⟨fun h => ?_, fun h => ?_⟩
  · have hnone := h (intLoops true) (everySecond 5 5 (by decide) (by decide)) true _ [] rfl
      (by decide)
    have hfive : ([] : List ℤ) = [5] := Counter.Visits.unique hnone ⟨5, by decide, 2, by decide⟩
    exact List.cons_ne_nil 5 [] hfive.symm
  · have hthree := h (.subscript (some 0) (some 6) (some (some 2))) true _ [0, 2, 4] rfl (by decide)
    have hnone : order true [0, 2, 4] = [] := Counter.Visits.unique hthree ⟨7, rfl, 1, rfl⟩
    exact List.cons_ne_nil 4 [2, 0] hnone

end Optimize

end AHPy
