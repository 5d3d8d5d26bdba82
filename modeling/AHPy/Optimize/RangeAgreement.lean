import AHPy.Optimize.LoopAgreement

/-!
# Loops over ranges and the values of Python

A loop that fits its types counts from a first value to a bound. For a reversed range the first
value is found by a division: it is the last value of the range if the quotient is rounded down.

* `counts_loop`: what the loop of a for-from statement counts through;
* `LoopTypes.visits_fitting_iff`: when the loop of a range that fits has its values.
-/

namespace AHPy

open ModuleWriter (progression progression_zero progression_succ length_progression)

namespace Optimize

open ModuleWriter (Relation IncOp relationTable findForFromNodeRelations reversedBound1 pyRange
  rangeLength lt_rangeLength_iff lt_rangeLength_iff_of_neg pyRange_eq_progression
  reverse_range_of_pos reverse_range_of_neg reversedBound1_eq)

variable {p : CPlatform}

/-! ## The bound of a reversed range -/

/-- What is divided for the bound of a reversed range. -/
def dividend (start stop step : ℤ) : ℤ := if step < 0 then start - stop - 1 else stop - start - 1

namespace LoopTypes

variable (types : LoopTypes) (start stop : Bound) (step : ℤ)

/-- The quotient in the bound is computed by the emitted code, and rounded towards zero. -/
def Truncates : Prop :=
  |step| ≠ 1 ∧ ¬(start.isConstant ∧ stop.isConstant) ∧
    (types.cdivision ∨ types.spanningStep.signed = false)

instance : Decidable (types.Truncates start stop step) := inferInstanceAs (Decidable (_ ∧ _))

/-- The quotient in the bound of a reversed range. -/
def quotient : ℤ :=
  if types.Truncates start stop step then
    (dividend start.value stop.value step).tdiv |step|
  else dividend start.value stop.value step / |step|

end LoopTypes

theorem LoopTypes.quotient_of_not {types : LoopTypes} {start stop : Bound} {step : ℤ}
    (h : ¬types.Truncates start stop step) :
    types.quotient start stop step = dividend start.value stop.value step / |step| := if_neg h

theorem means_divInt {t : CIntType} {a b : CExpression} {x y : ℤ}
    (ha : a.Means p x) (hb : b.Means p y) (hy : 0 < y) :
    (CExpression.call t (CMath.divInt p t true) a b).Means p (x / y) := by
  intro v hv
  obtain ⟨x', y', x'', y'', hx, hy', hxt, hyt, hdiv⟩ := CExpression.run_call_eq_some.1 hv
  obtain ⟨hxr, rfl⟩ := Arithmetic.fit_eq_some.1 hxt
  obtain ⟨hyr, rfl⟩ := Arithmetic.fit_eq_some.1 hyt
  obtain rfl := ha x' hx
  obtain rfl := hb y' hy'
  have hquotient := CMath.inRange_tdiv hxr hyr hy.ne' (fun h => by omega)
  rw [CMath.divInt_eq true hxr hyr hy.ne' hquotient] at hdiv
  rw [← Option.some.inj hdiv, Int.fdiv_eq_ediv_of_nonneg x' hy.le]

namespace LoopTypes

variable {types : LoopTypes} {start stop : Bound} {step : ℤ}

/-- The bound that the emitted code computes. -/
theorem means_buildRangeStepCalculation (hstep : step ≠ 0) (hone : |step| ≠ 1)
    (hconstant : ¬(start.isConstant ∧ stop.isConstant)) :
    (types.buildRangeStepCalculation stop.node start.node step).Means types.platform
      (if step < 0 then start.value - |step| * types.quotient start stop step - 1
        else start.value + |step| * types.quotient start stop step + 1) := by
  have hpos : 0 < |step| := abs_pos.2 hstep
  have hstart := CExpression.means_value (p := types.platform) start.type start.value
  have hstop := CExpression.means_value (p := types.platform) stop.type stop.value
  have hliteral := fun v => CExpression.means_literal (p := types.platform) v
  have hquotient : ∀ e, e.Means types.platform (dividend start.value stop.value step) →
      (types.divNode e (.literal types.platform |step|)).Means types.platform
        (types.quotient start stop step) := by
    intro e he
    rw [divNode, quotient]
    by_cases hdivision : types.cdivision = true ∨ types.spanningStep.signed = false
    · have hif : (types.cdivision || !types.spanningStep.signed) = true := by simpa using hdivision
      rw [if_pos hif, if_pos ⟨hone, hconstant, hdivision⟩]
      exact he.binary .div (hliteral _) (if_neg hpos.ne')
    · have hif : ¬(types.cdivision || !types.spanningStep.signed) = true := by simpa using hdivision
      rw [if_neg hif, if_neg fun h => hdivision h.2.2]
      exact means_divInt he (hliteral _) hpos
  rw [buildRangeStepCalculation]
  by_cases hneg : step < 0
  · have hdividend := (hstart.binary .sub hstop rfl).binary .sub (hliteral 1) rfl
    have hq := hquotient _ (by rwa [dividend, if_pos hneg])
    simp only [if_pos hneg]
    exact (hstart.binary .sub ((hliteral _).binary .mul hq rfl) rfl).binary .sub (hliteral 1) rfl
  · have hdividend := (hstop.binary .sub hstart rfl).binary .sub (hliteral 1) rfl
    have hq := hquotient _ (by rwa [dividend, if_neg hneg])
    simp only [if_neg hneg]
    exact (hstart.binary .add ((hliteral _).binary .mul hq rfl) rfl).binary .add (hliteral 1) rfl

variable (types start stop) in
/-- The bound of a reversed range: a step before the last value would be the next one. -/
theorem means_reversedBound (hstep : step ≠ 0) :
    (types.reversedBound start stop step).Means types.platform
      (if step < 0 then start.value - |step| * types.quotient start stop step - 1
        else start.value + |step| * types.quotient start stop step + 1) := by
  rw [reversedBound]
  by_cases hone : |step| = 1
  · rw [if_pos hone, quotient_of_not fun h => h.1 hone, hone, Int.ediv_one, one_mul]
    have hvalue : (if step < 0 then start.value - dividend start.value stop.value step - 1
        else start.value + dividend start.value stop.value step + 1) = stop.value := by
      rw [dividend]
      split <;> ring
    rw [hvalue]
    exact CExpression.means_value stop.type stop.value
  rw [if_neg hone]
  by_cases hconstant : start.isConstant ∧ stop.isConstant
  · have hif : (start.isConstant && stop.isConstant) = true := by simpa using hconstant
    rw [if_pos hif, quotient_of_not fun h => h.2.1 hconstant, reversedBound1_eq, dividend]
    by_cases hneg : step < 0
    · simp only [if_pos hneg, abs_of_neg hneg]
      exact CExpression.means_literal _
    · simp only [if_neg hneg, abs_of_nonneg (not_lt.1 hneg)]
      exact CExpression.means_literal _
  · have hif : ¬(start.isConstant && stop.isConstant) = true := by simpa using hconstant
    rw [if_neg hif]
    exact means_buildRangeStepCalculation hstep hone hconstant

end LoopTypes

/-! ## The values of a loop -/

namespace CLoop

/-- The loop counts from `first` by `step` and stops before `past`. -/
structure Counts (p : CPlatform) (loop : CLoop) (first past step : ℤ) : Prop where
  delta : loop.delta = step
  initial : loop.initial.Means p (if loop.movesFirst then first - step else first)
  holds : ∀ b, loop.bound.run .fitting p = some b → ∀ k : ℕ,
    loop.relation.holds ((if loop.movesFirst then first - step else first) + k * step) b = true ↔
      k < rangeLength first past step

/-- A loop that counts has the values of a range, if it fits. -/
theorem Counts.visits_iff {loop : CLoop} {first past step : ℤ}
    (h : loop.Counts p first past step) {values : List ℤ} :
    loop.Visits .fitting p values ↔
      loop.Fits p values.length ∧ values = progression first step (rangeLength first past step) := by
  have hfirst : loop.first (if loop.movesFirst then first - step else first) = first := by
    rw [CLoop.first, h.delta]
    split
    · exact sub_add_cancel first step
    · rfl
  rw [visits_fitting_iff]
  constructor
  · rintro ⟨x, b, hx, hfits, ⟨hpass, hend⟩, hvalues⟩
    obtain rfl := h.initial x hx
    rw [hfirst, h.delta] at hvalues
    have hlength : values.length = rangeLength first past step := by
      refine le_antisymm (Nat.le_of_not_lt fun hlt => ?_) (Nat.le_of_not_lt fun hlt => ?_)
      · have hholds := hpass _ hlt
        rw [h.delta] at hholds
        exact lt_irrefl _ ((h.holds b hfits.bound _).1 hholds)
      · have hholds := (h.holds b hfits.bound _).2 hlt
        rw [h.delta, hholds] at hend
        cases hend
    exact ⟨⟨_, b, hx, hfits⟩, hlength ▸ hvalues⟩
  · rintro ⟨⟨x, b, hx, hfits⟩, hvalues⟩
    obtain rfl := h.initial x hx
    have hlength : values.length = rangeLength first past step := by
      rw [hvalues, length_progression]
    refine ⟨_, b, hx, hfits, ⟨fun k hk => ?_, ?_⟩, ?_⟩
    · rw [h.delta]
      exact (h.holds b hfits.bound k).2 (hlength ▸ hk)
    · rw [← Bool.not_eq_true, h.delta, h.holds b hfits.bound, hlength]
      exact lt_irrefl _
    · rw [hfirst, h.delta, hlength]
      exact hvalues

end CLoop

/-- Where the loop of a for-from statement starts. -/
def offsetOf (negStep reversed : Bool) : ℤ := if reversed then (if negStep then 1 else -1) else 0

theorem Relation.holds_sub (r : Relation) (a b d : ℤ) : r.holds (a - d) (b - d) = r.holds a b := by
  cases r <;> exact decide_eq_decide.2 (by omega)

/-- A loop is the same if the variable and the bound are moved by the same. -/
theorem counts_of_means {loop : CLoop} {first bound past step : ℤ} (hdelta : loop.delta = step)
    (hinitial : loop.initial.Means p (if loop.movesFirst then first - step else first))
    (hbound : loop.bound.Means p (if loop.movesFirst then bound - step else bound))
    (hholds : ∀ k : ℕ, loop.relation.holds (first + k * step) bound = true ↔
      k < rangeLength first past step) :
    loop.Counts p first past step := by
  refine ⟨hdelta, hinitial, fun b hb k => ?_⟩
  rw [hbound b hb, ← hholds k]
  split
  · rw [sub_add_eq_add_sub, Relation.holds_sub]
  · rfl

/-- A value that is moved up if the variable moves first. -/
theorem means_moved {e : CExpression} {x : ℤ} (h : e.Means p x) (movesFirst : Bool) (step : ℤ) :
    CExpression.Means p (if movesFirst then .binary .add e (.literal p step) else e)
      (if movesFirst then x - -step else x) := by
  split
  · exact h.binary .add (CExpression.means_literal step) (congrArg some (sub_neg_eq_add x step).symm)
  · exact h

theorem means_still {e e' : CExpression} {x y : ℤ} {movesFirst : Bool} (h : movesFirst = false)
    (he : e.Means p x) :
    CExpression.Means p (if movesFirst then e' else e) (if movesFirst then y else x) := by
  rw [if_neg (Bool.eq_false_iff.1 h), if_neg (Bool.eq_false_iff.1 h)]
  exact he

/-- The emitted loop counts from the first bound to the second one. -/
theorem counts_loop (negStep reversed : Bool) {bound1 bound2 : CExpression} {x₁ x₂ step : ℤ}
    (h₁ : bound1.Means p x₁) (h₂ : bound2.Means p x₂) (hstep : 0 < step) (type : CIntType) :
    CLoop.Counts p (ForFromStatNode.loop p ⟨bound1,
        (findForFromNodeRelations negStep reversed).1,
        (findForFromNodeRelations negStep reversed).2, bound2, step⟩ type)
      (x₁ + offsetOf negStep reversed) (x₂ + offsetOf negStep reversed)
      (if negStep = reversed then step else -step) := by
  have hone := CExpression.means_literal (p := p) 1
  -- A loop that goes up never moves its variable first.
  have hup : (!type.signed && false) = false := Bool.and_false _
  cases negStep <;> cases reversed
  · have hzero (x : ℤ) : x + offsetOf false false = x := add_zero x
    rw [hzero, hzero]
    refine counts_of_means rfl (means_still hup h₁) (means_still hup h₂) fun k => ?_
    rw [if_pos rfl, lt_rangeLength_iff _ _ hstep]
    exact decide_eq_true_iff
  · refine counts_of_means rfl (means_moved (h₁.binary .sub hone rfl) _ step) (means_moved h₂ _ step)
      fun k => ?_
    rw [if_neg Bool.false_ne_true, lt_rangeLength_iff_of_neg _ _ (neg_neg_of_pos hstep)]
    exact decide_eq_true_iff.trans Int.sub_one_lt_iff.symm
  · have hzero (x : ℤ) : x + offsetOf true false = x := add_zero x
    rw [hzero, hzero]
    refine counts_of_means rfl (means_moved h₁ _ step) (means_moved h₂ _ step) fun k => ?_
    rw [if_neg Bool.false_ne_true.symm, lt_rangeLength_iff_of_neg _ _ (neg_neg_of_pos hstep)]
    exact decide_eq_true_iff
  · refine counts_of_means rfl (means_still hup (h₁.binary .add hone rfl)) (means_still hup h₂)
      fun k => ?_
    rw [if_pos rfl, lt_rangeLength_iff _ _ hstep]
    exact decide_eq_true_iff.trans Int.lt_add_one_iff.symm

/-! ## Loops over `range` -/

/-- The bound of a reversed range that is empty is computed by the emitted code and rounded
    towards zero, and the range is not empty by less than a step. -/
def LoopTypes.RoundsDown (types : LoopTypes) (start stop : Bound) (step : ℤ) : Prop :=
  types.Truncates start stop step → dividend start.value stop.value step < 0 →
    |step| ≤ -dividend start.value stop.value step

theorem tdiv_neg_iff {d s : ℤ} (hd : d < 0) (hs : 0 < s) : d.tdiv s < 0 ↔ s ≤ -d := by
  have hneg : d.tdiv s = -(-d / s) := by
    rw [← Int.tdiv_eq_ediv_of_nonneg (by omega), Int.neg_tdiv, neg_neg]
  have hle : 1 ≤ -d / s ↔ 1 * s ≤ -d := Int.le_ediv_iff_mul_le hs
  rw [one_mul] at hle
  rw [hneg, ← hle]
  omega

/-- The length of a range as the bound of the reversed one divides it. -/
theorem rangeLength_eq_zero_iff {start stop step : ℤ} (hstep : step ≠ 0) :
    rangeLength start stop step = 0 ↔ dividend start stop step < 0 := by
  rw [← not_iff_not, ← ne_eq, ← Nat.pos_iff_ne_zero, dividend]
  rcases lt_or_gt_of_ne hstep with hneg | hpos
  · rw [lt_rangeLength_iff_of_neg _ _ hneg, if_pos hneg]
    omega
  · rw [lt_rangeLength_iff _ _ hpos, if_neg hpos.le.not_gt]
    omega

/-- The range with the values of a reversed one. -/
theorem reverse_range {start stop step : ℤ} (hstep : step ≠ 0) :
    (progression start step (rangeLength start stop step)).reverse =
      progression (start + step * (dividend start stop step / |step|)) (-step)
        (rangeLength (start + step * (dividend start stop step / |step|))
          (start + offsetOf (decide (step < 0)) true) (-step)) := by
  rw [dividend, offsetOf, if_pos rfl]
  rcases lt_or_gt_of_ne hstep with hneg | hpos
  · rw [reverse_range_of_neg _ _ hneg, if_pos hneg, abs_of_neg hneg, decide_eq_true hneg,
      if_pos rfl, neg_mul, sub_neg_eq_add]
  · have hle : ¬step < 0 := hpos.le.not_gt
    rw [reverse_range_of_pos _ _ hpos, if_neg hle, abs_of_pos hpos, decide_eq_false hle,
      if_neg Bool.false_ne_true]
    rfl

/-- When the loop counts through the reversed range. -/
theorem reverse_range_iff (types : LoopTypes) (start stop : Bound) {step : ℤ} (hstep : step ≠ 0) :
    (progression start.value step (rangeLength start.value stop.value step)).reverse =
        progression (start.value + step * types.quotient start stop step) (-step)
          (rangeLength (start.value + step * types.quotient start stop step)
            (start.value + offsetOf (decide (step < 0)) true) (-step)) ↔
      types.RoundsDown start stop step := by
  have hpos : 0 < |step| := abs_pos.2 hstep
  by_cases htruncates : types.Truncates start stop step
  · rcases lt_or_ge (dividend start.value stop.value step) 0 with hempty | hnonneg
    · have hrounds : types.RoundsDown start stop step ↔ types.quotient start stop step < 0 := by
        rw [LoopTypes.quotient, if_pos htruncates, tdiv_neg_iff hempty hpos]
        exact ⟨fun h => h htruncates hempty, fun h _ _ => h⟩
      rw [(rangeLength_eq_zero_iff hstep).2 hempty, progression_zero, List.reverse_nil, hrounds,
        eq_comm, ← List.length_eq_zero_iff, length_progression, ← not_iff_not, ← ne_eq,
        ← Nat.pos_iff_ne_zero, not_lt, offsetOf, if_pos rfl]
      rcases lt_or_gt_of_ne hstep with hneg | hpos
      · rw [lt_rangeLength_iff _ _ (neg_pos.2 hneg), decide_eq_true hneg, if_pos rfl]
        have hmul : 0 ≤ types.quotient start stop step ↔
            step * types.quotient start stop step ≤ 0 := by
          rw [← mul_nonneg_iff_of_pos_left (neg_pos.2 hneg), neg_mul, neg_nonneg]
        rw [hmul]
        omega
      · have hle : ¬step < 0 := hpos.le.not_gt
        rw [lt_rangeLength_iff_of_neg _ _ (neg_neg_of_pos hpos), decide_eq_false hle,
          if_neg Bool.false_ne_true]
        have hmul : 0 ≤ types.quotient start stop step ↔
            0 ≤ step * types.quotient start stop step := by
          rw [mul_nonneg_iff_of_pos_left hpos]
        rw [hmul]
        omega
    · have hquotient : types.quotient start stop step =
          dividend start.value stop.value step / |step| := by
        rw [LoopTypes.quotient, if_pos htruncates, Int.tdiv_eq_ediv_of_nonneg hnonneg]
      rw [hquotient]
      exact iff_of_true (reverse_range hstep) fun _ hneg => absurd hneg hnonneg.not_gt
  · rw [LoopTypes.quotient_of_not htruncates]
    exact iff_of_true (reverse_range hstep) fun h => absurd h htruncates

namespace LoopTypes

variable {types : LoopTypes} {args : RangeArgs} {reversed : Bool} {node : ForFromStatNode}
  {values : List ℤ}

theorem value_start (args : RangeArgs) : (args.start p).value = args.startValue := by
  cases args <;> rfl

/-- What the loop of a transformed range counts through. -/
theorem counts_transformRangeIteration
    (h : types.transformRangeIteration args reversed = some node) :
    ∃ step, args.step = some step ∧ step ≠ 0 ∧
      (node.loop types.platform types.target).Counts types.platform
        (if reversed then
          args.startValue + step * types.quotient (args.start types.platform) args.stop step
        else args.startValue)
        (if reversed then args.startValue + offsetOf (decide (step < 0)) true
        else args.stop.value)
        (if reversed then -step else step) := by
  obtain ⟨step, hargs, h⟩ := Option.bind_eq_some_iff.1 h
  by_cases hstep : step = 0
  · rw [if_pos hstep] at h
    cases h
  rw [if_neg hstep] at h
  obtain rfl := Option.some.inj h
  refine ⟨step, hargs, hstep, ?_⟩
  rw [← value_start (p := types.platform) args]
  have hpos : 0 < |step| := abs_pos.2 hstep
  have hstart := CExpression.means_value (p := types.platform) (args.start types.platform).type
    (args.start types.platform).value
  have hstop := CExpression.means_value (p := types.platform) args.stop.type args.stop.value
  cases reversed
  · have hcounts := counts_loop (decide (step < 0)) false hstart hstop hpos types.target
    have hzero (x : ℤ) : x + offsetOf (decide (step < 0)) false = x := add_zero x
    have hdelta : (if decide (step < 0) = false then |step| else -|step|) = step := by
      rcases lt_or_gt_of_ne hstep with hneg | hpos
      · rw [decide_eq_true hneg, if_neg Bool.false_ne_true.symm, abs_of_neg hneg, neg_neg]
      · rw [decide_eq_false hpos.le.not_gt, if_pos rfl, abs_of_pos hpos]
    rw [hzero, hzero, hdelta] at hcounts
    exact hcounts
  · have hcounts := counts_loop (decide (step < 0)) true
      (means_reversedBound types (args.start types.platform) args.stop hstep) hstart hpos
      types.target
    have hdelta : (if decide (step < 0) = true then |step| else -|step|) = -step := by
      rcases lt_or_gt_of_ne hstep with hneg | hpos
      · rw [decide_eq_true hneg, if_pos rfl, abs_of_neg hneg]
      · rw [decide_eq_false hpos.le.not_gt, if_neg Bool.false_ne_true, abs_of_pos hpos]
    have hfirst : (if step < 0 then (args.start types.platform).value -
          |step| * types.quotient (args.start types.platform) args.stop step - 1
        else (args.start types.platform).value +
          |step| * types.quotient (args.start types.platform) args.stop step + 1) +
          offsetOf (decide (step < 0)) true =
        (args.start types.platform).value +
          step * types.quotient (args.start types.platform) args.stop step := by
      rw [offsetOf, if_pos rfl]
      rcases lt_or_gt_of_ne hstep with hneg | hpos
      · rw [if_pos hneg, decide_eq_true hneg, if_pos rfl, abs_of_neg hneg]
        ring
      · have hle : ¬step < 0 := hpos.le.not_gt
        rw [if_neg hle, decide_eq_false hle, if_neg Bool.false_ne_true, abs_of_pos hpos]
        ring
    rw [hfirst, hdelta] at hcounts
    exact hcounts

/-- The bound of the range is rounded down, or nothing is divided for it. -/
def Rounds (types : LoopTypes) (args : RangeArgs) (reversed : Bool) : Prop :=
  reversed = true → ∀ step, args.step = some step →
    types.RoundsDown (args.start types.platform) args.stop step

/-- When the loop of a range has its values and everything fits. -/
theorem visits_fitting_iff (h : types.transformRangeIteration args reversed = some node)
    (hvalues : args.values reversed = some values) :
    (node.loop types.platform types.target).Visits .fitting types.platform values ↔
      (node.loop types.platform types.target).Fits types.platform values.length ∧
        types.Rounds args reversed := by
  obtain ⟨step, hargs, hstep, hcounts⟩ := counts_transformRangeIteration h
  rw [hcounts.visits_iff, and_congr_right_iff]
  intro _
  rw [RangeArgs.values, hargs, Option.bind_some, pyRange_eq_progression hstep,
    Option.map_some, Option.some.injEq] at hvalues
  subst hvalues
  cases reversed
  · exact iff_of_true rfl fun h => absurd h Bool.false_ne_true
  · have hiff := reverse_range_iff types (args.start types.platform) args.stop hstep
    rw [value_start] at hiff
    refine hiff.trans ⟨fun hrounds _ step' hstep' => ?_, fun hrounds => hrounds rfl step hargs⟩
    obtain rfl := Option.some.inj (hargs.symm.trans hstep')
    exact hrounds

/-- A loop that fits, and whose bound is rounded down, has the values of the range in C. -/
theorem visits_of_fits (h : types.transformRangeIteration args reversed = some node)
    (hvalues : args.values reversed = some values)
    (hfits : (node.loop types.platform types.target).Fits types.platform values.length)
    (hrounds : types.Rounds args reversed) :
    (node.loop types.platform types.target).Visits .c types.platform values :=
  ((visits_fitting_iff h hvalues).2 ⟨hfits, hrounds⟩).of_fitting

/-- With signed types, no other loop has them. -/
theorem visits_iff_of_signed (h : types.transformRangeIteration args reversed = some node)
    (hvalues : args.values reversed = some values)
    (hsigned : (node.loop types.platform types.target).Signed types.platform) :
    (node.loop types.platform types.target).Visits .c types.platform values ↔
      (node.loop types.platform types.target).Fits types.platform values.length ∧
        types.Rounds args reversed := by
  rw [hsigned.visits_iff, visits_fitting_iff h hvalues]

end LoopTypes

end Optimize

end AHPy
