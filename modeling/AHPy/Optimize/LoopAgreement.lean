import AHPy.Optimize.ForFromLoops

/-!
# Runs of the emitted loops

* `CLoop.visits_fitting_iff`: the values of a loop in which everything fits its type;
* `CLoop.Visits.of_fitting`, `CLoop.Signed.visits_iff`: they are its values in C, and with signed
  types C has no others.
-/

namespace AHPy

open ModuleWriter (progression progression_zero progression_succ length_progression)

namespace CIntType

variable {t : CIntType} {a b v : ℤ}

theorem InRange.of_mem_segment (ha : t.InRange a) (hb : t.InRange b)
    (h : a ≤ v ∧ v ≤ b ∨ b ≤ v ∧ v ≤ a) : t.InRange v := by
  rw [InRange] at *
  omega

end CIntType

namespace Optimize

open ModuleWriter (Relation IncOp relationTable findForFromNodeRelations reversedBound1 pyRange
  rangeLength lt_rangeLength_iff lt_rangeLength_iff_of_neg pyRange_eq_progression
  reverse_range_of_pos reverse_range_of_neg reversedBound1_eq)

/-! ## Runs in which everything fits -/

namespace CLoop

variable {p : CPlatform} {loop : CLoop}

/-- The type in which the variable is moved. -/
def stepType (p : CPlatform) (loop : CLoop) : CIntType :=
  p.common loop.type (p.literalType loop.step)

/-- What is added to the variable. -/
def delta (loop : CLoop) : ℤ := loop.incop.signed loop.step

theorem apply_incOperator (incop : IncOp) (i step : ℤ) :
    (incOperator incop).apply i step = some (i + incop.signed step) := by
  cases incop
  · rfl
  · exact congrArg some (sub_eq_add_neg i step)

theorem test_fitting_eq_some {i : ℤ} {t : Bool} :
    loop.test .fitting p i = some t ↔ ∃ b, loop.bound.run .fitting p = some b ∧
      (loop.testType p).InRange i ∧ (loop.testType p).InRange b ∧ loop.relation.holds i b = t := by
  simp only [test, Option.bind_eq_bind, Option.bind_eq_some_iff, Arithmetic.fitting,
    Arithmetic.fit_eq_some, Option.pure_def, Option.some.injEq]
  constructor
  · rintro ⟨b, hb, i', ⟨hi, rfl⟩, b', ⟨hb', rfl⟩, ht⟩
    exact ⟨b, hb, hi, hb', ht⟩
  · rintro ⟨b, hb, hi, hb', ht⟩
    exact ⟨b, hb, i, ⟨hi, rfl⟩, b, ⟨hb', rfl⟩, ht⟩

theorem next_fitting_eq_some {i j : ℤ} :
    (loop.counter .fitting p).next i = some j ↔
      (p.literalType loop.step).InRange loop.step ∧ (loop.stepType p).InRange loop.step ∧
        (loop.type.InRange i ∧ (loop.stepType p).InRange i) ∧
        (loop.type.InRange j ∧ (loop.stepType p).InRange j) ∧ j = i + loop.delta := by
  rw [counter, Option.bind_eq_bind, Option.bind_eq_some_iff]
  constructor
  · rintro ⟨j', hj', hj⟩
    obtain ⟨hjr, rfl⟩ := Arithmetic.fit_eq_some.1 hj
    obtain ⟨x, y, hx, hy, hxr, hyr, happly, hr⟩ := CExpression.run_binary_fitting.1 hj'
    obtain ⟨hir, rfl⟩ := Arithmetic.fit_eq_some.1 hx
    obtain ⟨hsr, rfl⟩ := Arithmetic.fit_eq_some.1 hy
    rw [apply_incOperator] at happly
    exact ⟨hsr, hyr, ⟨hir, hxr⟩, ⟨hjr, hr⟩, (Option.some.inj happly).symm⟩
  · rintro ⟨hsr, hyr, ⟨hir, hxr⟩, ⟨hjr, hr⟩, rfl⟩
    refine ⟨_, CExpression.run_binary_fitting.2 ⟨i, loop.step, Arithmetic.fit_eq_some.2 ⟨hir, rfl⟩,
      Arithmetic.fit_eq_some.2 ⟨hsr, rfl⟩, hxr, hyr, apply_incOperator _ _ _, hr⟩,
      Arithmetic.fit_eq_some.2 ⟨hjr, rfl⟩⟩

/-- The values from `x` on fit the types that they are computed in: the bound `b`, and the
    variable from `x` to the value after `n` steps. -/
structure FitsFrom (p : CPlatform) (loop : CLoop) (n : ℕ) (x b : ℤ) : Prop where
  bound : loop.bound.run .fitting p = some b
  start : loop.type.InRange x
  compared : (loop.testType p).InRange x ∧ (loop.testType p).InRange b
  moved : 0 < n → (p.literalType loop.step).InRange loop.step ∧
    (loop.stepType p).InRange loop.step ∧ (loop.stepType p).InRange x
  past : 0 < n → loop.type.InRange (x + n * loop.delta) ∧
    (loop.stepType p).InRange (x + n * loop.delta) ∧ (loop.testType p).InRange (x + n * loop.delta)

/-- A loop with `n` values fits the types that it is computed in. -/
def Fits (p : CPlatform) (loop : CLoop) (n : ℕ) : Prop :=
  ∃ x b, loop.initial.run .fitting p = some x ∧ loop.FitsFrom p n x b

/-- The first value in the body, if the variable starts at `x`. -/
def first (loop : CLoop) (x : ℤ) : ℤ := if loop.movesFirst then x + loop.delta else x

/-- The test holds for exactly `n` steps. -/
def Passes (loop : CLoop) (x b : ℤ) (n : ℕ) : Prop :=
  (∀ k < n, loop.relation.holds (x + k * loop.delta) b = true) ∧
    loop.relation.holds (x + n * loop.delta) b = false

theorem first_add_delta (x : ℤ) : loop.first (x + loop.delta) = loop.first x + loop.delta := by
  rw [first, first]
  split <;> rfl

theorem add_succ_mul_delta (n : ℕ) (x : ℤ) :
    x + (n + 1 : ℕ) * loop.delta = x + loop.delta + n * loop.delta := by
  rw [Nat.cast_succ]
  ring

theorem FitsFrom.tail {n : ℕ} {x b : ℤ} (h : loop.FitsFrom p (n + 1) x b) :
    (loop.stepType p).InRange (x + loop.delta) ∧ loop.FitsFrom p n (x + loop.delta) b := by
  obtain ⟨hpast, hpast', hpast''⟩ := h.past n.succ_pos
  obtain ⟨hliteral, hstep, hmoved⟩ := h.moved n.succ_pos
  have hsegment : x ≤ x + loop.delta ∧ x + loop.delta ≤ x + (n + 1 : ℕ) * loop.delta ∨
      x + (n + 1 : ℕ) * loop.delta ≤ x + loop.delta ∧ x + loop.delta ≤ x := by
    rw [add_succ_mul_delta]
    rcases le_total 0 loop.delta with hd | hd
    · have hn : 0 ≤ n * loop.delta := by positivity
      exact .inl ⟨by omega, by omega⟩
    · have hn : n * loop.delta ≤ 0 := mul_nonpos_of_nonneg_of_nonpos (by positivity) hd
      exact .inr ⟨by omega, by omega⟩
  have hnext := hmoved.of_mem_segment hpast' hsegment
  rw [add_succ_mul_delta] at hpast hpast' hpast''
  exact ⟨hnext, h.bound, h.start.of_mem_segment (h.past n.succ_pos).1 hsegment,
    ⟨h.compared.1.of_mem_segment (h.past n.succ_pos).2.2 hsegment, h.compared.2⟩,
    fun _ => ⟨hliteral, hstep, hnext⟩, fun _ => ⟨hpast, hpast', hpast''⟩⟩

theorem FitsFrom.cons {n : ℕ} {x j b : ℤ} (hnext : (loop.counter .fitting p).next x = some j)
    (hx : (loop.testType p).InRange x) (h : loop.FitsFrom p n j b) :
    loop.FitsFrom p (n + 1) x b := by
  obtain ⟨hliteral, hstep, ⟨hstart, hmoved⟩, ⟨hj, hj'⟩, rfl⟩ := next_fitting_eq_some.1 hnext
  refine ⟨h.bound, hstart, ⟨hx, h.compared.2⟩, fun _ => ⟨hliteral, hstep, hmoved⟩, fun _ => ?_⟩
  rw [add_succ_mul_delta]
  rcases n.eq_zero_or_pos with rfl | hn
  · rw [Nat.cast_zero, zero_mul, add_zero]
    exact ⟨hj, hj', h.compared.1⟩
  · exact h.past hn

theorem passes_succ_iff {n : ℕ} {x b : ℤ} :
    loop.Passes x b (n + 1) ↔
      loop.relation.holds x b = true ∧ loop.Passes (x + loop.delta) b n := by
  constructor
  · rintro ⟨htest, hend⟩
    have hx := htest 0 n.succ_pos
    rw [Nat.cast_zero, zero_mul, add_zero] at hx
    refine ⟨hx, fun k hk => ?_, ?_⟩
    · rw [← add_succ_mul_delta]
      exact htest (k + 1) (Nat.succ_lt_succ hk)
    · rwa [← add_succ_mul_delta]
  · rintro ⟨hx, htest, hend⟩
    refine ⟨fun k hk => ?_, ?_⟩
    · cases k with
      | zero => rwa [Nat.cast_zero, zero_mul, add_zero]
      | succ k =>
        rw [add_succ_mul_delta]
        exact htest k (Nat.lt_of_succ_lt_succ hk)
    · rwa [add_succ_mul_delta]

/-- The steps of a loop in which everything fits. -/
theorem steps_fitting_iff {values : List ℤ} : ∀ {x : ℤ}, loop.type.InRange x →
    ((loop.counter .fitting p).Steps x values ↔
      ∃ b, loop.FitsFrom p values.length x b ∧ loop.Passes x b values.length ∧
        values = progression (loop.first x) loop.delta values.length) := by
  induction values with
  | nil =>
    intro x hx
    rw [Counter.Steps]
    refine test_fitting_eq_some.trans ⟨?_, ?_⟩
    · rintro ⟨b, hb, hxt, hbt, hend⟩
      refine ⟨b, ⟨hb, hx, ⟨hxt, hbt⟩, fun h => absurd h (lt_irrefl 0),
        fun h => absurd h (lt_irrefl 0)⟩, ⟨fun k hk => absurd hk k.not_lt_zero, ?_⟩, rfl⟩
      rwa [List.length_nil, Nat.cast_zero, zero_mul, add_zero]
    · rintro ⟨b, hfits, ⟨-, hend⟩, -⟩
      rw [List.length_nil, Nat.cast_zero, zero_mul, add_zero] at hend
      exact ⟨b, hfits.bound, hfits.compared.1, hfits.compared.2, hend⟩
  | cons v values ih =>
    intro x hx
    rw [Counter.Steps, List.length_cons, progression_succ]
    constructor
    · rintro ⟨htest, j, hj, rfl, hsteps⟩
      obtain ⟨-, -, -, ⟨hjr, -⟩, hjx⟩ := next_fitting_eq_some.1 hj
      obtain ⟨b, hfits, hpasses, hvalues⟩ := (ih hjr).1 hsteps
      obtain ⟨b', hb', hxt, -, hholds⟩ := test_fitting_eq_some.1 htest
      obtain rfl := Option.some.inj (hfits.bound.symm.trans hb')
      refine ⟨b, hfits.cons hj hxt, passes_succ_iff.2 ⟨hholds, hjx ▸ hpasses⟩, ?_⟩
      rw [← first_add_delta, ← hjx, ← hvalues, counter, first, ← hjx]
    · rintro ⟨b, hfits, hpasses, hvalues⟩
      obtain ⟨hv, hrest⟩ := List.cons.inj hvalues
      obtain ⟨hmoved, htail⟩ := hfits.tail
      obtain ⟨hx', hpasses⟩ := passes_succ_iff.1 hpasses
      obtain ⟨hliteral, hstep, hxs⟩ := hfits.moved values.length.succ_pos
      refine ⟨test_fitting_eq_some.2 ⟨b, hfits.bound, hfits.compared.1, hfits.compared.2, hx'⟩,
        x + loop.delta, next_fitting_eq_some.2 ⟨hliteral, hstep, ⟨hx, hxs⟩,
          ⟨htail.start, hmoved⟩, rfl⟩, ?_, (ih htail.start).2 ⟨b, htail, hpasses, ?_⟩⟩
      · rw [hv, counter, first]
      · rwa [first_add_delta]

/-- The values of a loop in which everything fits. -/
theorem visits_fitting_iff {values : List ℤ} :
    loop.Visits .fitting p values ↔
      ∃ x b, loop.initial.run .fitting p = some x ∧ loop.FitsFrom p values.length x b ∧
        loop.Passes x b values.length ∧
        values = progression (loop.first x) loop.delta values.length := by
  rw [Visits, Counter.visits_iff]
  constructor
  · rintro ⟨x, hx, hsteps⟩
    obtain ⟨y, hy, hyx⟩ := Option.bind_eq_some_iff.1 hx
    obtain ⟨hyr, rfl⟩ := Arithmetic.fit_eq_some.1 hyx
    obtain ⟨b, hfits, hpasses, hvalues⟩ := (steps_fitting_iff hyr).1 hsteps
    exact ⟨y, b, hy, hfits, hpasses, hvalues⟩
  · rintro ⟨x, b, hx, hfits, hpasses, hvalues⟩
    refine ⟨x, Option.bind_eq_some_iff.2 ⟨x, hx, Arithmetic.fit_eq_some.2 ⟨hfits.start, rfl⟩⟩, ?_⟩
    exact (steps_fitting_iff hfits.start).2 ⟨b, hfits, hpasses, hvalues⟩

/-! ## Runs in C -/

theorem test_c_of_fitting {i : ℤ} {t : Bool} (h : loop.test .fitting p i = some t) :
    loop.test .c p i = some t := by
  obtain ⟨b, hb, hi, hbt, rfl⟩ := test_fitting_eq_some.1 h
  rw [test, CExpression.run_c_of_fitting hb, Option.bind_eq_bind, Option.bind_some]
  simp only [Arithmetic.c, CIntType.convert_of_inRange hi, CIntType.convert_of_inRange hbt,
    Option.bind_some, Option.pure_def]

theorem assigned_c_of_fitting {e : CExpression} {t : CIntType} {v : ℤ}
    (h : ((e.run .fitting p).bind fun w => Arithmetic.fitting.convert t w) = some v) :
    ((e.run .c p).bind fun w => Arithmetic.c.convert t w) = some v := by
  obtain ⟨w, hw, hv⟩ := Option.bind_eq_some_iff.1 h
  exact Option.bind_eq_some_iff.2
    ⟨w, CExpression.run_c_of_fitting hw, Arithmetic.convert_c_of_fitting hv⟩

/-- A run in which everything fits is a run of C. -/
theorem Visits.of_fitting {values : List ℤ} (h : loop.Visits .fitting p values) :
    loop.Visits .c p values := by
  obtain ⟨x, hx, hsteps⟩ := Counter.visits_iff.1 h
  have htest : ∀ i t, (loop.counter .fitting p).test i = some t →
      (loop.counter .c p).test i = some t := fun i t => test_c_of_fitting
  have hnext : ∀ i j, (loop.counter .fitting p).next i = some j →
      (loop.counter .c p).next i = some j := fun i j => assigned_c_of_fitting
  exact Counter.visits_iff.2 ⟨x, assigned_c_of_fitting hx, hsteps.mono htest hnext rfl⟩

/-- The types of the loop are signed, and none is wider than the one of the variable. -/
structure Signed (p : CPlatform) (loop : CLoop) : Prop where
  signed : loop.type.signed = true
  int_le : p.int ≤ loop.type.width
  initial : loop.initial.SignedUpTo p loop.type.width
  bound : loop.bound.SignedUpTo p loop.type.width
  step : (p.literalType loop.step).signed = true ∧
    (p.literalType loop.step).width ≤ loop.type.width

theorem Signed.assigned (h : loop.Signed p) {e : CExpression}
    (he : e.SignedUpTo p loop.type.width) {v : ℤ}
    (hv : ((e.run .c p).bind fun w => Arithmetic.c.convert loop.type w) = some v) :
    loop.type.InRange v ∧
      ((e.run .fitting p).bind fun w => Arithmetic.fitting.convert loop.type w) = some v := by
  obtain ⟨w, hw, hwv⟩ := Option.bind_eq_some_iff.1 hv
  obtain ⟨hrange, hfits⟩ := he.run h.int_le hw
  have hrange' := hrange.of_signed (he.type h.int_le).1 h.signed (he.type h.int_le).2
  obtain rfl : w = v := (CIntType.convert_of_inRange hrange').symm.trans (Option.some.inj hwv)
  exact ⟨hrange', Option.bind_eq_some_iff.2 ⟨w, hfits, Arithmetic.fit_eq_some.2 ⟨hrange', rfl⟩⟩⟩

theorem Signed.test (h : loop.Signed p) {i : ℤ} (hi : loop.type.InRange i) {t : Bool}
    (ht : loop.test .c p i = some t) : loop.test .fitting p i = some t := by
  obtain ⟨b, hb, ht⟩ := Option.bind_eq_some_iff.1 ht
  obtain ⟨hrange, hfits⟩ := h.bound.run h.int_le hb
  obtain ⟨hbs, hble⟩ := h.bound.type h.int_le
  obtain ⟨hs, hle, hle', -⟩ := CIntType.signed_common (p := p) h.signed hbs le_rfl hble h.int_le
  have hit : (loop.testType p).InRange i := hi.of_signed h.signed hs hle
  have hbt : (loop.testType p).InRange b := hrange.of_signed hbs hs hle'
  refine test_fitting_eq_some.2 ⟨b, hfits, hit, hbt, ?_⟩
  rw [← Option.some.inj ht, CIntType.convert_of_inRange hit, CIntType.convert_of_inRange hbt]

theorem Signed.steps (h : loop.Signed p) {values : List ℤ} : ∀ {i : ℤ}, loop.type.InRange i →
    (loop.counter .c p).Steps i values → (loop.counter .fitting p).Steps i values := by
  induction values with
  | nil =>
    intro i hi hsteps
    exact h.test hi hsteps
  | cons v values ih =>
    rintro i hi ⟨htest, j, hj, hv, hsteps⟩
    have hmoved : (loop.moved p i).SignedUpTo p loop.type.width := ⟨⟨h.signed, le_rfl⟩, h.step⟩
    obtain ⟨hjr, hj⟩ := h.assigned hmoved hj
    exact ⟨h.test hi htest, j, hj, hv, ih hjr hsteps⟩

/-- With signed types, C has no other runs. -/
theorem Signed.visits_iff (h : loop.Signed p) {values : List ℤ} :
    loop.Visits .c p values ↔ loop.Visits .fitting p values := by
  refine ⟨fun hc => ?_, Visits.of_fitting⟩
  obtain ⟨x, hx, hsteps⟩ := Counter.visits_iff.1 hc
  obtain ⟨hxr, hx⟩ := h.assigned h.initial hx
  exact Counter.visits_iff.2 ⟨x, hx, h.steps hxr hsteps⟩

end CLoop

end Optimize

end AHPy
