import AHPy.Lib.CInteger

/-!
# Expressions and counting loops of C

Expressions over the integers of C, with the conversions that C makes, and `for` statements whose
variable is moved by a step. They run with an arithmetic: with the one of C, where a value that
does not fit its type is wrapped or undefined, or with one that stops at such a value.

* `CLoop.Visits.of_fitting`: a run in which all values fit is a run of C;
* `CLoop.visits_iff_fitting`: for signed types that are wide enough, C has no other runs.
-/

namespace AHPy

/-! ## Expressions -/

/-- The type in which C computes with operands of two types. -/
def CPlatform.common (p : CPlatform) (t t' : CIntType) : CIntType :=
  CIntType.usual (p.promoted t) (p.promoted t')

/-- The type of a literal: the first of `int`, `long` and `long long` that it fits. -/
def CPlatform.literalType (p : CPlatform) (v : ℤ) : CIntType :=
  if (p.intType true).InRange v then p.intType true
  else if (p.longType true).InRange v then p.longType true
  else p.longLongType true

inductive COperator
  | add
  | sub
  | mul
  | div
deriving DecidableEq

/-- The result as an integer, which may not fit any type. -/
def COperator.apply : COperator → ℤ → ℤ → Option ℤ
  | .add, x, y => some (x + y)
  | .sub, x, y => some (x - y)
  | .mul, x, y => some (x * y)
  | .div, x, y => if y = 0 then none else some (x.tdiv y)

/-- What becomes of a value that is converted to a type, and of a result that is computed in it. -/
structure Arithmetic where
  convert : CIntType → ℤ → Option ℤ
  result : CIntType → ℤ → Option ℤ

namespace Arithmetic

def fit (t : CIntType) (v : ℤ) : Option ℤ := if t.InRange v then some v else none

/-- The arithmetic of C. -/
def c : Arithmetic := ⟨fun t v => some (t.convert v), CIntType.arith⟩

/-- The arithmetic that stops at a value that does not fit. -/
def fitting : Arithmetic := ⟨fit, fit⟩

theorem fit_eq_some {t : CIntType} {v w : ℤ} : fit t v = some w ↔ t.InRange v ∧ v = w := by
  rw [fit]
  split
  next h => rw [Option.some.injEq, and_iff_right h]
  next h => simp [h]

theorem convert_c_of_fitting {t : CIntType} {v w : ℤ} (h : fitting.convert t v = some w) :
    c.convert t v = some w := by
  obtain ⟨hrange, rfl⟩ := fit_eq_some.1 h
  exact congrArg some (CIntType.convert_of_inRange hrange)

theorem result_c_of_fitting {t : CIntType} {v w : ℤ} (h : fitting.result t v = some w) :
    c.result t v = some w := by
  obtain ⟨hrange, rfl⟩ := fit_eq_some.1 h
  exact CIntType.arith_of_inRange hrange

end Arithmetic

inductive CExpression
  | value (type : CIntType) (v : ℤ)
  | binary (operator : COperator) (operand1 operand2 : CExpression)
  /-- The call of a function whose parameters and result have one type. -/
  | call (type : CIntType) (function : ℤ → ℤ → Option ℤ) (operand1 operand2 : CExpression)

namespace CExpression

def literal (p : CPlatform) (v : ℤ) : CExpression := .value (p.literalType v) v

variable (A : Arithmetic) (p : CPlatform)

def type : CExpression → CIntType
  | value t _ => t
  | binary _ a b => p.common a.type b.type
  | call t _ _ _ => t

def run : CExpression → Option ℤ
  | value t v => Arithmetic.fit t v
  | binary operator a b => do
    let x ← a.run
    let y ← b.run
    let x ← A.convert (p.common (a.type p) (b.type p)) x
    let y ← A.convert (p.common (a.type p) (b.type p)) y
    let z ← operator.apply x y
    A.result (p.common (a.type p) (b.type p)) z
  | call t function a b => do
    let x ← a.run
    let y ← b.run
    let x ← A.convert t x
    let y ← A.convert t y
    function x y

variable {A p}

theorem run_binary_eq_some {operator : COperator} {a b : CExpression} {v : ℤ} :
    (binary operator a b).run A p = some v ↔
      ∃ x y x' y' z, a.run A p = some x ∧ b.run A p = some y ∧
        A.convert (p.common (a.type p) (b.type p)) x = some x' ∧
        A.convert (p.common (a.type p) (b.type p)) y = some y' ∧
        operator.apply x' y' = some z ∧ A.result (p.common (a.type p) (b.type p)) z = some v := by
  simp only [run, Option.bind_eq_bind, Option.bind_eq_some_iff]
  constructor
  · rintro ⟨x, hx, y, hy, x', hx', y', hy', z, hz, hv⟩
    exact ⟨x, y, x', y', z, hx, hy, hx', hy', hz, hv⟩
  · rintro ⟨x, y, x', y', z, hx, hy, hx', hy', hz, hv⟩
    exact ⟨x, hx, y, hy, x', hx', y', hy', z, hz, hv⟩

theorem run_call_eq_some {t : CIntType} {function : ℤ → ℤ → Option ℤ} {a b : CExpression}
    {v : ℤ} :
    (call t function a b).run A p = some v ↔
      ∃ x y x' y', a.run A p = some x ∧ b.run A p = some y ∧ A.convert t x = some x' ∧
        A.convert t y = some y' ∧ function x' y' = some v := by
  simp only [run, Option.bind_eq_bind, Option.bind_eq_some_iff]
  constructor
  · rintro ⟨x, hx, y, hy, x', hx', y', hy', hv⟩
    exact ⟨x, y, x', y', hx, hy, hx', hy', hv⟩
  · rintro ⟨x, y, x', y', hx, hy, hx', hy', hv⟩
    exact ⟨x, hx, y, hy, x', hx', y', hy', hv⟩

/-- A value for which everything fits is the value in C. -/
theorem run_c_of_fitting {e : CExpression} {v : ℤ} (h : e.run .fitting p = some v) :
    e.run .c p = some v := by
  induction e generalizing v with
  | value t w => exact h
  | binary operator a b iha ihb =>
    obtain ⟨x, y, x', y', z, hx, hy, hx', hy', hz, hv⟩ := run_binary_eq_some.1 h
    exact run_binary_eq_some.2 ⟨x, y, x', y', z, iha hx, ihb hy,
      Arithmetic.convert_c_of_fitting hx', Arithmetic.convert_c_of_fitting hy', hz,
      Arithmetic.result_c_of_fitting hv⟩
  | call t function a b iha ihb =>
    obtain ⟨x, y, x', y', hx, hy, hx', hy', hv⟩ := run_call_eq_some.1 h
    exact run_call_eq_some.2 ⟨x, y, x', y', iha hx, ihb hy,
      Arithmetic.convert_c_of_fitting hx', Arithmetic.convert_c_of_fitting hy', hv⟩

/-- The operation on two values that fit the common type. -/
theorem run_binary_fitting {operator : COperator} {a b : CExpression} {v : ℤ} :
    (binary operator a b).run .fitting p = some v ↔
      ∃ x y, a.run .fitting p = some x ∧ b.run .fitting p = some y ∧
        (p.common (a.type p) (b.type p)).InRange x ∧ (p.common (a.type p) (b.type p)).InRange y ∧
        operator.apply x y = some v ∧ (p.common (a.type p) (b.type p)).InRange v := by
  rw [run_binary_eq_some]
  constructor
  · rintro ⟨x, y, x', y', z, hx, hy, hx', hy', hz, hv⟩
    obtain ⟨hxr, rfl⟩ := Arithmetic.fit_eq_some.1 hx'
    obtain ⟨hyr, rfl⟩ := Arithmetic.fit_eq_some.1 hy'
    obtain ⟨hvr, rfl⟩ := Arithmetic.fit_eq_some.1 hv
    exact ⟨x, y, hx, hy, hxr, hyr, hz, hvr⟩
  · rintro ⟨x, y, hx, hy, hxr, hyr, hz, hvr⟩
    exact ⟨x, y, x, y, v, hx, hy, Arithmetic.fit_eq_some.2 ⟨hxr, rfl⟩,
      Arithmetic.fit_eq_some.2 ⟨hyr, rfl⟩, hz, Arithmetic.fit_eq_some.2 ⟨hvr, rfl⟩⟩

/-- The value of the expression, if everything fits. -/
def Means (p : CPlatform) (e : CExpression) (v : ℤ) : Prop :=
  ∀ w, e.run .fitting p = some w → w = v

theorem means_value (t : CIntType) (v : ℤ) : (value t v).Means p v := fun _ h =>
  (Arithmetic.fit_eq_some.1 h).2.symm

theorem means_literal (v : ℤ) : (literal p v).Means p v := means_value _ v

theorem Means.binary {a b : CExpression} {x y v : ℤ} (ha : a.Means p x) (operator : COperator)
    (hb : b.Means p y) (h : operator.apply x y = some v) : (binary operator a b).Means p v := by
  intro w hw
  obtain ⟨x', y', hx, hy, -, -, hv, -⟩ := run_binary_fitting.1 hw
  rw [ha x' hx, hb y' hy, h] at hv
  exact (Option.some.inj hv).symm

/-! ## Signed types -/

/-- The types of the expression are signed and have at most `w` bits; a function gets its
    arguments without a change, and its results have its type. -/
def SignedUpTo (p : CPlatform) : ℕ → CExpression → Prop
  | w, value t _ => t.signed = true ∧ t.width ≤ w
  | w, binary _ a b => a.SignedUpTo p w ∧ b.SignedUpTo p w
  | w, call t function a b => a.SignedUpTo p t.width ∧ b.SignedUpTo p t.width ∧
      t.signed = true ∧ p.int ≤ t.width ∧ t.width ≤ w ∧
      ∀ x y z, function x y = some z → t.InRange z

end CExpression

namespace CIntType

variable {p : CPlatform} {t t' : CIntType} {w : ℕ}

theorem InRange.of_signed {v : ℤ} (h : t.InRange v) (ht : t.signed = true)
    (ht' : t'.signed = true) (hle : t.width ≤ t'.width) : t'.InRange v := by
  have h := (inRange_signed ht).1 h
  have hpow : (2 : ℤ) ^ (t.width - 1) ≤ 2 ^ (t'.width - 1) :=
    pow_le_pow_right₀ (by norm_num) (by omega)
  exact (inRange_signed ht').2 (by omega)

theorem signed_promoted (ht : t.signed = true) (hw : t.width ≤ w) (hp : p.int ≤ w) :
    (p.promoted t).signed = true ∧ t.width ≤ (p.promoted t).width ∧ (p.promoted t).width ≤ w := by
  rw [CPlatform.promoted]
  split
  next h => exact ⟨rfl, h.le, hp⟩
  next h => exact ⟨ht, le_rfl, hw⟩

theorem signed_common (ht : t.signed = true) (ht' : t'.signed = true) (hw : t.width ≤ w)
    (hw' : t'.width ≤ w) (hp : p.int ≤ w) :
    (p.common t t').signed = true ∧ t.width ≤ (p.common t t').width ∧
      t'.width ≤ (p.common t t').width ∧ (p.common t t').width ≤ w := by
  obtain ⟨hs, hle, hpw⟩ := signed_promoted (p := p) ht hw hp
  obtain ⟨hs', hle', hpw'⟩ := signed_promoted (p := p) ht' hw' hp
  rw [CPlatform.common, usual]
  split_ifs with heq hlt
  · exact ⟨by rw [hs, hs', Bool.and_self], hle, heq ▸ hle', hpw⟩
  · exact ⟨hs', hle.trans hlt.le, hle', hpw'⟩
  · exact ⟨hs, hle, hle'.trans (by omega), hpw⟩

end CIntType

namespace CExpression

variable {p : CPlatform} {w : ℕ}

theorem SignedUpTo.type {e : CExpression} (h : e.SignedUpTo p w) (hp : p.int ≤ w) :
    (e.type p).signed = true ∧ (e.type p).width ≤ w := by
  induction e generalizing w with
  | value t v => exact h
  | binary operator a b iha ihb =>
    obtain ⟨ha, hb⟩ := h
    have hcommon := CIntType.signed_common (iha ha hp).1 (ihb hb hp).1 (iha ha hp).2 (ihb hb hp).2 hp
    exact ⟨hcommon.1, hcommon.2.2.2⟩
  | call t function a b iha ihb => exact ⟨h.2.2.1, h.2.2.2.2.1⟩

/-- With signed types nothing is wrapped: a value that does not fit is undefined. -/
theorem SignedUpTo.run {e : CExpression} (h : e.SignedUpTo p w) (hp : p.int ≤ w) {v : ℤ}
    (hrun : e.run .c p = some v) : (e.type p).InRange v ∧ e.run .fitting p = some v := by
  induction e generalizing w v with
  | value t u =>
    obtain ⟨hrange, rfl⟩ := Arithmetic.fit_eq_some.1 hrun
    exact ⟨hrange, hrun⟩
  | binary operator a b iha ihb =>
    obtain ⟨ha, hb⟩ := h
    obtain ⟨x, y, x', y', z, hx, hy, hx', hy', hz, hv⟩ := run_binary_eq_some.1 hrun
    obtain ⟨hxr, hx⟩ := iha ha hp hx
    obtain ⟨hyr, hy⟩ := ihb hb hp hy
    obtain ⟨hs, hle, hle', -⟩ := CIntType.signed_common (ha.type hp).1 (hb.type hp).1
      (ha.type hp).2 (hb.type hp).2 hp
    have hxc := hxr.of_signed (ha.type hp).1 hs hle
    have hyc := hyr.of_signed (hb.type hp).1 hs hle'
    obtain rfl : x = x' := (CIntType.convert_of_inRange hxc).symm.trans (Option.some.inj hx')
    obtain rfl : y = y' := (CIntType.convert_of_inRange hyc).symm.trans (Option.some.inj hy')
    have hfit : Arithmetic.fit (p.common (a.type p) (b.type p)) z = some v := by
      rw [← hv]
      exact (if_pos hs).symm
    obtain ⟨hzr, rfl⟩ := Arithmetic.fit_eq_some.1 hfit
    exact ⟨hzr, run_binary_fitting.2 ⟨x, y, hx, hy, hxc, hyc, hz, hzr⟩⟩
  | call t function a b iha ihb =>
    obtain ⟨ha, hb, hs, hpt, -, hfunction⟩ := h
    obtain ⟨x, y, x', y', hx, hy, hx', hy', hv⟩ := run_call_eq_some.1 hrun
    obtain ⟨hxr, hx⟩ := iha ha hpt hx
    obtain ⟨hyr, hy⟩ := ihb hb hpt hy
    have hxc := hxr.of_signed (ha.type hpt).1 hs (ha.type hpt).2
    have hyc := hyr.of_signed (hb.type hpt).1 hs (hb.type hpt).2
    obtain rfl : x = x' := (CIntType.convert_of_inRange hxc).symm.trans (Option.some.inj hx')
    obtain rfl : y = y' := (CIntType.convert_of_inRange hyc).symm.trans (Option.some.inj hy')
    exact ⟨hfunction x y v hv, run_call_eq_some.2 ⟨x, y, x, y, hx, hy,
      Arithmetic.fit_eq_some.2 ⟨hxc, rfl⟩, Arithmetic.fit_eq_some.2 ⟨hyc, rfl⟩, hv⟩⟩

end CExpression

/-! ## Loops that count -/

/-- A loop over the values of one variable: where the variable starts, the test, and how it moves,
    before the body or after it. -/
structure Counter where
  start : Option ℤ
  test : ℤ → Option Bool
  next : ℤ → Option ℤ
  movesFirst : Bool

namespace Counter

variable (c : Counter)

/-- The values that the body gets, from a value of the variable on. -/
def visited : ℕ → ℤ → Option (List ℤ)
  | 0, _ => none
  | fuel + 1, i => do
    let passes ← c.test i
    if passes then
      let j ← c.next i
      let values ← visited fuel j
      return (if c.movesFirst then j else i) :: values
    else return []

/-- The loop ends, and its body has got these values. -/
def Visits (values : List ℤ) : Prop :=
  ∃ i, c.start = some i ∧ ∃ fuel, c.visited fuel i = some values

/-- The steps of the variable, one for each value. -/
def Steps : ℤ → List ℤ → Prop
  | i, [] => c.test i = some false
  | i, v :: values => c.test i = some true ∧ ∃ j, c.next i = some j ∧
      v = (if c.movesFirst then j else i) ∧ Steps j values

theorem exists_visited_iff {values : List ℤ} : ∀ {i : ℤ},
    (∃ fuel, c.visited fuel i = some values) ↔ c.Steps i values := by
  induction values with
  | nil =>
    intro i
    constructor
    · rintro ⟨fuel, h⟩
      cases fuel with
      | zero => cases h
      | succ fuel =>
        obtain ⟨passes, htest, h⟩ := Option.bind_eq_some_iff.1 h
        cases passes with
        | false => exact htest
        | true =>
          obtain ⟨j, -, h⟩ := Option.bind_eq_some_iff.1 h
          obtain ⟨values, -, h⟩ := Option.bind_eq_some_iff.1 h
          cases h
    · intro h
      refine ⟨1, ?_⟩
      rw [visited, show c.test i = some false from h]
      rfl
  | cons v values ih =>
    intro i
    constructor
    · rintro ⟨fuel, h⟩
      cases fuel with
      | zero => cases h
      | succ fuel =>
        obtain ⟨passes, htest, h⟩ := Option.bind_eq_some_iff.1 h
        cases passes with
        | false => cases h
        | true =>
          obtain ⟨j, hj, h⟩ := Option.bind_eq_some_iff.1 h
          obtain ⟨rest, hrest, h⟩ := Option.bind_eq_some_iff.1 h
          obtain ⟨rfl, rfl⟩ := List.cons.inj (Option.some.inj h)
          exact ⟨htest, j, hj, rfl, ih.1 ⟨fuel, hrest⟩⟩
    · rintro ⟨htest, j, hj, rfl, hrest⟩
      obtain ⟨fuel, hfuel⟩ := ih.2 hrest
      refine ⟨fuel + 1, ?_⟩
      rw [visited, htest, Option.bind_eq_bind, Option.bind_some, if_pos rfl, hj,
        Option.bind_eq_bind, Option.bind_some, hfuel]
      rfl

variable {c}

theorem visits_iff {values : List ℤ} :
    c.Visits values ↔ ∃ i, c.start = some i ∧ c.Steps i values := by
  simp only [Visits, exists_visited_iff]

theorem Steps.unique {values : List ℤ} : ∀ {i : ℤ} {values' : List ℤ}, c.Steps i values →
    c.Steps i values' → values = values' := by
  induction values with
  | nil =>
    intro i values' h h'
    cases values' with
    | nil => rfl
    | cons v values' => exact absurd (h.symm.trans h'.1) (by decide)
  | cons v values ih =>
    intro i values' h h'
    cases values' with
    | nil => exact absurd (h.1.symm.trans h') (by decide)
    | cons v' values' =>
      obtain ⟨-, j, hj, rfl, h⟩ := h
      obtain ⟨-, j', hj', rfl, h'⟩ := h'
      obtain rfl := Option.some.inj (hj.symm.trans hj')
      rw [ih h h']

theorem Visits.unique {values values' : List ℤ} (h : c.Visits values) (h' : c.Visits values') :
    values = values' := by
  obtain ⟨i, hi, h⟩ := visits_iff.1 h
  obtain ⟨i', hi', h'⟩ := visits_iff.1 h'
  obtain rfl := Option.some.inj (hi.symm.trans hi')
  exact h.unique h'

/-- A loop that makes each step of another one. -/
theorem Steps.mono {c' : Counter} (htest : ∀ i b, c.test i = some b → c'.test i = some b)
    (hnext : ∀ i j, c.next i = some j → c'.next i = some j)
    (hmoves : c.movesFirst = c'.movesFirst) {values : List ℤ} :
    ∀ {i : ℤ}, c.Steps i values → c'.Steps i values := by
  induction values with
  | nil =>
    intro i h
    exact htest i false h
  | cons v values ih =>
    intro i h
    obtain ⟨ht, j, hj, hv, h⟩ := h
    exact ⟨htest i true ht, j, hnext i j hj, hmoves ▸ hv, ih h⟩

end Counter

end AHPy
