import AHPy.Optimize.SwitchTransform

/-!
# What the switch transform extracts

A condition the transform accepts is a list of groups of tests of one variable
(`Cond.tests`): without `and` of positive conditions there is one group, and
the operands of an `and` of positive conditions are groups of their own.

* `extractConditions_spec`: a positive condition holds if every group has a
  test that matches, a negative one if no test does; the constants extracted
  are those of all groups, whatever the operators between them.
-/

namespace AHPy

variable (Γ : Scope)

/-! ## Operands -/

namespace Operand

@[simp] theorem path_unwrapNode (o : Operand) : o.unwrapNode.path = o.path := by
  induction o with
  | resultRef e ih => exact ih
  | _ => rfl

theorem typeOf_unwrapNode (o : Operand) : type.typeOf o.unwrapNode = type.typeOf o := by
  induction o with
  | resultRef e ih => exact ih
  | _ => rfl

theorem valueOf_unwrapNode (env : Env) (o : Operand) :
    value.valueOf env o.unwrapNode = value.valueOf env o := by
  induction o with
  | resultRef e ih => exact ih
  | _ => rfl

@[simp] theorem type_unwrapNode (o : Operand) : o.unwrapNode.type Γ = o.type Γ := by
  rw [type, type, path_unwrapNode, typeOf_unwrapNode]

@[simp] theorem value_unwrapNode (env : Env) (o : Operand) :
    o.unwrapNode.value env = o.value env := by
  rw [value, value, path_unwrapNode, valueOf_unwrapNode]

variable {Γ}

theorem type_of_path {o : Operand} {p : Path} (h : o.path = some p) :
    o.type Γ = (Γ.entry p).type := by
  rw [type, h]

theorem value_of_path {o : Operand} {p : Path} (h : o.path = some p) (env : Env) :
    o.value env = env p := by
  rw [value, h]

/-- The value of an operand is one of its type. -/
theorem inRange_value {env : Env} (henv : Γ.Valid env) (o : Operand) {t : CIntType}
    (ht : (o.type Γ).cType = some t) : t.InRange (o.value env) := by
  cases hp : o.path with
  | some p =>
    rw [type_of_path hp] at ht
    rw [value_of_path hp]
    exact henv.inRange p t ht
  | none =>
    have hof : ∀ o : Operand, (type.typeOf o).cType = some t →
        t.InRange (value.valueOf env o) := by
      intro o
      induction o with
      | literal v t' r =>
        intro h
        simp only [type.typeOf] at h
        simp only [value.valueOf, value.wrap, h]
        exact t.inRange_convert v
      | other f t' =>
        intro h
        simp only [type.typeOf] at h
        simp only [value.valueOf, value.wrap, h]
        exact t.inRange_convert _
      | resultRef e ih => exact ih
      | name n => exact nofun
      | attr obj n => exact nofun
      | string s => exact nofun
    simp only [type, hp] at ht
    simp only [value, hp]
    exact hof o ht

/-- Literals and operands with a constant entry have a constant value. -/
theorem value_eq_constValue {env : Env} (henv : Γ.Valid env) {c : Operand}
    (hc : c.isLiteral || c.hasConstEntry Γ) : c.value env = c.constValue Γ := by
  cases hp : c.path with
  | none =>
    have hl : c.isLiteral := by simpa [hasConstEntry, entry, hp] using hc
    simp only [value, constValue, entry, hp, Option.map_none]
    cases c with
    | literal v t r => rfl
    | string s => rfl
    | _ => cases hl
  | some p =>
    have hconst : (Γ.entry p).isConst.isSome := by
      cases c with
      | literal v t r => cases hp
      | string s => cases hp
      | _ => simpa [isLiteral, hasConstEntry, entry, hp] using hc
    obtain ⟨v, hv⟩ := Option.isSome_iff_exists.1 hconst
    simp only [value, constValue, entry, hp, Option.map_some, hv, Option.getD_some]
    exact henv.const p v hv

end Operand

variable {Γ}

/-- Two operands with a common value name the same variable. -/
theorem exists_path_of_isCommonValue {a b : Operand} (h : isCommonValue Γ a b) :
    ∃ p, a.path = some p ∧ b.path = some p := by
  induction a generalizing b with
  | resultRef e ih => exact ih h
  | name n =>
    simp only [isCommonValue] at h
    split at h
    next n' hb =>
      refine ⟨.name n, rfl, ?_⟩
      rw [← Operand.path_unwrapNode, hb, eq_of_beq h]
      rfl
    next => cases h
  | attr obj n ih =>
    simp only [isCommonValue] at h
    split at h
    next obj' n' hb =>
      rw [Bool.and_eq_true, Bool.and_eq_true] at h
      obtain ⟨p, hp, hp'⟩ := ih h.1.2
      refine ⟨.attr p n, by rw [Operand.path, hp]; rfl, ?_⟩
      rw [← Operand.path_unwrapNode, hb, Operand.path, hp', eq_of_beq h.2]
      rfl
    next => cases h
  | literal v t r => cases h
  | string s => cases h
  | other f t => cases h

theorem type_eq_of_isCommonValue {a b : Operand} (h : isCommonValue Γ a b) :
    a.type Γ = b.type Γ := by
  obtain ⟨p, ha, hb⟩ := exists_path_of_isCommonValue h
  rw [Operand.type_of_path ha, Operand.type_of_path hb]

theorem value_eq_of_isCommonValue {a b : Operand} (h : isCommonValue Γ a b) (env : Env) :
    a.value env = b.value env := by
  obtain ⟨p, ha, hb⟩ := exists_path_of_isCommonValue h
  rw [Operand.value_of_path ha, Operand.value_of_path hb]

/-- A comparison with a constant is of a variable with a literal or a constant entry. -/
theorem constantOperand_eq_some {a b x c : Operand} (h : constantOperand Γ a b = some (x, c)) :
    (c.isLiteral || c.hasConstEntry Γ) ∧ (x = a ∧ c = b ∨ x = b ∧ c = a) := by
  rw [constantOperand] at h
  split_ifs at h with h₁ h₂
  · cases h
    rw [Bool.and_eq_true] at h₁
    exact ⟨h₁.2, .inl ⟨rfl, rfl⟩⟩
  · cases h
    rw [Bool.and_eq_true] at h₂
    exact ⟨h₂.2, .inr ⟨rfl, rfl⟩⟩

theorem cmpEqual_comm (t t' : OperandType) (a b : ℤ) : cmpEqual t t' a b = cmpEqual t' t b a := by
  simp only [cmpEqual]
  cases t.cType <;> cases t'.cType
  case some.some t t' => exact decide_eq_decide.2 CIntType.equal_comm
  all_goals exact Bool.beq_comm

/-! ## Tests -/

/-- A test of a variable: for a constant, or for a character of a string. -/
inductive Test where
  | equal (c : Operand)
  | contains (s : StringLiteral)

namespace Test

variable (Γ)

/-- The constants a switch lists for a test. -/
def constants : Test → List Operand
  | equal c => [c]
  | contains s => extractInStringConditions Γ s

/-- Whether the test succeeds for the value `v` of a variable of type `t`. -/
def Matches (t : OperandType) (v : ℤ) : Test → Bool
  | equal c => cmpEqual t (c.type Γ) v (c.constValue Γ)
  | contains s => s.contains v

/-- Whether the test is for a character, and `v` is converted to one it is for. -/
def Aliases (v : ℤ) : Test → Bool
  | equal _ => false
  | contains s => s.contains v

end Test

/-- Whether a condition is built from negative tests. -/
def Cond.negative : Cond → Bool
  | .coerceToTemp c | .coerceToBoolean c | .boolBinopResult c | .evalWithTemp c
  | .typecast c => c.negative
  | .primaryCmp .ne .. | .primaryCmp .notIn .. => true
  | .boolBinop _ c _ => c.negative
  | _ => false

variable (Γ) in
/-- The groups of tests of a condition. The operands of an `and` of positive
    conditions are groups of their own. -/
def Cond.tests : Cond → List (List Test)
  | .coerceToTemp c | .coerceToBoolean c | .boolBinopResult c | .evalWithTemp c
  | .typecast c => c.tests
  | .primaryCmp op a b _ _ =>
    match op, b with
    | .eq, b | .ne, b => ((constantOperand Γ a b).map fun (_, c) => [Test.equal c]).toList
    | .in_, .string s | .notIn, .string s => [[.contains s]]
    | _, _ => []
  | .boolBinop op c c' =>
    if op = .and ∧ !c.negative then c.tests ++ c'.tests
    else [c.tests.flatten ++ c'.tests.flatten]
  | .other _ => []

variable (Γ) in
/-- What is extracted from a condition: its polarity, its constants, and a variable whose values
    decide it. -/
structure Extracted (c : Cond) (allowNotIn notIn : Bool) (t : Operand) (cs : List Operand) :
    Prop where
  negative : notIn = c.negative
  constants : cs = (c.tests Γ).flatten.flatMap (·.constants Γ)
  single : notIn ∨ ¬allowNotIn → ∃ l, c.tests Γ = [l]
  positive : ¬allowNotIn → ¬notIn
  eval : ∀ env, Γ.Valid env → c.eval Γ env =
    (notIn ^^ (c.tests Γ).all (·.any (·.Matches Γ (t.type Γ) (t.value env))))

/-- A comparison with a constant is one test. -/
theorem extracted_constantOperand {op : CmpOp} {a b x c : Operand} {isPython : Bool}
    {allowNotIn notIn : Bool} (h : constantOperand Γ a b = some (x, c))
    (hop : op = .eq ∧ notIn = false ∨ op = .ne ∧ notIn = true ∧ allowNotIn) :
    Extracted Γ (.primaryCmp op a b none isPython) allowNotIn notIn x [c] := by
  obtain ⟨hc, hxc⟩ := constantOperand_eq_some h
  have htests : Cond.tests Γ (.primaryCmp op a b none isPython) = [[.equal c]] := by
    rcases hop with ⟨rfl, -⟩ | ⟨rfl, -⟩ <;> simp [Cond.tests, h]
  have heq : ∀ env, Γ.Valid env → cmpEqual (a.type Γ) (b.type Γ) (a.value env) (b.value env) =
      cmpEqual (x.type Γ) (c.type Γ) (x.value env) (c.constValue Γ) := by
    intro env henv
    rw [← Operand.value_eq_constValue henv hc]
    rcases hxc with ⟨rfl, rfl⟩ | ⟨rfl, rfl⟩
    · rfl
    · exact cmpEqual_comm _ _ _ _
  refine ⟨?_, ?_, fun _ => ⟨_, htests⟩, ?_, fun env henv => ?_⟩
  · rcases hop with ⟨rfl, rfl⟩ | ⟨rfl, rfl, -⟩ <;> rfl
  · rw [htests]
    rfl
  · rcases hop with ⟨-, rfl⟩ | ⟨-, -, h⟩
    · exact fun _ => Bool.false_ne_true
    · exact fun h' => absurd h h'
  · rw [htests]
    rcases hop with ⟨rfl, rfl⟩ | ⟨rfl, rfl, -⟩ <;>
      simp [Cond.eval, CmpOp.eval, Test.Matches, heq env henv]

/-- A test for a character of a string is one test. -/
theorem extracted_contains {op : CmpOp} {a : Operand} {s : StringLiteral} {isPython : Bool}
    {allowNotIn notIn : Bool}
    (hop : op = .in_ ∧ notIn = false ∨ op = .notIn ∧ notIn = true ∧ allowNotIn) :
    Extracted Γ (.primaryCmp op a (.string s) none isPython) allowNotIn notIn a
      (extractInStringConditions Γ s) := by
  have htests : Cond.tests Γ (.primaryCmp op a (.string s) none isPython) = [[.contains s]] := by
    rcases hop with ⟨rfl, -⟩ | ⟨rfl, -⟩ <;> rfl
  refine ⟨?_, ?_, fun _ => ⟨_, htests⟩, ?_, fun env henv => ?_⟩
  · rcases hop with ⟨rfl, rfl⟩ | ⟨rfl, rfl, -⟩ <;> rfl
  · rw [htests]
    simp [Test.constants]
  · rcases hop with ⟨-, rfl⟩ | ⟨-, -, h⟩
    · exact fun _ => Bool.false_ne_true
    · exact fun h' => absurd h h'
  · rw [htests]
    rcases hop with ⟨rfl, rfl⟩ | ⟨rfl, rfl, -⟩ <;> simp [Cond.eval, CmpOp.eval, Test.Matches]

/-- The conditions of a boolean operator, on the same variable and of the same polarity. -/
theorem Extracted.boolBinop {op : BoolOp} {c c' : Cond} {allowNotIn notIn : Bool}
    {t t' : Operand} {cs cs' : List Operand}
    (h : Extracted Γ c (decide (op = .and)) notIn t cs)
    (h' : Extracted Γ c' (decide (op = .and)) notIn t' cs') (ht : isCommonValue Γ t t')
    (hop : op = .or ∨ allowNotIn ∧ op = .and) :
    Extracted Γ (.boolBinop op c c') allowNotIn notIn t (cs ++ cs') := by
  have heval' : ∀ env, Γ.Valid env → c'.eval Γ env =
      (notIn ^^ (c'.tests Γ).all (·.any (·.Matches Γ (t.type Γ) (t.value env)))) := by
    intro env henv
    rw [type_eq_of_isCommonValue ht, value_eq_of_isCommonValue ht]
    exact h'.eval env henv
  by_cases hs : op = .and ∧ notIn = false
  · -- An `and` of positive conditions: their groups stay apart.
    obtain ⟨rfl, rfl⟩ := hs
    have htests : Cond.tests Γ (.boolBinop .and c c') = c.tests Γ ++ c'.tests Γ := by
      rw [Cond.tests, if_pos ⟨rfl, by simp [← h.negative]⟩]
    refine ⟨h.negative, ?_, ?_, fun _ => Bool.false_ne_true, fun env henv => ?_⟩
    · rw [htests, h.constants, h'.constants, List.flatten_append, List.flatMap_append]
    · rintro (hn | ha)
      · cases hn
      · exact absurd (hop.elim nofun And.left) ha
    · rw [htests, List.all_append, Cond.eval, h.eval env henv, heval' env henv]
      simp
  · -- Otherwise both have one group, and so has the operator.
    have hsingle : notIn ∨ ¬(decide (op = .and)) := by
      cases op <;> cases notIn <;> simp_all
    obtain ⟨l, hl⟩ := h.single hsingle
    obtain ⟨l', hl'⟩ := h'.single hsingle
    have htests : Cond.tests Γ (.boolBinop op c c') = [l ++ l'] := by
      have hs' : ¬(op = .and ∧ !c.negative) := by
        rw [← h.negative]
        simpa using hs
      rw [Cond.tests, if_neg hs', hl, hl']
      simp
    refine ⟨h.negative, ?_, fun _ => ⟨_, htests⟩, fun ha => ?_, fun env henv => ?_⟩
    · rw [htests, h.constants, h'.constants, hl, hl']
      simp
    · rcases hop with rfl | ⟨ha', -⟩
      · exact h.positive (by simp)
      · exact absurd ha' ha
    · have he := h.eval env henv
      have he' := heval' env henv
      rw [hl] at he
      rw [hl'] at he'
      rw [htests]
      cases op with
      | or =>
        have hn : notIn = false := by simpa using h.positive (by simp)
        subst hn
        simp_all [Cond.eval]
      | and =>
        have hn : notIn = true := by simpa using hs
        subst hn
        simp_all [Cond.eval]

theorem extractConditions_spec {c : Cond} {allowNotIn notIn : Bool} {t : Operand}
    {cs : List Operand} (h : extractConditions Γ c allowNotIn = some (notIn, t, cs)) :
    Extracted Γ c allowNotIn notIn t cs := by
  induction c generalizing allowNotIn notIn t cs with
  | coerceToTemp c ih => exact ⟨(ih h).1, (ih h).2, (ih h).3, (ih h).4, (ih h).5⟩
  | coerceToBoolean c ih => exact ⟨(ih h).1, (ih h).2, (ih h).3, (ih h).4, (ih h).5⟩
  | boolBinopResult c ih => exact ⟨(ih h).1, (ih h).2, (ih h).3, (ih h).4, (ih h).5⟩
  | evalWithTemp c ih => exact ⟨(ih h).1, (ih h).2, (ih h).3, (ih h).4, (ih h).5⟩
  | typecast c ih => exact ⟨(ih h).1, (ih h).2, (ih h).3, (ih h).4, (ih h).5⟩
  | primaryCmp op a b cascade isPython =>
    simp only [extractConditions] at h
    by_cases hcasc : cascade.isSome
    · rw [if_pos hcasc] at h
      cases h
    rw [if_neg hcasc] at h
    obtain rfl : cascade = none := by simpa using hcasc
    split at h
    next s _ =>
      cases h
      exact extracted_contains (.inl ⟨rfl, rfl⟩)
    next s _ =>
      by_cases ha : allowNotIn
      · rw [if_pos ha] at h
        cases h
        exact extracted_contains (.inr ⟨rfl, rfl, ha⟩)
      · rw [if_neg ha] at h
        cases h
    next =>
      by_cases hp : isPython
      · rw [if_pos hp] at h
        cases h
      rw [if_neg hp] at h
      split at h
      · obtain ⟨⟨x, k⟩, hxk, hr⟩ := Option.map_eq_some_iff.1 h
        cases hr
        exact extracted_constantOperand hxk (.inl ⟨rfl, rfl⟩)
      · by_cases ha : allowNotIn
        · rw [if_pos ha] at h
          obtain ⟨⟨x, k⟩, hxk, hr⟩ := Option.map_eq_some_iff.1 h
          cases hr
          exact extracted_constantOperand hxk (.inr ⟨rfl, rfl, ha⟩)
        · rw [if_neg ha] at h
          cases h
      · cases h
  | boolBinop op c c' ih ih' =>
    simp only [extractConditions] at h
    by_cases hop : op = .or ∨ allowNotIn ∧ op = .and
    · rw [if_pos hop] at h
      split at h
      next n₁ t₁ c₁ n₂ t₂ c₂ h₁ h₂ =>
        by_cases hn : n₁ = n₂ ∧ isCommonValue Γ t₁ t₂ ∧ (!n₁ || decide (op = .and))
        · rw [if_pos hn] at h
          cases h
          obtain ⟨rfl, ht, -⟩ := hn
          exact (ih h₁).boolBinop (ih' h₂) ht hop
        · rw [if_neg hn] at h
          cases h
      next => cases h
    · rw [if_neg hop] at h
      cases h
  | other truth => cases h

end AHPy
