import AHPy.Optimize.SwitchExtraction

/-!
# When a switch is equivalent to its condition

The switch built for a condition is taken for the values that are listed in
any of its groups of tests, but the condition holds if every group has a test
that matches. They agree exactly if the condition is safe (`SwitchSafe`, and
`ChainSafe` for the clauses of an `if` statement):

* `switchTransform_equivalent_iff`: the switches of the transform;
* `switchSafe_iff_of_no_strings`: without tests for characters of strings, the
  condition says that no constant wraps, and that the variable takes none of
  the constants of an `and` of positive conditions;
* `switchTransform_and_counterexample`: `x == 1 and x == 2`.
-/

namespace AHPy

variable {Γ : Scope}

/-! ## Labels -/

section Labels

variable (Γ) in
/-- The labels of a group of tests. -/
def groupLabels (t : OperandType) (g : List Test) : List ℤ :=
  g.flatMap fun test => labels Γ t (test.constants Γ)

/-- A value equal to a constant is its label. -/
theorem label_of_matches {t : OperandType} {T T' : CIntType} {c : Operand} {v : ℤ}
    (ht : t.cType = some T) (hc : (c.type Γ).cType = some T') (hv : T.InRange v)
    (h : (Test.equal c).Matches Γ t v) : label Γ t c = v := by
  simp only [Test.Matches, cmpEqual, ht, hc, decide_eq_true_eq] at h
  simp only [label, ht]
  exact (CIntType.eq_convert_of_equal hv h).symm

/-- The labels of a string are converted to its characters. -/
theorem contains_of_mem_labels {t : OperandType} {T : CIntType} (ht : t.cType = some T)
    {s : StringLiteral} {v : ℤ} (h : v ∈ labels Γ t (extractInStringConditions Γ s)) :
    s.contains v := by
  -- A label is the value of its constant modulo 2 ^ 32.
  have hlabel : ∀ x r, label Γ t (.literal x (.int .int) r) ≡ x [ZMOD 2 ^ 32] := by
    intro x r
    have h₁ : label Γ t (.literal x (.int .int) r) = T.promote.convert (CIntType.int.convert x) := by
      simp only [label, ht]
      rfl
    rw [h₁]
    exact ((CIntType.convert_modEq _).of_dvd (pow_dvd_pow 2 CIntType.le_width_promote)).trans
      (CIntType.convert_modEq x)
  cases s with
  | unicode value =>
    obtain ⟨c, hc, rfl⟩ := List.mem_map.1 h
    obtain ⟨n, hn, rfl⟩ := List.mem_map.1 hc
    have hmod : ucs4.convert (label Γ t (intNode n)) = ucs4.convert n.val :=
      CIntType.convert_eq_convert_iff.2 (hlabel _ _)
    have hrange : ucs4.InRange n.val := by
      have := n.isLt
      simp only [CIntType.InRange, CIntType.lo, ucs4, CIntType.unsignedInt]
      norm_num
      omega
    refine List.any_eq_true.2 ⟨n, List.mem_dedup.1 ((List.mem_insertionSort _).1 hn), ?_⟩
    rw [beq_iff_eq, hmod, CIntType.convert_of_inRange hrange]
  | bytes value =>
    obtain ⟨c, hc, rfl⟩ := List.mem_map.1 h
    obtain ⟨b, hb, rfl⟩ := List.mem_map.1 hc
    have hmod : CIntType.unsignedChar.convert (label Γ t (charNode Γ b)) = CIntType.unsignedChar.convert b.val := by
      refine CIntType.convert_eq_convert_iff.2 ?_
      refine ((hlabel _ _).of_dvd (pow_dvd_pow 2 (by decide : 8 ≤ 32))).trans ?_
      split
      · exact (Int.emod_emod_of_dvd _ (dvd_refl _)).symm.trans (by simp)
      · rfl
    have hrange : CIntType.unsignedChar.InRange b.val := by
      have := b.isLt
      simp only [CIntType.InRange, CIntType.lo, CIntType.unsignedChar]
      norm_num
    refine List.any_eq_true.2 ⟨b, List.mem_dedup.1 ((List.mem_insertionSort _).1 hb), ?_⟩
    rw [beq_iff_eq, hmod, CIntType.convert_of_inRange hrange]

variable (Γ) in
/-- The constants of tests are of integer types. -/
def Typed (gs : List (List Test)) : Prop :=
  ∀ g ∈ gs, ∀ c, Test.equal c ∈ g → ∃ T, (c.type Γ).cType = some T

theorem aliases_or_label_of_matches {t : OperandType} {T : CIntType} {g : List Test} {v : ℤ}
    (ht : t.cType = some T) (hg : ∀ c, Test.equal c ∈ g → ∃ T, (c.type Γ).cType = some T)
    (hv : T.InRange v) (h : g.any (·.Matches Γ t v)) :
    g.any (·.Aliases v) ∨ v ∈ groupLabels Γ t g := by
  obtain ⟨test, htest, hm⟩ := List.any_eq_true.1 h
  cases test with
  | equal c =>
    obtain ⟨T', hT'⟩ := hg c htest
    refine .inr (List.mem_flatMap.2 ⟨_, htest, ?_⟩)
    exact List.mem_map.2 ⟨c, List.mem_singleton_self c, label_of_matches ht hT' hv hm⟩
  | contains s => exact .inl (List.any_eq_true.2 ⟨_, htest, hm⟩)

theorem matches_of_aliases {t : OperandType} {g : List Test} {v : ℤ}
    (h : g.any (·.Aliases v)) : g.any (·.Matches Γ t v) := by
  obtain ⟨test, htest, ha⟩ := List.any_eq_true.1 h
  cases test with
  | equal c => cases ha
  | contains s => exact List.any_eq_true.2 ⟨_, htest, ha⟩

/-- No constant is listed twice: equal labels are of the same constant. -/
theorem eq_of_label_eq {t : OperandType} {g : List Test} (h : (groupLabels Γ t g).Nodup)
    {c c' : Operand} (hc : Test.equal c ∈ g) (hc' : Test.equal c' ∈ g)
    (heq : label Γ t c = label Γ t c') : c = c' := by
  by_contra hne
  have : Std.Symm (Function.onFun List.Disjoint fun test : Test =>
      labels Γ t (test.constants Γ)) := ⟨fun _ _ h => List.Disjoint.symm h⟩
  have hd := (List.nodup_flatMap.1 h).2.forall hc hc' fun he => hne (Test.equal.inj he)
  exact hd (List.mem_singleton.2 rfl) (List.mem_singleton.2 heq)

end Labels

/-! ## Expressions -/

variable (Γ) in
/-- When the switch for a condition is equivalent to it, for a variable that takes the values `V`:
    * the labels are distinct;
    * no constant wraps onto a value of the variable, unless that is converted to a character of a
      string in the same group;
    * a value that is listed in one group of tests is converted to a character of a string in
      every other group;
    * a value that is converted to a character of a string in every group is listed. -/
structure SwitchSafe (t : OperandType) (V : ℤ → Prop) (gs : List (List Test)) : Prop where
  distinct : (gs.flatMap (groupLabels Γ t)).Nodup
  not_wrapped : ∀ g ∈ gs, ∀ c, Test.equal c ∈ g → V (label Γ t c) →
    (Test.equal c).Matches Γ t (label Γ t c) ∨ g.any (·.Aliases (label Γ t c))
  others : ∀ g ∈ gs, ∀ g' ∈ gs, ∀ v ∈ groupLabels Γ t g, V v → v ∉ groupLabels Γ t g' →
    g'.any (·.Aliases v)
  listed : ∀ v, V v → (∀ g ∈ gs, g.any (·.Aliases v)) → v ∈ gs.flatMap (groupLabels Γ t)

/-- The values listed in a group match a test of it exactly if no constant of it wraps. -/
theorem matches_listed_iff {t : OperandType} {T : CIntType} (ht : t.cType = some T)
    {V : ℤ → Prop} (hV : ∀ v, V v → T.InRange v) {gs : List (List Test)} (hgs : Typed Γ gs)
    (hd : (gs.flatMap (groupLabels Γ t)).Nodup) :
    (∀ g ∈ gs, ∀ v ∈ groupLabels Γ t g, V v → g.any (·.Matches Γ t v)) ↔
      ∀ g ∈ gs, ∀ c, Test.equal c ∈ g → V (label Γ t c) →
        (Test.equal c).Matches Γ t (label Γ t c) ∨ g.any (·.Aliases (label Γ t c)) := by
  constructor
  · intro h g hg c hc hv
    have hmem : label Γ t c ∈ groupLabels Γ t g :=
      List.mem_flatMap.2 ⟨_, hc, List.mem_singleton.2 rfl⟩
    obtain ⟨test, htest, hm⟩ := List.any_eq_true.1 (h g hg _ hmem hv)
    cases test with
    | equal c' =>
      obtain ⟨T', hT'⟩ := hgs g hg c' htest
      have hc' := eq_of_label_eq ((List.nodup_flatMap.1 hd).1 g hg) htest hc
        (label_of_matches ht hT' (hV _ hv) hm)
      exact .inl (hc' ▸ hm)
    | contains s => exact .inr (List.any_eq_true.2 ⟨_, htest, hm⟩)
  · intro h g hg v hv hVv
    obtain ⟨test, htest, hm⟩ := List.mem_flatMap.1 hv
    cases test with
    | equal c =>
      obtain rfl : v = label Γ t c := List.mem_singleton.1 hm
      rcases h g hg c htest hVv with h | h
      · exact List.any_eq_true.2 ⟨_, htest, h⟩
      · exact matches_of_aliases h
    | contains s => exact List.any_eq_true.2 ⟨_, htest, contains_of_mem_labels ht hm⟩

/-- The labels are distinct and a value is listed exactly if every group matches it. -/
theorem switchSafe_iff {t : OperandType} {T : CIntType} (ht : t.cType = some T)
    {V : ℤ → Prop} (hV : ∀ v, V v → T.InRange v) {gs : List (List Test)} (hgs : Typed Γ gs) :
    SwitchSafe Γ t V gs ↔ (gs.flatMap (groupLabels Γ t)).Nodup ∧ ∀ v, V v →
      (v ∈ gs.flatMap (groupLabels Γ t) ↔ ∀ g ∈ gs, g.any (·.Matches Γ t v)) := by
  constructor
  · rintro ⟨hd, hw, ho, hl⟩
    have hown := (matches_listed_iff ht hV hgs hd).2 hw
    refine ⟨hd, fun v hv => ⟨fun h g' hg' => ?_, fun h => ?_⟩⟩
    · obtain ⟨g, hg, hvg⟩ := List.mem_flatMap.1 h
      by_cases hvg' : v ∈ groupLabels Γ t g'
      · exact hown g' hg' v hvg' hv
      · exact matches_of_aliases (ho g hg g' hg' v hvg hv hvg')
    · -- A value matched by every group is listed in one, or an alias in all.
      by_contra hn
      refine hn (hl v hv fun g hg => ?_)
      rcases aliases_or_label_of_matches ht (hgs g hg) (hV v hv) (h g hg) with ha | hmem
      · exact ha
      · exact absurd (List.mem_flatMap.2 ⟨g, hg, hmem⟩) hn
  · rintro ⟨hd, h⟩
    have hall : ∀ g ∈ gs, ∀ g' ∈ gs, ∀ v ∈ groupLabels Γ t g, V v → g'.any (·.Matches Γ t v) :=
      fun g hg g' hg' v hvg hv => (h v hv).1 (List.mem_flatMap.2 ⟨g, hg, hvg⟩) g' hg'
    refine ⟨hd, (matches_listed_iff ht hV hgs hd).1 fun g hg => hall g hg g hg, ?_, ?_⟩
    · intro g hg g' hg' v hvg hv hvg'
      exact (aliases_or_label_of_matches ht (hgs g' hg') (hV v hv)
        (hall g hg g' hg' v hvg hv)).resolve_right hvg'
    · exact fun v hv ha => (h v hv).2 fun g hg => matches_of_aliases (ha g hg)

variable (Γ) in
/-- The values an operand takes. -/
def CanTake (o : Operand) (v : ℤ) : Prop := ∃ env, Γ.Valid env ∧ o.value env = v

@[simp] theorem canTake_unwrapNode (o : Operand) : CanTake Γ o.unwrapNode = CanTake Γ o := by
  funext v
  simp only [CanTake, Operand.value_unwrapNode]

variable (Γ) in
/-- There are values for all variables. -/
theorem exists_valid : ∃ env, Γ.Valid env := by
  refine ⟨fun p => (Γ.entry p).isConst.getD 0, fun p t ht => ?_, fun p v hv => ?_⟩
  · cases hc : (Γ.entry p).isConst with
    | none => exact CIntType.inRange_zero
    | some v => exact (Γ.entry p).inRange_const v hc t ht
  · rw [Option.mem_def.1 hv]
    rfl

/-- What the transform accepts: conditions on an operand of an integer type. -/
theorem extractCommonConditions_spec {commonVar : Option Operand} {c : Cond}
    {allowNotIn notIn : Bool} {t : Operand} {cs : List Operand}
    (h : extractCommonConditions Γ commonVar c allowNotIn = some (notIn, t, cs)) :
    Extracted Γ c allowNotIn notIn t cs ∧ (∀ v ∈ commonVar, isCommonValue Γ t v) ∧
      (∃ T, (t.type Γ).cType = some T) ∧ ∀ c ∈ cs, ∃ T, (c.type Γ).cType = some T := by
  have htype : ∀ o : Operand, ((o.type Γ).isInt || (o.type Γ).isEnum) = true →
      ∃ T, (o.type Γ).cType = some T := by
    intro o ho
    cases ht : o.type Γ with
    | int T => exact ⟨T, rfl⟩
    | enum T => exact ⟨T, rfl⟩
    | other =>
      rw [ht] at ho
      cases ho
  rw [extractCommonConditions] at h
  split at h
  next => cases h
  next n t' cs' hex =>
    split_ifs at h with hv hts
    cases h
    rw [Bool.and_eq_true, List.all_eq_true] at hts
    refine ⟨extractConditions_spec hex, fun v hv' => ?_, htype t hts.1,
      fun c hc => htype c (hts.2 c hc)⟩
    simpa [Option.mem_def.1 hv'] using hv

theorem Extracted.typed {c : Cond} {allowNotIn notIn : Bool} {t : Operand} {cs : List Operand}
    (h : Extracted Γ c allowNotIn notIn t cs) (hcs : ∀ c ∈ cs, ∃ T, (c.type Γ).cType = some T) :
    Typed Γ (c.tests Γ) := by
  intro g hg k hk
  refine hcs k ?_
  rw [h.constants]
  exact List.mem_flatMap.2 ⟨_, List.mem_flatten.2 ⟨g, hg, hk⟩, List.mem_singleton.2 rfl⟩

/-- The labels of the constants are those of the groups. -/
theorem Extracted.labels {c : Cond} {allowNotIn notIn : Bool} {t : Operand} {cs : List Operand}
    (h : Extracted Γ c allowNotIn notIn t cs) (ty : OperandType) :
    labels Γ ty cs = (c.tests Γ).flatMap (groupLabels Γ ty) := by
  rw [h.constants, AHPy.labels, List.map_flatMap, ← List.flatMap_id, List.flatMap_assoc]
  rfl

/-- The switch with one case is taken as the condition says if the labels are distinct. -/
theorem run_buildSimpleSwitchStatement (t : Operand) (cs : List Operand) (notIn : Bool)
    (env : Env) :
    (buildSimpleSwitchStatement t cs notIn true false).run Γ env =
      if (labels Γ (t.type Γ) cs).Nodup then
        some (notIn ^^ decide (t.value env ∈ labels Γ (t.type Γ) cs))
      else none := by
  simp only [buildSimpleSwitchStatement, Switch.run, Operand.type_unwrapNode,
    Operand.value_unwrapNode, List.flatMap_cons, List.flatMap_nil, List.append_nil]
  by_cases hv : t.value env ∈ labels Γ (t.type Γ) cs <;> cases notIn <;> simp [hv]

/-- The switch for a condition takes the branch of the condition, whatever the values of the
    variables, exactly if it is safe. -/
theorem run_visitCondition_iff {c : Cond} {sw : Switch Bool}
    (h : visitCondition Γ c true false = some sw) :
    (∀ env, Γ.Valid env → sw.run Γ env = some (c.eval Γ env)) ↔
      SwitchSafe Γ (sw.test.type Γ) (CanTake Γ sw.test) (c.tests Γ) := by
  rw [visitCondition] at h
  split_ifs at h with hu
  split at h
  next => cases h
  next notIn t cs hex =>
    split_ifs at h with hl
    cases h
    obtain ⟨hx, -, ⟨T, hT⟩, hcs⟩ := extractCommonConditions_spec hex
    have hV : ∀ v, CanTake Γ t v → T.InRange v := by
      rintro v ⟨env, henv, rfl⟩
      exact Operand.inRange_value henv t hT
    change _ ↔ SwitchSafe Γ (t.unwrapNode.type Γ) (CanTake Γ t.unwrapNode) _
    simp only [Operand.type_unwrapNode, canTake_unwrapNode, run_buildSimpleSwitchStatement,
      hx.labels]
    rw [switchSafe_iff hT hV (hx.typed hcs)]
    have hcond : ∀ env, Γ.Valid env → (c.eval Γ env = (notIn ^^
        decide (t.value env ∈ (c.tests Γ).flatMap (groupLabels Γ (t.type Γ)))) ↔
        (t.value env ∈ (c.tests Γ).flatMap (groupLabels Γ (t.type Γ)) ↔
          ∀ g ∈ c.tests Γ, g.any (·.Matches Γ (t.type Γ) (t.value env)))) := by
      intro env henv
      rw [hx.eval env henv, Bool.xor_right_inj, Bool.eq_iff_iff, List.all_eq_true,
        decide_eq_true_iff]
      exact Iff.comm
    constructor
    · intro hrun
      obtain ⟨env₀, henv₀⟩ := exists_valid Γ
      have hd : ((c.tests Γ).flatMap (groupLabels Γ (t.type Γ))).Nodup := by
        by_contra hd
        have hnone := hrun env₀ henv₀
        rw [if_neg hd] at hnone
        cases hnone
      refine ⟨hd, ?_⟩
      rintro _ ⟨env, henv, rfl⟩
      have hsome := hrun env henv
      rw [if_pos hd] at hsome
      exact (hcond env henv).1 (Option.some.inj hsome).symm
    · rintro ⟨hd, hall⟩ env henv
      rw [if_pos hd, (hcond env henv).2 (hall _ ⟨env, henv, rfl⟩)]

/-- A constant of a type that is not wider than the promoted type of the variable does not wrap. -/
theorem matches_label_of_width_le {t : OperandType} {T T' : CIntType} {c : Operand}
    (ht : t.cType = some T) (hc : (c.type Γ).cType = some T')
    (hw : T'.promote.width ≤ T.promote.width) : (Test.equal c).Matches Γ t (label Γ t c) := by
  simp only [Test.Matches, cmpEqual, ht, hc, decide_eq_true_eq, label]
  exact CIntType.equal_of_eq_convert hw rfl

/-- Without tests for characters of strings: no constant wraps onto a value of the variable, and
    with several groups the variable takes no listed value at all. -/
theorem switchSafe_iff_of_no_strings {t : OperandType} {V : ℤ → Prop} {gs : List (List Test)}
    (hne : gs ≠ []) (hs : ∀ g ∈ gs, ∀ s, Test.contains s ∉ g) :
    SwitchSafe Γ t V gs ↔ (gs.flatMap (groupLabels Γ t)).Nodup ∧
      (∀ g ∈ gs, ∀ c, Test.equal c ∈ g → V (label Γ t c) →
        (Test.equal c).Matches Γ t (label Γ t c)) ∧
      ∀ g ∈ gs, ∀ g' ∈ gs, ∀ v ∈ groupLabels Γ t g, V v → v ∈ groupLabels Γ t g' := by
  have ha : ∀ g ∈ gs, ∀ v, ¬g.any (·.Aliases v) := by
    intro g hg v h
    obtain ⟨test, htest, h⟩ := List.any_eq_true.1 h
    cases test with
    | equal c => cases h
    | contains s => exact hs g hg s htest
  constructor
  · rintro ⟨hd, hw, ho, -⟩
    refine ⟨hd, fun g hg c hc hv => (hw g hg c hc hv).resolve_right (ha g hg _), ?_⟩
    intro g hg g' hg' v hvg hv
    by_contra hn
    exact ha g' hg' v (ho g hg g' hg' v hvg hv hn)
  · rintro ⟨hd, hw, ho⟩
    refine ⟨hd, fun g hg c hc hv => .inl (hw g hg c hc hv), ?_, ?_⟩
    · exact fun g hg g' hg' v hvg hv hn => absurd (ho g hg g' hg' v hvg hv) hn
    · intro v _ h
      obtain ⟨g, hg⟩ := List.exists_mem_of_ne_nil gs hne
      exact absurd (h g hg) (ha g hg v)

/-! ## Chains of clauses -/

section Pick

variable {α β : Type}

/-- The body of the first entry that satisfies `p`. -/
def pick (elseBody : α) (p : β → Bool) : List (β × α) → α
  | [] => elseBody
  | (b, body) :: l => if p b then body else pick elseBody p l

theorem pick_eq_or_mem (elseBody : α) (p : β → Bool) (l : List (β × α)) :
    pick elseBody p l ∈ l.map Prod.snd ++ [elseBody] := by
  induction l with
  | nil => exact List.mem_singleton_self _
  | cons x l ih =>
    rw [pick]
    split
    · exact List.mem_cons_self
    · exact List.mem_cons_of_mem _ ih

/-- Picking by `L`, of which at most one entry satisfies it, and by `M`, which follows from `A`
    and is `L` otherwise, is the same for bodies that differ exactly if `L` implies `M`, no entry
    before the one that satisfies `L` satisfies `A`, and `A` is only satisfied if `L` is. -/
theorem pick_eq_pick_iff {elseBody : α} (L A M : β → Bool) {l : List (β × α)}
    (hl : (l.map Prod.snd ++ [elseBody]).Nodup) (hA : ∀ b ∈ l.map Prod.fst, A b → M b)
    (hM : ∀ b ∈ l.map Prod.fst, M b → A b ∨ L b)
    (hd : (l.map Prod.fst).Pairwise fun b b' => L b → ¬L b') :
    pick elseBody L l = pick elseBody M l ↔ (∀ b ∈ l.map Prod.fst, L b → M b) ∧
      ((l.map Prod.fst).Pairwise fun b b' => L b' → ¬A b) ∧
      ∀ b ∈ l.map Prod.fst, A b → ∃ b' ∈ l.map Prod.fst, L b' := by
  induction l with
  | nil => simp [pick]
  | cons x l ih =>
    obtain ⟨b, body⟩ := x
    simp only [List.map_cons, List.cons_append, List.nodup_cons, List.pairwise_cons,
      List.forall_mem_cons] at hl hA hM hd
    have hne : ∀ p, pick elseBody p l ≠ body := fun p h => hl.1 (h ▸ pick_eq_or_mem elseBody p l)
    have ih := ih hl.2 hA.2 hM.2 hd.2
    simp only [List.map_cons, List.pairwise_cons, List.forall_mem_cons, List.exists_mem_cons_iff,
      pick]
    by_cases hL : L b
    · -- No later entry satisfies `L`: both pick the first one if it satisfies `M`.
      have hl' : ∀ b' ∈ l.map Prod.fst, ¬L b' := fun b' hb' => hd.1 b' hb' hL
      simp only [hL, if_true, true_or, implies_true, and_true]
      constructor
      · intro h
        have hMb : M b := by
          by_contra hMb
          rw [if_neg hMb] at h
          exact hne M h.symm
        exact ⟨⟨fun _ => hMb, fun b' hb' h => absurd h (hl' b' hb')⟩,
          fun b' hb' h => absurd h (hl' b' hb'),
          List.pairwise_of_forall_mem_list fun _ _ b' hb' h => absurd h (hl' b' hb')⟩
      · rintro ⟨⟨hMb, -⟩, -⟩
        rw [if_pos (hMb trivial)]
    · by_cases hMb : M b
      · -- The first entry satisfies `M` by satisfying `A`: only `M` picks it.
        have hAb : A b := (hM.1 hMb).resolve_right hL
        simp only [hL, hMb, if_true, Bool.false_eq_true, if_false]
        refine ⟨fun h => absurd h (hne L), ?_⟩
        rintro ⟨-, ⟨hearlier, -⟩, hlisted, -⟩
        obtain ⟨b', hb', h⟩ := (hlisted hAb).resolve_left nofun
        exact absurd hAb (hearlier b' hb' h)
      · have hAb : ¬A b := fun h => hMb (hA.1 h)
        simp only [hL, hMb, hAb, Bool.false_eq_true, if_false, ih, false_imp_iff, true_and,
          false_or, not_false_eq_true, implies_true]

end Pick

variable (Γ) in
/-- When the switch for a chain of clauses is equivalent to it, one group of tests for each:
    * the labels are distinct;
    * no constant wraps onto a value of the variable, unless that is converted to a character of a
      string in the same clause;
    * no value that is listed in a clause is converted to a character of a string in an earlier one;
    * a value that is converted to a character of a string is listed. -/
structure ChainSafe (t : OperandType) (V : ℤ → Prop) (gs : List (List Test)) : Prop where
  distinct : (gs.flatMap (groupLabels Γ t)).Nodup
  not_wrapped : ∀ g ∈ gs, ∀ c, Test.equal c ∈ g → V (label Γ t c) →
    (Test.equal c).Matches Γ t (label Γ t c) ∨ g.any (·.Aliases (label Γ t c))
  earlier : gs.Pairwise fun g g' => ∀ v ∈ groupLabels Γ t g', V v → ¬g.any (·.Aliases v)
  listed : ∀ g ∈ gs, ∀ v, V v → g.any (·.Aliases v) → v ∈ gs.flatMap (groupLabels Γ t)

/-- The labels are distinct and the clause with the value listed is the first with a test that
    matches. -/
theorem chainSafe_iff {α : Type} {t : OperandType} {T : CIntType} (ht : t.cType = some T)
    {V : ℤ → Prop} (hV : ∀ v, V v → T.InRange v) {l : List (List Test × α)} {elseBody : α}
    (hl : (l.map Prod.snd ++ [elseBody]).Nodup) (hgs : Typed Γ (l.map Prod.fst)) :
    ChainSafe Γ t V (l.map Prod.fst) ↔ ((l.map Prod.fst).flatMap (groupLabels Γ t)).Nodup ∧
      ∀ v, V v → pick elseBody (fun g => decide (v ∈ groupLabels Γ t g)) l =
        pick elseBody (fun g => g.any (·.Matches Γ t v)) l := by
  have hpick : ((l.map Prod.fst).flatMap (groupLabels Γ t)).Nodup → ∀ v, V v →
      (pick elseBody (fun g => decide (v ∈ groupLabels Γ t g)) l =
        pick elseBody (fun g => g.any (·.Matches Γ t v)) l ↔
      (∀ g ∈ l.map Prod.fst, v ∈ groupLabels Γ t g → g.any (·.Matches Γ t v)) ∧
      ((l.map Prod.fst).Pairwise fun g g' => v ∈ groupLabels Γ t g' → ¬g.any (·.Aliases v)) ∧
      ∀ g ∈ l.map Prod.fst, g.any (·.Aliases v) →
        ∃ g' ∈ l.map Prod.fst, v ∈ groupLabels Γ t g') := by
    intro hd v hv
    have h := pick_eq_pick_iff (fun g => decide (v ∈ groupLabels Γ t g))
      (fun g => g.any (·.Aliases v)) (fun g => g.any (·.Matches Γ t v)) hl
      (fun g _ => matches_of_aliases)
      (fun g hg hm => by
        simpa using aliases_or_label_of_matches ht (hgs g hg) (hV v hv) hm)
      ((List.nodup_flatMap.1 hd).2.imp fun hdis h h' => by
        simp only [decide_eq_true_eq] at h h'
        exact hdis h h')
    simpa only [decide_eq_true_eq] using h
  constructor
  · rintro ⟨hd, hw, he, hli⟩
    refine ⟨hd, fun v hv => (hpick hd v hv).2 ⟨fun g hg hvg => ?_, ?_, fun g hg ha => ?_⟩⟩
    · exact (matches_listed_iff ht hV hgs hd).2 hw g hg v hvg hv
    · exact he.imp fun h hvg => h v hvg hv
    · exact List.mem_flatMap.1 (hli g hg v hv ha)
  · rintro ⟨hd, h⟩
    refine ⟨hd, (matches_listed_iff ht hV hgs hd).1 fun g hg v hvg hv => ?_, ?_, ?_⟩
    · exact ((hpick hd v hv).1 (h v hv)).1 g hg hvg
    · rw [List.pairwise_iff_getElem]
      intro i j hi hj hij v hvg hv
      exact List.pairwise_iff_getElem.1 ((hpick hd v hv).1 (h v hv)).2.1 i j hi hj hij hvg
    · exact fun g hg v hv ha =>
        List.mem_flatMap.2 (((hpick hd v hv).1 (h v hv)).2.2 g hg ha)

variable (Γ) in
/-- The tests of a clause. -/
def IfClause.group {α : Type} (cl : IfClause α) : List Test := (cl.condition.tests Γ).flatten

variable (Γ) in
/-- A case made from a clause, for a variable `t`. -/
structure CaseOf {α : Type} (t : Operand) (cl : IfClause α) (case : SwitchCase α) : Prop where
  body : case.body = cl.body
  labels : labels Γ (t.type Γ) case.conditions = groupLabels Γ (t.type Γ) (cl.group Γ)
  typed : ∀ c, Test.equal c ∈ cl.group Γ → ∃ T, (c.type Γ).cType = some T
  eval : ∀ env, Γ.Valid env →
    cl.condition.eval Γ env = (cl.group Γ).any (·.Matches Γ (t.type Γ) (t.value env))

/-- The cases made from clauses on one variable. -/
theorem ifCases_spec {α : Type} {commonVar : Option Operand} {t : Operand}
    {cls : List (IfClause α)} {cases : List (SwitchCase α)}
    (h : ifCases Γ commonVar cls = some (some t, cases)) :
    (∀ v ∈ commonVar, v.type Γ = t.type Γ ∧ ∀ env, v.value env = t.value env) ∧
      (cls ≠ [] → ∃ T, (t.type Γ).cType = some T) ∧ List.Forall₂ (CaseOf Γ t) cls cases := by
  induction cls generalizing commonVar cases with
  | nil =>
    cases h
    refine ⟨fun v hv => ?_, fun h => absurd rfl h, .nil⟩
    cases hv
    exact ⟨rfl, fun _ => rfl⟩
  | cons cl cls ih =>
    rw [ifCases] at h
    split at h
    next => cases h
    next notIn var conditions hex =>
      split at h
      next => cases h
      next t' cases' hrest =>
        cases h
        obtain ⟨hx, hcommon, ⟨T, hT⟩, hcs⟩ := extractCommonConditions_spec hex
        obtain ⟨hvar, -, hall⟩ := ih hrest
        obtain ⟨htype, hvalue⟩ := hvar var rfl
        refine ⟨fun v hv => ?_, fun _ => ⟨T, htype ▸ hT⟩, .cons ⟨rfl, ?_, ?_, ?_⟩ hall⟩
        · have hc := hcommon v hv
          exact ⟨(type_eq_of_isCommonValue hc).symm.trans htype,
            fun env => (value_eq_of_isCommonValue hc env).symm.trans (hvalue env)⟩
        · rw [hx.labels, IfClause.group, groupLabels, ← List.flatMap_id, List.flatMap_assoc]
          rfl
        · intro c hc
          obtain ⟨g, hg, hcg⟩ := List.mem_flatten.1 hc
          exact hx.typed hcs g hg c hcg
        · intro env henv
          obtain ⟨g, hg⟩ := hx.single (.inr nofun)
          have hn : notIn = false := by simpa using hx.positive nofun
          rw [hx.eval env henv, IfClause.group, hg, hn, htype, hvalue]
          simp

section Chain

variable {α : Type} {t : Operand} {cls : List (IfClause α)} {cases : List (SwitchCase α)}

variable (Γ) in
/-- The tests and the bodies of clauses. -/
def entries (cls : List (IfClause α)) : List (List Test × α) :=
  cls.map fun cl => (cl.group Γ, cl.body)

/-- The labels of the cases are those of the clauses. -/
theorem flatMap_labels_of_forall₂ (h : List.Forall₂ (CaseOf Γ t) cls cases) :
    (cases.flatMap fun c => labels Γ (t.type Γ) c.conditions) =
      ((entries Γ cls).map Prod.fst).flatMap (groupLabels Γ (t.type Γ)) := by
  induction h with
  | nil => rfl
  | cons hc _ ih =>
    rw [List.flatMap_cons, ih, hc.labels]
    rfl

/-- The tests of the clauses are of integer types. -/
theorem typed_of_forall₂ (h : List.Forall₂ (CaseOf Γ t) cls cases) :
    Typed Γ ((entries Γ cls).map Prod.fst) := by
  induction h with
  | nil => exact fun g hg => absurd hg List.not_mem_nil
  | cons hc _ ih => exact List.forall_mem_cons.2 ⟨hc.typed, ih⟩

/-- The body of the case with the value listed. -/
theorem find?_of_forall₂ (h : List.Forall₂ (CaseOf Γ t) cls cases) (elseBody : α) (v : ℤ) :
    ((cases.find? fun c => v ∈ labels Γ (t.type Γ) c.conditions).map (·.body)).getD elseBody =
    pick elseBody (fun g => decide (v ∈ groupLabels Γ (t.type Γ) g)) (entries Γ cls) := by
  induction h with
  | nil => rfl
  | @cons cl case cls cases hc _ ih =>
    rw [List.find?_cons, hc.labels, entries, List.map_cons, pick]
    by_cases hv : v ∈ groupLabels Γ (t.type Γ) (cl.group Γ)
    · simp [hv, hc.body]
    · simp only [hv, decide_false, Bool.false_eq_true, if_false]
      exact ih

/-- The body of the first clause with a test that matches. -/
theorem evalIf_of_forall₂ (h : List.Forall₂ (CaseOf Γ t) cls cases) (elseBody : α) {env : Env}
    (henv : Γ.Valid env) :
    evalIf Γ env elseBody cls =
      pick elseBody (fun g => g.any (·.Matches Γ (t.type Γ) (t.value env))) (entries Γ cls) := by
  induction h with
  | nil => rfl
  | cons hc _ ih =>
    rw [evalIf, hc.eval env henv, ih]
    rfl

/-- The switch for an `if` statement takes the clause of the statement, whatever the values of
    the variables, exactly if it is safe. -/
theorem run_visitIfStatNode_iff {elseClause : α} {sw : Switch α}
    (hbodies : (cls.map (·.body) ++ [elseClause]).Nodup)
    (h : visitIfStatNode Γ cls elseClause = some sw) :
    (∀ env, Γ.Valid env → sw.run Γ env = some (evalIf Γ env elseClause cls)) ↔
      ChainSafe Γ (sw.test.type Γ) (CanTake Γ sw.test) (cls.map (·.group Γ)) := by
  rw [visitIfStatNode] at h
  split_ifs at h with hu
  split at h
  next t cases hcases =>
    simp only at h
    split_ifs at h with hlen
    cases h
    obtain ⟨-, htype, hall⟩ := ifCases_spec hcases
    have hne : cls ≠ [] := by
      rintro rfl
      cases hall
      exact hlen rfl
    obtain ⟨T, hT⟩ := htype hne
    have hV : ∀ v, CanTake Γ t v → T.InRange v := by
      rintro v ⟨env, henv, rfl⟩
      exact Operand.inRange_value henv t hT
    have hgs : cls.map (·.group Γ) = (entries Γ cls).map Prod.fst := by simp [entries]
    have htyped := typed_of_forall₂ hall
    have hl : ((entries Γ cls).map Prod.snd ++ [elseClause]).Nodup := by
      rw [entries, List.map_map]
      exact hbodies
    change _ ↔ ChainSafe Γ (t.unwrapNode.type Γ) (CanTake Γ t.unwrapNode) _
    rw [Operand.type_unwrapNode, canTake_unwrapNode, hgs, chainSafe_iff hT hV hl htyped]
    simp only [Switch.run, Operand.type_unwrapNode, Operand.value_unwrapNode,
      flatMap_labels_of_forall₂ hall, find?_of_forall₂ hall]
    constructor
    · intro hrun
      obtain ⟨env₀, henv₀⟩ := exists_valid Γ
      have hd : (((entries Γ cls).map Prod.fst).flatMap (groupLabels Γ (t.type Γ))).Nodup := by
        by_contra hd
        have hnone := hrun env₀ henv₀
        rw [if_neg hd] at hnone
        cases hnone
      refine ⟨hd, ?_⟩
      rintro _ ⟨env, henv, rfl⟩
      have hsome := hrun env henv
      rw [if_pos hd, evalIf_of_forall₂ hall elseClause henv] at hsome
      exact Option.some.inj hsome
    · rintro ⟨hd, hall'⟩ env henv
      rw [if_pos hd, hall' _ ⟨env, henv, rfl⟩, evalIf_of_forall₂ hall elseClause henv]
  next => cases h

end Chain

/-! ## The transform -/

/-- A switch built by the transform takes the branch that the original takes, whatever the values
    of the variables, exactly if it is safe: for conditional expressions, boolean expressions,
    comparisons, and chains of `if` clauses. -/
theorem switchTransform_equivalent_iff (Γ : Scope) :
    (∀ c sw, visitCondExprNode Γ c true false = some sw →
      ((∀ env, Γ.Valid env → sw.run Γ env = some (c.eval Γ env)) ↔
        SwitchSafe Γ (sw.test.type Γ) (CanTake Γ sw.test) (c.tests Γ))) ∧
    (∀ op a b sw, visitBoolBinopNode Γ op a b = some sw →
      ((∀ env, Γ.Valid env → sw.run Γ env = some (Cond.eval Γ env (.boolBinop op a b))) ↔
        SwitchSafe Γ (sw.test.type Γ) (CanTake Γ sw.test) (Cond.tests Γ (.boolBinop op a b)))) ∧
    (∀ op a b cascade py sw, visitPrimaryCmpNode Γ op a b cascade py = some sw →
      ((∀ env, Γ.Valid env →
          sw.run Γ env = some (Cond.eval Γ env (.primaryCmp op a b cascade py))) ↔
        SwitchSafe Γ (sw.test.type Γ) (CanTake Γ sw.test)
          (Cond.tests Γ (.primaryCmp op a b cascade py)))) ∧
    ∀ (α : Type) (cls : List (IfClause α)) (elseClause : α) (sw : Switch α),
      (cls.map (·.body) ++ [elseClause]).Nodup → visitIfStatNode Γ cls elseClause = some sw →
      ((∀ env, Γ.Valid env → sw.run Γ env = some (evalIf Γ env elseClause cls)) ↔
        ChainSafe Γ (sw.test.type Γ) (CanTake Γ sw.test) (cls.map (·.group Γ))) :=
  ⟨fun _ _ => run_visitCondition_iff, fun _ _ _ _ => run_visitCondition_iff,
    fun _ _ _ _ _ _ => run_visitCondition_iff,
    fun _ _ _ _ hbodies => run_visitIfStatNode_iff hbodies⟩

/-- A scope in which all variables are of type `int`. -/
def intScope : Scope where
  entry _ := ⟨.int .int, "v", none, none, nofun⟩
  isPyAttr _ := false
  charSigned := true
  useSwitch := true

/-- `x == c`. -/
def xEqual (c : ℤ) : Cond :=
  .primaryCmp .eq (.name "x") (.literal c (.int .int) (some (.int c))) none false

/-- The switch for `x == 1 or x == 2` is equivalent to it. -/
theorem switchTransform_equivalent_or :
    ∃ sw, visitBoolBinopNode intScope .or (xEqual 1) (xEqual 2) = some sw ∧
      ∀ env, intScope.Valid env →
        sw.run intScope env =
          some (Cond.eval intScope env (.boolBinop .or (xEqual 1) (xEqual 2))) := by
  refine ⟨_, rfl, ((switchTransform_equivalent_iff intScope).2.1 .or _ _ _ rfl).2 ?_⟩
  have htests : Cond.tests intScope (.boolBinop .or (xEqual 1) (xEqual 2)) =
      [[.equal (.literal 1 (.int .int) (some (.int 1))),
        .equal (.literal 2 (.int .int) (some (.int 2)))]] := rfl
  rw [htests, switchSafe_iff_of_no_strings (List.cons_ne_nil _ _) (by simp)]
  refine ⟨by decide, fun g hg c hc _ => ?_, fun g hg g' hg' v hv _ => ?_⟩
  · obtain rfl := List.mem_singleton.1 hg
    have hint : (c.type intScope).cType = some .int := by
      rcases List.mem_pair.1 hc with h | h <;> cases h <;> rfl
    exact matches_label_of_width_le rfl hint le_rfl
  · obtain rfl := List.mem_singleton.1 hg
    obtain rfl := List.mem_singleton.1 hg'
    exact hv

/-- `x == 1 and x == 2` is false for `x = 1`, but the switch for it is taken. -/
theorem switchTransform_and_counterexample :
    ∃ sw, visitBoolBinopNode intScope .and (xEqual 1) (xEqual 2) = some sw ∧
      intScope.Valid (fun _ => 1) ∧ sw.run intScope (fun _ => 1) = some true ∧
      Cond.eval intScope (fun _ => 1) (.boolBinop .and (xEqual 1) (xEqual 2)) = false := by
  refine ⟨_, rfl, ⟨fun _ _ ht => ?_, fun _ => nofun⟩, ?_, ?_⟩
  · cases ht
    decide
  · decide
  · decide

end AHPy
