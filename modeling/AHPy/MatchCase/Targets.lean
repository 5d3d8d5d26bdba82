import AHPy.MatchCase.Simulation

/-!
# Patterns that the code is right for

* `PatternNode.Valid`: what the compiler checks;
* `PatternNode.Lowerable`: patterns for which the two halves of the code agree;
* `noTargets_of_getTargets`, `pyMatch_of_noTargets`: patterns without targets bind nothing;
* `pyMatch_of_comparesNothing`: irrefutable patterns match;
* `eval_getSimpleComparisonNode`: the conditions of `if` statements.
-/

namespace AHPy.MatchCase

variable {Obj V ε ω : Type}

namespace PatternNode

mutual

/-- Alternatives are there, and bind the same names. -/
def Valid : PatternNode Obj V → Prop
  | value _ _ => True
  | assign _ _ _ => True
  | or alternatives _ => alternatives ≠ [] ∧
    (∀ a ∈ alternatives, ∀ x, x ∈ a.getTargets ↔ x ∈ lastTargets alternatives) ∧
      AllValid alternatives
  | sequence patterns _ => AllValid patterns

def AllValid : List (PatternNode Obj V) → Prop
  | [] => True
  | a :: as => a.Valid ∧ AllValid as

end

mutual

/-- No target anywhere. -/
def NoTargets : PatternNode Obj V → Prop
  | value _ asTargets => asTargets = []
  | assign target _ asTargets => target = none ∧ asTargets = []
  | or alternatives asTargets => AllNoTargets alternatives ∧ asTargets = []
  | sequence patterns asTargets => AllNoTargets patterns ∧ asTargets = []

def AllNoTargets : List (PatternNode Obj V) → Prop
  | [] => True
  | a :: as => a.NoTargets ∧ AllNoTargets as

end

mutual

/-- No comparison with `==`. -/
def ComparesNothing : PatternNode Obj V → Prop
  | value (.constant _) _ => True
  | value (.expression _ _) _ => False
  | assign _ _ _ => True
  | or alternatives _ => AllCompareNothing alternatives
  | sequence patterns _ => AllCompareNothing patterns

def AllCompareNothing : List (PatternNode Obj V) → Prop
  | [] => True
  | a :: as => a.ComparesNothing ∧ AllCompareNothing as

end

/-- Irrefutable patterns that need not be evaluated: captures, and alternatives that neither bind nor
    compare. -/
def TakesAnything : PatternNode Obj V → Prop
  | assign _ _ _ => True
  | or alternatives _ => lastTargets alternatives = [] ∧ AllCompareNothing alternatives
  | _ => False

mutual

/-- No simple value that is compared with `==` has `as` targets, and the irrefutable items of
    sequences need not be evaluated. -/
def Lowerable : PatternNode Obj V → Prop
  | value (.expression _ true) asTargets => asTargets = []
  | value _ _ => True
  | assign _ _ _ => True
  | or alternatives _ => AllLowerable alternatives
  | sequence patterns _ => ItemsLowerable patterns

def AllLowerable : List (PatternNode Obj V) → Prop
  | [] => True
  | a :: as => a.Lowerable ∧ AllLowerable as

def ItemsLowerable : List (PatternNode Obj V) → Prop
  | [] => True
  | a :: as => (a.Lowerable ∧ (a.isIrrefutable = true → a.TakesAnything)) ∧ ItemsLowerable as

end

/-! ## Targets -/

theorem AllValid.mem {as : List (PatternNode Obj V)} (h : AllValid as) {a : PatternNode Obj V}
    (ha : a ∈ as) : a.Valid := by
  induction as with
  | nil => cases ha
  | cons b as ih =>
    rw [AllValid] at h
    rcases List.mem_cons.1 ha with rfl | ha
    · exact h.1
    · exact ih h.2 ha

theorem allTargets_eq_nil {ps : List (PatternNode Obj V)} (h : allTargets ps = []) :
    ∀ p ∈ ps, p.getTargets = [] := by
  induction ps with
  | nil => simp
  | cons p ps ih =>
    rw [allTargets, List.append_eq_nil_iff] at h
    intro q hq
    rcases List.mem_cons.1 hq with rfl | hq
    · exact h.1
    · exact ih h.2 q hq

mutual

/-- A valid pattern without targets has none in its parts. -/
theorem noTargets_of_getTargets :
    ∀ {p : PatternNode Obj V}, p.Valid → p.getTargets = [] → p.NoTargets
  | value _ _, _, h => by rwa [getTargets] at h
  | assign target _ _, _, h => by
    rw [getTargets, List.append_eq_nil_iff, Option.toList_eq_nil_iff] at h
    rwa [NoTargets]
  | or alternatives _, hv, h => by
    rw [getTargets, List.append_eq_nil_iff] at h
    rw [Valid] at hv
    rw [NoTargets]
    refine ⟨allNoTargets_of_getTargets hv.2.2 fun a ha => ?_, h.2⟩
    rw [List.eq_nil_iff_forall_not_mem]
    intro x hx
    have hlast := (hv.2.1 a ha x).1 hx
    rw [h.1] at hlast
    cases hlast
  | sequence patterns _, hv, h => by
    rw [getTargets, List.append_eq_nil_iff] at h
    rw [Valid] at hv
    rw [NoTargets]
    exact ⟨allNoTargets_of_getTargets hv (allTargets_eq_nil h.1), h.2⟩

theorem allNoTargets_of_getTargets : ∀ {ps : List (PatternNode Obj V)}, AllValid ps →
    (∀ p ∈ ps, p.getTargets = []) → AllNoTargets ps
  | [], _, _ => by rw [AllNoTargets]; trivial
  | p :: ps, hv, h => by
    rw [AllValid] at hv
    rw [AllNoTargets]
    exact ⟨noTargets_of_getTargets hv.1 (h p List.mem_cons_self),
      allNoTargets_of_getTargets hv.2 fun q hq => h q (List.mem_cons_of_mem p hq)⟩

end

/-- The alternatives of a valid pattern bind the names of the last one. -/
theorem allNoTargets_of_lastTargets {as : List (PatternNode Obj V)} (hv : AllValid as)
    (hsame : ∀ a ∈ as, ∀ x, x ∈ a.getTargets ↔ x ∈ lastTargets as) (h : lastTargets as = []) :
    AllNoTargets as := by
  refine allNoTargets_of_getTargets hv fun a ha => List.eq_nil_iff_forall_not_mem.2 fun x hx => ?_
  have hlast := (hsame a ha x).1 hx
  rw [h] at hlast
  cases hlast

/-- Really simple alternatives have no targets. -/
theorem allNoTargets_of_areReallySimple {as : List (PatternNode Obj V)} (hv : AllValid as)
    (h : areReallySimple as = true) : AllNoTargets as := by
  induction as with
  | nil =>
    rw [AllNoTargets]
    trivial
  | cons a as ih =>
    rw [AllValid] at hv
    rw [areReallySimple, Bool.and_eq_true, Bool.and_eq_true, List.isEmpty_iff] at h
    rw [AllNoTargets]
    exact ⟨noTargets_of_getTargets hv.1 h.1.2, ih hv.2 h.2⟩

mutual

/-- A pattern without targets has no assignments. -/
theorem createTargetAssignments_of_noTargets : ∀ {P : PatternNode Obj V} (s : Subject) (p : Path),
    P.NoTargets → createTargetAssignments P s p = none
  | value _ _, s, p, h => by
    rw [NoTargets] at h
    rw [createTargetAssignments, asAssignments, asTargets, h]
    rfl
  | assign _ _ _, s, p, h => by
    rw [NoTargets] at h
    rw [createTargetAssignments, asAssignments, asTargets, h.1, h.2]
    rfl
  | or alternatives _, s, p, h => by
    rw [NoTargets] at h
    rw [createTargetAssignments, asAssignments, asTargets, h.2,
      createAlternatives_of_noTargets s p 1 h.1]
    rfl
  | sequence patterns _, s, p, h => by
    rw [NoTargets] at h
    rw [createTargetAssignments, asAssignments, asTargets, h.2, createItems_of_noTargets _ p 0 h.1]
    rfl

theorem createAlternatives_of_noTargets : ∀ {as : List (PatternNode Obj V)} (s : Subject) (p : Path)
    (n : ℕ), AllNoTargets as → createAlternatives as s p n = none
  | [], _, _, _, _ => by rw [createAlternatives]
  | a :: as, s, p, n, h => by
    rw [AllNoTargets] at h
    rw [createAlternatives, createTargetAssignments_of_noTargets s (n :: p) h.1]
    exact createAlternatives_of_noTargets s p (n + 1) h.2

theorem createItems_of_noTargets : ∀ {ps : List (PatternNode Obj V)} (item : ℕ → ItemNode)
    (p : Path) (n : ℕ), AllNoTargets ps → createItems ps item p n = []
  | [], _, _, _, _ => by rw [createItems]
  | a :: as, item, p, n, h => by
    rw [AllNoTargets] at h
    rw [createItems, createTargetAssignments_of_noTargets _ (n :: p) h.1,
      createTargetAssignments_of_noTargets _ (n :: p) h.1, createItems_of_noTargets item p (n + 1) h.2]
    simp

end

theorem statList_eq_none {ss : List (Stmt Obj V)} (h : statList ss = none) : ss = [] := by
  cases ss with
  | nil => rfl
  | cons s ss => cases h

theorem asTargets_of_asAssignments {P : PatternNode Obj V} {s : Subject}
    (h : asAssignments P s = []) : P.asTargets = [] := List.map_eq_nil_iff.1 h

mutual

/-- A pattern without assignments has no targets. -/
theorem getTargets_of_createTargetAssignments : ∀ {P : PatternNode Obj V} {s : Subject} {p : Path},
    createTargetAssignments P s p = none → P.getTargets = []
  | value _ _, _, _, h => by
    rw [createTargetAssignments] at h
    exact asTargets_of_asAssignments (statList_eq_none h)
  | assign _ _ _, _, _, h => by
    rw [createTargetAssignments] at h
    obtain ⟨has, htarget⟩ := List.append_eq_nil_iff.1 (statList_eq_none h)
    rw [getTargets, List.map_eq_nil_iff.1 htarget]
    exact asTargets_of_asAssignments has
  | or alternatives _, _, _, h => by
    rw [createTargetAssignments] at h
    obtain ⟨has, hrest⟩ := List.append_eq_nil_iff.1 (statList_eq_none h)
    rw [getTargets, lastTargets_of_createAlternatives (Option.toList_eq_nil_iff.1 hrest)]
    exact asTargets_of_asAssignments has
  | sequence patterns _, _, _, h => by
    rw [createTargetAssignments] at h
    obtain ⟨has, hrest⟩ := List.append_eq_nil_iff.1 (statList_eq_none h)
    rw [getTargets, allTargets_of_createItems hrest]
    exact asTargets_of_asAssignments has

theorem lastTargets_of_createAlternatives : ∀ {as : List (PatternNode Obj V)} {s : Subject}
    {p : Path} {n : ℕ}, createAlternatives as s p n = none → lastTargets as = []
  | [], _, _, _, _ => rfl
  | a :: as, s, p, n, h => by
    rw [createAlternatives] at h
    cases ha : createTargetAssignments a s (n :: p) with
    | some body => simp only [ha, reduceCtorEq] at h
    | none =>
      simp only [ha] at h
      have hrest := lastTargets_of_createAlternatives h
      cases as with
      | nil => exact getTargets_of_createTargetAssignments ha
      | cons b as => exact hrest

theorem allTargets_of_createItems : ∀ {ps : List (PatternNode Obj V)} {item : ℕ → ItemNode}
    {p : Path} {n : ℕ}, createItems ps item p n = [] → allTargets ps = []
  | [], _, _, _, _ => rfl
  | a :: as, item, p, n, h => by
    rw [createItems, List.append_eq_nil_iff] at h
    rw [allTargets, allTargets_of_createItems h.2, List.append_nil]
    have hitem := h.1
    split_ifs at hitem with hirrefutable htargets
    · exact htargets
    · rw [Option.toList_eq_nil_iff, Option.map_eq_none_iff] at hitem
      exact getTargets_of_createTargetAssignments hitem
    · exact getTargets_of_createTargetAssignments (Option.toList_eq_nil_iff.1 hitem)

end

section

variable [DecidableEq Obj] (rt : Runtime Obj V ε ω)

/-! ## Matches -/

mutual

/-- A pattern without targets binds nothing. -/
theorem pyMatch_of_noTargets : ∀ {P : PatternNode Obj V} {o : Obj} {w w' : ω} {bs : Bindings Obj},
    P.NoTargets → P.pyMatch rt o w = (.ok (some bs), w') → bs = []
  | value v _, o, w, w', bs, h, hm => by
    rw [NoTargets] at h
    rw [pyMatch, h] at hm
    obtain ⟨b, w₁, -, hb⟩ := Run.bind_eq_ok hm
    cases b with
    | false => cases hb
    | true =>
      cases hb
      rfl
  | assign _ _ _, o, w, w', bs, h, hm => by
    rw [NoTargets] at h
    rw [pyMatch, h.1, h.2] at hm
    cases hm
    rfl
  | or alternatives _, o, w, w', bs, h, hm => by
    rw [NoTargets] at h
    rw [pyMatch, h.2] at hm
    obtain ⟨r, w₁, hr, hb⟩ := Run.bind_eq_ok hm
    cases r with
    | none => cases hb
    | some bs' =>
      cases hb
      exact pyMatchFirst_of_noTargets h.1 hr
  | sequence patterns _, o, w, w', bs, h, hm => by
    rw [NoTargets] at h
    rw [pyMatch, h.2] at hm
    cases hx : (rt.items o).bind (splitItems rt patterns) with
    | none =>
      rw [hx] at hm
      cases hm
    | some xs =>
      rw [hx] at hm
      obtain ⟨r, w₁, hr, hb⟩ := Run.bind_eq_ok hm
      cases r with
      | none => cases hb
      | some bs' =>
        cases hb
        exact pyMatchAll_of_noTargets h.1 hr

theorem pyMatchFirst_of_noTargets : ∀ {as : List (PatternNode Obj V)} {o : Obj} {w w' : ω}
    {bs : Bindings Obj}, AllNoTargets as → pyMatchFirst rt as o w = (.ok (some bs), w') → bs = []
  | [], _, _, _, _, _, hm => by
    rw [pyMatchFirst] at hm
    cases hm
  | a :: as, o, w, w', bs, h, hm => by
    rw [AllNoTargets] at h
    rw [pyMatchFirst] at hm
    obtain ⟨r, w₁, hr, hb⟩ := Run.bind_eq_ok hm
    cases r with
    | none => exact pyMatchFirst_of_noTargets h.2 hb
    | some bs' =>
      cases hb
      exact pyMatch_of_noTargets h.1 hr

theorem pyMatchAll_of_noTargets : ∀ {ps : List (PatternNode Obj V)} {xs : List Obj} {w w' : ω}
    {bs : Bindings Obj}, AllNoTargets ps → pyMatchAll rt ps xs w = (.ok (some bs), w') → bs = []
  | [], _, _, _, _, _, hm => by
    rw [pyMatchAll] at hm
    · cases hm
      rfl
    · simp
  | _ :: _, [], _, _, _, _, hm => by
    rw [pyMatchAll] at hm
    · cases hm
      rfl
    · simp
  | a :: as, x :: xs, w, w', bs, h, hm => by
    rw [AllNoTargets] at h
    rw [pyMatchAll] at hm
    obtain ⟨r, w₁, hr, hb⟩ := Run.bind_eq_ok hm
    cases r with
    | none => cases hb
    | some bs₁ =>
      obtain ⟨r', w₂, hr', hb⟩ := Run.bind_eq_ok hb
      cases r' with
      | none => cases hb
      | some bs₂ =>
        cases hb
        rw [pyMatch_of_noTargets h.1 hr, pyMatchAll_of_noTargets h.2 hr']
        rfl

end

mutual

/-- Without comparisons, a match has no effect, and an irrefutable pattern matches. -/
theorem pyMatch_of_comparesNothing : ∀ {P : PatternNode Obj V}, P.ComparesNothing → ∀ o,
    ∃ r, (∀ w, P.pyMatch rt o w = (.ok r, w)) ∧ (P.isIrrefutable = true → r.isSome = true)
  | value (.constant c) as, _, o => by
    refine ⟨if o = c then some (bindAs as o) else none, fun w => ?_, by simp [isIrrefutable]⟩
    rw [pyMatch, pyMatchValue, Run.bind_ok (Run.pure_apply _ w)]
    simp [Run.pure_apply]
  | value (.expression _ _) _, h, _ => by
    rw [ComparesNothing] at h
    exact h.elim
  | assign target _ as, _, o => by
    refine ⟨_, fun w => by rw [pyMatch, Run.pure_apply], by simp⟩
  | or alternatives as, h, o => by
    rw [ComparesNothing] at h
    obtain ⟨r, hr, hirrefutable⟩ := pyMatchFirst_of_comparesNothing h o
    refine ⟨r.map fun bs => bindAs as o ++ bs, fun w => ?_, fun hi => ?_⟩
    · rw [pyMatch, Run.bind_ok (hr w), Run.pure_apply]
    · rw [isIrrefutable] at hi
      rw [Option.isSome_map, hirrefutable hi]
  | sequence patterns as, h, o => by
    rw [ComparesNothing] at h
    cases hx : (rt.items o).bind (splitItems rt patterns) with
    | none =>
      refine ⟨none, fun w => ?_, by simp [isIrrefutable]⟩
      rw [pyMatch, hx]
      rfl
    | some xs =>
      obtain ⟨r, hr⟩ := pyMatchAll_of_comparesNothing h xs
      refine ⟨r.map fun bs => bindAs as o ++ bs, fun w => ?_, by simp [isIrrefutable]⟩
      rw [pyMatch, hx]
      exact (Run.bind_ok (hr w)).trans (Run.pure_apply _ w)

theorem pyMatchFirst_of_comparesNothing : ∀ {as : List (PatternNode Obj V)}, AllCompareNothing as →
    ∀ o, ∃ r, (∀ w, pyMatchFirst rt as o w = (.ok r, w)) ∧
      (anyIrrefutable as = true → r.isSome = true)
  | [], _, o => ⟨none, fun w => by rw [pyMatchFirst, Run.pure_apply], by simp [anyIrrefutable]⟩
  | a :: as, h, o => by
    rw [AllCompareNothing] at h
    obtain ⟨r, hr, hirrefutable⟩ := pyMatch_of_comparesNothing h.1 o
    obtain ⟨r', hr', hirrefutable'⟩ := pyMatchFirst_of_comparesNothing h.2 o
    cases r with
    | none =>
      refine ⟨r', fun w => ?_, fun hi => ?_⟩
      · rw [pyMatchFirst, Run.bind_ok (hr w)]
        exact hr' w
      · rw [anyIrrefutable, Bool.or_eq_true] at hi
        exact hi.elim (fun hi => absurd (hirrefutable hi) (by simp)) hirrefutable'
    | some bs =>
      refine ⟨some bs, fun w => ?_, fun _ => rfl⟩
      rw [pyMatchFirst, Run.bind_ok (hr w)]
      rfl

theorem pyMatchAll_of_comparesNothing : ∀ {ps : List (PatternNode Obj V)}, AllCompareNothing ps →
    ∀ xs, ∃ r, ∀ w, pyMatchAll rt ps xs w = (.ok r, w)
  | [], _, xs => ⟨some [], fun w => by rw [pyMatchAll, Run.pure_apply]; simp⟩
  | _ :: _, _, [] => ⟨some [], fun w => by rw [pyMatchAll, Run.pure_apply]; simp⟩
  | a :: as, h, x :: xs => by
    rw [AllCompareNothing] at h
    obtain ⟨r, hr, -⟩ := pyMatch_of_comparesNothing h.1 x
    obtain ⟨r', hr'⟩ := pyMatchAll_of_comparesNothing h.2 xs
    cases r with
    | none =>
      refine ⟨none, fun w => ?_⟩
      rw [pyMatchAll, Run.bind_ok (hr w)]
      rfl
    | some bs =>
      refine ⟨r'.map fun bs' => bs ++ bs', fun w => ?_⟩
      rw [pyMatchAll, Run.bind_ok (hr w)]
      exact (Run.bind_ok (hr' w)).trans (Run.pure_apply _ w)

end

/-! ## Conditions of `if` statements -/

variable {rt} {root : Obj}

/-- The results of a test that sets nothing. -/
def Decides (T : Temps Obj) (r : Option (Bindings Obj)) (b : Bool) (T' : Temps Obj) : Prop :=
  b = r.isSome ∧ T' = T

/-- The comparison with a value. -/
theorem eval_valueTest {s : Subject} {T : Temps Obj} {o : Obj} (hs : s.get root T = some o)
    (v : ValueNode Obj V) (w : ω) :
    Simulates ((valueTest s v).eval rt root) T (pyMatchValue rt o v) w
      fun b b' T' => b' = b ∧ T' = T := by
  cases v with
  | constant c => exact .read hs (.pure ⟨rfl, rfl⟩)
  | expression v _ => exact .read hs (.lift fun b => ⟨rfl, rfl⟩)

omit [DecidableEq Obj] in
theorem simpleChecks_ne_nil {as : List (PatternNode Obj V)} (h : as ≠ []) (s : Subject) :
    simpleChecks as s ≠ [] := by
  cases as with
  | nil => exact absurd rfl h
  | cons a as =>
    rw [simpleChecks]
    split_ifs <;> simp

theorem eval_of_isTrue {t : Test Obj V} (h : t.isTrue = true) :
    t.eval rt root = (pure true : Code Obj ε ω Bool) := by
  cases t <;> cases h
  rfl

mutual

/-- The condition of a simple pattern decides whether it matches. -/
theorem eval_getSimpleComparisonNode {s : Subject} {T : Temps Obj} {o : Obj}
    (hs : s.get root T = some o) : ∀ {P : PatternNode Obj V}, P.Valid →
      P.isSimpleValueComparison = true → ∀ w : ω,
        Simulates ((P.getSimpleComparisonNode s).eval rt root) T (P.pyMatch rt o) w (Decides T)
  | value v as, _, _, w => by
    rw [getSimpleComparisonNode, pyMatch, ← Code.bind_pure (Test.eval rt root (valueTest s v))]
    refine (eval_valueTest hs v w).bind fun b b' T' w' h _ => .pure ⟨?_, h.2⟩
    rw [h.1]
    cases b <;> rfl
  | assign target _ as, _, _, w => by
    rw [getSimpleComparisonNode, pyMatch]
    exact .pure ⟨rfl, rfl⟩
  | or alternatives as, hv, hsimple, w => by
    rw [Valid] at hv
    rw [isSimpleValueComparison] at hsimple
    rw [getSimpleComparisonNode, pyMatch, eval_binopTree_or rt root (simpleChecks_ne_nil hv.1 s),
      ← Code.bind_pure (orAll _)]
    refine (eval_simpleChecks hs hv.2.2 hsimple w).bind fun r b T' w' h _ => .pure ⟨?_, h.2⟩
    rw [h.1, Option.isSome_map]
  | sequence _ _, _, hsimple, _ => by
    rw [isSimpleValueComparison] at hsimple
    cases hsimple

theorem eval_simpleChecks {s : Subject} {T : Temps Obj} {o : Obj} (hs : s.get root T = some o) :
    ∀ {as : List (PatternNode Obj V)}, AllValid as → areReallySimple as = true → ∀ w : ω,
      Simulates (orAll ((simpleChecks as s).map (Test.eval rt root))) T (pyMatchFirst rt as o) w
        (Decides T)
  | [], _, _, w => by
    rw [simpleChecks, pyMatchFirst]
    exact .pure ⟨rfl, rfl⟩
  | a :: as, hv, hsimple, w => by
    rw [AllValid] at hv
    rw [areReallySimple, Bool.and_eq_true, Bool.and_eq_true] at hsimple
    have ha := eval_getSimpleComparisonNode hs hv.1 hsimple.1.1 w
    rw [simpleChecks, pyMatchFirst]
    by_cases htrue : (a.getSimpleComparisonNode s).isTrue = true
    · -- The other alternatives are not looked at: this one matches.
      rw [if_pos htrue, List.map_singleton, eval_of_isTrue htrue]
      rw [eval_of_isTrue htrue] at ha
      obtain ⟨r, hr, hsome, -⟩ := ha.pure_inv
      obtain ⟨bs, rfl⟩ := Option.isSome_iff_exists.1 hsome.symm
      exact .step hr (.pure ⟨rfl, rfl⟩)
    · rw [if_neg htrue, List.map_cons]
      refine ha.bind fun r b T' w' h _ => ?_
      rw [h.1, h.2]
      cases r with
      | none => exact eval_simpleChecks hs hv.2 hsimple.2 w'
      | some bs => exact .pure ⟨rfl, rfl⟩

end

end

end PatternNode

end AHPy.MatchCase
