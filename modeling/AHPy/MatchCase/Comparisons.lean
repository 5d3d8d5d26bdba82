import AHPy.MatchCase.Targets

/-!
# The two halves of the code of a pattern

The comparison of a pattern simulates its match in Python, and sets temporaries of the pattern
and its parts only. If it succeeds, then the assignments, run on any temporaries that agree with
these, bind what Python binds.

* `Same`, `Frame`: temporaries that are left as they were;
* `Assigns`: assignments that bind;
* `eval_getComparisonNode`: by recursion on patterns, with `eval_conditions` for alternatives and
  `eval_patternTests` for items.
-/

namespace AHPy.MatchCase

variable {Obj V ε ω : Type}

/-! ## Temporaries -/

/-- The places of a pattern and its parts. -/
def below (p : Path) : Set Path := {q | p <:+ q}

/-- The places of the parts of a pattern, from number `n` on. -/
def belowFrom (p : Path) (n : ℕ) : Set Path := {q | ∃ m, n ≤ m ∧ m :: p <:+ q}

/-- Temporaries that are the same at some places: those of subjects at `S`, the others at `L`. -/
structure Same (S L : Set Path) (T T' : Temps Obj) : Prop where
  subjects : ∀ q ∈ S, T'.subjects q = T.subjects q
  lengths : ∀ q ∈ L, T'.lengths q = T.lengths q
  which : ∀ q ∈ L, T'.which q = T.which q

section

variable {S S' L L' : Set Path} {T T' T'' : Temps Obj} {p q : Path} {n m : ℕ}

theorem Same.refl (S L : Set Path) (T : Temps Obj) : Same S L T T :=
  ⟨fun _ _ => rfl, fun _ _ => rfl, fun _ _ => rfl⟩

theorem Same.trans (h : Same S L T T') (h' : Same S L T' T'') : Same S L T T'' :=
  ⟨fun q hq => (h'.subjects q hq).trans (h.subjects q hq),
    fun q hq => (h'.lengths q hq).trans (h.lengths q hq),
    fun q hq => (h'.which q hq).trans (h.which q hq)⟩

theorem Same.mono (h : Same S L T T') (hS : S' ⊆ S) (hL : L' ⊆ L) : Same S' L' T T' :=
  ⟨fun q hq => h.subjects q (hS hq), fun q hq => h.lengths q (hL hq),
    fun q hq => h.which q (hL hq)⟩

/-- What the comparison of a pattern leaves as it was. -/
abbrev Frame (p : Path) (T T' : Temps Obj) : Prop := Same (belowFrom p 0)ᶜ (below p)ᶜ T T'

theorem belowFrom_subset_below : belowFrom p n ⊆ below p := by
  rintro q ⟨m, -, hq⟩
  exact (List.suffix_cons m p).trans hq

theorem belowFrom_anti (h : n ≤ m) : belowFrom p m ⊆ belowFrom p n := by
  rintro q ⟨k, hk, hq⟩
  exact ⟨k, h.trans hk, hq⟩

theorem below_child_subset (h : n ≤ m) : below (m :: p) ⊆ belowFrom p n := fun _ hq => ⟨m, h, hq⟩

theorem not_mem_belowFrom_self : p ∉ belowFrom p n := by
  rintro ⟨m, -, hq⟩
  have hlength := hq.length_le
  rw [List.length_cons] at hlength
  omega

/-- The parts of a pattern have different places. -/
theorem below_child_disjoint (h : m < n) : below (m :: p) ⊆ (belowFrom p n)ᶜ := by
  rintro q hq ⟨k, hk, hq'⟩
  have heq := List.suffix_of_suffix_length_le hq hq' (by simp)
  have hcons := heq.eq_of_length (by simp)
  obtain ⟨rfl, -⟩ := List.cons.inj hcons
  omega

/-- Subjects that the parts of a pattern do not set. -/
def Subject.Above (s : Subject) (p : Path) : Prop :=
  match s with
  | .root => True
  | .temp q => q.length ≤ p.length
  | .ref _ => False

theorem not_mem_belowFrom_of_length_le (h : q.length ≤ p.length) : q ∉ belowFrom p n := by
  rintro ⟨m, -, hq⟩
  have hlength := hq.length_le
  rw [List.length_cons] at hlength
  omega

theorem Subject.Above.get {s : Subject} (h : s.Above p) {root : Obj}
    (hT : Same (belowFrom p n)ᶜ L T T') : s.get root T' = s.get root T := by
  cases s with
  | root => rfl
  | temp q => exact hT.subjects q (not_mem_belowFrom_of_length_le h)
  | ref q => exact h.elim

theorem Subject.Above.get_univ {s : Subject} (h : s.Above p) {root : Obj}
    (hT : Same Set.univ L T T') : s.get root T' = s.get root T :=
  h.get (n := 0) (hT.mono (Set.subset_univ _) subset_rfl)

theorem Subject.Above.cons {s : Subject} (h : s.Above p) (n : ℕ) : s.Above (n :: p) := by
  cases s with
  | root => trivial
  | temp q => exact Nat.le_succ_of_le h
  | ref q => exact h.elim

end

/-! ## Assignments -/

section

variable (rt : Runtime Obj V ε ω) (root : Obj)

/-- Assignments that bind, and set no temporaries that comparisons set. -/
def Binds (f : Env Obj → Code Obj ε ω (Env Obj)) (T : Temps Obj) (bs : PatternNode.Bindings Obj) :
    Prop :=
  ∀ (env : Env Obj) (w : ω), ∃ T₂, f env T w = some (.ok (env.bindAll bs, T₂), w) ∧
    Same Set.univ Set.univ T T₂

/-- The assignments bind, on temporaries that are those of the pattern. -/
def Assigns (a : Option (Stmt Obj V)) (s : Subject) (o : Obj) (p : Path) (T' : Temps Obj)
    (bs : PatternNode.Bindings Obj) : Prop :=
  ∀ T, Same (belowFrom p 0) (below p) T' T → s.get root T = some o →
    Binds (execAssignments rt root a) T bs

end

variable {rt : Runtime Obj V ε ω} {root : Obj}

theorem bindAll_append (env : Env Obj) (bs bs' : PatternNode.Bindings Obj) :
    env.bindAll (bs ++ bs') = (env.bindAll bs).bindAll bs' :=
  List.foldl_append

theorem exec_assign {s : Subject} {T : Temps Obj} {o : Obj} (hs : s.get root T = some o) (x : Name)
    (env : Env Obj) (w : ω) : (Stmt.assign x s).exec rt root env T w =
      some (.ok (Function.update env x (some o), T), w) :=
  Code.bind_ok (Code.read_apply hs w)

/-- Assignments of one object. -/
theorem execAll_assign {f : Name → Stmt Obj V} {T : Temps Obj} {o : Obj} {w : ω}
    (hf : ∀ x env, (f x).exec rt root env T w = some (.ok (Function.update env x (some o), T), w))
    (xs : List Name) (env : Env Obj) : execAll rt root (xs.map f) env T w =
      some (.ok (env.bindAll (PatternNode.bindAs xs o), T), w) := by
  induction xs generalizing env with
  | nil => rfl
  | cons x xs ih =>
    rw [List.map_cons, execAll, Code.bind_ok (hf x env), ih]
    rfl

namespace PatternNode

/-- The `as` targets are bound to the object, but for simple values that are equal to it. -/
def BindsSubject (P : PatternNode Obj V) (o : Obj) : Prop :=
  match P with
  | value (.constant c) _ => o = c
  | value (.expression _ true) asTargets => asTargets = []
  | _ => True

theorem execAll_asAssignments {P : PatternNode Obj V} {s : Subject} {T : Temps Obj} {o : Obj}
    (hs : s.get root T = some o) (hP : P.BindsSubject o) (env : Env Obj) (w : ω) :
    execAll rt root (asAssignments P s) env T w =
      some (.ok (env.bindAll (bindAs P.asTargets o), T), w) := by
  rw [asAssignments]
  rcases P with ⟨c | ⟨v, _ | _⟩, as⟩ | ⟨target, isStar, as⟩ | ⟨alternatives, as⟩ | ⟨patterns, as⟩
  · obtain rfl : o = c := hP
    exact execAll_assign (fun _ _ => rfl) _ env
  · exact execAll_assign (fun x env => exec_assign hs x env w) _ env
  · obtain rfl : as = [] := hP
    rfl
  · exact execAll_assign (fun x env => exec_assign hs x env w) _ env
  · exact execAll_assign (fun x env => exec_assign hs x env w) _ env
  · exact execAll_assign (fun x env => exec_assign hs x env w) _ env

/-- The assignments of a pattern: the `as` targets, then those of its parts. -/
theorem assigns_statList {P : PatternNode Obj V} {s : Subject} {p : Path} {T' : Temps Obj} {o : Obj}
    (hP : P.BindsSubject o) {ss : List (Stmt Obj V)} {bs : Bindings Obj}
    (h : ∀ T, Same (belowFrom p 0) (below p) T' T → s.get root T = some o →
      Binds (execAll rt root ss) T bs) :
    Assigns rt root (statList (asAssignments P s ++ ss)) s o p T' (bindAs P.asTargets o ++ bs) := by
  intro T hT hs env w
  rw [execAssignments_statList, execAll_append, Code.bind_ok (execAll_asAssignments hs hP env w),
    bindAll_append]
  exact h T hT hs _ w

/-- The `as` targets alone. -/
theorem assigns_asAssignments {P : PatternNode Obj V} {s : Subject} {o : Obj} (hP : P.BindsSubject o)
    (p : Path) (T' : Temps Obj) :
    Assigns rt root (statList (asAssignments P s)) s o p T' (bindAs P.asTargets o) := by
  intro T _ hs env w
  rw [execAssignments_statList]
  exact ⟨T, execAll_asAssignments hs hP env w, .refl _ _ _⟩

/-- Assignments of a capture. -/
theorem assigns_assign {target : Option Name} {isStar : Bool} {as : List Name} {s : Subject}
    {p : Path} {T' : Temps Obj} {o : Obj} :
    Assigns rt root (createTargetAssignments (assign target isStar as) s p) s o p T'
      (bindAs as o ++ bindAs target.toList o) := by
  rw [createTargetAssignments]
  refine assigns_statList (P := assign target isStar as) trivial fun T _ hs env w => ?_
  exact ⟨T, execAll_assign (fun x env => exec_assign hs x env w) _ env, .refl _ _ _⟩

/-- Assignments of alternatives that bind nothing. -/
theorem assigns_or_of_noTargets {alternatives : List (PatternNode Obj V)} {as : List Name}
    (h : AllNoTargets alternatives) (s : Subject) (p : Path) (T' : Temps Obj) (o : Obj) :
    Assigns rt root (createTargetAssignments (or alternatives as) s p) s o p T' (bindAs as o) := by
  rw [createTargetAssignments, createAlternatives_of_noTargets s p 1 h, Option.toList_none,
    List.append_nil]
  exact assigns_asAssignments (P := or alternatives as) trivial p T'

section

variable [DecidableEq Obj]

/-- A simple pattern that matches binds what its assignments bind. -/
theorem assigns_simple {P : PatternNode Obj V} (hv : P.Valid) (hl : P.Lowerable)
    (hsimple : P.isSimpleValueComparison = true) {o : Obj} {w w' : ω} {bs : Bindings Obj}
    (hm : P.pyMatch rt o w = (.ok (some bs), w')) (s : Subject) (p : Path) (T' : Temps Obj) :
    Assigns rt root (P.createTargetAssignments s p) s o p T' bs := by
  cases P with
  | value v as =>
    rw [pyMatch] at hm
    obtain ⟨b, w₁, hb, hbs⟩ := Run.bind_eq_ok hm
    cases b with
    | false => cases hbs
    | true =>
      cases hbs
      refine assigns_asAssignments (P := value v as) ?_ p T'
      rcases v with c | ⟨v, _ | _⟩
      · rw [pyMatchValue, Run.pure_apply, Prod.mk.injEq, Except.ok.injEq, decide_eq_true_eq] at hb
        exact hb.1
      · trivial
      · rwa [Lowerable] at hl
  | assign target isStar as =>
    cases hm
    exact assigns_assign
  | or alternatives as =>
    rw [Valid] at hv
    rw [isSimpleValueComparison] at hsimple
    have hno := allNoTargets_of_areReallySimple hv.2.2 hsimple
    rw [pyMatch] at hm
    obtain ⟨r, w₁, hr, hbs⟩ := Run.bind_eq_ok hm
    cases r with
    | none => cases hbs
    | some bs' =>
      cases hbs
      obtain rfl := pyMatchFirst_of_noTargets rt hno hr
      change Assigns rt root _ s o p T' (bindAs as o ++ [])
      rw [List.append_nil]
      exact assigns_or_of_noTargets hno s p T' o
  | sequence patterns as =>
    rw [isSimpleValueComparison] at hsimple
    cases hsimple

/-- A pattern that need not be evaluated matches, and binds what its assignments bind. -/
theorem assigns_of_takesAnything (rt : Runtime Obj V ε ω) (root : Obj) {P : PatternNode Obj V} (hv : P.Valid) (h : P.TakesAnything)
    (hirrefutable : P.isIrrefutable = true) (o : Obj) :
    ∃ bs, (∀ w, P.pyMatch rt o w = (.ok (some bs), w)) ∧ (P.getTargets = [] → bs = []) ∧
      ∀ s p T', Assigns rt root (P.createTargetAssignments s p) s o p T' bs := by
  cases P with
  | value v as => exact h.elim
  | assign target isStar as =>
    refine ⟨_, fun w => rfl, fun ht => ?_, fun s p T' => assigns_assign⟩
    rw [getTargets, List.append_eq_nil_iff] at ht
    rw [ht.1, ht.2]
    rfl
  | or alternatives as =>
    rw [Valid] at hv
    rw [isIrrefutable] at hirrefutable
    have hno := allNoTargets_of_lastTargets hv.2.2 hv.2.1 h.1
    obtain ⟨r, hr, hsome⟩ := pyMatchFirst_of_comparesNothing rt h.2 o
    obtain ⟨bs, rfl⟩ := Option.isSome_iff_exists.1 (hsome hirrefutable)
    refine ⟨bindAs as o, fun w => ?_, fun ht => ?_, fun s p T' =>
      assigns_or_of_noTargets hno s p T' o⟩
    · rw [pyMatch, Run.bind_ok (hr w), pyMatchFirst_of_noTargets rt hno (hr w), Option.map_some,
        List.append_nil, Run.pure_apply]
    · rw [getTargets, h.1, List.nil_append] at ht
      rw [ht]
      rfl
  | sequence patterns as => exact h.elim

end

/-! ## Items -/

theorem starLoop_bounds {ps : List (PatternNode Obj V)} {n : ℕ} {star : Option ℕ} {k : ℕ}
    (h : starLoop ps n star = some k) : star = some k ∨ (n ≤ k ∧ k < n + ps.length) := by
  induction ps generalizing n star with
  | nil => exact .inl h
  | cons p ps ih =>
    rw [List.length_cons]
    rcases ih h with hk | ⟨hn, hk⟩
    · cases hp : p.isStar with
      | true =>
        rw [hp, if_pos rfl] at hk
        cases hk
        exact .inr ⟨le_rfl, by omega⟩
      | false =>
        rw [hp] at hk
        exact .inl hk
    · exact .inr ⟨by omega, by omega⟩

theorem starIndex_lt {ps : List (PatternNode Obj V)} {k : ℕ} (h : starIndex ps = some k) :
    k < ps.length := by
  rcases starLoop_bounds h with h | ⟨-, h⟩
  · cases h
  · omega

/-- There is an item for every pattern. -/
theorem length_of_splitItems {ps : List (PatternNode Obj V)} {xs ys : List Obj}
    (h : splitItems rt ps xs = some ys) : ys.length = ps.length := by
  rw [splitItems] at h
  cases hstar : starIndex ps with
  | none =>
    simp only [hstar, Option.ite_none_right_eq_some, Option.some.injEq] at h
    rw [← h.2, h.1]
  | some k =>
    have hk := starIndex_lt hstar
    simp only [hstar, Option.ite_none_right_eq_some, Option.some.injEq] at h
    rw [← h.2, List.length_append, List.length_cons, List.length_take, List.length_drop]
    omega

/-- The index or slice of an item gives the item, if the length has been taken where it is used. -/
theorem get_itemNode {ps : List (PatternNode Obj V)} {s : Subject} {p : Path} {T : Temps Obj}
    {o : Obj} {xs ys : List Obj} (hs : s.get root T = some o) (hxs : rt.items o = some xs)
    (hys : splitItems rt ps xs = some ys)
    (hlength : starIndex ps ≠ none → ps.length ≠ 1 → T.lengths p = some xs.length) {n : ℕ}
    (hn : n < ps.length) : (itemNode ps s p n).get rt root T = ys[n]? := by
  have hbase : (s.get root T).bind rt.items = some xs := by rw [hs, Option.bind_some, hxs]
  have hindex (i : Index) (m : ℕ) (hi : i.get T p = some m) :
      (ItemNode.index s p i).get rt root T = xs[m]? := by
    simp only [ItemNode.get, hbase, hi, Option.bind_eq_bind, Option.bind_some]
  have hfromEnd (i : ℕ) (hstar : starIndex ps ≠ none) (hone : ps.length ≠ 1) (hi : i ≤ xs.length) :
      (Index.fromEnd i).get T p = some (xs.length - i) := by
    rw [Index.get, hlength hstar hone, Option.bind_some, if_pos hi]
  rw [splitItems] at hys
  cases hstar : starIndex ps with
  | none =>
    simp only [hstar, Option.ite_none_right_eq_some, Option.some.injEq] at hys
    simp only [itemNode, hstar]
    rw [hindex _ n rfl, hys.2]
  | some k =>
    have hk := starIndex_lt hstar
    have hsome : starIndex ps ≠ none := by rw [hstar]; exact Option.some_ne_none k
    simp only [hstar, Option.ite_none_right_eq_some, Option.some.injEq] at hys
    obtain ⟨hle, rfl⟩ := hys
    simp only [itemNode, hstar]
    have htake : (xs.take k).length = k := by rw [List.length_take]; omega
    rcases lt_trichotomy n k with hlt | rfl | hgt
    · -- before the star
      rw [if_pos hlt, hindex _ n rfl, List.getElem?_append_left (by omega),
        List.getElem?_take_of_lt hlt]
    · -- the star
      have hstart : (if n = 0 then none else some (Index.fromStart n)).elim (some 0)
          (Index.get T p) = some n := by
        split_ifs with h
        · rw [h]
          rfl
        · rfl
      have hstop : (if ps.length - 1 = n then none else some
          (Index.fromEnd (ps.length - 1 - n))).elim (some xs.length) (Index.get T p) =
            some (xs.length - (ps.length - 1 - n)) := by
        split_ifs with h
        · rw [h, Nat.sub_self, Nat.sub_zero]
          rfl
        · exact hfromEnd _ hsome (by omega) (by omega)
      rw [if_neg (lt_irrefl n), if_pos rfl, List.getElem?_append_right htake.le, htake, Nat.sub_self,
        List.getElem?_cons_zero]
      simp only [ItemNode.get, hbase, hstart, hstop, Option.bind_eq_bind, Option.bind_some]
    · -- after the star
      rw [if_neg (by omega), if_neg (by omega),
        hindex _ _ (hfromEnd _ hsome (by omega) (by omega)),
        List.getElem?_append_right (by omega), htake, List.getElem?_cons, if_neg (by omega),
        List.getElem?_drop]
      congr 1
      omega

/-! ## Comparisons -/

/-- What the comparison of a pattern gives and leaves, for a match. -/
structure Decided (rt : Runtime Obj V ε ω) (root : Obj) (P : PatternNode Obj V) (s : Subject)
    (o : Obj) (p : Path) (T : Temps Obj) (r : Option (Bindings Obj)) (b : Bool) (T' : Temps Obj) :
    Prop where
  frame : Frame p T T'
  result : b = r.isSome
  assigns : ∀ bs, r = some bs → Assigns rt root (P.createTargetAssignments s p) s o p T' bs

/-- What the comparisons of alternatives from number `n` on give and leave. -/
structure Chosen (rt : Runtime Obj V ε ω) (root : Obj) (as : List (PatternNode Obj V)) (s : Subject)
    (o : Obj) (p : Path) (n : ℕ) (T : Temps Obj) (r : Option (Bindings Obj)) (k : ℕ)
    (T' : Temps Obj) : Prop where
  frame : Same (belowFrom p n)ᶜ (belowFrom p n)ᶜ T T'
  number : r.elim (k = 0) fun _ => n ≤ k
  assigns : ∀ bs, r = some bs → ∀ T₁, Same (belowFrom p n) (belowFrom p n) T' T₁ →
    s.get root T₁ = some o → ((createAlternatives as s p n).isSome → T₁.which p = some k) →
      Binds (execAssignments rt root (createAlternatives as s p n)) T₁ bs

/-- What the comparisons of items from position `n` on give and leave. -/
structure Taken (rt : Runtime Obj V ε ω) (root : Obj) (ps : List (PatternNode Obj V))
    (item : ℕ → ItemNode) (s : Subject) (o : Obj) (p : Path) (n : ℕ) (T : Temps Obj)
    (r : Option (Bindings Obj)) (b : Bool) (T' : Temps Obj) : Prop where
  frame : Same (belowFrom p n)ᶜ (belowFrom p n)ᶜ T T'
  result : b = r.isSome
  assigns : ∀ bs, r = some bs → ∀ T₁, Same (belowFrom p n) (belowFrom p n) T' T₁ →
    s.get root T₁ = some o → T₁.lengths p = T.lengths p →
      Binds (execAll rt root (createItems ps item p n)) T₁ bs

theorem decided_of_decides [DecidableEq Obj] {P : PatternNode Obj V} (hv : P.Valid) (hl : P.Lowerable)
    (hsimple : P.isSimpleValueComparison = true) {o : Obj} {w w' : ω} {r : Option (Bindings Obj)}
    (hr : P.pyMatch rt o w = (.ok r, w')) {T T' : Temps Obj} {b : Bool} (h : Decides T r b T')
    (s : Subject) (p : Path) : Decided rt root P s o p T r b T' := by
  obtain ⟨hb, rfl⟩ := h
  refine ⟨.refl _ _ _, hb, fun bs hbs => ?_⟩
  rw [hbs] at hr
  exact assigns_simple hv hl hsimple hr s p T'

/-! ### Alternatives -/

/-- The clause of an alternative that matches. -/
theorem Chosen.first {a : PatternNode Obj V} {as : List (PatternNode Obj V)} (hv : AllValid as)
    {names : List Name} (hsame : ∀ b ∈ a :: as, ∀ x, x ∈ b.getTargets ↔ x ∈ names) {s : Subject}
    {o : Obj} {p : Path} {n : ℕ} {T T' : Temps Obj} {bs : Bindings Obj} {b : Bool}
    (h : Decided rt root a s o (n :: p) T (some bs) b T') :
    Chosen rt root (a :: as) s o p n T (some bs) n T' := by
  refine ⟨h.frame.mono (Set.compl_subset_compl.2 (belowFrom_subset_below.trans
    (below_child_subset le_rfl))) (Set.compl_subset_compl.2 (below_child_subset le_rfl)), le_rfl,
    fun bs' hbs' T₁ hT₁ hs hwhich => ?_⟩
  cases hbs'
  have hbinds := h.assigns bs rfl T₁ (hT₁.mono (belowFrom_subset_below.trans
    (below_child_subset le_rfl)) (below_child_subset le_rfl)) hs
  rw [createAlternatives] at hwhich ⊢
  cases ha : createTargetAssignments a s (n :: p) with
  | none =>
    -- The other alternatives bind nothing either.
    have hnames (x : Name) : x ∉ names := by
      rw [← hsame a List.mem_cons_self x, getTargets_of_createTargetAssignments ha]
      exact List.not_mem_nil
    have hno : AllNoTargets as := allNoTargets_of_getTargets hv fun b hb =>
      List.eq_nil_iff_forall_not_mem.2 fun x hx =>
        hnames x ((hsame b (List.mem_cons_of_mem a hb) x).1 hx)
    simp only
    rw [createAlternatives_of_noTargets s p (n + 1) hno]
    rw [ha] at hbinds
    exact hbinds
  | some body =>
    rw [ha] at hbinds
    simp only [ha, Option.isSome_some, forall_const] at hwhich
    intro env w
    obtain ⟨T₂, hexec, hT₂⟩ := hbinds env w
    refine ⟨T₂, ?_, hT₂⟩
    simp only [execAssignments, Option.elim_some, Stmt.exec]
    rw [Code.bind_ok (Code.read_apply hwhich w), if_pos rfl]
    exact hexec

/-- The clauses of the alternatives after one that does not match. -/
theorem Chosen.later {a : PatternNode Obj V} {as : List (PatternNode Obj V)} {s : Subject} {o : Obj}
    {p : Path} {n : ℕ} {T T' T'' : Temps Obj} {r : Option (Bindings Obj)} {k : ℕ}
    (hframe : Frame (n :: p) T T') (h : Chosen rt root as s o p (n + 1) T' r k T'') :
    Chosen rt root (a :: as) s o p n T r k T'' := by
  have hanti : belowFrom p (n + 1) ⊆ belowFrom p n := belowFrom_anti (Nat.le_succ n)
  refine ⟨?_, ?_, fun bs hbs T₁ hT₁ hs hwhich => ?_⟩
  · have hfirst := hframe.mono (Set.compl_subset_compl.2 (belowFrom_subset_below.trans
      (below_child_subset le_rfl))) (Set.compl_subset_compl.2 (below_child_subset le_rfl))
    exact hfirst.trans (h.frame.mono (Set.compl_subset_compl.2 hanti)
      (Set.compl_subset_compl.2 hanti))
  · cases r with
    | none => exact h.number
    | some bs => exact (Nat.le_succ n).trans h.number
  · have hrest := h.assigns bs hbs T₁ (hT₁.mono hanti hanti) hs
    have hk : n + 1 ≤ k := by
      have hnumber := h.number
      rwa [hbs] at hnumber
    rw [createAlternatives] at hwhich ⊢
    cases ha : createTargetAssignments a s (n :: p) with
    | none =>
      simp only [ha] at hwhich
      exact hrest hwhich
    | some body =>
      simp only [ha, Option.isSome_some, forall_const] at hwhich
      intro env w
      obtain ⟨T₂, hexec, hT₂⟩ := hrest (fun _ => hwhich) env w
      refine ⟨T₂, ?_, hT₂⟩
      simp only [execAssignments, Option.elim_some, Stmt.exec]
      rw [Code.bind_ok (Code.read_apply hwhich w), if_neg (by omega), ← hexec]
      cases createAlternatives as s p (n + 1) <;> rfl

/-- The assignments of alternatives, after the number of one has been set. -/
theorem Chosen.decided {alternatives : List (PatternNode Obj V)} {as : List Name} {s : Subject}
    {o : Obj} {p : Path} {T T' : Temps Obj} {r : Option (Bindings Obj)} {k : ℕ}
    (h : Chosen rt root alternatives s o p 1 T r k T') :
    Decided rt root (or alternatives as) s o p T (r.map fun bs => bindAs as o ++ bs)
      (decide (k ≠ 0)) (T'.setWhich (whichAlternativeTemp alternatives s p) k) := by
  have hsame : Same Set.univ ({p}ᶜ) T' (T'.setWhich (whichAlternativeTemp alternatives s p) k) := by
    rw [whichAlternativeTemp]
    cases createAlternatives alternatives s p 1 with
    | none => exact .refl _ _ _
    | some a => exact ⟨fun _ _ => rfl, fun _ _ => rfl, fun q hq => Function.update_of_ne hq _ _⟩
  have hparts : belowFrom p 1 ⊆ ({p}ᶜ : Set Path) := by
    rintro q hq rfl
    exact not_mem_belowFrom_self hq
  have hanti : belowFrom p 1 ⊆ belowFrom p 0 := belowFrom_anti (Nat.zero_le 1)
  refine ⟨?_, ?_, fun bs hbs => ?_⟩
  · refine (h.frame.mono (Set.compl_subset_compl.2 hanti)
      (Set.compl_subset_compl.2 belowFrom_subset_below)).trans
        (hsame.mono (Set.subset_univ _) (Set.compl_subset_compl.2 ?_))
    rintro q rfl
    exact List.suffix_rfl
  · have hnumber := h.number
    rw [Option.isSome_map]
    cases r with
    | none =>
      obtain rfl : k = 0 := hnumber
      rfl
    | some bs =>
      change 1 ≤ k at hnumber
      simp only [Option.isSome_some, decide_eq_true_eq]
      omega
  · obtain ⟨bs', rfl, rfl⟩ := Option.map_eq_some_iff.1 hbs
    rw [createTargetAssignments]
    refine assigns_statList (P := or alternatives as) trivial fun T₁ hT₁ hs => ?_
    have hbinds := h.assigns bs' rfl T₁ ?_ hs fun hsome => ?_
    · rwa [execAll_toList]
    · exact (hsame.mono (Set.subset_univ _) hparts).trans (hT₁.mono hanti belowFrom_subset_below)
    · rw [hT₁.which p List.suffix_rfl, whichAlternativeTemp]
      cases ha : createAlternatives alternatives s p 1 with
      | none =>
        rw [ha] at hsome
        cases hsome
      | some a => exact Function.update_self _ _ _

/-! ### Items -/

/-- The item nodes from position `n` on give the objects. -/
def Gives (rt : Runtime Obj V ε ω) (root : Obj) (item : ℕ → ItemNode) (s : Subject) (o : Obj)
    (p : Path) (length : Option ℕ) (n : ℕ) (xs : List Obj) : Prop :=
  ∀ T : Temps Obj, s.get root T = some o → T.lengths p = length → ∀ i < xs.length,
    (item (n + i)).get rt root T = xs[i]?

section

variable {item : ℕ → ItemNode} {s : Subject} {o x : Obj} {p : Path} {n : ℕ} {xs : List Obj}
  {length : Option ℕ} {T T' T'' : Temps Obj} {r : Option (Bindings Obj)} {bs bs' : Bindings Obj}
  {b b' : Bool} {a : PatternNode Obj V} {as : List (PatternNode Obj V)}

theorem Gives.head (h : Gives rt root item s o p length n (x :: xs)) (hs : s.get root T = some o)
    (hlength : T.lengths p = length) : (item n).get rt root T = some x :=
  h T hs hlength 0 (Nat.succ_pos _)

theorem Gives.tail (h : Gives rt root item s o p length n (x :: xs)) :
    Gives rt root item s o p length (n + 1) xs := by
  intro T hs hlength i hi
  have hnext := h T hs hlength (i + 1) (Nat.succ_lt_succ hi)
  rwa [Nat.add_comm i 1, ← Nat.add_assoc, Nat.add_comm 1 i, List.getElem?_cons_succ] at hnext

theorem Binds.bind {f g k : Env Obj → Code Obj ε ω (Env Obj)} (hk : ∀ env, k env = f env >>= g)
    (hf : Binds f T bs) (hg : ∀ T₂, Same Set.univ Set.univ T T₂ → Binds g T₂ bs') :
    Binds k T (bs ++ bs') := by
  intro env w
  obtain ⟨T₂, hexec, hT₂⟩ := hf env w
  obtain ⟨T₃, hexec', hT₃⟩ := hg T₂ hT₂ (env.bindAll bs) w
  refine ⟨T₃, ?_, hT₂.trans hT₃⟩
  rw [hk, Code.bind_ok hexec, hexec', bindAll_append]

/-- The comparison of an item leaves those of the items before it. -/
theorem frame_item (h : Frame (n :: p) (T.setSubject (n :: p) x) T') :
    Same (belowFrom p n)ᶜ (belowFrom p n)ᶜ T T' := by
  have hset : Same (belowFrom p n)ᶜ (belowFrom p n)ᶜ T (T.setSubject (n :: p) x) := by
    refine ⟨fun q hq => Function.update_of_ne ?_ _ _, fun _ _ => rfl, fun _ _ => rfl⟩
    rintro rfl
    exact hq ⟨n, le_rfl, List.suffix_rfl⟩
  exact hset.trans (h.mono (Set.compl_subset_compl.2 (belowFrom_subset_below.trans
    (below_child_subset le_rfl))) (Set.compl_subset_compl.2 (below_child_subset le_rfl)))

/-- An item that is evaluated, and matches. -/
theorem Decided.taken
    (h : Decided rt root a (.temp (n :: p)) x (n :: p) (T.setSubject (n :: p) x) (some bs) b T')
    (hirrefutable : a.isIrrefutable = false) (habove : s.Above p)
    (h' : Taken rt root as item s o p (n + 1) T' r b' T'') :
    Taken rt root (a :: as) item s o p n T (r.map fun bs' => bs ++ bs') b' T'' := by
  have hanti : belowFrom p (n + 1) ⊆ belowFrom p n := belowFrom_anti (Nat.le_succ n)
  have hframe : Same (belowFrom p n)ᶜ (belowFrom p n)ᶜ T T' := frame_item h.frame
  have hchild : below (n :: p) ⊆ belowFrom p n := below_child_subset le_rfl
  refine ⟨hframe.trans (h'.frame.mono (Set.compl_subset_compl.2 hanti)
    (Set.compl_subset_compl.2 hanti)), ?_, fun bs'' hbs'' T₁ hT₁ hs hlength => ?_⟩
  · rw [h'.result, Option.isSome_map]
  · obtain ⟨bs', rfl, rfl⟩ := Option.map_eq_some_iff.1 hbs''
    -- What this item has set is not set again, neither by the other items nor before `T₁`.
    have hkeep : Same (below (n :: p)) (below (n :: p)) T' T₁ :=
      (h'.frame.mono (below_child_disjoint (Nat.lt_succ_self n))
        (below_child_disjoint (Nat.lt_succ_self n))).trans (hT₁.mono hchild hchild)
    have hsubject : Subject.get root T₁ (.temp (n :: p)) = some x := by
      refine (hkeep.subjects _ List.suffix_rfl).trans ?_
      exact (h.frame.subjects _ not_mem_belowFrom_self).trans (Function.update_self _ _ _)
    have hfirst := h.assigns bs rfl T₁ (hkeep.mono belowFrom_subset_below subset_rfl) hsubject
    refine Binds.bind (fun env => ?_) hfirst fun T₂ hT₂ => h'.assigns bs' rfl T₂
      ((hT₁.mono hanti hanti).trans (hT₂.mono (Set.subset_univ _) (Set.subset_univ _)))
      ((habove.get_univ hT₂).trans hs) ?_
    · rw [createItems, if_neg (by simp [hirrefutable]), execAll_append, execAll_toList]
    · rw [hT₂.lengths p trivial, hlength, hframe.lengths p not_mem_belowFrom_self]

/-- An item that need not be evaluated. -/
theorem Taken.irrefutable (h' : Taken rt root as item s o p (n + 1) T r b T')
    (hirrefutable : a.isIrrefutable = true) (habove : s.Above p)
    (hgives : Gives rt root item s o p (T.lengths p) n (x :: xs))
    (htargets : a.getTargets = [] → bs = [])
    (h : ∀ s p T', Assigns rt root (a.createTargetAssignments s p) s x p T' bs) :
    Taken rt root (a :: as) item s o p n T (r.map fun bs' => bs ++ bs') b T' := by
  have hanti : belowFrom p (n + 1) ⊆ belowFrom p n := belowFrom_anti (Nat.le_succ n)
  refine ⟨h'.frame.mono (Set.compl_subset_compl.2 hanti) (Set.compl_subset_compl.2 hanti), ?_,
    fun bs'' hbs'' T₁ hT₁ hs hlength => ?_⟩
  · rw [h'.result, Option.isSome_map]
  · obtain ⟨bs', rfl, rfl⟩ := Option.map_eq_some_iff.1 hbs''
    have hrest (T₂ : Temps Obj) (hT₂ : Same Set.univ Set.univ T₁ T₂) :
        Binds (execAll rt root (createItems as item p (n + 1))) T₂ bs' :=
      h'.assigns bs' rfl T₂
        ((hT₁.mono hanti hanti).trans (hT₂.mono (Set.subset_univ _) (Set.subset_univ _)))
        ((habove.get_univ hT₂).trans hs) ((hT₂.lengths p trivial).trans hlength)
    rw [createItems, if_pos hirrefutable]
    by_cases hno : a.getTargets = []
    · rw [if_pos hno, htargets hno]
      exact hrest T₁ (.refl _ _ _)
    · rw [if_neg hno]
      refine Binds.bind (fun env => execAll_append rt root _ _ env) (fun env w => ?_) hrest
      have hbinds := h (.ref (n :: p)) (n :: p) (T₁.setRef (n :: p) x) _ (.refl _ _ _)
        (Function.update_self _ _ _) env w
      obtain ⟨T₂, hexec, hT₂⟩ := hbinds
      rw [execAll_toList]
      cases ha : createTargetAssignments a (.ref (n :: p)) (n :: p) with
      | none =>
        refine absurd (getTargets_of_createTargetAssignments ha) hno
      | some body =>
        rw [ha] at hexec
        refine ⟨T₂, ?_, ⟨hT₂.subjects, hT₂.lengths, hT₂.which⟩⟩
        simp only [execAssignments, Option.map_some, Option.elim_some, Stmt.exec]
        exact (Code.bind_ok (Code.read_apply (hgives.head hs hlength) w)).trans hexec

end

/-- The assignments of a sequence, after the length has been taken. -/
theorem Taken.decided {patterns : List (PatternNode Obj V)} {as : List Name} {s : Subject} {o : Obj}
    {p : Path} {T T₀ T' : Temps Obj} {r : Option (Bindings Obj)} {b : Bool}
    (h : Taken rt root patterns (itemNode patterns s p) s o p 0 T₀ r b T') (hframe : Frame p T T₀) :
    Decided rt root (sequence patterns as) s o p T (r.map fun bs => bindAs as o ++ bs) b T' := by
  refine ⟨hframe.trans (h.frame.mono subset_rfl
    (Set.compl_subset_compl.2 belowFrom_subset_below)), ?_, fun bs hbs => ?_⟩
  · rw [h.result, Option.isSome_map]
  · obtain ⟨bs', rfl, rfl⟩ := Option.map_eq_some_iff.1 hbs
    rw [createTargetAssignments]
    refine assigns_statList (P := sequence patterns as) trivial fun T₁ hT₁ hs => ?_
    refine h.assigns bs' rfl T₁ (hT₁.mono subset_rfl belowFrom_subset_below) hs ?_
    rw [hT₁.lengths p List.suffix_rfl, h.frame.lengths p not_mem_belowFrom_self]

section

variable [DecidableEq Obj] {s : Subject} {o : Obj} {T : Temps Obj} {xs : List Obj}

theorem eval_isSequence (hs : s.get root T = some o) (w : ω) :
    (Test.isSequence s : Test Obj V).eval rt root T w =
      some (.ok ((rt.items o).isSome, T), w) :=
  Code.bind_ok (Code.read_apply hs w)

theorem eval_length (hs : s.get root T = some o) (hxs : rt.items o = some xs)
    (temp : Option Path) (exact : Bool) (n : ℕ) (w : ω) :
    (Test.length s temp exact n : Test Obj V).eval rt root T w =
      some (.ok (if exact then decide (xs.length = n) else decide (n ≤ xs.length),
        T.setLength temp xs.length), w) := by
  have hitems : (s.get root T).bind rt.items = some xs := by rw [hs, Option.bind_some, hxs]
  exact Code.bind_ok (Code.read_apply hitems w)

/-- The tests of the length tell whether the items can be split, and take the length if item nodes
    use it. -/
theorem eval_lengthTests (ps : List (PatternNode Obj V)) (p : Path) (hs : s.get root T = some o)
    (hxs : rt.items o = some xs) (w : ω) :
    ∃ T', andAll ((lengthTests ps s p).map (Test.eval rt root)) T w =
        some (.ok ((splitItems rt ps xs).isSome, T'), w) ∧ Same Set.univ ({p}ᶜ) T T' ∧
      (starIndex ps ≠ none → ps.length ≠ 1 → T'.lengths p = some xs.length) := by
  have hone (t : Test Obj V) : andAll ([t].map (Test.eval rt root)) = t.eval rt root :=
    andBool_true _
  rw [lengthTests, splitItems]
  cases hstar : starIndex ps with
  | none =>
    refine ⟨T, ?_, .refl _ _ _, fun h => absurd rfl h⟩
    simp only
    rw [hone, eval_length hs hxs]
    by_cases hlength : xs.length = ps.length
    · rw [if_pos rfl, if_pos hlength, decide_eq_true hlength]
      rfl
    · rw [if_pos rfl, if_neg hlength, decide_eq_false hlength]
      rfl
  | some star =>
    simp only
    by_cases hlength : ps.length = 1
    · refine ⟨T, ?_, .refl _ _ _, fun _ h => absurd hlength h⟩
      rw [if_pos hlength, if_pos (by omega)]
      rfl
    · refine ⟨T.setLength (some p) xs.length, ?_, ⟨fun _ _ => rfl, fun q hq =>
        Function.update_of_ne hq _ _, fun _ _ => rfl⟩, fun _ _ => Function.update_self _ _ _⟩
      rw [if_neg hlength, hone, eval_length hs hxs]
      by_cases hle : ps.length - 1 ≤ xs.length
      · rw [if_pos hle, decide_eq_true hle]
        rfl
      · rw [if_neg hle, decide_eq_false hle]
        rfl

end

/-! ### Patterns -/

theorem eval_of_simple [DecidableEq Obj] {P : PatternNode Obj V} (hv : P.Valid) (hl : P.Lowerable)
    (hsimple : P.isSimpleValueComparison = true) {s : Subject} {p : Path}
    (hnode : P.getComparisonNode s p = P.getSimpleComparisonNode s) {T : Temps Obj} {o : Obj}
    (hs : s.get root T = some o) (w : ω) :
    Simulates ((P.getComparisonNode s p).eval rt root) T (P.pyMatch rt o) w
      (Decided rt root P s o p T) := by
  rw [hnode]
  exact (eval_getSimpleComparisonNode hs hv hsimple w).imp fun r b T' w' hr h =>
    decided_of_decides hv hl hsimple hr h s p

theorem conditions_ne_nil {as : List (PatternNode Obj V)} (h : as ≠ []) (s : Subject) (p : Path)
    (n : ℕ) : conditions as s p n ≠ [] := by
  cases as with
  | nil => exact absurd rfl h
  | cons a as =>
    rw [conditions]
    split <;> simp

section

variable [DecidableEq Obj]

mutual

/-- The comparison of a pattern simulates its match, and its assignments bind what Python binds. -/
theorem eval_getComparisonNode : ∀ {P : PatternNode Obj V}, P.Valid → P.Lowerable →
    ∀ {s : Subject} {p : Path} {T : Temps Obj} {o : Obj}, s.Above p → s.get root T = some o →
      ∀ w : ω, Simulates ((P.getComparisonNode s p).eval rt root) T (P.pyMatch rt o) w
        (Decided rt root P s o p T)
  | value v as, hv, hl, s, p, T, o, _, hs, w =>
    eval_of_simple hv hl rfl (by rw [getComparisonNode, getSimpleComparisonNode]) hs w
  | assign target isStar as, hv, hl, s, p, T, o, _, hs, w =>
    eval_of_simple hv hl rfl (by rw [getComparisonNode, getSimpleComparisonNode]) hs w
  | or alternatives as, hv, hl, s, p, T, o, habove, hs, w => by
    by_cases hsimple : areReallySimple alternatives = true
    · exact eval_of_simple hv hl hsimple (by rw [getComparisonNode, if_pos hsimple]) hs w
    · rw [Valid] at hv
      rw [Lowerable] at hl
      rw [getComparisonNode, if_neg hsimple, pyMatch, Test.eval,
        eval_binopTree_numbers rt root (conditions_ne_nil hv.1 s p 1)]
      refine (eval_conditions hv.2.2 hl hv.2.1 habove hs one_ne_zero w).bind
        fun r k T' w' h _ => .modify (.pure ?_)
      exact h.decided
  | sequence patterns as, hv, hl, s, p, T, o, habove, hs, w => by
    rw [Valid] at hv
    rw [Lowerable] at hl
    rw [getComparisonNode, pyMatch, List.cons_append,
      eval_binopTree_and rt root (List.cons_ne_nil _ _), List.map_cons, List.map_append]
    change Simulates (andBool (Test.eval rt root (.isSequence s)) (andAll (_ ++ _))) T _ w _
    refine .after (eval_isSequence hs w) ?_
    cases hxs : rt.items o with
    | none => exact .pure ⟨.refl _ _ _, rfl, fun bs hbs => by cases hbs⟩
    | some xs =>
      obtain ⟨T₀, hlengths, hsame, hlength⟩ := eval_lengthTests patterns p hs hxs w
      have hframe : Frame p T T₀ := hsame.mono (Set.subset_univ _)
        (Set.compl_subset_compl.2 fun q hq => hq ▸ List.suffix_rfl)
      rw [Option.isSome_some, if_pos rfl, Option.bind_some, andAll_append]
      refine .after hlengths ?_
      cases hys : splitItems rt patterns xs with
      | none => exact .pure ⟨hframe, rfl, fun bs hbs => by cases hbs⟩
      | some ys =>
        have hs₀ : s.get root T₀ = some o := (habove.get_univ hsame).trans hs
        have hgives : Gives rt root (itemNode patterns s p) s o p (T₀.lengths p) 0 ys := by
          intro T₁ hs₁ hlength₁ i hi
          rw [length_of_splitItems hys] at hi
          rw [Nat.zero_add]
          exact get_itemNode hs₁ hxs hys (fun h h' => hlength₁.trans (hlength h h')) hi
        rw [Option.isSome_some, if_pos rfl, ← Code.bind_pure (andAll _)]
        exact (eval_patternTests hv hl habove hs₀ (length_of_splitItems hys) hgives w).bind
          fun r b T' w' h _ => .pure (h.decided hframe)

/-- Alternatives, from number `n` on. -/
theorem eval_conditions : ∀ {as : List (PatternNode Obj V)}, AllValid as → AllLowerable as →
    ∀ {names : List Name}, (∀ a ∈ as, ∀ x, x ∈ a.getTargets ↔ x ∈ names) →
      ∀ {s : Subject} {p : Path} {T : Temps Obj} {o : Obj}, s.Above p → s.get root T = some o →
        ∀ {n : ℕ}, n ≠ 0 → ∀ w : ω,
          Simulates (firstNumber ((conditions as s p n).map (IntExpr.eval rt root))) T
            (pyMatchFirst rt as o) w (Chosen rt root as s o p n T)
  | [], _, _, _, _, s, p, T, o, _, _, n, _, w => by
    rw [conditions, pyMatchFirst]
    exact .pure ⟨.refl _ _ _, rfl, fun bs hbs => by cases hbs⟩
  | a :: as, hv, hl, names, hsame, s, p, T, o, habove, hs, n, hn, w => by
    rw [AllValid] at hv
    rw [AllLowerable] at hl
    have ha := eval_getComparisonNode hv.1 hl.1 (habove.cons n) hs w
    have hrest {T' : Temps Obj} (hframe : Frame (n :: p) T T') (w' : ω) :
        Simulates (firstNumber ((conditions as s p (n + 1)).map (IntExpr.eval rt root))) T'
          (pyMatchFirst rt as o) w' (Chosen rt root (a :: as) s o p n T) := by
      have hs' : s.get root T' = some o :=
        ((habove.cons n).get (n := 0) hframe).trans hs
      exact (eval_conditions hv.2 hl.2 (fun b hb => hsame b (List.mem_cons_of_mem a hb)) habove hs'
        (Nat.succ_ne_zero n) w').imp fun r k T'' w'' _ h => h.later hframe
    have hcond {e : IntExpr Obj V} (he : e.eval rt root = (do
        let b ← (getComparisonNode a s (n :: p)).eval rt root
        if b then pure n else pure 0)) :
        Simulates (orNumber (e.eval rt root) (firstNumber
          ((conditions as s p (n + 1)).map (IntExpr.eval rt root)))) T
            (pyMatchFirst rt (a :: as) o) w (Chosen rt root (a :: as) s o p n T) := by
      rw [pyMatchFirst, he, orNumber, Code.bind_assoc]
      refine ha.bind fun r b T' w' h _ => ?_
      cases r with
      | none =>
        rw [h.result, Option.isSome_none, if_neg Bool.false_ne_true, Code.pure_bind,
          if_neg (not_not.2 rfl)]
        exact hrest h.frame w'
      | some bs =>
        rw [h.result, Option.isSome_some, if_pos rfl, Code.pure_bind, if_pos hn]
        exact .pure (Chosen.first hv.2 hsame h)
    rw [conditions]
    split
    next htrue =>
      -- The other alternatives are not looked at: this one matches.
      rw [htrue, Test.eval] at ha
      obtain ⟨r, hr, h⟩ := ha.pure_inv
      obtain ⟨bs, rfl⟩ := Option.isSome_iff_exists.1 h.result.symm
      rw [pyMatchFirst, List.map_singleton]
      change Simulates (orNumber (pure n) (pure 0)) T _ w _
      rw [orNumber_zero]
      exact .step hr (.pure (Chosen.first hv.2 hsame h))
    next hfalse => exact hcond (by rw [hfalse]; rfl)
    next => exact hcond rfl

/-- Items, from position `n` on. -/
theorem eval_patternTests : ∀ {ps : List (PatternNode Obj V)}, AllValid ps → ItemsLowerable ps →
    ∀ {item : ℕ → ItemNode} {s : Subject} {p : Path} {T : Temps Obj} {o : Obj} {n : ℕ}
      {xs : List Obj}, s.Above p → s.get root T = some o → xs.length = ps.length →
        Gives rt root item s o p (T.lengths p) n xs → ∀ w : ω,
          Simulates (andAll ((patternTests ps item p n).map (Test.eval rt root))) T
            (pyMatchAll rt ps xs) w (Taken rt root ps item s o p n T)
  | [], _, _, item, s, p, T, o, n, xs, _, _, _, _, w => by
    rw [patternTests, pyMatchAll]
    · refine .pure ⟨.refl _ _ _, rfl, fun bs hbs T₁ _ _ _ env w => ⟨T₁, ?_, .refl _ _ _⟩⟩
      cases hbs
      rw [createItems]
      rfl
    · simp
  | a :: as, hv, hl, item, s, p, T, o, n, [], habove, hs, hlength, hgives, w => by cases hlength
  | a :: as, hv, hl, item, s, p, T, o, n, x :: xs, habove, hs, hlength, hgives, w => by
    rw [AllValid] at hv
    rw [ItemsLowerable] at hl
    have hlength' := Nat.succ.inj hlength
    rw [patternTests, pyMatchAll]
    by_cases hirrefutable : a.isIrrefutable = true
    · obtain ⟨bs, hm, htargets, hassigns⟩ :=
        assigns_of_takesAnything rt root hv.1 (hl.1.2 hirrefutable) hirrefutable x
      rw [if_pos hirrefutable, List.nil_append, ← Code.bind_pure (andAll _)]
      refine .step (hm w) ?_
      exact (eval_patternTests hv.2 hl.2 habove hs hlength' hgives.tail w).bind
        fun r b T' w' h _ => .pure (h.irrefutable hirrefutable habove hgives htargets hassigns)
    · rw [if_neg hirrefutable, List.singleton_append, List.map_cons]
      change Simulates (andBool (Test.eval rt root (.letSubject _ _ _)) (andAll _)) T _ w _
      rw [andBool, Test.eval, Code.bind_assoc]
      refine .read (hgives.head hs rfl) ?_
      rw [Code.bind_assoc]
      refine .modify ?_
      have hsubject : Subject.get root (T.setSubject (n :: p) x) (.temp (n :: p)) = some x :=
        Function.update_self _ _ _
      refine (eval_getComparisonNode hv.1 hl.1.1 (Nat.le_refl _) hsubject w).bind
        fun r b T' w' h _ => ?_
      have hframe := frame_item h.frame
      cases r with
      | none =>
        rw [h.result, Option.isSome_none, if_neg Bool.false_ne_true]
        exact .pure ⟨hframe, rfl, fun bs hbs => by cases hbs⟩
      | some bs =>
        have hs' : s.get root T' = some o := (habove.get hframe).trans hs
        have hlengths : T'.lengths p = T.lengths p := hframe.lengths p not_mem_belowFrom_self
        rw [h.result, Option.isSome_some, if_pos rfl, ← Code.bind_pure (andAll _)]
        refine (eval_patternTests hv.2 hl.2 habove hs' hlength' ?_ w').bind
          fun r b T'' w'' h' _ => .pure (h.taken (Bool.eq_false_of_not_eq_true hirrefutable) habove h')
        rw [hlengths]
        exact hgives.tail

end

end

end PatternNode

end AHPy.MatchCase
