import AHPy.MatchCase.ClassChecks

/-!
# When class patterns agree with Python

The code for a class pattern checks keyword sub-patterns before positional ones, looks for
duplicate names before any lookup, goes on after a failed lookup, and does not let a class match
itself next to keyword sub-patterns. Where none of this shows, it does what Python does.

* `ClassMatch.AgreesOn`: the condition for this;
* `ClassMatch.correct_iff`: the code is correct if and only if it holds.
-/

namespace AHPy.MatchCase

namespace ClassPattern

variable {Obj ε : Type}

/-! ## The claim -/

/-- What the caller relies on: the sub-subjects that are wanted are there if the result is 1, and
    an exception is set if and only if it is -1. -/
structure CallResult.Keeps (r : CallResult Obj ε) (requested : List Bool) : Prop where
  cases : r.result = 1 ∨ r.result = 0 ∨ r.result = -1
  bound : r.result = 1 → List.Forall₂ (fun wanted o => wanted = true → o.isSome = true)
    requested r.subjects
  pending : r.result = -1 ↔ r.pending ≠ none

/-- The generated code does what Python does, and the C function keeps to its protocol. -/
structure ClassMatch.Correct [DecidableEq Obj] (m : ClassMatch Obj ε) : Prop where
  keeps : ∀ c, m.cls = some c → m.isInstance = .ok true → m.positional ≠ [] →
    ∃ r, m.positionalCall c = some r ∧ r.Keeps m.requested
  same : m.run.map observe = some (observe m.pyRun)

/-! ## The condition -/

/-- Known to match itself: a builtin type, or an extension type that extends `bool`, `float` or
    `int`. -/
def KnownType.HintsSelf : KnownType → Prop
  | builtin t => t ≠ .other
  | extension _ _ base => base = some .bool ∨ base = some .float ∨ base = some .int

namespace ClassMatch

variable (m : ClassMatch Obj ε)

/-- The pattern has one sub-pattern, and its class is known to match itself. -/
def Hinted : Prop :=
  m.positional.length = 1 ∧ m.keywords = [] ∧ ∃ t ∈ m.knownType, t.HintsSelf

/-- The attributes that Python looks up, if `__match_args__` has these elements. -/
def attributes (items : List (Item Obj ε)) : List (Item Obj ε) :=
  items.take m.positional.length ++ m.keywordItems

/-- Python finds these subjects for the positional and the keyword sub-patterns. -/
def Finds (c : ClassObject Obj ε) (positional keyword : List Obj) : Prop :=
  Found m.getAttr m.keywordItems keyword ∧
    (m.positional = [] ∧ positional = [] ∨
      m.positional.length = 1 ∧ c.matchArgs = .missing ∧ c.builtin ≠ .other ∧
        positional = [m.subject] ∨
      m.positional ≠ [] ∧ ∃ items, c.matchArgs = .tuple items ∧
        m.positional.length ≤ items.length ∧ (m.attributes items).Nodup ∧
        Found m.getAttr (items.take m.positional.length) positional)

/-- When the code for a class pattern agrees with Python, on instances of the class. -/
structure AgreesOn (c : ClassObject Obj ε) : Prop where
  /-- A class that matches itself does so without keyword sub-patterns, and is known to. -/
  matchSelf : m.positional.length = 1 → c.matchArgs = .missing → c.builtin ≠ .other →
    m.keywords = [] ∧
      ((∃ t ∈ m.knownType, t.HintsSelf) ∨ m.hasFlag = true ∨ m.isListed c.builtin = true)
  /-- A class that is known to match itself has no `__match_args__`, or these name the subject. -/
  hinted : m.Hinted → c.matchArgs = .missing ∨
    ∃ name items o, c.matchArgs = .tuple (.str name :: items) ∧ m.getAttr name = .value o ∧
      (o = m.subject ∨ ∀ p ∈ m.positional, p.hasTemp = false)
  /-- Python raises, too, for duplicate names. -/
  duplicates : ¬ m.Hinted → m.positional ≠ [] → ∀ items, c.matchArgs = .tuple items →
    m.positional.length ≤ items.length → ¬ (m.keywords = [] ∧ items.length = 1) →
    ∀ before e, Complains (m.attributes items) before e → Fair m.getAttr e before
  /-- The lookups for positional sub-patterns raise `AttributeError` only. -/
  lookups : ¬ m.Hinted → m.positional ≠ [] → ∀ items, c.matchArgs = .tuple items →
    m.positional.length ≤ items.length → (∀ before e, ¬ Complains (m.attributes items) before e) →
    LooksUp m.getAttr (items.take m.positional.length)
  /-- The sub-patterns are checked in Python's order. -/
  order : ∀ positional keyword, m.Finds c positional keyword → m.InOrder positional keyword

/-! ## The hint -/

end ClassMatch

theorem KnownType.matchSelf_eq_one {t : KnownType} : t.matchSelf = 1 ↔ t.HintsSelf := by
  cases t with
  | builtin t =>
    rw [matchSelf, HintsSelf]
    split
    next h => exact iff_of_false (by decide) fun h' => h' h
    next h => exact iff_of_true rfl h
  | extension isExternal hasMethodTable base =>
    rw [matchSelf, HintsSelf]
    split
    next h => exact iff_of_true rfl h
    next h =>
      refine iff_of_false ?_ h
      split <;> decide

theorem KnownType.matchSelf_cases {t : KnownType} (h : ¬ t.HintsSelf) :
    t.matchSelf = -1 ∨ t.matchSelf = 0 ∧ ∀ c : ClassObject Obj ε, t.Describes c →
      c.builtin = .other := by
  cases t with
  | builtin t =>
    rw [HintsSelf, not_not] at h
    exact .inl (if_pos h)
  | extension isExternal hasMethodTable base =>
    rw [HintsSelf] at h
    rw [matchSelf, if_neg h]
    split
    next => exact .inl rfl
    next hknown =>
      refine .inr ⟨rfl, fun c hc => ?_⟩
      simp only [Bool.or_eq_true, not_or, Bool.not_eq_true, Option.isSome_eq_false_iff,
        Option.isNone_iff_eq_none] at hknown
      exact hc.2 hknown.2 hknown.1.1

namespace ClassMatch

variable {m : ClassMatch Obj ε}

theorem keywordNames_eq_nil : m.keywordNames = [] ↔ m.keywords = [] := List.map_eq_nil_iff

theorem calculateMatchSelf_eq_one : m.calculateMatchSelf = 1 ↔ m.Hinted := by
  rw [calculateMatchSelf, Hinted]
  split
  next h =>
    refine iff_of_false (by decide) fun h' => ?_
    exact h.elim (fun h => h h'.1) fun h => h (keywordNames_eq_nil.mpr h'.2.1)
  next h =>
    rw [not_or, not_not, not_not, keywordNames_eq_nil] at h
    cases hknown : m.knownType with
    | none =>
      refine iff_of_false (by decide) ?_
      rintro ⟨-, -, t, ht, -⟩
      cases ht
    | some t =>
      rw [Option.elim_some, KnownType.matchSelf_eq_one]
      refine ⟨fun ht => ⟨h.1, h.2, t, rfl, ht⟩, ?_⟩
      rintro ⟨-, -, t', ht', hhints⟩
      cases ht'
      exact hhints

/-- Unless the hint is 1, the C code lets a class match itself if it should. -/
theorem decideMatchSelf_of_not_hinted {c : ClassObject Obj ε} (hcls : m.cls = some c)
    (h : ¬ m.Hinted) : m.decideMatchSelf c m.calculateMatchSelf = true ↔
      m.positional.length = 1 ∧ m.keywords = [] ∧ c.builtin ≠ .other ∧
        (m.hasFlag = true ∨ m.isListed c.builtin = true) := by
  have hlisted : m.isListed c.builtin = true → c.builtin ≠ .other := by
    intro hl heq
    rw [heq] at hl
    cases hl
  have hunknown : (if m.hasFlag then c.matchesSelf else m.isListed c.builtin) = true ↔
      c.builtin ≠ .other ∧ (m.hasFlag = true ∨ m.isListed c.builtin = true) := by
    cases hflag : m.hasFlag with
    | true =>
      rw [if_pos rfl, ClassObject.matchesSelf, decide_eq_true_iff]
      exact ⟨fun h => ⟨h, .inl rfl⟩, And.left⟩
    | false =>
      rw [if_neg Bool.false_ne_true]
      exact ⟨fun h => ⟨hlisted h, .inr h⟩, fun h => h.2.resolve_left Bool.false_ne_true⟩
  rw [calculateMatchSelf]
  split
  next hshape =>
    refine iff_of_false Bool.false_ne_true fun h' => ?_
    exact hshape.elim (fun hs => hs h'.1) fun hs => hs (keywordNames_eq_nil.mpr h'.2.1)
  next hshape =>
    rw [not_or, not_not, not_not, keywordNames_eq_nil] at hshape
    have hrest : ∀ {p : Prop}, (m.positional.length = 1 ∧ m.keywords = [] ∧ p) ↔ p :=
      fun {p} => ⟨fun h => h.2.2, fun h => ⟨hshape.1, hshape.2, h⟩⟩
    rw [hrest]
    cases hknown : m.knownType with
    | none => exact hunknown
    | some t =>
      have hhint : ¬ t.HintsSelf := fun ht => h ⟨hshape.1, hshape.2, t, hknown, ht⟩
      rcases KnownType.matchSelf_cases hhint with ht | ⟨ht, hother⟩
      · rw [Option.elim_some, ht]
        exact hunknown
      · obtain ⟨c', hc', hdescribes⟩ := m.described t hknown
        cases hcls.symm.trans hc'
        rw [Option.elim_some, ht]
        exact iff_of_false Bool.false_ne_true fun h' => h'.1 (hother c hdescribes)

/-! ## What Python finds -/

section

variable {c : ClassObject Obj ε}

theorem requested_eq : (m.positionalPlaces.map fun p => p.2.hasTemp) = m.requested := by
  refine List.ext_getElem ?_ fun i hi hi' => ?_
  · rw [List.length_map, length_positionalPlaces, requested, List.length_map]
  · simp only [positionalPlaces, requested, List.getElem_map, List.getElem_mapIdx]

theorem exists_keyed : ∃ keys, Keyed m.keywordItems keys := by
  refine Keyed.of_strings ?_ fun item h => ?_
  · exact m.distinct.map fun _ _ h => Item.str.inj h
  · obtain ⟨name, -, rfl⟩ := List.mem_map.mp h
    exact ⟨name, rfl⟩

theorem positional_ne_nil (hone : m.positional.length = 1) : m.positional ≠ [] := by
  intro hnil
  rw [hnil] at hone
  cases hone

theorem finds_nil (h : m.positional = []) (p k : List Obj) :
    m.Finds c p k ↔ p = [] ∧ Found m.getAttr m.keywordItems k := by
  rw [Finds, h, and_comm]
  refine and_congr_left fun _ => ⟨?_, fun hp => .inl ⟨rfl, hp⟩⟩
  rintro (⟨-, hp⟩ | ⟨hlength, -⟩ | ⟨hne, -⟩)
  · exact hp
  · cases hlength
  · exact (hne rfl).elim

theorem finds_self (hone : m.positional.length = 1) (hm : c.matchArgs = .missing)
    (hself : c.builtin ≠ .other) (p k : List Obj) :
    m.Finds c p k ↔ p = [m.subject] ∧ Found m.getAttr m.keywordItems k := by
  rw [Finds, and_comm]
  refine and_congr_left fun _ => ⟨?_, fun hp => .inr (.inl ⟨hone, hm, hself, hp⟩)⟩
  rintro (⟨hnil, -⟩ | ⟨-, -, -, hp⟩ | ⟨-, items, hitems, -⟩)
  · rw [hnil] at hone
    cases hone
  · exact hp
  · rw [hm] at hitems
    cases hitems

theorem pySubjects_self (hone : m.positional.length = 1) (hm : c.matchArgs = .missing)
    (hself : c.builtin ≠ .other) : m.pySubjects c =
      (itemLookups m.getAttr m.keywordItems).map (Option.map ([m.subject] ++ ·)) := by
  obtain ⟨keys, hkeys⟩ := exists_keyed (m := m)
  have hne : ¬ m.positional.isEmpty = true := by
    rw [List.isEmpty_iff]
    intro hnil
    rw [hnil] at hone
    cases hone
  have hmatches : c.matchesSelf = true := decide_eq_true hself
  rw [pySubjects, if_neg hne, hm]
  simp only [hone, hmatches, if_true, Nat.lt_irrefl, if_false, pyLookups_keyed hkeys]
  rfl

theorem binds_self (hone : m.positional.length = 1) {o : Obj}
    (ho : o = m.subject ∨ ∀ p ∈ m.positional, p.hasTemp = false) :
    Binds m.positionalPlaces [o]
      (m.requested.map fun requested => if requested then some m.subject else none) := by
  obtain ⟨p, hp⟩ := List.length_eq_one_iff.mp hone
  rw [positionalPlaces, requested, hp]
  refine .cons (fun htemp => ?_) .nil
  rcases ho with rfl | ho
  · exact if_pos htemp
  · rw [ho p (hp ▸ List.mem_singleton_self p)] at htemp
    cases htemp

theorem length_requested : m.requested.length = m.positional.length := List.length_map _

/-- The attributes that `__match_args__` names are found. -/
theorem finds_tuple (hne : m.positional ≠ []) {items : List (Item Obj ε)}
    (hm : c.matchArgs = .tuple items) (hlength : m.positional.length ≤ items.length)
    (hnodup : (m.attributes items).Nodup) {positional : List Obj}
    (hfound : Found m.getAttr (items.take m.positional.length) positional) (p k : List Obj) :
    m.Finds c p k ↔ p = positional ∧ Found m.getAttr m.keywordItems k := by
  rw [Finds, and_comm]
  refine and_congr_left fun _ => ⟨?_, ?_⟩
  · rintro (⟨hnil, -⟩ | ⟨-, hmissing, -⟩ | ⟨-, items', hitems', -, -, hp⟩)
    · exact (hne hnil).elim
    · rw [hm] at hmissing
      cases hmissing
    · rw [hm] at hitems'
      cases hitems'
      have heq := (itemLookups_eq_some.mpr hp).symm.trans (itemLookups_eq_some.mpr hfound)
      exact Option.some.inj (Except.ok.inj heq)
  · rintro rfl
    exact .inr (.inr ⟨hne, items, hm, hlength, hnodup, hfound⟩)

end

/-! ## Calls that return -/

theorem keeps_raise {e : Exc Obj ε} {s : List (Option Obj)} {requested : List Bool} :
    CallResult.Keeps ⟨-1, s, some e⟩ requested :=
  ⟨.inr (.inr rfl), fun h => absurd h (by decide : (-1 : ℤ) ≠ 1),
    iff_of_true rfl (Option.some_ne_none e)⟩

/-- What `Correct` says for an instance of the class. -/
structure CorrectOn [DecidableEq Obj] (m : ClassMatch Obj ε) (c : ClassObject Obj ε) : Prop where
  keeps : m.positional ≠ [] → ∃ r, m.positionalCall c = some r ∧ r.Keeps m.requested
  same : (m.runInstance c).map observe = some (observe (m.pyConclude (m.pySubjects c)))

section

variable [DecidableEq Obj] {c : ClassObject Obj ε}

theorem runInstance_of_call (h : m.positional ≠ []) {r : CallResult Obj ε}
    (hr : m.positionalCall c = some r) : m.runInstance c =
      if r.result = -1 then r.pending.map fun e => ([], .raised e)
      else if r.result = 0 then some ([], .unmatched)
      else m.runKeywords r.subjects := by
  rw [runInstance, if_neg (by rwa [List.isEmpty_iff])]
  simp only [hr]

omit [DecidableEq Obj] in
theorem observe_pyConclude_raised {r : Except (Exc Obj ε) (Option (List Obj))}
    {k : Option ε} : observe (m.pyConclude r) = ([], .raised k) ↔
      ∃ x, r = .error x ∧ x.kind = k := by
  constructor
  · intro h
    rcases r with x | r
    · exact ⟨x, rfl, Outcome.raised.inj (congrArg Prod.snd h)⟩
    · cases r with
      | none => cases congrArg Prod.snd h
      | some values =>
        rw [pyConclude, pyMatchSubjects] at h
        rw [observe_conclude_of_nil (congrArg Prod.fst h)] at h
        cases h
  · rintro ⟨x, rfl, rfl⟩
    rfl

/-- A call that raises. -/
theorem correctOn_raise_iff (h : m.positional ≠ []) {e : Exc Obj ε} {s : List (Option Obj)}
    (hr : m.positionalCall c = some ⟨-1, s, some e⟩) :
    m.CorrectOn c ↔ ∃ x, m.pySubjects c = .error x ∧ x.kind = e.kind := by
  have hrun : m.runInstance c = some ([], .raised e) := by
    rw [runInstance_of_call h hr, if_pos rfl]
    rfl
  rw [← observe_pyConclude_raised (m := m)]
  constructor
  · intro hc
    have hsame := hc.same
    rw [hrun, Option.map_some, Option.some_inj] at hsame
    exact hsame.symm
  · intro hsame
    refine ⟨fun _ => ⟨_, hr, keeps_raise⟩, ?_⟩
    rw [hrun, hsame]
    rfl

/-- A call that raises, where Python raises. -/
theorem correctOn_raise (h : m.positional ≠ []) {e x : Exc Obj ε} {s : List (Option Obj)}
    (hr : m.positionalCall c = some ⟨-1, s, some e⟩) (hx : m.pySubjects c = .error x)
    (hkind : x.kind = e.kind) : m.CorrectOn c :=
  (correctOn_raise_iff h hr).mpr ⟨x, hx, hkind⟩

theorem correctOn_unmatched (h : m.positional ≠ []) {s : List (Option Obj)}
    (hr : m.positionalCall c = some ⟨0, s, none⟩) (hx : m.pySubjects c = .ok none) :
    m.CorrectOn c := by
  refine ⟨fun _ => ⟨_, hr, .inr (.inl rfl), fun h => absurd h (by decide : (0 : ℤ) ≠ 1),
    iff_of_false (by decide : (0 : ℤ) ≠ -1) (not_not.mpr rfl)⟩, ?_⟩
  rw [runInstance_of_call h hr, hx]
  rfl

/-- The code that goes on with the subjects that Python finds. -/
theorem correctOn_of_run {temps : List (Option Obj)} {positional : List Obj}
    (hkeeps : m.positional ≠ [] → ∃ r, m.positionalCall c = some r ∧ r.Keeps m.requested)
    (hrun : m.runInstance c = m.runKeywords temps)
    (hb : Binds m.positionalPlaces positional temps)
    (hx : m.pySubjects c =
      (itemLookups m.getAttr m.keywordItems).map (Option.map (positional ++ ·)))
    (hfinds : ∀ p k, m.Finds c p k ↔ p = positional ∧ Found m.getAttr m.keywordItems k) :
    m.CorrectOn c ↔ ∀ p k, m.Finds c p k → m.InOrder p k := by
  have hiff : m.CorrectOn c ↔ (m.runKeywords temps).map observe = some (observe (m.pyConclude
      ((itemLookups m.getAttr m.keywordItems).map (Option.map (positional ++ ·))))) := by
    constructor
    · intro hc
      rw [← hx, ← hrun]
      exact hc.same
    · intro hsame
      exact ⟨hkeeps, by rw [hrun, hx]; exact hsame⟩
  rw [hiff, runKeywords_agrees hb]
  constructor
  · intro hall p k hf
    obtain ⟨rfl, hk⟩ := (hfinds p k).mp hf
    exact hall k hk
  · exact fun hall k hk => hall _ k ((hfinds _ k).mpr ⟨rfl, hk⟩)

/-- A call that binds the subjects that Python finds. -/
theorem correctOn_bound (h : m.positional ≠ []) {temps : List (Option Obj)}
    {positional : List Obj} (hr : m.positionalCall c = some ⟨1, temps, none⟩)
    (hb : Binds m.positionalPlaces positional temps)
    (hx : m.pySubjects c =
      (itemLookups m.getAttr m.keywordItems).map (Option.map (positional ++ ·)))
    (hfinds : ∀ p k, m.Finds c p k ↔ p = positional ∧ Found m.getAttr m.keywordItems k) :
    m.CorrectOn c ↔ ∀ p k, m.Finds c p k → m.InOrder p k := by
  refine correctOn_of_run (fun _ => ⟨_, hr, .inl rfl, fun _ => ?_, ?_⟩)
    (runInstance_of_call h hr) hb hx hfinds
  · exact requested_eq (m := m) ▸ hb.wanted_isSome
  · exact iff_of_false (by decide : (1 : ℤ) ≠ -1) (not_not.mpr rfl)

/-! ## No positional sub-patterns -/

theorem correctOn_nil (h : m.positional = []) : m.CorrectOn c ↔ m.AgreesOn c := by
  have hrun : m.runInstance c = m.runKeywords [] := by
    rw [runInstance, if_pos (List.isEmpty_iff.mpr h)]
  have hb : Binds m.positionalPlaces [] [] := by
    rw [positionalPlaces, h]
    exact .nil
  have hx : m.pySubjects c =
      (itemLookups m.getAttr m.keywordItems).map (Option.map ([] ++ ·)) := by
    obtain ⟨keys, hkeys⟩ := exists_keyed (m := m)
    rw [pySubjects, if_pos (List.isEmpty_iff.mpr h), pyLookups_keyed hkeys]
    rcases itemLookups m.getAttr m.keywordItems with x | r
    · rfl
    · cases r <;> rfl
  rw [correctOn_of_run (fun hne => (hne h).elim) hrun hb hx (finds_nil h)]
  refine ⟨fun horder => ⟨fun hone => ?_, fun hhinted => ?_, fun _ hne => (hne h).elim,
    fun _ hne => (hne h).elim, horder⟩, AgreesOn.order⟩
  · rw [h] at hone
    cases hone
  · have hone := hhinted.1
    rw [h] at hone
    cases hone

/-! ## Classes that match themselves -/

/-- The call for a class that matches itself, if the C function does not look for
    `__match_args__` or finds none. -/
theorem positionalCall_self (hone : m.positional.length = 1)
    (hlooked : m.calculateMatchSelf = 1 ∨ c.matchArgs = .missing)
    (hself : m.decideMatchSelf c m.calculateMatchSelf = true) :
    m.positionalCall c = some ⟨1,
      m.requested.map fun requested => if requested then some m.subject else none, none⟩ := by
  have hmatch : (if m.calculateMatchSelf = 1 then MatchArgs.missing else c.matchArgs) =
      .missing := by
    split
    next => rfl
    next hne => exact hlooked.resolve_left hne
  rw [positionalCall, classPositional, hmatch]
  simp only [hself, if_true, length_requested, hone, Nat.lt_irrefl, if_false]

/-! ## Classes that are known to match themselves -/

theorem positionalCall_hinted (h : m.Hinted) : m.positionalCall c = some ⟨1,
    m.requested.map fun requested => if requested then some m.subject else none, none⟩ := by
  have hhint := calculateMatchSelf_eq_one.mpr h
  refine positionalCall_self h.1 (.inl hhint) ?_
  rw [decideMatchSelf, hhint]
  rfl

/-- The class is matched with the subject, whatever `__match_args__` says. -/
theorem hinted_of_correctOn (h : m.Hinted) (hc : m.CorrectOn c) : c.matchArgs = .missing ∨
    ∃ name items o, c.matchArgs = .tuple (.str name :: items) ∧ m.getAttr name = .value o ∧
      (o = m.subject ∨ ∀ p ∈ m.positional, p.hasTemp = false) := by
  have hne := positional_ne_nil h.1
  have hempty : ¬ m.positional.isEmpty = true := by rwa [List.isEmpty_iff]
  have hkeywords : m.keywordItems = [] := by
    rw [keywordItems, keywordNames_eq_nil.mpr h.2.1, List.map_nil]
  obtain ⟨p, hp⟩ := List.length_eq_one_iff.mp h.1
  have hpositional : m.positionalPlaces = [(.positional 0, p)] := by
    rw [positionalPlaces, hp]
    rfl
  have hplaces : m.keywordPlaces = [] := by
    rw [keywordPlaces, h.2.1]
    rfl
  have hrun : m.runInstance c = m.runKeywords
      (m.requested.map fun requested => if requested then some m.subject else none) :=
    runInstance_of_call hne (positionalCall_hinted h)
  have hfound : Found m.getAttr m.keywordItems [] := by
    rw [hkeywords]
    exact .nil
  have hsame := hc.same
  rw [hrun, runKeywords_found (binds_self h.1 (.inl rfl)) hfound, Option.map_some,
    Option.some_inj, places, hpositional, hplaces] at hsame
  simp only [List.zip_nil_left, List.nil_append, List.append_nil, List.zip_cons_cons,
    List.filter_cons, List.filter_nil] at hsame
  -- The code has checked something, or it matches.
  have hnot : ∀ {r : Except (Exc Obj ε) (Option (List Obj))}, m.pySubjects c = r →
      (∀ values, r ≠ .ok (some values)) → False := by
    intro r hr hvalues
    rw [hr] at hsame
    have hlog : (m.pyConclude r).1 = [] := by
      rcases r with x | r
      · rfl
      · cases r with
        | none => rfl
        | some values => exact (hvalues values rfl).elim
    rw [observe_conclude_of_nil ((congrArg Prod.fst hsame).trans hlog)] at hsame
    rcases r with x | r
    · cases congrArg Prod.snd hsame
    · cases r with
      | none => cases congrArg Prod.snd hsame
      | some values => exact hvalues values rfl
  cases hm : c.matchArgs with
  | missing => exact .inl rfl
  | raises e =>
    exact (hnot (r := .error (.raised e)) (by rw [pySubjects, if_neg hempty, hm])
      fun _ h => by cases h).elim
  | notTuple =>
    exact (hnot (r := .error .matchArgsType) (by rw [pySubjects, if_neg hempty, hm])
      fun _ h => by cases h).elim
  | tuple items =>
    have hsubjects : m.pySubjects c = if items.length < 1 then .error (.accepts items.length 1)
        else pyLookups m.getAttr (items.take 1) [] := by
      rw [pySubjects, if_neg hempty, hm]
      simp only [h.1, hkeywords, List.append_nil]
    cases items with
    | nil => exact (hnot hsubjects fun _ h => by cases h).elim
    | cons item items =>
      rw [if_neg (by rw [List.length_cons]; omega), List.take_succ_cons, List.take_zero]
        at hsubjects
      cases item with
      | object hash => exact (hnot hsubjects fun _ h => by cases h).elim
      | str name =>
        rw [pyLookups, if_neg List.not_mem_nil] at hsubjects
        cases hget : m.getAttr name with
        | attributeError =>
          rw [hget] at hsubjects
          exact (hnot hsubjects fun _ h => by cases h).elim
        | raises e =>
          rw [hget] at hsubjects
          exact (hnot hsubjects fun _ h => by cases h).elim
        | value o =>
          rw [hget] at hsubjects
          have hsubjects : m.pySubjects c = .ok (some [o]) := hsubjects
          refine .inr ⟨name, items, o, rfl, hget, ?_⟩
          by_contra hne'
          rw [not_or] at hne'
          obtain ⟨ho, htemps⟩ := hne'
          have htemp : p.hasTemp = true := by
            by_contra hfalse
            refine htemps fun q hq => ?_
            rw [hp, List.mem_singleton] at hq
            exact hq ▸ (Bool.not_eq_true _).mp hfalse
          rw [hsubjects, pyConclude, pyMatchSubjects, places, hpositional, hplaces,
            if_pos htemp] at hsame
          simp only [List.append_nil, List.zip_cons_cons, List.zip_nil_left, List.filter_cons,
            List.filter_nil] at hsame
          cases hevaluates : p.evaluates with
          | true =>
            -- The logs have different subjects.
            have hlog : (pyChecks [((Place.positional 0, p), m.subject)]).1 =
                (pyChecks [((Place.positional 0, p), o)]).1 := by
              simpa only [observe_conclude_fst] using congrArg Prod.fst hsame
            have hmem := mem_log_of_reached [] []
              (t := ((Place.positional 0, p), m.subject)) (fun _ ht => by cases ht) hevaluates
            rw [List.nil_append, hlog] at hmem
            obtain ⟨t, ht, heq⟩ := mem_log hmem
            rw [List.mem_singleton.mp ht, Prod.mk.injEq] at heq
            exact ho heq.2.symm
          | false =>
            -- A capture binds different subjects.
            have htargets : p.hasTargets = true := by
              rw [SubPattern.hasTemp, (p.quiet hevaluates).1] at htemp
              simpa using htemp
            rw [pyChecks_cons_of_not_evaluates hevaluates,
              pyChecks_cons_of_not_evaluates hevaluates, if_pos htargets, if_pos htargets]
              at hsame
            simp only [observe, conclude, pyChecks, Outcome.map, List.map_cons, List.map_nil,
              Prod.mk.injEq, true_and, Outcome.matched.injEq, List.cons.injEq, and_true] at hsame
            exact ho hsame.symm

theorem correctOn_hinted (hcls : m.cls = some c) (h : m.Hinted) :
    m.CorrectOn c ↔ m.AgreesOn c := by
  have hne := positional_ne_nil h.1
  have hempty : ¬ m.positional.isEmpty = true := by rwa [List.isEmpty_iff]
  have hself : c.matchArgs = .missing → c.builtin ≠ .other := by
    obtain ⟨-, -, t, ht, hhints⟩ := h
    obtain ⟨c', hc', hdescribes⟩ := m.described t ht
    cases hcls.symm.trans hc'
    intro _
    cases t with
    | builtin t =>
      rw [hdescribes.1]
      exact hhints
    | extension isExternal hasMethodTable base =>
      rcases hhints with hb | hb | hb
      all_goals rw [hdescribes.1 _ hb]; decide
  have hiff : (c.matchArgs = .missing ∨
      ∃ name items o, c.matchArgs = .tuple (.str name :: items) ∧ m.getAttr name = .value o ∧
        (o = m.subject ∨ ∀ p ∈ m.positional, p.hasTemp = false)) →
      (m.CorrectOn c ↔ ∀ p k, m.Finds c p k → m.InOrder p k) := by
    rintro (hm | ⟨name, items, o, hm, hget, ho⟩)
    · exact correctOn_bound hne (positionalCall_hinted h) (binds_self h.1 (.inl rfl))
        (pySubjects_self h.1 hm (hself hm)) (finds_self h.1 hm (hself hm))
    · have hkeywords : m.keywordItems = [] := by
        rw [keywordItems, keywordNames_eq_nil.mpr h.2.1, List.map_nil]
      have htake : (Item.str name :: items).take m.positional.length = [.str name] := by
        rw [h.1, List.take_succ_cons, List.take_zero]
      refine correctOn_bound hne (positionalCall_hinted h) (binds_self h.1 ho) ?_
        (finds_tuple hne hm (by rw [h.1, List.length_cons]; omega) ?_ ?_)
      · rw [pySubjects, if_neg hempty, hm]
        simp only [h.1, hkeywords, List.length_cons, List.append_nil, List.take_succ_cons,
          List.take_zero]
        rw [if_neg (by omega), pyLookups, if_neg List.not_mem_nil, hget]
        rfl
      · rw [attributes, htake, hkeywords, List.append_nil]
        exact List.nodup_singleton _
      · rw [htake]
        exact .cons ⟨name, rfl, hget⟩ .nil
  constructor
  · intro hc
    have hhinted := hinted_of_correctOn h hc
    exact ⟨fun _ _ _ => ⟨h.2.1, .inl h.2.2⟩, fun _ => hhinted, fun hnot => (hnot h).elim,
      fun hnot => (hnot h).elim, (hiff hhinted).mp hc⟩
  · intro ha
    exact (hiff (ha.hinted h)).mpr ha.order

/-! ## Other classes -/

omit [DecidableEq Obj] in
theorem keywordLookups_raise {names : List Name} {x : Exc Obj ε}
    (h : itemLookups m.getAttr (names.map .str) = .error x) : x.kind ≠ none := by
  induction names with
  | nil => cases h
  | cons name names ih =>
    rw [List.map_cons, itemLookups] at h
    cases hget : m.getAttr name with
    | value o =>
      rw [hget] at h
      exact ih (map_eq_error.mp h)
    | attributeError =>
      rw [hget] at h
      cases h
    | raises e =>
      rw [hget] at h
      cases h
      exact Option.some_ne_none e

omit [DecidableEq Obj] in
/-- What the call does unless the hint is 1. -/
theorem positionalCall_of_not_hinted (h : ¬ m.Hinted) {args : MatchArgs Obj ε}
    (hm : c.matchArgs = args) :
    (if m.calculateMatchSelf = 1 then MatchArgs.missing else c.matchArgs) = args := by
  rw [if_neg (mt calculateMatchSelf_eq_one.mp h), hm]

omit [DecidableEq Obj] in
theorem length_positional_pos (hne : m.positional ≠ []) : 0 < m.positional.length :=
  List.length_pos_iff.mpr hne

theorem correctOn_missing (hcls : m.cls = some c) (h : ¬ m.Hinted) (hne : m.positional ≠ [])
    (hm : c.matchArgs = .missing) : m.CorrectOn c ↔ m.AgreesOn c := by
  have hempty : ¬ m.positional.isEmpty = true := by rwa [List.isEmpty_iff]
  have hagrees (hself : m.positional.length = 1 → c.builtin ≠ .other → m.keywords = [] ∧
      ((∃ t ∈ m.knownType, t.HintsSelf) ∨ m.hasFlag = true ∨ m.isListed c.builtin = true)) :
      m.AgreesOn c ↔ ∀ p k, m.Finds c p k → m.InOrder p k := by
    refine ⟨AgreesOn.order, fun horder => ⟨fun hone _ => hself hone, fun _ => .inl hm,
      fun _ _ items hitems => ?_, fun _ _ items hitems => ?_, horder⟩⟩
    all_goals
      rw [hm] at hitems
      cases hitems
  have hdecide := decideMatchSelf_of_not_hinted hcls h
  by_cases hd : m.decideMatchSelf c m.calculateMatchSelf = true
  · obtain ⟨hone, hkeywords, hself, hknown⟩ := hdecide.mp hd
    rw [hagrees fun _ _ => ⟨hkeywords, .inr hknown⟩]
    exact correctOn_bound hne (positionalCall_self hone (.inr hm) hd)
      (binds_self hone (.inl rfl)) (pySubjects_self hone hm hself) (finds_self hone hm hself)
  · have hcall : m.positionalCall c =
        some ⟨-1, [], some (.accepts 0 m.positional.length)⟩ := by
      rw [positionalCall, classPositional, positionalCall_of_not_hinted h hm]
      simp only [hd, if_false, length_requested, Bool.false_eq_true]
      rw [if_pos (length_positional_pos hne)]
      rfl
    have hnone : (m.positional.length = 1 → c.builtin = .other) →
        ∀ p k, m.Finds c p k → m.InOrder p k := by
      rintro hother p k ⟨-, ⟨hnil, -⟩ | ⟨hone, -, hself, -⟩ | ⟨-, items, hitems, -⟩⟩
      · exact (hne hnil).elim
      · exact (hself (hother hone)).elim
      · rw [hm] at hitems
        cases hitems
    by_cases hself : c.builtin = .other
    · rw [hagrees fun _ hself' => (hself' hself).elim]
      have hmatches : c.matchesSelf = false := by
        rw [ClassObject.matchesSelf, hself]
        rfl
      have hx : m.pySubjects c = .error (.accepts 0 m.positional.length) := by
        rw [pySubjects, if_neg hempty, hm]
        simp only [hmatches, Bool.false_eq_true, if_false]
        rw [if_pos (length_positional_pos hne)]
      exact iff_of_true (correctOn_raise hne hcall hx rfl) (hnone fun _ => hself)
    · by_cases hone : m.positional.length = 1
      · -- Python lets the class match itself.
        refine iff_of_false (fun hc => ?_) fun ha => hd ?_
        · obtain ⟨x, hx, hkind⟩ := (correctOn_raise_iff hne hcall).mp hc
          rw [pySubjects_self hone hm hself, map_eq_error] at hx
          exact keywordLookups_raise hx hkind
        · obtain ⟨hkeywords, hhints | hknown⟩ := ha.matchSelf hone hm hself
          · exact (h ⟨hone, hkeywords, hhints⟩).elim
          · exact hdecide.mpr ⟨hone, hkeywords, hself, hknown⟩
      · rw [hagrees fun hone' => (hone hone').elim]
        have hmatches : c.matchesSelf = true := decide_eq_true hself
        have hx : m.pySubjects c = .error (.accepts 1 m.positional.length) := by
          have hlt : 1 < m.positional.length :=
            lt_of_le_of_ne (length_positional_pos hne) (Ne.symm hone)
          rw [pySubjects, if_neg hempty, hm]
          simp only [hmatches, if_true]
          rw [if_pos hlt]
        exact iff_of_true (correctOn_raise hne hcall hx rfl)
          (hnone fun hone' => (hone hone').elim)

/-- A class whose `__match_args__` is not a tuple. -/
theorem correctOn_raises (h : ¬ m.Hinted) (hne : m.positional ≠ []) {x : Exc Obj ε}
    (hmissing : c.matchArgs ≠ .missing) (htuple : ∀ items, c.matchArgs ≠ .tuple items)
    (hcall : m.positionalCall c = some ⟨-1, [], some x⟩) (hx : m.pySubjects c = .error x) :
    m.CorrectOn c ↔ m.AgreesOn c := by
  refine iff_of_true (correctOn_raise hne hcall hx rfl) ⟨fun _ hm => (hmissing hm).elim,
    fun hhinted => (h hhinted).elim, fun _ _ items hm => (htuple items hm).elim,
    fun _ _ items hm => (htuple items hm).elim, ?_⟩
  rintro p k ⟨-, ⟨hnil, -⟩ | ⟨-, hm, -⟩ | ⟨-, items, hm, -⟩⟩
  · exact (hne hnil).elim
  · exact (hmissing hm).elim
  · exact (htuple items hm).elim

omit [DecidableEq Obj] in
theorem map_fst_zip_requested {items : List (Item Obj ε)}
    (h : m.positional.length ≤ items.length) :
    ((items.zip m.requested).map Prod.fst) = items.take m.positional.length ∧
      ((items.zip m.requested).map Prod.snd) = m.requested := by
  refine ⟨?_, List.map_snd_zip (by rwa [length_requested])⟩
  rw [List.zip_eq_zip_take_min, length_requested, min_eq_right h, List.map_fst_zip]
  rw [List.length_take, List.length_take, length_requested, min_self]
  exact min_le_left _ _

/-- The loop of the C code after a search for duplicate names that finds none. -/
theorem correctOn_loop (hne : m.positional ≠ []) {items : List (Item Obj ε)}
    (hm : c.matchArgs = .tuple items) (hlength : m.positional.length ≤ items.length)
    (hcall : m.positionalCall c = positionalLoop m.getAttr (items.zip m.requested) [] none)
    (hx : m.pySubjects c = itemLookups m.getAttr (m.attributes items))
    (hnodup : ∀ p k, Found m.getAttr (items.take m.positional.length) p →
      Found m.getAttr m.keywordItems k → (m.attributes items).Nodup) :
    m.CorrectOn c ↔ LooksUp m.getAttr (items.take m.positional.length) ∧
      ∀ p k, m.Finds c p k → m.InOrder p k := by
  obtain ⟨hfst, hsnd⟩ := map_fst_zip_requested hlength
  have hfinds : ∀ p k, m.Finds c p k → Found m.getAttr (items.take m.positional.length) p := by
    rintro p k ⟨-, ⟨hnil, -⟩ | ⟨-, hmissing, -⟩ | ⟨-, items', hitems, -, -, hfound⟩⟩
    · exact (hne hnil).elim
    · rw [hm] at hmissing
      cases hmissing
    · rw [hm] at hitems
      cases hitems
      exact hfound
  by_cases hlooks : LooksUp m.getAttr (items.take m.positional.length)
  · rw [and_iff_right hlooks]
    have hnone : (∀ values, ¬ Found m.getAttr (items.take m.positional.length) values) →
        ∀ p k, m.Finds c p k → m.InOrder p k :=
      fun hvalues p k hf => (hvalues p (hfinds p k hf)).elim
    have herror := looksUp_iff.mp hlooks
    rw [← hfst] at herror
    rcases positionalLoop_spec [] herror with
      ⟨values, hfound, hloop⟩ | ⟨hitems, s, hloop⟩ | ⟨x, s, hitems, hloop⟩
    · rw [hfst] at hfound
      rw [hsnd, List.nil_append] at hloop
      have hcall' := hcall.trans hloop
      rw [← requested_eq] at hcall'
      have hb : m.positionalPlaces.length = values.length := by
        rw [length_positionalPlaces, ← hfound.length_eq, List.length_take, min_eq_left hlength]
      have hx' : m.pySubjects c =
          (itemLookups m.getAttr m.keywordItems).map (Option.map (values ++ ·)) := by
        rw [hx, attributes, itemLookups_append hfound]
      by_cases hkeyword : ∃ k, Found m.getAttr m.keywordItems k
      · obtain ⟨k, hk⟩ := hkeyword
        exact correctOn_bound hne hcall' (.of_wanted hb) hx'
          (finds_tuple hne hm hlength (hnodup values k hfound hk) hfound)
      · have hagrees := (runKeywords_agrees (m := m) (.of_wanted hb)).mpr
          fun k hk => (hkeyword ⟨k, hk⟩).elim
        refine iff_of_true ⟨fun _ => ⟨_, hcall', .inl rfl, fun _ => ?_, ?_⟩, ?_⟩
          fun p k hf => (hkeyword ⟨k, hf.1⟩).elim
        · exact requested_eq (m := m) ▸ (Binds.of_wanted hb).wanted_isSome
        · exact iff_of_false (by decide : (1 : ℤ) ≠ -1) (not_not.mpr rfl)
        · rw [runInstance_of_call hne hcall', hx']
          exact hagrees
    · rw [hfst] at hitems
      have hvalues : ∀ values, ¬ Found m.getAttr (items.take m.positional.length) values := by
        intro values hfound
        rw [itemLookups_eq_some.mpr hfound] at hitems
        cases hitems
      refine iff_of_true (correctOn_unmatched hne (hcall.trans hloop) ?_) (hnone hvalues)
      rw [hx, attributes, itemLookups_append_of_not_found hvalues, hitems]
    · rw [hfst] at hitems
      have hvalues : ∀ values, ¬ Found m.getAttr (items.take m.positional.length) values := by
        intro values hfound
        rw [itemLookups_eq_some.mpr hfound] at hitems
        cases hitems
      refine iff_of_true (correctOn_raise hne (hcall.trans hloop) ?_ rfl) (hnone hvalues)
      rw [hx, attributes, itemLookups_append_of_not_found hvalues, hitems]
  · refine iff_of_false (fun hc => ?_) fun h => hlooks h.1
    rw [looksUp_iff] at hlooks
    push Not at hlooks
    obtain ⟨e, hitems⟩ := hlooks
    have hvalues : ∀ values, ¬ Found m.getAttr (items.take m.positional.length) values := by
      intro values hfound
      rw [itemLookups_eq_some.mpr hfound] at hitems
      cases hitems
    have hpy : m.pySubjects c = .error (.raised e) := by
      rw [hx, attributes, itemLookups_append_of_not_found hvalues, hitems]
    obtain ⟨r, hr, hkeeps⟩ := hc.keeps hne
    have hsame := hc.same
    rw [runInstance_of_call hne hr, hpy] at hsame
    rw [← hfst] at hitems
    rcases positionalLoop_raises [] hitems with hloop | ⟨call, hloop, hmisleads⟩
    · rw [hcall, hloop] at hr
      cases hr
    · rw [hcall, hloop, Option.some.injEq] at hr
      subst hr
      rcases hmisleads with ⟨hone, hpending⟩ | hzero | ⟨hraise, hpending⟩
      · have hminus := hkeeps.pending.mpr hpending
        rw [hone] at hminus
        exact absurd hminus (by decide)
      · rw [hzero, if_neg (by decide), if_pos rfl] at hsame
        simp [observe, pyConclude, Outcome.map] at hsame
      · rw [hraise, if_pos rfl, hpending] at hsame
        simp [observe, pyConclude, Outcome.map, Exc.kind] at hsame

theorem correctOn_tuple (h : ¬ m.Hinted) (hne : m.positional ≠ []) {items : List (Item Obj ε)}
    (hm : c.matchArgs = .tuple items) : m.CorrectOn c ↔ m.AgreesOn c := by
  have hempty : ¬ m.positional.isEmpty = true := by rwa [List.isEmpty_iff]
  have honly : ∀ items', c.matchArgs = .tuple items' → items' = items := by
    intro items' hitems'
    rw [hm] at hitems'
    exact (MatchArgs.tuple.inj hitems').symm
  have hmissing : c.matchArgs ≠ .missing := by
    rw [hm]
    exact fun h => by cases h
  by_cases hlength : m.positional.length ≤ items.length
  · have hattributes : items.take m.positional.length ++ m.keywordNames.map .str =
        m.attributes items := rfl
    have hpy : m.pySubjects c = pyLookups m.getAttr (m.attributes items) [] := by
      rw [pySubjects, if_neg hempty, hm]
      simp only [if_neg hlength.not_gt]
      rfl
    have hagrees : m.AgreesOn c ↔
        (¬ (m.keywords = [] ∧ items.length = 1) → ∀ before e,
          Complains (m.attributes items) before e → Fair m.getAttr e before) ∧
        ((∀ before e, ¬ Complains (m.attributes items) before e) →
          LooksUp m.getAttr (items.take m.positional.length)) ∧
        ∀ p k, m.Finds c p k → m.InOrder p k := by
      constructor
      · intro ha
        exact ⟨ha.duplicates h hne items hm hlength, ha.lookups h hne items hm hlength, ha.order⟩
      · rintro ⟨hduplicates, hlookups, horder⟩
        refine ⟨fun _ hm' => (hmissing hm').elim, fun hhinted => (h hhinted).elim, ?_, ?_, horder⟩
        · intro _ _ items' hitems' _
          rw [honly items' hitems']
          exact hduplicates
        · intro _ _ items' hitems' _
          rw [honly items' hitems']
          exact hlookups
    rw [hagrees]
    have hnames : m.keywordNames.Nodup := m.distinct
    have hcall : classCheckDuplicateAttrs m.keywordNames items m.positional.length = .ok () →
        m.positionalCall c = positionalLoop m.getAttr (items.zip m.requested) [] none := by
      intro hcheck
      rw [positionalCall, classPositional, positionalCall_of_not_hinted h hm]
      simp only [length_requested, if_neg hlength.not_gt, hcheck]
    by_cases hfew : m.keywords = [] ∧ items.length = 1
    · -- The only element is not looked at.
      have hone : m.positional.length = 1 :=
        le_antisymm (hlength.trans hfew.2.le) (length_positional_pos hne)
      obtain ⟨item, rfl⟩ := List.length_eq_one_iff.mp hfew.2
      have hnil : m.keywordItems = [] := by
        rw [keywordItems, keywordNames_eq_nil.mpr hfew.1, List.map_nil]
      have hsingle : m.attributes [item] = [item] := by
        rw [attributes, hnil, List.append_nil, hone, List.take_succ_cons, List.take_zero]
      have hcall := hcall (by
        rw [classCheckDuplicateAttrs, if_pos ⟨keywordNames_eq_nil.mpr hfew.1, rfl⟩])
      have hx : m.pySubjects c = itemLookups m.getAttr (m.attributes [item]) := by
        rw [hpy, hsingle]
        cases item with
        | object hash => rfl
        | str name =>
          rw [pyLookups, if_neg List.not_mem_nil, itemLookups]
          cases m.getAttr name <;> rfl
      rw [correctOn_loop hne hm hlength hcall hx
        fun _ _ _ _ => by rw [hsingle]; exact List.nodup_singleton item]
      refine ⟨fun hloop => ⟨fun hmany => (hmany hfew).elim, fun _ => hloop.1, hloop.2⟩,
        fun hcond => ⟨?_, hcond.2.2⟩⟩
      cases item with
      | object hash =>
        intro before name after heq
        rw [hone, List.take_succ_cons, List.take_zero] at heq
        have hmem : Item.str name ∈ [Item.object hash] :=
          heq ▸ List.mem_append_right before List.mem_cons_self
        rw [List.mem_singleton] at hmem
        cases hmem
      | str name =>
        refine hcond.2.1 fun before e => ?_
        rw [hsingle]
        have hkey : (Item.str name : Item Obj ε).key = .ok (.name name) := rfl
        exact (Keyed.nil.snoc hkey List.not_mem_nil).not_complains
    · rcases classCheckDuplicateAttrs_spec hlength hnames
        (by rwa [keywordNames_eq_nil]) with ⟨hcheck, keys, hkeyed⟩ | ⟨b, e, hcheck, hcomplains⟩
      · have hcall := hcall hcheck
        rw [hattributes] at hkeyed
        have hnever : ∀ before e, ¬ Complains (m.attributes items) before e :=
          fun _ _ => hkeyed.not_complains
        have hnodup : (m.attributes items).Nodup :=
          List.Nodup.of_map _ (hkeyed.1 ▸ hkeyed.2.map fun _ _ => Except.ok.inj)
        rw [correctOn_loop hne hm hlength hcall (hpy.trans (pyLookups_keyed hkeyed))
          fun _ _ _ _ => hnodup]
        refine ⟨fun hloop => ⟨fun _ b e hcomplains => (hnever b e hcomplains).elim,
          fun _ => hloop.1, hloop.2⟩, fun hcond => ⟨hcond.2.1 hnever, hcond.2.2⟩⟩
      · have hcall : m.positionalCall c = some (.raise e) := by
          rw [positionalCall, classPositional, positionalCall_of_not_hinted h hm]
          simp only [length_requested, if_neg hlength.not_gt, hcheck]
        rw [hattributes] at hcomplains
        have hfinds : ∀ p k, ¬ m.Finds c p k := by
          rintro p k ⟨hk, ⟨hnil, -⟩ | ⟨-, hm', -⟩ | ⟨-, items', hitems', -, hnodup, hp⟩⟩
          · exact hne hnil
          · exact hmissing hm'
          · rw [honly items' hitems'] at hnodup hp
            have hfound : Found m.getAttr (m.attributes items) (p ++ k) := List.rel_append hp hk
            obtain ⟨keys, hkeyed⟩ := Keyed.of_strings hnodup hfound.strings
            exact hkeyed.not_complains hcomplains
        have hfair : m.CorrectOn c ↔ Fair m.getAttr e b := by
          rw [← pyLookups_complains hcomplains, ← hpy]
          exact correctOn_raise_iff hne hcall
        rw [hfair]
        constructor
        · intro hf
          refine ⟨fun _ before e' hc => ?_, fun hnever => (hnever b e hcomplains).elim,
            fun p k hf => (hfinds p k hf).elim⟩
          obtain ⟨rfl, rfl⟩ := hcomplains.unique hc
          exact hf
        · exact fun hcond => hcond.1 hfew b e hcomplains
  · have hcall : m.positionalCall c =
        some ⟨-1, [], some (.accepts items.length m.positional.length)⟩ := by
      rw [positionalCall, classPositional, positionalCall_of_not_hinted h hm]
      simp only [length_requested, if_pos (not_le.mp hlength)]
      rfl
    have hpy : m.pySubjects c = .error (.accepts items.length m.positional.length) := by
      rw [pySubjects, if_neg hempty, hm]
      simp only [if_pos (not_le.mp hlength)]
    refine iff_of_true (correctOn_raise hne hcall hpy rfl)
      ⟨fun _ hm' => (hmissing hm').elim, fun hhinted => (h hhinted).elim, ?_, ?_, ?_⟩
    · intro _ _ items' hitems' hlength'
      rw [honly items' hitems'] at hlength'
      exact (hlength hlength').elim
    · intro _ _ items' hitems' hlength'
      rw [honly items' hitems'] at hlength'
      exact (hlength hlength').elim
    · rintro p k ⟨-, ⟨hnil, -⟩ | ⟨-, hm', -⟩ | ⟨-, items', hitems', hlength', -⟩⟩
      · exact (hne hnil).elim
      · exact (hmissing hm').elim
      · rw [honly items' hitems'] at hlength'
        exact (hlength hlength').elim

/-! ## The condition is exact -/

theorem correctOn_iff (hcls : m.cls = some c) : m.CorrectOn c ↔ m.AgreesOn c := by
  by_cases hnil : m.positional = []
  · exact correctOn_nil hnil
  by_cases h : m.Hinted
  · exact correctOn_hinted hcls h
  have hempty : ¬ m.positional.isEmpty = true := by rwa [List.isEmpty_iff]
  cases hm : c.matchArgs with
  | missing => exact correctOn_missing hcls h hnil hm
  | raises e =>
    refine correctOn_raises (x := .raised e) h hnil (by rw [hm]; exact nofun)
      (by rw [hm]; exact fun _ => nofun) ?_ (by rw [pySubjects, if_neg hempty, hm])
    rw [positionalCall, classPositional, positionalCall_of_not_hinted h hm]
    rfl
  | notTuple =>
    refine correctOn_raises (x := .matchArgsType) h hnil (by rw [hm]; exact nofun)
      (by rw [hm]; exact fun _ => nofun) ?_ (by rw [pySubjects, if_neg hempty, hm])
    rw [positionalCall, classPositional, positionalCall_of_not_hinted h hm]
    rfl
  | tuple items => exact correctOn_tuple h hnil hm

/-- The code for a class pattern does what Python does if and only if it agrees with Python on the
    instances of the class. -/
theorem correct_iff : m.Correct ↔
    ∀ c, m.cls = some c → m.isInstance = .ok true → m.AgreesOn c := by
  have hsame {r : Log Obj × Outcome Obj (Exc Obj ε)} (hrun : m.run = some r)
      (hpy : m.pyRun = r) : m.run.map observe = some (observe m.pyRun) := by
    rw [hrun, hpy, Option.map_some]
  cases hcls : m.cls with
  | none =>
    refine iff_of_true ⟨fun c hc => ?_, ?_⟩ fun c hc => by cases hc
    · rw [hcls] at hc
      cases hc
    · exact hsame (by rw [run, hcls]) (by rw [pyRun, hcls])
  | some c =>
    have hnot (hi : m.isInstance ≠ .ok true)
        (h : m.run.map observe = some (observe m.pyRun)) :
        m.Correct ↔ ∀ c', some c = some c' → m.isInstance = .ok true → m.AgreesOn c' :=
      iff_of_true ⟨fun _ _ hi' => (hi hi').elim, h⟩ fun _ _ hi' => (hi hi').elim
    rcases hi : m.isInstance with e | b
    · rw [← hi]
      exact hnot (by rw [hi]; exact nofun) (hsame (by rw [run, hcls, hi]) (by rw [pyRun, hcls, hi]))
    · cases b with
      | false =>
        rw [← hi]
        exact hnot (by rw [hi]; exact nofun)
          (hsame (by rw [run, hcls, hi]) (by rw [pyRun, hcls, hi]))
      | true =>
        have hrun : m.run = m.runInstance c := by rw [run, hcls, hi]
        have hpy : m.pyRun = m.pyConclude (m.pySubjects c) := by rw [pyRun, hcls, hi]
        have hiff : m.Correct ↔ m.CorrectOn c := by
          constructor
          · intro hc
            refine ⟨hc.keeps c hcls hi, ?_⟩
            rw [← hrun, ← hpy]
            exact hc.same
          · intro hc
            refine ⟨fun c' hc' _ => ?_, ?_⟩
            · rw [hcls] at hc'
              cases hc'
              exact hc.keeps
            · rw [hrun, hpy]
              exact hc.same
        rw [hiff, correctOn_iff hcls]
        refine ⟨fun ha c' hc' _ => ?_, fun h => h c rfl rfl⟩
        cases hc'
        exact ha

end

/-- A capture pattern. -/
def capture : SubPattern ℕ Unit where
  isIrrefutable := true
  hasTargets := true
  evaluates := false
  verdict := fun _ => .ok true
  not_false := fun _ _ => nofun
  quiet := fun _ => ⟨rfl, fun _ => rfl⟩

/-- `int(x, real=y)`, matched with 5. -/
def intReal : ClassMatch ℕ Unit where
  knownType := some (.builtin .int)
  positional := [capture]
  keywords := [("real", capture)]
  distinct := List.nodup_singleton _
  subject := 5
  cls := some ⟨.int, .missing⟩
  isInstance := .ok true
  getAttr := fun name => if name = "real" then .value 5 else .attributeError
  hasFlag := true
  listsFrozenDict := true
  described := by
    rintro _ ⟨⟩
    exact ⟨_, rfl, rfl, fun _ => rfl⟩

/-- Python matches; the code raises `int() accepts 0 positional sub-patterns (1 given)`. -/
theorem intReal_not_correct : ¬ intReal.Correct := by
  rintro ⟨-, h⟩
  have h : some (([] : Log ℕ), (.raised none : Outcome ℕ (Option Unit))) =
    some ([], .matched [5, 5]) := h
  cases h

end ClassMatch

end ClassPattern

end AHPy.MatchCase
