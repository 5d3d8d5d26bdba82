import AHPy.MatchCase.ClassPatterns

/-!
# The lookups of class patterns

Python looks up the attributes of a class pattern one after another, and raises at the first name
that it has seen. The C code looks for such names first (`classCheckDuplicateAttrs_spec`), then
goes through the positional ones (`positionalLoop_spec`), and leaves the others to a `try`.

* `Complains`: where the search for duplicate names stops;
* `pyLookups_complains`: what Python does there;
* `pyLookups_keyed`: without duplicate names, Python only looks them up.
-/

namespace AHPy.MatchCase

namespace ClassPattern

variable {Obj ε : Type}

/-! ## Elements of `__match_args__` -/

/-- The lookups of the attributes all give a value. -/
def Found (getAttr : Name → Access Obj ε) : List (Item Obj ε) → List Obj → Prop :=
  List.Forall₂ fun item o => ∃ name, item = .str name ∧ getAttr name = .value o

/-- Different elements, by which a set finds them. -/
def Keyed (items : List (Item Obj ε)) (keys : List (Key Obj)) : Prop :=
  items.map Item.key = keys.map .ok ∧ keys.Nodup

/-- The element after these is the first one that is not hashable or is there already. -/
def Complains (items before : List (Item Obj ε)) (e : Exc Obj ε) : Prop :=
  ∃ item after keys, items = before ++ item :: after ∧ Keyed before keys ∧
    (item.key = .error e ∨ ∃ k ∈ keys, item.key = .ok k ∧ e = .multiple k)

/-- What Python raises at these elements, or at the one after them, is as good as the exception. -/
def Fair (getAttr : Name → Access Obj ε) (e : Exc Obj ε) : List (Item Obj ε) → Prop
  | [] => e.kind = none
  | .object _ :: _ => e.kind = none
  | .str name :: items =>
    match getAttr name with
    | .value _ => Fair getAttr e items
    | .attributeError => False
    | .raises e' => e.kind = some e'

/-- No lookup that Python gets to raises anything but `AttributeError`. -/
def LooksUp (getAttr : Name → Access Obj ε) (items : List (Item Obj ε)) : Prop :=
  ∀ before name after, items = before ++ .str name :: after →
    (∃ values, Found getAttr before values) → ∀ e, getAttr name ≠ .raises e

variable {items rest before : List (Item Obj ε)} {keys : List (Key Obj)} {e : Exc Obj ε}

namespace Keyed

theorem nil : Keyed ([] : List (Item Obj ε)) [] := ⟨rfl, List.nodup_nil⟩

theorem snoc {item : Item Obj ε} {k : Key Obj} (h : Keyed items keys) (hk : item.key = .ok k)
    (hnew : k ∉ keys) : Keyed (items ++ [item]) (keys ++ [k]) := by
  refine ⟨?_, ?_⟩
  · rw [List.map_append, List.map_append, h.1, List.map_singleton, hk, List.map_singleton]
  · rw [List.nodup_append']
    exact ⟨h.2, List.nodup_singleton k, List.disjoint_singleton.mpr hnew⟩

theorem left (h : Keyed (items ++ rest) keys) : Keyed items (keys.take items.length) := by
  refine ⟨?_, h.2.sublist (List.take_sublist _ _)⟩
  have hmap := congrArg (List.take items.length) h.1
  rw [List.map_append, List.take_left' (List.length_map _), ← List.map_take] at hmap
  exact hmap

theorem key_mem (h : Keyed items keys) {item : Item Obj ε} (hmem : item ∈ items) :
    ∃ k ∈ keys, item.key = .ok k := by
  have hkey := List.mem_map_of_mem (f := Item.key) hmem
  rw [h.1] at hkey
  obtain ⟨k, hk, hkey⟩ := List.mem_map.mp hkey
  exact ⟨k, hk, hkey.symm⟩

theorem exists_item (h : Keyed items keys) {k : Key Obj} (hk : k ∈ keys) :
    ∃ item ∈ items, item.key = .ok k := by
  have hkey := List.mem_map_of_mem (f := @Except.ok (Exc Obj ε) (Key Obj)) hk
  rw [← h.1] at hkey
  exact List.mem_map.mp hkey

theorem eq (h : Keyed items keys) {keys' : List (Key Obj)} (h' : Keyed items keys') :
    keys = keys' := by
  have hinj : Function.Injective (Except.ok (ε := Exc Obj ε) (α := Key Obj)) :=
    fun _ _ hk => Except.ok.inj hk
  exact List.map_injective_iff.mpr hinj (h.1.symm.trans h'.1)

/-- A keyed list has no element that is there already. -/
theorem not_complains (h : Keyed items keys) : ¬ Complains items before e := by
  rintro ⟨item, after, keys', rfl, hbefore, hitem⟩
  obtain ⟨k, -, hkey⟩ := h.key_mem (List.mem_append_right before List.mem_cons_self)
  rcases hitem with hitem | ⟨k', hk', hitem, -⟩
  · rw [hitem] at hkey
    cases hkey
  · rw [hitem, Except.ok.injEq] at hkey
    subst hkey
    have hk : keys = keys.take before.length ++ keys.drop before.length :=
      (List.take_append_drop ..).symm
    have hnodup := h.2
    rw [hk, List.nodup_append'] at hnodup
    rw [hbefore.eq h.left] at hk'
    refine hnodup.2.2 hk' ?_
    have hmap := congrArg (List.drop before.length) h.1
    rw [List.map_append, List.drop_left' (List.length_map _), ← List.map_drop, List.map_cons,
      hitem] at hmap
    have hmem : (Except.ok k' : Except (Exc Obj ε) (Key Obj)) ∈
        (keys.drop before.length).map .ok := hmap ▸ List.mem_cons_self
    obtain ⟨k, hk, heq⟩ := List.mem_map.mp hmem
    exact Except.ok.inj heq ▸ hk

/-- Different strings are keyed. -/
theorem of_strings (hnodup : items.Nodup) (h : ∀ item ∈ items, ∃ name, item = .str name) :
    ∃ keys, Keyed items keys := by
  induction items using List.reverseRecOn with
  | nil => exact ⟨[], nil⟩
  | append_singleton items item ih =>
    rw [List.nodup_append'] at hnodup
    obtain ⟨keys, hkeys⟩ := ih hnodup.1 fun i hi => h i (List.mem_append_left _ hi)
    obtain ⟨name, rfl⟩ := h item (List.mem_append_right _ List.mem_cons_self)
    refine ⟨_, hkeys.snoc rfl fun hmem => ?_⟩
    obtain ⟨item, hitem, hkey⟩ := hkeys.exists_item hmem
    obtain ⟨name', rfl⟩ := h item (List.mem_append_left _ hitem)
    rw [Item.key, Except.ok.injEq, Key.name.injEq] at hkey
    exact hnodup.2.2 hitem (hkey ▸ List.mem_singleton_self _)

end Keyed

namespace Complains

theorem append (h : Complains items before e) : Complains (items ++ rest) before e := by
  obtain ⟨item, after, keys, rfl, hkeyed, hitem⟩ := h
  exact ⟨item, after ++ rest, keys, by rw [List.append_assoc, List.cons_append], hkeyed, hitem⟩

/-- There is one first element. -/
theorem unique {before' : List (Item Obj ε)} {e' : Exc Obj ε} (h : Complains items before e)
    (h' : Complains items before' e') : before = before' ∧ e = e' := by
  obtain ⟨item, after, keys, rfl, hkeyed, hitem⟩ := h
  obtain ⟨item', after', keys', heq, hkeyed', hitem'⟩ := h'
  have hnot {l : List (Item Obj ε)} {i : Item Obj ε} {ks : List (Key Obj)} {e : Exc Obj ε}
      {l' a' : List (Item Obj ε)} {ks' : List (Key Obj)} (hl : Keyed l ks)
      (hi : i.key = .error e ∨ ∃ k ∈ ks, i.key = .ok k ∧ e = .multiple k)
      (hl' : Keyed l' ks') (h : l' = l ++ i :: a') : False := by
    subst h
    exact hl'.not_complains ⟨i, a', ks, rfl, hl, hi⟩
  have hbefore : before = before' := by
    rcases List.append_eq_append_iff.mp heq with ⟨a, hb, ha⟩ | ⟨a, hb, ha⟩
    · cases a with
      | nil => exact (hb.trans (List.append_nil before)).symm
      | cons x a =>
        rw [List.cons_append, List.cons.injEq] at ha
        exact (hnot hkeyed hitem hkeyed' (ha.1 ▸ hb)).elim
    · cases a with
      | nil => exact hb.trans (List.append_nil before')
      | cons x a =>
        rw [List.cons_append, List.cons.injEq] at ha
        exact (hnot hkeyed' hitem' hkeyed (ha.1 ▸ hb)).elim
  subst hbefore
  obtain ⟨rfl, -⟩ := List.cons.inj (List.append_cancel_left heq)
  obtain rfl := hkeyed.eq hkeyed'
  refine ⟨rfl, ?_⟩
  rcases hitem with hitem | ⟨k, hk, hitem, rfl⟩
  · rcases hitem' with hitem' | ⟨k', -, hitem', -⟩
    · exact Except.error.inj (hitem.symm.trans hitem')
    · cases hitem.symm.trans hitem'
  · rcases hitem' with hitem' | ⟨k', -, hitem', rfl⟩
    · cases hitem.symm.trans hitem'
    · rw [Except.ok.inj (hitem.symm.trans hitem')]

end Complains

/-! ## The search for duplicate names -/

section

variable [DecidableEq Obj] {attrsSet : List (Key Obj)}

theorem checkItems_spec (items : List (Item Obj ε)) (h : Keyed before keys) (hset : ∀ k, k ∈ attrsSet ↔ k ∈ keys) :
    (∃ set' keys', checkItems items attrsSet = .ok set' ∧ Keyed (before ++ items) keys' ∧
      ∀ k, k ∈ set' ↔ k ∈ keys') ∨
    ∃ b e, checkItems items attrsSet = .error e ∧ Complains (before ++ items) b e := by
  induction items generalizing before keys attrsSet with
  | nil => exact .inl ⟨attrsSet, keys, rfl, by rwa [List.append_nil], hset⟩
  | cons item items ih =>
    rw [checkItems]
    cases hk : item.key with
    | error e => exact .inr ⟨before, e, rfl, item, items, keys, rfl, h, .inl hk⟩
    | ok attr =>
      by_cases hmem : attr ∈ attrsSet
      · refine .inr ⟨before, _, if_pos hmem, item, items, keys, rfl, h, .inr ?_⟩
        exact ⟨attr, (hset attr).mp hmem, hk, rfl⟩
      · have hset' : ∀ k, k ∈ attr :: attrsSet ↔ k ∈ keys ++ [attr] := fun k => by
          rw [List.mem_cons, List.mem_append, List.mem_singleton, hset k, or_comm]
        have hnext := ih (h.snoc hk (mt (hset attr).mpr hmem)) hset'
        rw [List.append_assoc, List.singleton_append] at hnext
        simpa only [if_neg hmem] using hnext

theorem checkFixedNames_spec {names : List Name} (done : List Name)
    (h : Keyed (items ++ done.map .str) (keys ++ done.map .name))
    (hset : ∀ k, k ∈ attrsSet ↔ k ∈ keys) (hnames : (done ++ names).Nodup) :
    (checkFixedNames (ε := ε) names attrsSet = .ok () ∧
      ∃ keys', Keyed (items ++ (done ++ names).map .str) keys') ∨
    ∃ b e, checkFixedNames names attrsSet = .error e ∧
      Complains (items ++ (done ++ names).map .str) b e := by
  induction names generalizing done with
  | nil => exact .inl ⟨rfl, _, by rwa [List.append_nil]⟩
  | cons name names ih =>
    rw [checkFixedNames]
    by_cases hmem : .name name ∈ attrsSet
    · refine .inr ⟨items ++ done.map .str, _, if_pos hmem, .str name, names.map .str, _, ?_, h,
        .inr ⟨_, List.mem_append_left _ ((hset _).mp hmem), rfl, rfl⟩⟩
      rw [List.map_append, List.map_cons, List.append_assoc]
    · have hnew : Key.name name ∉ keys ++ done.map .name := by
        rw [List.mem_append, not_or]
        refine ⟨mt (hset _).mpr hmem, fun hdone => ?_⟩
        obtain ⟨name', hname', heq⟩ := List.mem_map.mp hdone
        rw [List.nodup_append'] at hnames
        rw [Key.name.injEq] at heq
        exact hnames.2.2 hname' (heq ▸ List.mem_cons_self)
      have hkey : (Item.str name : Item Obj ε).key = .ok (.name name) := rfl
      have hsnoc := h.snoc hkey hnew
      have hnext := ih (done ++ [name])
        (by simpa only [List.map_append, List.append_assoc, List.map_singleton] using hsnoc)
        (by simpa only [List.append_assoc, List.singleton_append] using hnames)
      rw [List.append_assoc, List.singleton_append] at hnext
      simpa only [if_neg hmem] using hnext

/-- The search finds the first duplicate name, if there is one. -/
theorem classCheckDuplicateAttrs_spec {names : List Name} {n : ℕ} (hn : n ≤ items.length)
    (hnames : names.Nodup) (hmany : ¬ (names = [] ∧ items.length = 1)) :
    (classCheckDuplicateAttrs names items n = .ok () ∧
      ∃ keys, Keyed (items.take n ++ names.map .str) keys) ∨
    ∃ b e, classCheckDuplicateAttrs names items n = .error e ∧
      Complains (items.take n ++ names.map .str) b e := by
  rw [classCheckDuplicateAttrs, if_neg hmany, min_eq_right hn]
  have hitems := checkItems_spec (items.take n) Keyed.nil fun k => Iff.rfl
  rw [List.nil_append] at hitems
  rcases hitems with ⟨set', keys', heq, hkeyed, hset⟩ | ⟨b, e, heq, hcomplains⟩
  · rw [heq]
    refine checkFixedNames_spec [] ?_ hset hnames
    simpa only [List.map_nil, List.append_nil] using hkeyed
  · rw [heq]
    exact .inr ⟨b, e, rfl, hcomplains.append⟩

end

/-! ## Lookups -/

variable {getAttr : Name → Access Obj ε}

/-- The lookups of attributes, one after another. -/
def itemLookups (getAttr : Name → Access Obj ε) :
    List (Item Obj ε) → Except (Exc Obj ε) (Option (List Obj))
  | [] => .ok (some [])
  | .object _ :: _ => .error .elementType
  | .str name :: items =>
    match getAttr name with
    | .value o => (itemLookups getAttr items).map (Option.map (o :: ·))
    | .attributeError => .ok none
    | .raises e => .error (.raised e)

theorem map_eq_error {α β χ : Type} {f : α → β} {r : Except χ α} {x : χ} :
    r.map f = .error x ↔ r = .error x := by
  cases r with
  | error y => rw [Except.map, Except.error.injEq, Except.error.injEq]
  | ok a => exact iff_of_false nofun nofun

theorem Keyed.of_cons {item : Item Obj ε} (h : Keyed (item :: items) keys) :
    ∃ k ks, keys = k :: ks ∧ item.key = .ok k ∧ k ∉ ks ∧ Keyed items ks := by
  cases keys with
  | nil => cases h.1
  | cons k ks =>
    obtain ⟨hk, hks⟩ := List.cons.inj h.1
    obtain ⟨hnew, hnodup⟩ := List.nodup_cons.mp h.2
    exact ⟨k, ks, rfl, hk, hnew, hks, hnodup⟩

theorem pyLookups_of_not_mem {seen : List Name} (h : Keyed items keys)
    (hseen : ∀ name ∈ seen, .name name ∉ keys) :
    pyLookups getAttr items seen = itemLookups getAttr items := by
  induction items generalizing keys seen with
  | nil => rfl
  | cons item items ih =>
    obtain ⟨k, ks, rfl, hk, hnew, hks⟩ := h.of_cons
    cases item with
    | object hash => rfl
    | str name =>
      rw [Item.key, Except.ok.injEq] at hk
      subst hk
      have hname : name ∉ seen := fun hmem => hseen name hmem List.mem_cons_self
      have hrest : pyLookups getAttr items (name :: seen) = itemLookups getAttr items :=
        ih hks fun name' hmem hin => by
          rcases List.mem_cons.mp hmem with rfl | hmem
          · exact hnew hin
          · exact hseen name' hmem (List.mem_cons_of_mem _ hin)
      cases hget : getAttr name <;>
        simp only [pyLookups, if_neg hname, itemLookups, hrest, hget]

/-- Without duplicate names, Python looks up the attributes. -/
theorem pyLookups_keyed (h : Keyed items keys) :
    pyLookups getAttr items [] = itemLookups getAttr items :=
  pyLookups_of_not_mem h fun _ hmem => by cases hmem

theorem pyLookups_complains_seen {seen : List Name} {item : Item Obj ε}
    {after : List (Item Obj ε)} (h : Keyed before keys)
    (hseen : ∀ name ∈ seen, .name name ∉ keys)
    (hitem : item.key = .error e ∨
      ∃ k, (k ∈ keys ∨ ∃ name ∈ seen, k = .name name) ∧ item.key = .ok k ∧ e = .multiple k) :
    (∃ x, pyLookups getAttr (before ++ item :: after) seen = .error x ∧ x.kind = e.kind) ↔
      Fair getAttr e before := by
  induction before generalizing keys seen with
  | nil =>
    rw [List.nil_append, Fair]
    cases item with
    | object hash =>
      refine ⟨?_, fun he => ⟨_, rfl, he.symm⟩⟩
      rintro ⟨x, hx, hkind⟩
      cases hx
      exact hkind.symm
    | str name =>
      obtain rfl : keys = [] := List.map_eq_nil_iff.mp h.1.symm
      rcases hitem with hitem | ⟨k, hk, hitem, rfl⟩
      · cases hitem
      · rw [Item.key, Except.ok.injEq] at hitem
        subst hitem
        rcases hk with hk | ⟨name', hname', heq⟩
        · cases hk
        · cases heq
          rw [pyLookups, if_pos hname']
          exact iff_of_true ⟨_, rfl, rfl⟩ rfl
  | cons b before ih =>
    obtain ⟨k, ks, rfl, hk, hnew, hks⟩ := h.of_cons
    rw [List.cons_append]
    cases b with
    | object hash =>
      rw [pyLookups, Fair]
      refine ⟨?_, fun he => ⟨_, rfl, he.symm⟩⟩
      rintro ⟨x, hx, hkind⟩
      cases hx
      exact hkind.symm
    | str name =>
      rw [Item.key, Except.ok.injEq] at hk
      subst hk
      have hname : name ∉ seen := fun hmem => hseen name hmem List.mem_cons_self
      rw [pyLookups, if_neg hname, Fair]
      cases getAttr name with
      | value o =>
        simp only [map_eq_error]
        refine ih hks (fun name' hmem hin => ?_) (hitem.imp_right ?_)
        · rcases List.mem_cons.mp hmem with rfl | hmem
          · exact hnew hin
          · exact hseen name' hmem (List.mem_cons_of_mem _ hin)
        · rintro ⟨k', hk', hrest⟩
          refine ⟨k', ?_, hrest⟩
          rcases hk' with hk' | ⟨name', hname', rfl⟩
          · rcases List.mem_cons.mp hk' with rfl | hk'
            · exact .inr ⟨name, List.mem_cons_self, rfl⟩
            · exact .inl hk'
          · exact .inr ⟨name', List.mem_cons_of_mem _ hname', rfl⟩
      | attributeError =>
        refine iff_of_false ?_ id
        rintro ⟨x, hx, -⟩
        cases hx
      | raises e' =>
        refine ⟨?_, fun he => ⟨_, rfl, he.symm⟩⟩
        rintro ⟨x, hx, hkind⟩
        cases hx
        exact hkind.symm

/-- Where the search stops, Python raises the same if it gets there. -/
theorem pyLookups_complains (h : Complains items before e) :
    (∃ x, pyLookups getAttr items [] = .error x ∧ x.kind = e.kind) ↔ Fair getAttr e before := by
  obtain ⟨item, after, keys, rfl, hkeyed, hitem⟩ := h
  refine pyLookups_complains_seen hkeyed (fun _ hmem => by cases hmem) (hitem.imp_right ?_)
  rintro ⟨k, hk, hrest⟩
  exact ⟨k, .inl hk, hrest⟩

theorem itemLookups_eq_some {values : List Obj} :
    itemLookups getAttr items = .ok (some values) ↔ Found getAttr items values := by
  induction items generalizing values with
  | nil =>
    rw [itemLookups, Except.ok.injEq, Option.some_inj, Found, List.forall₂_nil_left_iff, eq_comm]
  | cons item items ih =>
    rw [Found, List.forall₂_cons_left_iff]
    cases item with
    | object hash => exact iff_of_false nofun fun ⟨_, _, ⟨_, h, _⟩, _⟩ => by cases h
    | str name =>
      rw [itemLookups]
      cases hget : getAttr name with
      | value o =>
        constructor
        · intro h
          cases hrest : itemLookups getAttr items with
          | error x => rw [hrest] at h; cases h
          | ok r =>
            cases r with
            | none => rw [hrest] at h; cases h
            | some values' =>
              rw [hrest] at h
              cases h
              exact ⟨o, values', ⟨name, rfl, hget⟩, ih.mp hrest, rfl⟩
        · rintro ⟨o', values', ⟨name', hname, hget'⟩, hrest, rfl⟩
          cases hname
          rw [hget] at hget'
          cases hget'
          rw [ih.mpr hrest]
          rfl
      | attributeError =>
        refine iff_of_false nofun ?_
        rintro ⟨_, _, ⟨_, hname, hget'⟩, _⟩
        cases hname
        rw [hget] at hget'
        cases hget'
      | raises e =>
        refine iff_of_false nofun ?_
        rintro ⟨_, _, ⟨_, hname, hget'⟩, _⟩
        cases hname
        rw [hget] at hget'
        cases hget'

theorem Found.strings {values : List Obj} (h : Found getAttr items values) :
    ∀ item ∈ items, ∃ name, item = .str name := by
  intro item hitem
  induction h with
  | nil => cases hitem
  | cons h _ ih =>
    rcases List.mem_cons.mp hitem with rfl | hitem
    · obtain ⟨name, hname, -⟩ := h
      exact ⟨name, hname⟩
    · exact ih hitem

theorem itemLookups_append {values : List Obj} (h : Found getAttr items values) :
    itemLookups getAttr (items ++ rest) =
      (itemLookups getAttr rest).map (Option.map (values ++ ·)) := by
  induction h with
  | nil =>
    rw [List.nil_append]
    cases itemLookups getAttr rest with
    | error x => rfl
    | ok r => cases r <;> rfl
  | cons hitem _ ih =>
    obtain ⟨name, rfl, hget⟩ := hitem
    rw [List.cons_append, itemLookups, hget]
    simp only [ih]
    cases itemLookups getAttr rest with
    | error x => rfl
    | ok r => cases r <;> rfl

theorem itemLookups_append_of_not_found (h : ∀ values, ¬ Found getAttr items values) :
    itemLookups getAttr (items ++ rest) = itemLookups getAttr items := by
  induction items with
  | nil => exact (h [] .nil).elim
  | cons item items ih =>
    cases item with
    | object hash => rfl
    | str name =>
      rw [List.cons_append, itemLookups, itemLookups]
      cases hget : getAttr name with
      | value o => rw [ih fun values hv => h (o :: values) (.cons ⟨name, rfl, hget⟩ hv)]
      | attributeError => rfl
      | raises e => rfl

theorem looksUp_iff : LooksUp getAttr items ↔
    ∀ e, itemLookups getAttr items ≠ .error (.raised e) := by
  constructor
  · intro h e
    induction items with
    | nil => exact nofun
    | cons item items ih =>
      cases item with
      | object hash => exact nofun
      | str name =>
        rw [itemLookups]
        cases hget : getAttr name with
        | value o =>
          refine mt map_eq_error.mp (ih fun before name' after heq hfound => ?_)
          obtain ⟨values, hfound⟩ := hfound
          refine h (.str name :: before) name' after (by rw [heq, List.cons_append]) ?_
          exact ⟨o :: values, .cons ⟨name, rfl, hget⟩ hfound⟩
        | attributeError => exact nofun
        | raises e' => exact (h [] name items rfl ⟨[], .nil⟩ e' hget).elim
  · rintro h before name after rfl ⟨values, hfound⟩ e hget
    refine h e ?_
    rw [itemLookups_append hfound, map_eq_error, itemLookups, hget]

/-! ## The loop over positional sub-patterns -/

/-- What is stored of a subject. -/
def wanted (requested : Bool) (o : Obj) : Option Obj := if requested then some o else none

theorem positionalLoop_spec {l : List (Item Obj ε × Bool)} (bound : List (Option Obj))
    (h : ∀ e, itemLookups getAttr (l.map Prod.fst) ≠ .error (.raised e)) :
    (∃ values, Found getAttr (l.map Prod.fst) values ∧
      positionalLoop getAttr l bound none =
        some ⟨1, bound ++ List.zipWith wanted (l.map Prod.snd) values, none⟩) ∨
    (itemLookups getAttr (l.map Prod.fst) = .ok none ∧
      ∃ s, positionalLoop getAttr l bound none = some ⟨0, s, none⟩) ∨
    ∃ x s, itemLookups getAttr (l.map Prod.fst) = .error x ∧
      positionalLoop getAttr l bound none = some ⟨-1, s, some x⟩ := by
  induction l generalizing bound with
  | nil => exact .inl ⟨[], .nil, by rw [List.map_nil, List.zipWith_nil_left, List.append_nil]; rfl⟩
  | cons a l ih =>
    obtain ⟨item, requested⟩ := a
    rw [List.map_cons] at h ⊢
    cases item with
    | object hash => exact .inr (.inr ⟨_, bound, rfl, rfl⟩)
    | str name =>
      rw [itemLookups] at h ⊢
      rw [positionalLoop]
      cases hget : getAttr name with
      | value o =>
        simp only [hget, map_eq_error, ne_eq] at h
        rcases ih (bound ++ [if requested then some o else none]) h with
          ⟨values, hfound, hloop⟩ | ⟨hnone, s, hloop⟩ | ⟨x, s, herror, hloop⟩
        · refine .inl ⟨o :: values, .cons ⟨name, rfl, hget⟩ hfound, ?_⟩
          simp only [hloop, List.append_assoc, List.singleton_append, List.map_cons,
            List.zipWith_cons_cons, wanted]
        · exact .inr (.inl ⟨by rw [hnone]; rfl, s, hloop⟩)
        · exact .inr (.inr ⟨x, s, map_eq_error.mpr herror, hloop⟩)
      | attributeError => exact .inr (.inl ⟨rfl, bound, rfl⟩)
      | raises e => exact (h e (by rw [hget])).elim

/-- A result that does not tell of the exception that was set. -/
def Misleads (r : Option (CallResult Obj ε)) : Prop :=
  r = none ∨ ∃ call, r = some call ∧
    (call.result = 1 ∧ call.pending ≠ none ∨ call.result = 0 ∨
      call.result = -1 ∧ call.pending = some .elementType)

theorem positionalLoop_pending {l : List (Item Obj ε × Bool)} {bound : List (Option Obj)}
    {p : Exc Obj ε} : Misleads (positionalLoop getAttr l bound (some p)) := by
  induction l generalizing bound p with
  | nil => exact .inr ⟨_, rfl, .inl ⟨rfl, Option.some_ne_none p⟩⟩
  | cons a l ih =>
    obtain ⟨item, requested⟩ := a
    cases item with
    | object hash => exact .inr ⟨_, rfl, .inr (.inr ⟨rfl, rfl⟩)⟩
    | str name =>
      rw [positionalLoop]
      cases getAttr name with
      | value o => exact ih
      | attributeError => exact .inr ⟨_, rfl, .inr (.inl rfl)⟩
      | raises e =>
        cases requested with
        | false => exact .inl rfl
        | true => exact ih

/-- The loop goes on after a lookup that raised, and its result does not tell of it. -/
theorem positionalLoop_raises {l : List (Item Obj ε × Bool)} (bound : List (Option Obj)) {e : ε}
    (h : itemLookups getAttr (l.map Prod.fst) = .error (.raised e)) :
    Misleads (positionalLoop getAttr l bound none) := by
  induction l generalizing bound with
  | nil => cases h
  | cons a l ih =>
    obtain ⟨item, requested⟩ := a
    rw [List.map_cons] at h
    cases item with
    | object hash => cases h
    | str name =>
      rw [itemLookups] at h
      rw [positionalLoop]
      cases hget : getAttr name with
      | value o => exact ih _ (map_eq_error.mp (by simpa only [hget] using h))
      | attributeError => rw [hget] at h; cases h
      | raises e' =>
        cases requested with
        | false => exact .inl rfl
        | true => exact positionalLoop_pending

end ClassPattern

end AHPy.MatchCase
