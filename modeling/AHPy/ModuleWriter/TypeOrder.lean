import AHPy.Lib.DepthFirst

/-!
# Declaration order of extension types

The structs of extension types are declared in an order that `sort_types_by_inheritance` finds.
The table that is sorted has the types of several modules, not necessarily all their bases.

* `TypeTable.sortTypesByInheritance`: the edges to subclasses and the depth-first search;
* `TypeTable.basesFirst_iff`: when each type comes after its bases in the table.
-/

namespace AHPy.TypeOrder

/-- An extension type, with the names of its structs. -/
inductive ExtensionType where
  | root (objstructCname : String) (vtabstructCname : Option String)
  | sub (objstructCname : String) (vtabstructCname : Option String) (baseType : ExtensionType)
  deriving DecidableEq

namespace ExtensionType

/-- `objstruct_cname` -/
def objstructCname : ExtensionType → String
  | root name _ => name
  | sub name _ _ => name

/-- `vtabstruct_cname`, if the type has a vtable. -/
def vtabstructCname : ExtensionType → Option String
  | root _ name => name
  | sub _ name _ => name

/-- The direct and indirect base types, from the direct one on. -/
def bases : ExtensionType → List ExtensionType
  | root _ _ => []
  | sub _ _ base => base :: base.bases

/-- The depth of a type in the inheritance. -/
def depth (t : ExtensionType) : ℕ := t.bases.length

/-- The bases of a base are bases. -/
theorem bases_suffix {t b : ExtensionType} (h : b ∈ t.bases) : (b :: b.bases) <:+ t.bases := by
  induction t with
  | root => cases h
  | sub _ _ base ih =>
    rcases List.mem_cons.1 h with rfl | h
    · exact List.suffix_rfl
    · exact (ih h).trans (List.suffix_cons base base.bases)

theorem bases_trans {t b c : ExtensionType} (h : b ∈ t.bases) (hc : c ∈ b.bases) : c ∈ t.bases :=
  (bases_suffix h).subset (List.mem_cons_of_mem b hc)

/-- Two bases of a type are bases of one another. -/
theorem bases_total {t b c : ExtensionType} (hb : b ∈ t.bases) (hc : c ∈ t.bases) :
    b = c ∨ b ∈ c.bases ∨ c ∈ b.bases := by
  rcases List.suffix_or_suffix_of_suffix (bases_suffix hb) (bases_suffix hc) with h | h
  · rcases List.mem_cons.1 (h.subset List.mem_cons_self) with heq | hmem
    · exact .inl heq
    · exact .inr (.inl hmem)
  · rcases List.mem_cons.1 (h.subset List.mem_cons_self) with heq | hmem
    · exact .inl heq.symm
    · exact .inr (.inr hmem)

theorem depth_lt {t b : ExtensionType} (h : b ∈ t.bases) : b.depth < t.depth :=
  (bases_suffix h).length_le

end ExtensionType

variable {K : Type} [DecidableEq K]

/-- `type_dict` and `type_order`: the types by their keys, which are the names of their structs
    of some kind. A name belongs to one type, whether it is in the table or a base. -/
structure TypeTable (getkey : ExtensionType → K) where
  types : List ExtensionType
  nodup : types.Nodup
  keyed : ∀ t ∈ types, ∀ u ∈ types, getkey u = getkey t → u = t
  keyedBases : ∀ t ∈ types, ∀ u ∈ types, ∀ b ∈ u.bases, getkey b = getkey t → b = t

namespace TypeTable

variable {getkey : ExtensionType → K} (table : TypeTable getkey)

/-- `type_dict.get` -/
def get (key : K) : Option ExtensionType := table.types.find? (fun t => getkey t = key)

/-- The keys of the bases to which a type is appended. The walk ends at a base that is not in
    the table; else it goes on with the base of the entry found, which is that of the base. -/
def walk : ExtensionType → List K
  | .root _ _ => []
  | .sub _ _ base =>
    getkey base ::
      if (table.get (getkey base)).isNone then [] else walk base

/-- An entry of the table. -/
abbrev Entry := {t // t ∈ table.types}

/-- `type_order` -/
def order : List table.Entry := table.types.attach

/-- `subclasses[key]` -/
def subclasses (key : K) : List table.Entry :=
  ((table.order.flatMap fun t => (table.walk t.1).map fun k => (k, t)).filter
    (fun a => a.1 = key)).map Prod.snd

theorem mem_subclasses {key : K} {t : table.Entry} :
    t ∈ table.subclasses key ↔ key ∈ table.walk t.1 := by
  simp [subclasses, order]

theorem get_isNone {t b : ExtensionType} (ht : t ∈ table.types) (hb : b ∈ t.bases) :
    (table.get (getkey b)).isNone ↔ b ∉ table.types := by
  rw [get, Option.isNone_iff_eq_none, List.find?_eq_none]
  constructor
  · intro h hmem
    simpa using h b hmem
  · intro h u hu hkey
    exact h (table.keyedBases u hu t ht b hb (of_decide_eq_true hkey).symm ▸ hu)

/-- A type between a base and its subclass is not in the table. -/
def Gap (u t : ExtensionType) : Prop := ∃ w ∈ t.bases, u ∈ w.bases ∧ w ∉ table.types

/-- A type is appended to the lists of its bases, up to a gap. -/
theorem mem_walk {t u : ExtensionType} (ht : t ∈ table.types) (hu : u ∈ table.types) :
    getkey u ∈ table.walk t ↔ u ∈ t.bases ∧ ¬ table.Gap u t := by
  have hkeys : ∀ b ∈ t.bases, getkey b = getkey u → b = u :=
    fun b hb => table.keyedBases u hu t ht b hb
  have hget := fun b (hb : b ∈ t.bases) => table.get_isNone ht hb
  clear ht
  induction t with
  | root => simp [walk, ExtensionType.bases]
  | sub objstruct vtabstruct base ih =>
    have hbase : base ∈ (ExtensionType.sub objstruct vtabstruct base).bases :=
      List.mem_cons_self
    have ih := ih (fun b hb => hkeys b (List.mem_cons_of_mem base hb))
      (fun b hb => hget b (List.mem_cons_of_mem base hb))
    rw [walk, List.mem_cons]
    constructor
    · rintro (hkey | hmem)
      · obtain rfl := hkeys base hbase hkey.symm
        refine ⟨hbase, ?_⟩
        rintro ⟨w, hw, hbw, -⟩
        rcases List.mem_cons.1 hw with rfl | hw
        · exact (ExtensionType.depth_lt hbw).false
        · exact (ExtensionType.depth_lt hbw).asymm (ExtensionType.depth_lt hw)
      · split_ifs at hmem with hnone
        · cases hmem
        obtain ⟨hub, hgap⟩ := ih.1 hmem
        rw [hget base hbase, not_not] at hnone
        refine ⟨List.mem_cons_of_mem base hub, ?_⟩
        rintro ⟨w, hw, huw, hmissing⟩
        rcases List.mem_cons.1 hw with rfl | hw
        · exact hmissing hnone
        · exact hgap ⟨w, hw, huw, hmissing⟩
    · rintro ⟨hub, hgap⟩
      rcases List.mem_cons.1 hub with rfl | hub
      · exact .inl rfl
      have hin : base ∈ table.types := by
        by_contra hmissing
        exact hgap ⟨base, hbase, hub, hmissing⟩
      rw [if_neg fun hnone => (hget base hbase).1 hnone hin]
      refine .inr (ih.2 ⟨hub, ?_⟩)
      rintro ⟨w, hw, huw, hmissing⟩
      exact hgap ⟨w, List.mem_cons_of_mem base hw, huw, hmissing⟩

/-- The greatest depth in the table. -/
def maxDepth : ℕ := table.types.foldr (fun t n => max t.depth n) 0

omit [DecidableEq K] in
theorem depth_le_maxDepth {t : ExtensionType} (h : t ∈ table.types) :
    t.depth ≤ table.maxDepth := by
  rw [maxDepth]
  generalize table.types = types at h
  induction types with
  | nil => cases h
  | cons u types ih =>
    rcases List.mem_cons.1 h with rfl | h
    · exact le_max_left _ _
    · exact (ih h).trans (le_max_right _ _)

theorem mem_subclasses_iff {u t : table.Entry} :
    t ∈ table.subclasses (getkey u.1) ↔ u.1 ∈ t.1.bases ∧ ¬ table.Gap u.1 t.1 := by
  rw [mem_subclasses, table.mem_walk t.2 u.2]

theorem rank_decreasing (u t : table.Entry) (h : t ∈ table.subclasses (getkey u.1)) :
    table.maxDepth - t.1.depth < table.maxDepth - u.1.depth := by
  have hdepth := ExtensionType.depth_lt (table.mem_subclasses_iff.1 h).1
  have hle := table.depth_le_maxDepth t.2
  omega

/-- The graph of the search, from bases to subclasses. -/
def dag : Dag table.Entry :=
  ⟨fun u => table.subclasses (getkey u.1), fun t => table.maxDepth - t.1.depth,
    table.rank_decreasing⟩

/-- `sort_types_by_inheritance` -/
def sortTypesByInheritance : List table.Entry :=
  (table.dag.search table.order.reverse).result.reverse

/-! ## The order that is found -/

/-- The types of the table that are connected to a type: it, and its bases up to a gap. -/
def Connected (u t : ExtensionType) : Prop :=
  u ∈ table.types ∧ (u = t ∨ u ∈ t.bases ∧ ¬ table.Gap u t)

theorem below_iff {u t : table.Entry} : table.dag.Below u t ↔ table.Connected u.1 t.1 := by
  constructor
  · intro h
    induction h with
    | refl => exact ⟨u.2, .inl rfl⟩
    | @tail b c _ hstep ih =>
      obtain ⟨hbc, hgap⟩ := table.mem_subclasses_iff.1 hstep
      refine ⟨u.2, .inr ?_⟩
      rcases ih.2 with heq | ⟨hub, hgap'⟩
      · rw [heq]
        exact ⟨hbc, hgap⟩
      refine ⟨ExtensionType.bases_trans hbc hub, ?_⟩
      rintro ⟨w, hw, huw, hmissing⟩
      rcases ExtensionType.bases_total hw hbc with rfl | hwb | hbw
      · exact hmissing b.2
      · exact hgap' ⟨w, hwb, huw, hmissing⟩
      · exact hgap ⟨w, hw, hbw, hmissing⟩
  · rintro ⟨-, heq | h⟩
    · rw [Subtype.ext heq]
      exact .refl
    · exact .single (table.mem_subclasses_iff.2 h)

/-- Each type comes after its bases. -/
def BasesFirst (types : List ExtensionType) : Prop :=
  types.Pairwise fun t u => u ∉ t.bases

/-- One type is registered before another one. -/
def Before (u t : ExtensionType) : Prop := [u, t].Sublist table.types

/-- The last type connected to `t` is registered after those connected to `u`. -/
def RegisteredAfter (t u : ExtensionType) : Prop :=
  ∃ s, table.Connected s t ∧ ∀ r, table.Connected r u → table.Before r s

section

omit [DecidableEq K]

theorem order_nodup : table.order.Nodup := List.nodup_attach.2 table.nodup

theorem pair_map_iff {l : List table.Entry} {u t : table.Entry} :
    [u.1, t.1].Sublist (l.map Subtype.val) ↔ [u, t].Sublist l := by
  constructor
  · intro h
    obtain ⟨pair, hpair, hmap⟩ := List.sublist_map_iff.1 h
    obtain ⟨a, l, rfl, ha, hl⟩ := List.map_eq_cons_iff.1 hmap.symm
    obtain ⟨b, rfl, hb⟩ := List.map_eq_singleton_iff.1 hl
    rw [Subtype.ext ha, Subtype.ext hb] at hpair
    exact hpair
  · exact fun h => h.map Subtype.val

theorem before_iff {u t : table.Entry} :
    table.Before u.1 t.1 ↔ [u, t].Sublist table.order := by
  have h := table.pair_map_iff (u := u) (t := t) (l := table.order)
  rw [order, List.attach_map_subtype_val] at h
  exact h

end

theorem mem_result (t : table.Entry) :
    t ∈ (table.dag.search table.order.reverse).result :=
  Dag.mem_search.2 ⟨t, List.mem_reverse.2 (List.mem_attach _ t), .refl⟩

theorem sortTypesByInheritance_nodup : table.sortTypesByInheritance.Nodup :=
  List.nodup_reverse.2 (Dag.search_nodup _)

theorem mem_sortTypesByInheritance (t : table.Entry) : t ∈ table.sortTypesByInheritance :=
  List.mem_reverse.2 (table.mem_result t)

/-- Each entry is in the result once. -/
theorem sortTypesByInheritance_perm :
    (table.sortTypesByInheritance.map Subtype.val).Perm table.types := by
  refine (List.perm_ext_iff_of_nodup
    (table.sortTypesByInheritance_nodup.map Subtype.val_injective) table.nodup).2 fun t => ?_
  constructor
  · intro h
    obtain ⟨u, -, rfl⟩ := List.mem_map.1 h
    exact u.2
  · exact fun h => List.mem_map.2 ⟨⟨t, h⟩, table.mem_sortTypesByInheritance _, rfl⟩

/-- Two types come in the order in which the last types connected to them are registered. -/
theorem pair_of_registeredAfter {t u : table.Entry} (h : table.RegisteredAfter t.1 u.1) :
    [u, t].Sublist table.sortTypesByInheritance := by
  obtain ⟨s, hs, hafter⟩ := h
  obtain ⟨s, rfl⟩ : ∃ s' : table.Entry, s'.1 = s := ⟨⟨s, hs.1⟩, rfl⟩
  obtain ⟨l, l', horder⟩ := List.append_of_mem (List.mem_attach table.types s)
  have hreverse : table.order.reverse = (l'.reverse ++ [s]) ++ l.reverse := by
    rw [order, horder]
    simp
  rw [sortTypesByInheritance, ← List.reverse_sublist, List.reverse_reverse]
  have hall := table.mem_result u
  rw [hreverse] at hall ⊢
  refine Dag.pair_of_first_roots ?_ ?_ hall
  · refine Dag.mem_search.2 ⟨s, ?_, table.below_iff.2 hs⟩
    exact List.mem_append_right _ (List.mem_singleton_self _)
  · intro hfound
    obtain ⟨r, hr, hru⟩ := Dag.mem_search.1 hfound
    have hbefore := table.before_iff.1 (hafter r.1 (table.below_iff.1 hru))
    refine pair_asymm table.order_nodup hbefore ?_
    rcases List.mem_append.1 hr with hr | hr
    · rw [order, horder]
      exact .trans (.cons_cons s (List.singleton_sublist.2 (List.mem_reverse.1 hr)))
        (List.sublist_append_right l _)
    · rw [List.mem_singleton.1 hr] at hbefore ⊢
      exact hbefore

omit [DecidableEq K] in
/-- Types with a gap between them have no connected types in common. -/
theorem Gap.disjoint {u t r : ExtensionType} (hut : u ∈ t.bases) (hgap : table.Gap u t)
    (hu : u ∈ table.types) (hru : table.Connected r u) : ¬ table.Connected r t := by
  rintro ⟨-, rfl | ⟨hrt, hnogap⟩⟩
  · rcases hru.2 with rfl | ⟨hru, -⟩
    · exact (ExtensionType.depth_lt hut).false
    · exact (ExtensionType.depth_lt hut).asymm (ExtensionType.depth_lt hru)
  · obtain ⟨w, hw, huw, hmissing⟩ := hgap
    rcases hru.2 with rfl | ⟨hru, -⟩
    · exact hnogap ⟨w, hw, huw, hmissing⟩
    · exact hnogap ⟨w, hw, ExtensionType.bases_trans huw hru, hmissing⟩

omit [DecidableEq K] in
/-- The type among those connected to `t` or `u` that is registered last decides. -/
theorem registeredAfter_or {t u : table.Entry}
    (h : ∀ r, table.Connected r u.1 → ¬ table.Connected r t.1) :
    table.RegisteredAfter t.1 u.1 ∨ table.RegisteredAfter u.1 t.1 := by
  classical
  obtain ⟨k, hk⟩ := Option.isSome_iff_exists.1 (List.find?_isSome.2
    (⟨t, List.mem_reverse.2 (List.mem_attach _ t), by simp [Connected, t.2]⟩ :
      ∃ k ∈ table.order.reverse,
        decide (table.Connected k.1 t.1 ∨ table.Connected k.1 u.1) = true))
  obtain ⟨hreaches, l, l', hsplit, hfirst⟩ := List.find?_eq_some_iff_append.1 hk
  -- every other type that is connected to `t` or `u` is registered before `k`
  have hlast : ∀ r : table.Entry, r ≠ k →
      (table.Connected r.1 t.1 ∨ table.Connected r.1 u.1) → table.Before r.1 k.1 := by
    intro r hne hr
    rw [before_iff, ← List.reverse_sublist, hsplit]
    have hmem : r ∈ table.order.reverse := List.mem_reverse.2 (List.mem_attach _ r)
    rw [hsplit] at hmem
    rcases List.mem_append.1 hmem with hmem | hmem
    · have := hfirst r hmem
      simp [hr] at this
    · have htail := (List.mem_cons.1 hmem).resolve_left hne
      exact .trans (.cons_cons k (List.singleton_sublist.2 htail)) (List.sublist_append_right l _)
  rcases of_decide_eq_true hreaches with ht | hu
  · refine .inl ⟨k.1, ht, fun r hr => hlast ⟨r, hr.1⟩ ?_ (.inr hr)⟩
    rintro rfl
    exact h _ hr ht
  · refine .inr ⟨k.1, hu, fun r hr => hlast ⟨r, hr.1⟩ ?_ (.inl hr)⟩
    rintro rfl
    exact h _ hu hr

/-- A base without a gap comes first. -/
theorem pair_of_connected {t u : table.Entry} (hut : u.1 ∈ t.1.bases)
    (hgap : ¬ table.Gap u.1 t.1) : [u, t].Sublist table.sortTypesByInheritance := by
  rw [sortTypesByInheritance, ← List.reverse_sublist, List.reverse_reverse]
  exact Dag.pair_of_successor (table.mem_result u) (table.mem_subclasses_iff.2 ⟨hut, hgap⟩)

/-- The types are sorted if and only if, where a type is missing between a base and a subclass,
    the last type connected to the subclass is registered after those connected to the base. -/
theorem basesFirst_iff :
    ((table.sortTypesByInheritance.map Subtype.val).Perm table.types ∧
        BasesFirst (table.sortTypesByInheritance.map Subtype.val)) ↔
      ∀ t ∈ table.types, ∀ u ∈ table.types, u ∈ t.bases → table.Gap u t →
        table.RegisteredAfter t u := by
  constructor
  · rintro ⟨-, hfirst⟩ t ht u hu hut hgap
    have hdisjoint : ∀ r, table.Connected r u → ¬ table.Connected r t :=
      fun r => Gap.disjoint table hut hgap hu
    rcases @registeredAfter_or _ _ table ⟨t, ht⟩ ⟨u, hu⟩ hdisjoint with h | h
    · exact h
    · have hpair := @pair_of_registeredAfter _ _ _ table ⟨u, hu⟩ ⟨t, ht⟩ h
      exact absurd hut (List.pairwise_iff_forall_sublist.1 hfirst (table.pair_map_iff.2 hpair))
  · intro h
    refine ⟨table.sortTypesByInheritance_perm, List.pairwise_iff_forall_sublist.2 ?_⟩
    intro a b hab hba
    obtain ⟨a, -, rfl⟩ := List.mem_map.1 (hab.subset List.mem_cons_self)
    obtain ⟨b, -, rfl⟩ :=
      List.mem_map.1 (hab.subset (List.mem_cons_of_mem _ List.mem_cons_self))
    refine pair_asymm table.sortTypesByInheritance_nodup (table.pair_map_iff.1 hab) ?_
    by_cases hgap : table.Gap b.1 a.1
    · exact table.pair_of_registeredAfter (h a.1 a.2 b.1 b.2 hba hgap)
    · exact table.pair_of_connected hba hgap

end TypeTable

/-! ## A missing type -/

/-- A base, a subclass that is not in the table, and a subclass of that one. -/
def typeA : ExtensionType := .root "A" none
def typeB : ExtensionType := .sub "B" none typeA
def typeC : ExtensionType := .sub "C" none typeB

theorem missingB_nodup : [typeC, typeA].Nodup := by decide

theorem missingB_keyed : ∀ t ∈ [typeC, typeA], ∀ u ∈ [typeC, typeA],
    u.objstructCname = t.objstructCname → u = t := by decide

theorem missingB_keyedBases : ∀ t ∈ [typeC, typeA], ∀ u ∈ [typeC, typeA], ∀ b ∈ u.bases,
    b.objstructCname = t.objstructCname → b = t := by decide

/-- The last subclass is registered before the base. -/
def missingB : TypeTable ExtensionType.objstructCname :=
  ⟨[typeC, typeA], missingB_nodup, missingB_keyed, missingB_keyedBases⟩

/-- `C` is declared before its indirect base `A`. -/
theorem not_basesFirst_missingB : ¬ ((missingB.sortTypesByInheritance.map Subtype.val).Perm
      missingB.types ∧
    TypeTable.BasesFirst (missingB.sortTypesByInheritance.map Subtype.val)) := by
  rintro ⟨-, hfirst⟩
  have hA : typeA ∈ missingB.types := by decide
  have hC : typeC ∈ missingB.types := by decide
  have hregistered : missingB.RegisteredAfter typeA typeC := by
    refine ⟨typeA, ⟨hA, .inl rfl⟩, ?_⟩
    rintro r ⟨hr, rfl | ⟨hrC, hgap⟩⟩
    · exact List.Sublist.refl _
    · rcases List.mem_cons.1 hr with rfl | hr
      · exact absurd hrC (by decide)
      · obtain rfl := List.mem_singleton.1 hr
        exact absurd ⟨typeB, by decide, by decide, by decide⟩ hgap
  have hpair := @TypeTable.pair_of_registeredAfter _ _ _ missingB ⟨typeA, hA⟩ ⟨typeC, hC⟩
    hregistered
  have hbase : typeA ∈ typeC.bases := by decide
  exact List.pairwise_iff_forall_sublist.1 hfirst (missingB.pair_map_iff.2 hpair) hbase

end AHPy.TypeOrder
