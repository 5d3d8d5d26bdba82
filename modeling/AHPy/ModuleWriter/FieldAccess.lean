import AHPy.Lib.UniqueNames
import AHPy.ModuleWriter.FieldLayouts

/-!
# Accesses to fields of extension types

The structure of a type begins with that of its base type, so that an address in
an object of the base type is the address of the same member in an object of the
type. Traverse functions visit every object once. Code of a method addresses the
fields of its own class by their entries, but fields of a base class by their
names: where it is rendered with the layout of a class that has a field with the
same name, it addresses that field.

* `RenderedModule.TypeOf`: what is rendered for one type;
* `RenderedModule.traversesOnce`: traverse functions;
* `RenderedModule.fields_sound_iff`: when an access addresses the storage that
  the methods of the base type do.
-/

namespace AHPy.ModuleWriter

open NumberedNames

/-- The extension types of a module, with what the writer makes of them. -/
structure RenderedModule (p : ExtensionTypes) where
  scopes : List CClassScope
  types : List RenderedType
  declared : declareTypes p.classes = some scopes
  rendered : renderExtensionTypes p.classes scopes = some types

/-! ## Places -/

/-- The place of a field of a type. -/
structure IsPlace (t : ℕ) (e : VarEntry) (place : FieldPlace) : Prop where
  struct : place.struct = t
  cname : place.cname = fieldCname e.identity.position e
  storage : extensionFieldStorage e.type = some place.storage

theorem IsPlace.unique {t : ℕ} {e : VarEntry} {place place' : FieldPlace} (h : IsPlace t e place)
    (h' : IsPlace t e place') : place = place' := by
  obtain ⟨struct, cname, storage⟩ := place
  obtain ⟨struct', cname', storage'⟩ := place'
  have h₁ : struct = struct' := h.struct.trans h'.struct.symm
  have h₂ : cname = cname' := h.cname.trans h'.cname.symm
  have h₃ : storage = storage' := Option.some.inj (h.storage.symm.trans h'.storage)
  rw [h₁, h₂, h₃]

theorem fieldCname_inj {i j : ℕ} {e e' : VarEntry} (h : fieldCname i e = fieldCname j e') :
    i = j :=
  (toDigits_append_inj (noDigit_cons.mpr rfl) (noDigit_cons.mpr rfl)
    (List.append_cancel_left h)).1

theorem fieldPlaces_getElem? {t : ℕ} {fields : List VarEntry} {l : List (VarEntry × FieldPlace)}
    (h : fieldPlaces t fields = some l) {i : ℕ} {e : VarEntry} (hi : fields[i]? = some e) :
    ∃ storage, extensionFieldStorage e.type = some storage ∧
      l[i]? = some (e, ⟨t, fieldCname i e, storage⟩) := by
  obtain ⟨b, hb, hmake⟩ := grow_getElem? h hi
  rw [List.length_nil, Nat.zero_add] at hb hmake
  obtain ⟨storage, hstorage, rfl⟩ := Option.map_eq_some_iff.mp hmake
  obtain ⟨hlt, -⟩ := List.getElem?_eq_some_iff.mp hb
  refine ⟨storage, hstorage, ?_⟩
  rw [hb, List.length_take, min_eq_left hlt.le]

theorem length_fieldPlaces {t : ℕ} {fields : List VarEntry} {l : List (VarEntry × FieldPlace)}
    (h : fieldPlaces t fields = some l) : l.length = fields.length := by
  rw [(grow_extends h).2, List.length_nil, Nat.zero_add]

/-- The places of a type are those of its fields. -/
theorem mem_fieldPlaces {t : ℕ} {inherited declared : List Name} {s : CClassScope}
    (hs : ScopeOf t inherited declared s) {l : List (VarEntry × FieldPlace)}
    (h : fieldPlaces t s.varEntries = some l) {q : VarEntry × FieldPlace} :
    q ∈ l ↔ q.1 ∈ s.varEntries ∧ IsPlace t q.1 q.2 := by
  constructor
  · intro hq
    obtain ⟨i, hi⟩ := List.mem_iff_getElem?.mp hq
    have hlt : i < s.varEntries.length := by
      rw [← length_fieldPlaces h]
      exact (List.getElem?_eq_some_iff.mp hi).1
    have he := List.getElem?_eq_getElem hlt
    obtain ⟨storage, hstorage, hl⟩ := fieldPlaces_getElem? h he
    rw [hi] at hl
    obtain rfl := Option.some.inj hl
    refine ⟨List.getElem_mem hlt, rfl, ?_, hstorage⟩
    rw [hs.identity i _ he]
  · rintro ⟨he, hplace⟩
    obtain ⟨i, hi⟩ := List.mem_iff_getElem?.mp he
    obtain ⟨storage, hstorage, hl⟩ := fieldPlaces_getElem? h hi
    have hplace' : IsPlace t q.1 ⟨t, fieldCname i q.1, storage⟩ :=
      ⟨rfl, by rw [hs.identity i _ hi], hstorage⟩
    rw [← hplace.unique hplace'] at hl
    exact List.mem_of_getElem? hl

/-! ## Layouts -/

section

variable {layout : FieldLayout} {l : List (VarEntry × FieldPlace)} {k : LayoutKey}

/-- One of the keys of a field. -/
def IsKeyOf (k : LayoutKey) (e : VarEntry) : Prop := k = .entry e.identity ∨ k = .field e.name

theorem get?_addField_of_not {q : VarEntry × FieldPlace} (h : ¬IsKeyOf k q.1) :
    (addField layout q).get? k = layout.get? k := by
  rw [IsKeyOf, not_or] at h
  rw [addField, OrderedDict.get?_set_of_ne _ h.2, OrderedDict.get?_set_of_ne _ h.1]

theorem get?_addField {q : VarEntry × FieldPlace} (h : IsKeyOf k q.1) :
    (addField layout q).get? k = some q.2 := by
  rw [addField]
  by_cases hk : k = .field q.1.name
  · rw [hk, OrderedDict.get?_set_self]
  · rw [OrderedDict.get?_set_of_ne _ hk, h.resolve_right hk, OrderedDict.get?_set_self]

theorem get?_foldl_addField_of_not (h : ∀ q ∈ l, ¬IsKeyOf k q.1) :
    (l.foldl addField layout).get? k = layout.get? k := by
  induction l generalizing layout with
  | nil => rfl
  | cons q l ih =>
    rw [List.foldl_cons, ih fun q' hq' => h q' (List.mem_cons_of_mem _ hq'),
      get?_addField_of_not (h q List.mem_cons_self)]

/-- The place under a key of one field only. -/
theorem get?_foldl_addField {q : VarEntry × FieldPlace} (hq : q ∈ l) (hk : IsKeyOf k q.1)
    (h : ∀ q' ∈ l, IsKeyOf k q'.1 → q' = q) : (l.foldl addField layout).get? k = some q.2 := by
  induction l using List.reverseRecOn with
  | nil => cases hq
  | append_singleton l q' ih =>
    rw [List.foldl_append, List.foldl_cons, List.foldl_nil]
    by_cases hk' : IsKeyOf k q'.1
    · rw [get?_addField hk', h q' (List.mem_append_right _ List.mem_cons_self) hk']
    · rw [get?_addField_of_not hk']
      rcases List.mem_append.mp hq with hq | hq
      · exact ih hq fun q'' hq'' => h q'' (List.mem_append_left _ hq'')
      · rw [List.mem_singleton.mp hq] at hk
        exact absurd hk hk'

theorem aliasInherited_of_own {baseScope : CClassScope} {e : VarEntry}
    (he : e.isInherited = false) : aliasInherited baseScope layout e = layout := by
  rw [aliasInherited, he, if_neg Bool.false_ne_true]

/-- There is no copy in `var_entries`. -/
theorem foldl_aliasInherited {baseScope : CClassScope} {fields : List VarEntry}
    (h : ∀ e ∈ fields, e.isInherited = false) :
    fields.foldl (aliasInherited baseScope) layout = layout := by
  induction fields with
  | nil => rfl
  | cons e fields ih =>
    rw [List.foldl_cons, aliasInherited_of_own (h e List.mem_cons_self)]
    exact ih fun e' he' => h e' (List.mem_cons_of_mem _ he')

end

/-! ## Types -/

namespace RenderedModule

variable {p : ExtensionTypes} (m : RenderedModule p) {t u b : ℕ}

/-- What is rendered for the type with the number `t`. -/
structure TypeOf (t : ℕ) (c : CClassDefNode) (s : CClassScope) (r : RenderedType)
    (places : List (VarEntry × FieldPlace)) : Prop where
  node : p.classes[t]? = some c
  scope : m.scopes[t]? = some s
  type : m.types[t]? = some r
  scopeOf : ScopeOf t ((c.base.bind fun b => m.scopes[b]?).elim [] fun b =>
    (b.inheritedVarEntries ++ b.varEntries).map VarEntry.name) c.fieldNames s
  places_ok : fieldPlaces t s.varEntries = some places
  layout : r.layout = places.foldl addField
    ((c.base.bind fun b => m.types[b]?).elim .empty RenderedType.layout)
  base : r.struct.base = c.base
  fields : r.struct.fields = places.map fun q => (q.2.cname, q.2.storage)
  traverse : r.traverse =
    if !((places.filter fun q => q.2.storage = .object).map fun q => q.2.cname).isEmpty ||
        (c.base.bind fun b => m.types[b]?).any fun b => b.traverse.isSome then
      some ⟨if (c.base.bind fun b => m.types[b]?).any fun b => b.traverse.isSome then c.base
        else none, (places.filter fun q => q.2.storage = .object).map fun q => q.2.cname⟩
    else none

/-- The base type comes before the type. -/
theorem base_take {α : Type} {l : List α} {c : CClassDefNode} (hc : p.classes[t]? = some c) :
    (c.base.bind fun b => (l.take t)[b]?) = c.base.bind fun b => l[b]? := by
  cases hb : c.base with
  | none => rfl
  | some b => exact List.getElem?_take_of_lt (p.earlier t b c hc hb)

theorem exists_typeOf {c : CClassDefNode} (hc : p.classes[t]? = some c) :
    ∃ s r places, m.TypeOf t c s r places := by
  obtain ⟨s, hs, hdeclare⟩ := grow_getElem? m.declared hc
  obtain ⟨r, hr, hrender⟩ := grow_getElem? m.rendered hc
  rw [List.length_nil, Nat.zero_add] at hs hdeclare hr hrender
  have hlen : ∀ {α : Type} {l : List α} {a : α}, l[t]? = some a → (l.take t).length = t := by
    intro α l a h
    rw [List.length_take, min_eq_left (List.getElem?_eq_some_iff.mp h).1.le]
  have hscope := declareType_scopeOf hdeclare
  rw [hlen hs, base_take hc] at hscope
  have hown : ∀ e ∈ s.varEntries, e.isInherited = false := by
    intro e he
    obtain ⟨i, hi⟩ := List.mem_iff_getElem?.mp he
    rw [VarEntry.isInherited, hscope.identity i e hi]
  have hfilter : (s.varEntries.filter fun field => !field.isInherited) = s.varEntries :=
    List.filter_eq_self.mpr fun e he => by rw [hown e he]; rfl
  rw [renderExtensionType, hlen hr, base_take hc] at hrender
  simp only [hs, hfilter, Option.bind_eq_bind, Option.bind_some] at hrender
  obtain ⟨places, hplaces, hrender⟩ := Option.bind_eq_some_iff.mp hrender
  obtain rfl := Option.some.inj hrender
  refine ⟨s, _, places, hc, hs, hr, hscope, hplaces, ?_, rfl, rfl, rfl⟩
  cases c.base.bind fun b => m.scopes[b]? with
  | none => rfl
  | some baseScope => exact congrArg (List.foldl addField · places) (foldl_aliasInherited hown)

theorem typeOf_of_scope {s : CClassScope} (hs : m.scopes[t]? = some s) :
    ∃ c r places, m.TypeOf t c s r places := by
  have hlen := (grow_extends m.declared).2
  rw [List.length_nil, Nat.zero_add] at hlen
  have hlt := (List.getElem?_eq_some_iff.mp hs).1
  obtain ⟨s', r, places, h⟩ := m.exists_typeOf (List.getElem?_eq_getElem (hlen ▸ hlt))
  obtain rfl := Option.some.inj (h.scope.symm.trans hs)
  exact ⟨_, r, places, h⟩

theorem typeOf_of_type {r : RenderedType} (hr : m.types[t]? = some r) :
    ∃ c s places, m.TypeOf t c s r places := by
  have hlen := (grow_extends m.rendered).2
  rw [List.length_nil, Nat.zero_add] at hlen
  have hlt := (List.getElem?_eq_some_iff.mp hr).1
  obtain ⟨s, r', places, h⟩ := m.exists_typeOf (List.getElem?_eq_getElem (hlen ▸ hlt))
  obtain rfl := Option.some.inj (h.type.symm.trans hr)
  exact ⟨_, s, places, h⟩

namespace TypeOf

variable {m} {c : CClassDefNode} {s : CClassScope} {r : RenderedType}
  {places : List (VarEntry × FieldPlace)}

theorem identity (h : m.TypeOf t c s r places) {e : VarEntry} (he : e ∈ s.varEntries) :
    s.varEntries[e.identity.position]? = some e ∧ e.identity = ⟨t, false, e.identity.position⟩ := by
  obtain ⟨i, hi⟩ := List.mem_iff_getElem?.mp he
  have hid := h.scopeOf.identity i e hi
  rw [hid]
  exact ⟨hi, rfl⟩

theorem eq_of_identity (h : m.TypeOf t c s r places) {e e' : VarEntry} (he : e ∈ s.varEntries)
    (he' : e' ∈ s.varEntries) (hid : e.identity = e'.identity) : e = e' := by
  have hget := (h.identity he).1
  rw [hid, (h.identity he').1] at hget
  exact (Option.some.inj hget).symm

theorem hasField_iff (h : m.TypeOf t c s r places) {f : Name} :
    p.HasField t f ↔ ∃ e ∈ s.varEntries, e.name = f := by
  rw [← List.mem_map, h.scopeOf.names]
  constructor
  · rintro ⟨c', hc', hf⟩
    obtain rfl := Option.some.inj (hc'.symm.trans h.node)
    exact hf
  · intro hf
    exact ⟨c, h.node, hf⟩

theorem position (h : m.TypeOf t c s r places) {i : ℕ} {q : VarEntry × FieldPlace}
    (hq : places[i]? = some q) : q.1.identity.position = i := by
  have hlt := (List.getElem?_eq_some_iff.mp hq).1
  rw [length_fieldPlaces h.places_ok] at hlt
  have he := List.getElem?_eq_getElem hlt
  obtain ⟨storage, -, hl⟩ := fieldPlaces_getElem? h.places_ok he
  rw [hq] at hl
  rw [Option.some.inj hl, h.scopeOf.identity i _ he]

theorem exists_isPlace (h : m.TypeOf t c s r places) {e : VarEntry} (he : e ∈ s.varEntries) :
    ∃ place, IsPlace t e place := by
  obtain ⟨storage, hstorage, hl⟩ := fieldPlaces_getElem? h.places_ok (h.identity he).1
  exact ⟨⟨t, _, storage⟩, rfl, rfl, hstorage⟩

/-- The keys of a field are those of no other field of the type. -/
theorem layout_own (h : m.TypeOf t c s r places) {e : VarEntry} (he : e ∈ s.varEntries)
    {place : FieldPlace} (hplace : IsPlace t e place) {k : LayoutKey} (hk : IsKeyOf k e) :
    r.layout.get? k = some place := by
  rw [h.layout]
  have hmem := (mem_fieldPlaces h.scopeOf h.places_ok (q := (e, place))).mpr ⟨he, hplace⟩
  refine get?_foldl_addField hmem hk fun q hq hkq => ?_
  obtain ⟨hq, hplace'⟩ := (mem_fieldPlaces h.scopeOf h.places_ok).mp hq
  have hqe : q.1 = e := by
    rcases hk with rfl | rfl
    · rcases hkq with hkq | hkq
      · injection hkq with hkq
        exact h.eq_of_identity hq he hkq.symm
      · cases hkq
    · rcases hkq with hkq | hkq
      · cases hkq
      · injection hkq with hkq
        exact h.scopeOf.eq_of_name hq he hkq.symm
  obtain ⟨e', place'⟩ := q
  obtain rfl : e' = e := hqe
  exact Prod.ext rfl (hplace'.unique hplace)

/-- Under other keys, the layout has what that of the base type has. -/
theorem layout_other (h : m.TypeOf t c s r places) {k : LayoutKey}
    (hk : ∀ e ∈ s.varEntries, ¬IsKeyOf k e) : r.layout.get? k =
      ((c.base.bind fun b => m.types[b]?).elim .empty RenderedType.layout).get? k := by
  rw [h.layout]
  exact get?_foldl_addField_of_not fun q hq =>
    hk q.1 ((mem_fieldPlaces h.scopeOf h.places_ok).mp hq).1

end TypeOf

/-! ## What a layout has -/

end RenderedModule

namespace ExtensionTypes

variable {p : ExtensionTypes} {t u b v : ℕ} {f : Name}

theorem IsBase.lt (h : p.IsBase t b) : b < t := by
  obtain ⟨c, hc, hb⟩ := h
  exact p.earlier t b c hc hb

theorem Extends.le (h : p.Extends t u) : u ≤ t := by
  induction h with
  | refl => exact le_rfl
  | tail _ hb ih => exact hb.lt.le.trans ih

/-- What holds of a type if it holds of its base type holds of all types. -/
theorem induction {P : ℕ → Prop} (h : ∀ t, (∀ b, p.IsBase t b → P b) → P t) (t : ℕ) : P t := by
  induction t using Nat.strong_induction_on with
  | _ t ih => exact h t fun b hb => ih b hb.lt

theorem Declares.hasField (h : p.Declares f t v) : p.HasField v f := by
  induction h with
  | own h => exact h
  | base _ _ _ ih => exact ih

theorem Declares.extends (h : p.Declares f t v) : p.Extends t v := by
  induction h with
  | own _ => exact .refl
  | base _ hb _ ih => exact .head hb ih

end ExtensionTypes

namespace RenderedModule

variable {p : ExtensionTypes} (m : RenderedModule p) {t u b : ℕ}

/-- The layout of a type has the fields of the type and of its bases: each of them by its identity,
    and for each name the field with the name. It has no copies. -/
structure LayoutOf (t : ℕ) (r : RenderedType) : Prop where
  entry : ∀ (u : ℕ) (s : CClassScope) (e : VarEntry) (place : FieldPlace), p.Extends t u →
    m.scopes[u]? = some s → e ∈ s.varEntries → IsPlace u e place →
    r.layout.get? (.entry e.identity) = some place
  own : ∀ (id : EntryId) (place : FieldPlace), r.layout.get? (.entry id) = some place →
    id.inherited = false
  field : ∀ (v : ℕ) (s : CClassScope) (e : VarEntry) (place : FieldPlace),
    p.Declares e.name t v → m.scopes[v]? = some s → e ∈ s.varEntries → IsPlace v e place →
    r.layout.get? (.field e.name) = some place

theorem exists_base_type {r : RenderedType} (hr : m.types[t]? = some r) (hb : p.IsBase t b) :
    ∃ rb, m.types[b]? = some rb :=
  ⟨_, List.getElem?_eq_getElem (hb.lt.trans (List.getElem?_eq_some_iff.mp hr).1)⟩

variable {m} in
/-- Keys that are not those of fields of the type are looked up in the layout of the base type. -/
theorem TypeOf.layout_base {c : CClassDefNode} {s : CClassScope} {r rb : RenderedType}
    {places : List (VarEntry × FieldPlace)} (h : m.TypeOf t c s r places) (hb : p.IsBase t b)
    (hrb : m.types[b]? = some rb) {k : LayoutKey} (hk : ∀ e ∈ s.varEntries, ¬IsKeyOf k e) :
    r.layout.get? k = rb.layout.get? k := by
  obtain ⟨c', hc', hb⟩ := hb
  obtain rfl := Option.some.inj (hc'.symm.trans h.node)
  rw [h.layout_other hk, hb, Option.bind_some, hrb, Option.elim_some]

theorem layoutOf (t : ℕ) : ∀ r, m.types[t]? = some r → m.LayoutOf t r := by
  induction t using p.induction with
  | h t ih =>
    intro r hr
    obtain ⟨c, s, places, h⟩ := m.typeOf_of_type hr
    refine ⟨fun u su e place hu hsu he hplace => ?_, fun id place hid => ?_,
      fun v sv e place hv hsv he hplace => ?_⟩
    · rcases Relation.ReflTransGen.cases_head hu with rfl | ⟨b, hb, hu⟩
      · obtain rfl := Option.some.inj (hsu.symm.trans h.scope)
        exact h.layout_own he hplace (.inl rfl)
      · obtain ⟨rb, hrb⟩ := m.exists_base_type hr hb
        rw [h.layout_base hb hrb]
        · exact (ih b hb rb hrb).entry u su e place hu hsu he hplace
        · -- The entry is in the scope of another type.
          rintro e' he' (hkey | hkey)
          · injection hkey with hkey
            obtain ⟨cu, ru, pu, hu'⟩ := m.typeOf_of_scope hsu
            have hut : u = t := by
              have hscope := congrArg EntryId.scope hkey
              rwa [(hu'.identity he).2, (h.identity he').2] at hscope
            exact absurd hut ((ExtensionTypes.Extends.le hu).trans_lt hb.lt).ne
          · cases hkey
    · by_cases hkey : ∃ e ∈ s.varEntries, IsKeyOf (.entry id) e
      · obtain ⟨e, he, hkey | hkey⟩ := hkey
        · injection hkey with hkey
          rw [hkey, (h.identity he).2]
        · cases hkey
      · rw [h.layout_other fun e he hk => hkey ⟨e, he, hk⟩] at hid
        cases hb : c.base.bind fun b => m.types[b]? with
        | none =>
          rw [hb] at hid
          cases hid
        | some rb =>
          obtain ⟨b, hb, hrb⟩ := Option.bind_eq_some_iff.mp hb
          rw [hb, Option.bind_some, hrb] at hid
          exact (ih b ⟨c, h.node, hb⟩ rb hrb).own id place hid
    · cases hv with
      | own _ =>
        obtain rfl := Option.some.inj (hsv.symm.trans h.scope)
        exact h.layout_own he hplace (.inr rfl)
      | base hf hb hv =>
        obtain ⟨rb, hrb⟩ := m.exists_base_type hr hb
        rw [h.layout_base hb hrb]
        · exact (ih _ hb rb hrb).field v sv e place hv hsv he hplace
        · rintro e' he' (hkey | hkey)
          · cases hkey
          · injection hkey with hkey
            exact hf (h.hasField_iff.mpr ⟨e', he', hkey.symm⟩)

/-- Copies have the names of fields of the base type. -/
theorem copy_declared (t : ℕ) : ∀ s, m.scopes[t]? = some s → ∀ e ∈ s.inheritedVarEntries,
    ∃ b v, p.IsBase t b ∧ p.Declares e.name b v := by
  induction t using p.induction with
  | h t ih =>
    intro s hs e he
    obtain ⟨c, r, places, h⟩ := m.typeOf_of_scope hs
    have hname := List.mem_map_of_mem (f := VarEntry.name) he
    rw [h.scopeOf.copyNames] at hname
    cases hb : c.base.bind fun b => m.scopes[b]? with
    | none =>
      rw [hb] at hname
      cases hname
    | some sb =>
      rw [hb, Option.elim_some] at hname
      obtain ⟨b, hb, hsb⟩ := Option.bind_eq_some_iff.mp hb
      obtain ⟨e', he', hname⟩ := List.mem_map.mp hname
      have hbase : p.IsBase t b := ⟨c, h.node, hb⟩
      obtain ⟨cb, rb, pb, hb'⟩ := m.typeOf_of_scope hsb
      by_cases hf : p.HasField b e.name
      · exact ⟨b, b, hbase, .own hf⟩
      · rcases List.mem_append.mp he' with he' | he'
        · obtain ⟨b', v, hb'', hv⟩ := ih b hbase sb hsb e' he'
          exact ⟨b, v, hbase, .base hf hb'' (hname ▸ hv)⟩
        · exact absurd (hb'.hasField_iff.mpr ⟨e', he', hname⟩) hf

/-! ## Addresses -/

/-- The members of the structure of the base type. -/
def baseMembers (c : CClassDefNode) : List FieldPlace :=
  (c.base.bind fun b => (objects m.types)[b]?).getD []

section

variable {m} {c : CClassDefNode} {s : CClassScope} {r : RenderedType}
  {places : List (VarEntry × FieldPlace)}

/-- A structure has the members of the base type, the fields, and perhaps a reserved member. -/
theorem TypeOf.objects_eq (h : m.TypeOf t c s r places) : ∃ rest : List FieldPlace,
    (∀ q ∈ rest, q.struct = t ∧ q.storage ≠ .object) ∧
    (objects m.types)[t]? = some (m.baseMembers c ++ places.map Prod.snd ++ rest) := by
  have hlt : t < (objects m.types).length := by
    rw [objects, length_build, List.length_map]
    exact (List.getElem?_eq_some_iff.mp h.type).1
  have hlen : ((objects m.types).take t).length = t := by
    rw [List.length_take, min_eq_left hlt.le]
  refine ⟨if r.struct.reserved then [⟨t, "__pyx_hpy_reserved".toList, .native .char⟩] else [],
    fun q hq => ?_, ?_⟩
  · split at hq
    next => rw [List.mem_singleton.mp hq]; exact ⟨rfl, nofun⟩
    next => cases hq
  · have hget : (objects m.types)[t]? =
        (m.types[t]?.map RenderedType.struct).map (structMembers ((objects m.types).take t)) := by
      rw [objects, getElem?_build, List.getElem?_map]
    rw [hget, h.type, Option.map_some, Option.map_some, structMembers, hlen, h.base,
      base_take h.node, h.fields, List.map_map]
    have hplaces : places.map ((fun f : Name × FieldStorage => (⟨t, f.1, f.2⟩ : FieldPlace)) ∘
        fun q : VarEntry × FieldPlace => (q.2.cname, q.2.storage)) = places.map Prod.snd := by
      refine List.map_congr_left fun q hq => ?_
      obtain ⟨-, hplace⟩ := (mem_fieldPlaces h.scopeOf h.places_ok).mp hq
      rw [Function.comp_apply, ← hplace.struct]
    rw [hplaces]
    rfl

theorem TypeOf.baseMembers_eq (h : m.TypeOf t c s r places) (hb : p.IsBase t b) {l : List FieldPlace}
    (hl : (objects m.types)[b]? = some l) : m.baseMembers c = l := by
  obtain ⟨c', hc', hb⟩ := hb
  obtain rfl := Option.some.inj (hc'.symm.trans h.node)
  rw [baseMembers, hb, Option.bind_some, hl]
  rfl

theorem TypeOf.baseMembers_cases (h : m.TypeOf t c s r places) : m.baseMembers c = [] ∨
    ∃ b, p.IsBase t b ∧ (objects m.types)[b]? = some (m.baseMembers c) := by
  rw [baseMembers]
  cases hb : c.base.bind fun b => (objects m.types)[b]? with
  | none => exact .inl rfl
  | some l =>
    obtain ⟨b, hb, hl⟩ := Option.bind_eq_some_iff.mp hb
    exact .inr ⟨b, ⟨c, h.node, hb⟩, hl⟩

end

theorem typeOf_of_objects {l : List FieldPlace} (hl : (objects m.types)[t]? = some l) :
    ∃ c s r places, m.TypeOf t c s r places := by
  have hlt := (List.getElem?_eq_some_iff.mp hl).1
  rw [objects, length_build, List.length_map] at hlt
  obtain ⟨c, s, places, h⟩ := m.typeOf_of_type (List.getElem?_eq_getElem hlt)
  exact ⟨c, s, _, places, h⟩

/-- The members of a structure are those of the type and its bases. -/
theorem struct_le (t : ℕ) : ∀ l, (objects m.types)[t]? = some l → ∀ q ∈ l, q.struct ≤ t := by
  induction t using p.induction with
  | h t ih =>
    intro l hl q hq
    obtain ⟨c, s, r, places, h⟩ := m.typeOf_of_objects hl
    obtain ⟨rest, hrest, heq⟩ := h.objects_eq
    obtain rfl := Option.some.inj (heq.symm.trans hl)
    rcases List.mem_append.mp hq with hq | hq
    · rcases List.mem_append.mp hq with hq | hq
      · rcases h.baseMembers_cases with hnil | ⟨b, hb, hbl⟩
        · rw [hnil] at hq
          cases hq
        · exact (ih b hb _ hbl q hq).trans hb.lt.le
      · obtain ⟨q', hq', rfl⟩ := List.mem_map.mp hq
        exact ((mem_fieldPlaces h.scopeOf h.places_ok).mp hq').2.struct.le
    · exact (hrest q hq).1.le

/-- An object of the base type begins an object of the type. -/
theorem objects_prefix (hu : p.Extends t u) {l : List FieldPlace}
    (hl : (objects m.types)[t]? = some l) :
    ∃ l', (objects m.types)[u]? = some l' ∧ l' <+: l := by
  induction hu using Relation.ReflTransGen.head_induction_on generalizing l with
  | refl => exact ⟨l, hl, List.prefix_rfl⟩
  | @head t b hb _ ih =>
    obtain ⟨c, s, r, places, h⟩ := m.typeOf_of_objects hl
    obtain ⟨rest, -, heq⟩ := h.objects_eq
    obtain rfl := Option.some.inj (heq.symm.trans hl)
    have hlt := hb.lt.trans (List.getElem?_eq_some_iff.mp hl).1
    obtain ⟨l', hl', hpre⟩ := ih (List.getElem?_eq_getElem hlt)
    refine ⟨l', hl', hpre.trans ?_⟩
    rw [← h.baseMembers_eq hb (List.getElem?_eq_getElem hlt), List.append_assoc]
    exact List.prefix_append _ _

variable {m} {c : CClassDefNode} {s : CClassScope} {r : RenderedType}
  {places : List (VarEntry × FieldPlace)}

/-- The address of a field is its place after the members of the base type. -/
theorem TypeOf.memberAddress_eq (h : m.TypeOf t c s r places) {e : VarEntry}
    (he : e ∈ s.varEntries) {place : FieldPlace} (hplace : IsPlace t e place) :
    memberAddress (objects m.types) t place.cname =
      some ((m.baseMembers c).length + e.identity.position) := by
  obtain ⟨rest, -, heq⟩ := h.objects_eq
  obtain ⟨storage, hstorage, hl⟩ := fieldPlaces_getElem? h.places_ok (h.identity he).1
  have hget : (places.map Prod.snd)[e.identity.position]? = some place := by
    rw [List.getElem?_map, hl]
    exact congrArg some (IsPlace.unique ⟨rfl, rfl, hstorage⟩ hplace)
  obtain ⟨hlt, hget'⟩ := List.getElem?_eq_some_iff.mp hget
  rw [memberAddress, heq, Option.bind_some, List.append_assoc, List.findIdx?_append,
    List.findIdx?_append]
  have hbase : (m.baseMembers c).findIdx? (fun q => q.struct = t ∧ q.cname = place.cname) =
      none := by
    rw [List.findIdx?_eq_none_iff]
    intro q hq
    have hne : q.struct ≠ t := by
      rcases h.baseMembers_cases with hnil | ⟨b, hb, hbl⟩
      · rw [hnil] at hq
        cases hq
      · exact ((m.struct_le b _ hbl q hq).trans_lt hb.lt).ne
    simp [hne]
  have hown : (places.map Prod.snd).findIdx? (fun q => q.struct = t ∧ q.cname = place.cname) =
      some e.identity.position := by
    rw [List.findIdx?_eq_some_iff_getElem]
    refine ⟨hlt, by simp [hget', hplace.struct], fun j hj => ?_⟩
    obtain ⟨e', hj'⟩ : ∃ e', s.varEntries[j]? = some e' := by
      refine ⟨_, List.getElem?_eq_getElem ?_⟩
      exact hj.trans (List.getElem?_eq_some_iff.mp (h.identity he).1).1
    obtain ⟨storage', -, hl'⟩ := fieldPlaces_getElem? h.places_ok hj'
    have hget'' : (places.map Prod.snd)[j]? = some ⟨t, fieldCname j e', storage'⟩ := by
      rw [List.getElem?_map, hl']
      rfl
    obtain ⟨_, hget''⟩ := List.getElem?_eq_some_iff.mp hget''
    rw [hget'', hplace.cname]
    simp only [true_and, decide_eq_true_eq]
    exact fun hcname => hj.ne (fieldCname_inj hcname)
  rw [hbase, hown]
  simp [Nat.add_comm]

/-- At that address, an object of the type or of a type that extends it has the field. -/
theorem TypeOf.getElem?_address {e : VarEntry} {place : FieldPlace} {l : List FieldPlace}
    (h : m.TypeOf u c s r places) (ht : p.Extends t u) (he : e ∈ s.varEntries)
    (hplace : IsPlace u e place) (hl : (objects m.types)[t]? = some l) :
    l[(m.baseMembers c).length + e.identity.position]? = some place := by
  obtain ⟨l', hl', rest', rfl⟩ := m.objects_prefix ht hl
  obtain ⟨rest, -, heq⟩ := h.objects_eq
  obtain rfl := Option.some.inj (heq.symm.trans hl')
  obtain ⟨storage, hstorage, hget⟩ := fieldPlaces_getElem? h.places_ok (h.identity he).1
  have hget' : (places.map Prod.snd)[e.identity.position]? = some place := by
    rw [List.getElem?_map, hget]
    exact congrArg some (IsPlace.unique ⟨rfl, rfl, hstorage⟩ hplace)
  have hlt := (List.getElem?_eq_some_iff.mp hget').1
  rw [List.append_assoc, List.append_assoc, List.getElem?_append_right (Nat.le_add_right _ _),
    Nat.add_sub_cancel_left, List.getElem?_append_left hlt, hget']

/-! ## Traversal -/

end RenderedModule

/-- The addresses of objects in the members of a structure. -/
def objectAddresses (l : List FieldPlace) : List ℕ :=
  (l.zipIdx.filter fun q => q.1.storage = .object).map Prod.snd

theorem mem_objectAddresses {l : List FieldPlace} {a : ℕ} :
    a ∈ objectAddresses l ↔ ∃ q, l[a]? = some q ∧ q.storage = .object := by
  simp [objectAddresses, List.mem_zipIdx_iff_getElem?, and_comm]

theorem nodup_objectAddresses (l : List FieldPlace) : (objectAddresses l).Nodup := by
  have hnodup : (l.zipIdx.map Prod.snd).Nodup := List.nodup_zipIdx_map_snd l
  exact hnodup.sublist (List.filter_sublist.map _)

/-- The addresses of fields that are visited one after another. -/
theorem filterMap_cname {l : List FieldPlace} {k : ℕ} {address : Name → Option ℕ}
    (h : ∀ q ∈ l.zipIdx k, address q.1.cname = some q.2) :
    ((l.filter fun q => q.storage = .object).map FieldPlace.cname).filterMap address =
      ((l.zipIdx k).filter fun q => q.1.storage = .object).map Prod.snd := by
  induction l generalizing k with
  | nil => rfl
  | cons q l ih =>
    rw [List.zipIdx_cons] at h ⊢
    have hl := ih fun q' hq' => h q' (List.mem_cons_of_mem _ hq')
    by_cases hq : q.storage = .object
    · rw [List.filter_cons_of_pos (by simpa using hq), List.filter_cons_of_pos (by simpa using hq),
        List.map_cons, List.map_cons, List.filterMap_cons, h (q, k) List.mem_cons_self, hl]
    · rw [List.filter_cons_of_neg (by simpa using hq), List.filter_cons_of_neg (by simpa using hq),
        hl]

section

variable {visit : ℕ → ℤ}

theorem visitAll_of_zero (h : ∀ a, visit a = 0) (l : List ℕ) : visitAll visit l = (l, 0) := by
  induction l with
  | nil => rfl
  | cons a l ih => rw [visitAll, if_pos (h a), ih]

theorem visitAll_sublist (visit : ℕ → ℤ) (l : List ℕ) : (visitAll visit l).1.Sublist l := by
  induction l with
  | nil => exact .refl _
  | cons a l ih =>
    rw [visitAll]
    split
    next => exact ih.cons_cons a
    next => exact (List.nil_sublist l).cons_cons a

end

/-- A traverse function visits the addresses in a list, or as many of them as `visit` lets it; a
    type without such a function has none to visit. -/
structure VisitsAll (l : List ℕ) (f : Option Traverse) : Prop where
  none : f = none → l = []
  all : ∀ g, f = some g → ∀ visit, (∀ a, visit a = 0) → g visit = (l, 0)
  sublist : ∀ g, f = some g → ∀ visit, (g visit).1.Sublist l

/-- The function of the base type is called before the own fields are visited. -/
theorem visitsAll_afterBase {l l' : List ℕ} {base : Option Traverse} (h : VisitsAll l base) :
    VisitsAll (l ++ l') (some (afterBase base fun visit => visitAll visit l')) where
  none := nofun
  all := by
    rintro g hg visit hvisit
    rw [← Option.some.inj hg]
    cases base with
    | none =>
      rw [h.none rfl]
      exact visitAll_of_zero hvisit l'
    | some f => simp [afterBase, h.all f rfl visit hvisit, visitAll_of_zero hvisit]
  sublist := by
    rintro g hg visit
    rw [← Option.some.inj hg]
    cases base with
    | none =>
      rw [h.none rfl]
      exact visitAll_sublist visit l'
    | some f =>
      have hf := h.sublist f rfl visit
      simp only [afterBase]
      split
      next => exact hf.trans (List.sublist_append_left l l')
      next => exact hf.append (visitAll_sublist visit l')

namespace RenderedModule

variable {p : ExtensionTypes} (m : RenderedModule p) {t u b : ℕ}

/-- The traverse function of a type. -/
def traverse (t : ℕ) : Option Traverse := ((traverseFunctions m.types)[t]?).join

theorem traverse_eq {r : RenderedType} (hr : m.types[t]? = some r) : m.traverse t =
    r.traverse.map (runTraverse (objects m.types) ((traverseFunctions m.types).take t)) := by
  rw [traverse, traverseFunctions, getElem?_build, hr]
  rfl

variable {m} in
/-- The function that is called first is that of the base type. -/
theorem TypeOf.base_traverse {c : CClassDefNode} {s : CClassScope} {r : RenderedType}
    {places : List (VarEntry × FieldPlace)} (h : m.TypeOf t c s r places) :
    ((c.base.bind fun b => m.types[b]?).any fun b => b.traverse.isSome) =
      (c.base.bind m.traverse).isSome ∧
    ((if (c.base.bind fun b => m.types[b]?).any fun b => b.traverse.isSome then c.base
      else none).bind fun b => (((traverseFunctions m.types).take t)[b]?).join) =
      c.base.bind m.traverse := by
  cases hb : c.base with
  | none => exact ⟨rfl, rfl⟩
  | some b =>
    have hbase : p.IsBase t b := ⟨c, h.node, hb⟩
    obtain ⟨rb, hrb⟩ := m.exists_base_type h.type hbase
    have htraverse := m.traverse_eq hrb
    have htake : (((traverseFunctions m.types).take t)[b]?).join = m.traverse b := by
      rw [List.getElem?_take_of_lt hbase.lt]
      rfl
    rw [Option.bind_some, Option.bind_some, hrb, Option.any_some]
    cases hr : rb.traverse with
    | none =>
      rw [hr] at htraverse
      rw [htraverse]
      exact ⟨rfl, rfl⟩
    | some impl =>
      rw [Option.isSome_some, if_pos rfl, Option.bind_some, htake]
      rw [hr] at htraverse
      rw [htraverse]
      exact ⟨rfl, rfl⟩

/-- Traverse functions visit the objects in the members of the type. -/
theorem visitsAll (t : ℕ) : ∀ l, (objects m.types)[t]? = some l →
    VisitsAll (objectAddresses l) (m.traverse t) := by
  induction t using p.induction with
  | h t ih =>
    intro l hl
    obtain ⟨c, s, r, places, h⟩ := m.typeOf_of_objects hl
    obtain ⟨rest, hrest, heq⟩ := h.objects_eq
    obtain rfl := Option.some.inj (heq.symm.trans hl)
    obtain ⟨hany, hfirst⟩ := h.base_traverse
    have hbase : VisitsAll (objectAddresses (m.baseMembers c)) (c.base.bind m.traverse) := by
      cases hb : c.base with
      | none =>
        rw [baseMembers, hb]
        exact ⟨fun _ => rfl, nofun, nofun⟩
      | some b =>
        have hbase : p.IsBase t b := ⟨c, h.node, hb⟩
        have hlt := hbase.lt.trans (List.getElem?_eq_some_iff.mp hl).1
        have hlb := List.getElem?_eq_getElem hlt
        rw [h.baseMembers_eq hbase hlb]
        exact ih b hbase _ hlb
    -- The addresses of the own objects follow those of the base type.
    generalize hown : ((places.filter fun q => q.2.storage = .object).map fun q => q.2.cname) = own
    have haddresses : own.filterMap (memberAddress (objects m.types) t) =
        (((places.map Prod.snd).zipIdx (m.baseMembers c).length).filter
          fun q => q.1.storage = .object).map Prod.snd := by
      have hcnames : own = ((places.map Prod.snd).filter fun q => q.storage = .object).map
          FieldPlace.cname := by
        rw [← hown, List.filter_map, List.map_map]
        rfl
      rw [hcnames]
      refine filterMap_cname fun q hq => ?_
      obtain ⟨hle, hq⟩ := List.mem_zipIdx_iff_le_and_getElem?_sub.mp hq
      rw [List.getElem?_map, Option.map_eq_some_iff] at hq
      obtain ⟨⟨e, place⟩, hq, hplace⟩ := hq
      obtain ⟨he, hplace'⟩ :=
        (mem_fieldPlaces h.scopeOf h.places_ok).mp (List.mem_of_getElem? hq)
      rw [← hplace, h.memberAddress_eq he hplace', h.position hq]
      exact congrArg some (Nat.add_sub_of_le hle)
    have hsplit : objectAddresses (m.baseMembers c ++ places.map Prod.snd ++ rest) =
        objectAddresses (m.baseMembers c) ++ own.filterMap (memberAddress (objects m.types) t) := by
      have hrest' : ∀ k, ((rest.zipIdx k).filter fun q => q.1.storage = .object) = [] := by
        intro k
        rw [List.filter_eq_nil_iff]
        intro q hq
        simpa using (hrest q.1 (List.fst_mem_of_mem_zipIdx hq)).2
      rw [haddresses, objectAddresses, List.zipIdx_append, List.zipIdx_append, List.filter_append,
        List.filter_append, hrest', List.append_nil, List.map_append, Nat.zero_add]
      rfl
    have hlen : ((traverseFunctions m.types).take t).length = t := by
      rw [List.length_take, traverseFunctions, length_build]
      exact min_eq_left (List.getElem?_eq_some_iff.mp h.type).1.le
    rw [hany] at hfirst
    rw [hsplit, m.traverse_eq h.type, h.traverse, hown, hany]
    split
    next =>
      rw [Option.map_some, runTraverse, hlen]
      dsimp only
      rw [hfirst]
      exact visitsAll_afterBase hbase
    next hnone =>
      rw [Bool.not_eq_true, Bool.or_eq_false_iff, Bool.not_eq_false', List.isEmpty_iff,
        Option.isSome_eq_false_iff, Option.isNone_iff_eq_none] at hnone
      obtain ⟨rfl, hnone⟩ := hnone
      rw [hbase.none hnone]
      exact ⟨fun _ => rfl, nofun, nofun⟩

/-! ## Soundness -/

/-- The members of the structure of a type are those of the fields of the type and its bases. -/
theorem exists_field (t : ℕ) : ∀ l, (objects m.types)[t]? = some l → ∀ (a : ℕ) (q : FieldPlace),
    l[a]? = some q → q.storage = .object → ∃ u c s r places, m.TypeOf u c s r places ∧
      p.Extends t u ∧ ∃ e ∈ s.varEntries, IsPlace u e q ∧
        a = (m.baseMembers c).length + e.identity.position := by
  induction t using p.induction with
  | h t ih =>
    intro l hl a q hq hobject
    obtain ⟨c, s, r, places, h⟩ := m.typeOf_of_objects hl
    obtain ⟨rest, hrest, heq⟩ := h.objects_eq
    obtain rfl := Option.some.inj (heq.symm.trans hl)
    rw [List.append_assoc, List.getElem?_append] at hq
    split at hq
    next hlt =>
      rcases h.baseMembers_cases with hnil | ⟨b, hb, hbl⟩
      · rw [hnil] at hq
        cases hq
      · obtain ⟨u, cu, su, ru, pu, hu, hbu, hfield⟩ := ih b hb _ hbl a q hq hobject
        exact ⟨u, cu, su, ru, pu, hu, .head hb hbu, hfield⟩
    next hle =>
      rw [List.getElem?_append] at hq
      split at hq
      next =>
        rw [List.getElem?_map, Option.map_eq_some_iff] at hq
        obtain ⟨⟨e, place⟩, hq, rfl⟩ := hq
        obtain ⟨he, hplace⟩ :=
          (mem_fieldPlaces h.scopeOf h.places_ok).mp (List.mem_of_getElem? hq)
        refine ⟨t, c, s, r, places, h, .refl, e, he, hplace, ?_⟩
        rw [h.position hq]
        exact (Nat.add_sub_of_le (not_lt.mp hle)).symm
      next => exact absurd hobject (hrest q (List.mem_of_getElem? hq)).2

/-- What a type visits. -/
def visited (t : ℕ) (visit : ℕ → ℤ) : List ℕ := (m.traverse t).elim [] fun g => (g visit).1

/-- Every object of a type and its bases is visited once, unless `visit` ends the traversal, and
    nothing else is visited, or visited again. -/
structure TraversesOnce (t : ℕ) : Prop where
  once : ∀ (u : ℕ) (s : CClassScope) (e : VarEntry), p.Extends t u → m.scopes[u]? = some s →
    e ∈ s.varEntries → extensionFieldStorage e.type = some .object →
    ∃ a, accessAddress m.types u e = some a ∧
      ∀ visit, (∀ a, visit a = 0) → (m.visited t visit).count a = 1
  others : ∀ visit, ∀ a ∈ m.visited t visit, ∃ u s e, p.Extends t u ∧ m.scopes[u]? = some s ∧
    e ∈ s.varEntries ∧ extensionFieldStorage e.type = some .object ∧
      accessAddress m.types u e = some a
  atMostOnce : ∀ visit, (m.visited t visit).Nodup
  result : ∀ g, m.traverse t = some g → ∀ visit, (∀ a, visit a = 0) → (g visit).2 = 0

/-- The field with the name is one of the entries of the type, as an expression of the type sees
    them. -/
def Sees (u : ℕ) (f : Name) (e : VarEntry) : Prop :=
  ∃ s, m.scopes[u]? = some s ∧ s.lookupHere f = some e

/-- In code that is rendered with the layout of `t`, the field `f` of `u` is where the methods of
    the type `v` have it that declares it. -/
def SameStorage (t u : ℕ) (f : Name) : Prop :=
  ∀ e v e', m.Sees u f e → p.Declares f u v → m.Sees v f e' →
    ∃ a, accessAddress m.types t e = some a ∧ accessAddress m.types v e' = some a

/-- The fields of a type and its bases are visited once, and those that it inherits are accessed
    where its bases have them. -/
structure FieldsSound (t : ℕ) : Prop where
  traverses : m.TraversesOnce t
  accesses : ∀ u f, p.Extends t u → m.SameStorage t u f

end RenderedModule

/-- A type on the way from `u` to `t` has a field with the name. -/
def ExtensionTypes.Hides (p : ExtensionTypes) (t u : ℕ) (f : Name) : Prop :=
  ∃ w, p.Extends t w ∧ p.Extends w u ∧ w ≠ u ∧ p.HasField w f

namespace ExtensionTypes

variable {p : ExtensionTypes} {t u b v : ℕ} {f : Name}

/-- A field that is not hidden is the same field of the types that extend the type. -/
theorem Declares.of_not_hides (ht : p.Extends t u) (h : p.Declares f u v)
    (hhides : ¬p.Hides t u f) : p.Declares f t v := by
  induction ht using Relation.ReflTransGen.head_induction_on with
  | refl => exact h
  | @head t b hb hbu ih =>
    refine .base (fun hf => hhides ?_) hb (ih fun ⟨w, hw, hwu, hne, hf⟩ => hhides ?_)
    · exact ⟨t, .refl, .head hb hbu, (hb.lt.trans_le' (Extends.le hbu)).ne', hf⟩
    · exact ⟨w, .head hb hw, hwu, hne, hf⟩

/-- A field that is hidden is another field of the type. -/
theorem Declares.of_hides (ht : p.Extends t u) (hhides : p.Hides t u f) :
    ∃ v, p.Declares f t v ∧ u < v := by
  induction ht using Relation.ReflTransGen.head_induction_on with
  | refl =>
    obtain ⟨w, huw, hwu, hne, -⟩ := hhides
    exact absurd (le_antisymm (Extends.le huw) (Extends.le hwu)) hne
  | @head t b hb hbu ih =>
    by_cases hf : p.HasField t f
    · exact ⟨t, .own hf, hb.lt.trans_le' (Extends.le hbu)⟩
    · obtain ⟨w, htw, hwu, hne, hw⟩ := hhides
      rcases Relation.ReflTransGen.cases_head htw with rfl | ⟨b', hb', hbw⟩
      · exact absurd hw hf
      · obtain ⟨c, hc, hcb⟩ := hb
        obtain ⟨c', hc', hcb'⟩ := hb'
        obtain rfl := Option.some.inj (hc.symm.trans hc')
        obtain rfl := Option.some.inj (hcb.symm.trans hcb')
        obtain ⟨v, hv, hlt⟩ := ih ⟨w, hbw, hwu, hne, hw⟩
        exact ⟨v, .base hf ⟨c, hc, hcb⟩ hv, hlt⟩

end ExtensionTypes

namespace RenderedModule

variable {p : ExtensionTypes} {m : RenderedModule p} {t u v b : ℕ} {c : CClassDefNode}
  {s : CClassScope} {r rt : RenderedType} {places : List (VarEntry × FieldPlace)} {e e' : VarEntry}

/-- A field of a type, accessed by its own entry. -/
theorem TypeOf.accessAddress_own (h : m.TypeOf u c s r places) (hrt : m.types[t]? = some rt)
    (ht : p.Extends t u) (he : e ∈ s.varEntries) : accessAddress m.types t e =
      some ((m.baseMembers c).length + e.identity.position) := by
  obtain ⟨place, hplace⟩ := h.exists_isPlace he
  rw [accessAddress, hrt, Option.bind_some, FieldLayout.storage,
    (m.layoutOf t rt hrt).entry u s e place ht h.scope he hplace, Option.some_or, Option.bind_some,
    hplace.struct, h.memberAddress_eq he hplace]

/-- A field, accessed by a copy of its entry. -/
theorem TypeOf.accessAddress_copy (h : m.TypeOf v c s r places) (hrt : m.types[t]? = some rt)
    (he : e.isInherited = true) (he' : e' ∈ s.varEntries) (hname : e'.name = e.name)
    (hv : p.Declares e.name t v) : accessAddress m.types t e =
      some ((m.baseMembers c).length + e'.identity.position) := by
  obtain ⟨place, hplace⟩ := h.exists_isPlace he'
  have hnone : rt.layout.get? (.entry e.identity) = none := by
    by_contra hsome
    obtain ⟨place', hplace'⟩ := Option.ne_none_iff_exists'.mp hsome
    have hown := (m.layoutOf t rt hrt).own _ _ hplace'
    rw [← VarEntry.isInherited, he] at hown
    cases hown
  have hfield := (m.layoutOf t rt hrt).field v s e' place (hname ▸ hv) h.scope he' hplace
  rw [hname] at hfield
  rw [accessAddress, hrt, Option.bind_some, FieldLayout.storage, hnone, hfield, Option.none_or,
    Option.bind_some, hplace.struct, h.memberAddress_eq he' hplace]

/-- Fields of different types are not at the same address. -/
theorem address_ne {c' : CClassDefNode} {s' : CClassScope} {r' : RenderedType}
    {places' : List (VarEntry × FieldPlace)} (h : m.TypeOf u c s r places)
    (h' : m.TypeOf v c' s' r' places') (hrt : m.types[t]? = some rt) (hu : p.Extends t u)
    (hv : p.Extends t v) (he : e ∈ s.varEntries) (he' : e' ∈ s'.varEntries) (hne : u ≠ v) :
    (m.baseMembers c).length + e.identity.position ≠
      (m.baseMembers c').length + e'.identity.position := by
  intro heq
  obtain ⟨place, hplace⟩ := h.exists_isPlace he
  obtain ⟨place', hplace'⟩ := h'.exists_isPlace he'
  have hlt : t < (objects m.types).length := by
    rw [objects, length_build, List.length_map]
    exact (List.getElem?_eq_some_iff.mp hrt).1
  have hl := List.getElem?_eq_getElem hlt
  have hget := h.getElem?_address hu he hplace hl
  rw [heq, h'.getElem?_address hv he' hplace' hl] at hget
  rw [← hplace.struct, ← Option.some.inj hget, hplace'.struct] at hne
  exact hne rfl

/-- Traverse functions visit all objects once. -/
theorem traversesOnce (ht : t < p.classes.length) : m.TraversesOnce t := by
  obtain ⟨s, r, places, h⟩ := m.exists_typeOf (List.getElem?_eq_getElem ht)
  obtain ⟨rest, -, hl⟩ := h.objects_eq
  generalize m.baseMembers p.classes[t] ++ places.map Prod.snd ++ rest = l at hl
  have hvisits := m.visitsAll t l hl
  -- What is visited are addresses of objects, each at most once.
  have hsub : ∀ visit, (m.visited t visit).Sublist (objectAddresses l) := by
    intro visit
    rw [visited]
    cases hg : m.traverse t with
    | none => exact List.nil_sublist _
    | some g => exact hvisits.sublist g hg visit
  have hall : ∀ visit, (∀ a, visit a = 0) → m.visited t visit = objectAddresses l := by
    intro visit hvisit
    rw [visited]
    cases hg : m.traverse t with
    | none => exact (hvisits.none hg).symm
    | some g => exact congrArg Prod.fst (hvisits.all g hg visit hvisit)
  refine ⟨fun u su e hu hsu he hobject => ?_, fun visit a ha => ?_, fun visit => ?_,
    fun g hg visit hvisit => ?_⟩
  · obtain ⟨cu, ru, pu, hu'⟩ := m.typeOf_of_scope hsu
    obtain ⟨place, hplace⟩ := hu'.exists_isPlace he
    refine ⟨_, hu'.accessAddress_own hu'.type .refl he, fun visit hvisit => ?_⟩
    rw [hall visit hvisit]
    refine List.count_eq_one_of_mem (nodup_objectAddresses l) (mem_objectAddresses.mpr ?_)
    refine ⟨place, hu'.getElem?_address hu he hplace hl, ?_⟩
    exact Option.some.inj (hplace.storage.symm.trans hobject)
  · obtain ⟨q, hq, hobject⟩ := mem_objectAddresses.mp ((hsub visit).subset ha)
    obtain ⟨u, cu, su, ru, pu, hu', hu, e, he, hplace, rfl⟩ := m.exists_field t l hl a q hq hobject
    refine ⟨u, su, e, hu, hu'.scope, he, ?_, hu'.accessAddress_own hu'.type .refl he⟩
    rw [hplace.storage, hobject]
  · exact (nodup_objectAddresses l).sublist (hsub visit)
  · rw [hvisits.all g hg visit hvisit]

/-- A name that a type sees is that of a field of the type, or of a copy. -/
theorem Sees.cases {f : Name} (h : m.TypeOf u c s r places) (hsees : m.Sees u f e) :
    e.name = f ∧ (e ∈ s.varEntries ∨
      ¬p.HasField u f ∧ e.isInherited = true ∧ ∃ v, p.Declares f u v) := by
  obtain ⟨s', hs', hlookup⟩ := hsees
  obtain rfl := Option.some.inj (hs'.symm.trans h.scope)
  obtain ⟨rfl, hown | hcopy⟩ := h.scopeOf.lookup f e hlookup
  · exact ⟨rfl, .inl hown⟩
  · have hinherited := h.scopeOf.copies e hcopy
    have hfield : ¬p.HasField u e.name := by
      intro hf
      obtain ⟨e', he', hname⟩ := h.hasField_iff.mp hf
      rw [CClassScope.lookupHere, ← hname, h.scopeOf.lookup_own e' he'] at hlookup
      obtain rfl : e' = e := by simpa using hlookup
      rw [VarEntry.isInherited, (h.identity he').2] at hinherited
      cases hinherited
    obtain ⟨b, v, hb, hv⟩ := m.copy_declared u _ h.scope e hcopy
    exact ⟨rfl, .inr ⟨hfield, hinherited, v, .base hfield hb hv⟩⟩

/-- The own field of a type is what the type sees. -/
theorem TypeOf.exists_sees {f : Name} (h : m.TypeOf v c s r places) (hf : p.HasField v f) :
    ∃ e ∈ s.varEntries, e.name = f ∧ m.Sees v f e := by
  obtain ⟨e, he, rfl⟩ := h.hasField_iff.mp hf
  refine ⟨e, he, rfl, s, h.scope, ?_⟩
  rw [CClassScope.lookupHere, h.scopeOf.lookup_own e he]
  rfl

theorem TypeOf.sees_own {f : Name} (h : m.TypeOf v c s r places) (hf : p.HasField v f)
    (hsees : m.Sees v f e) : e ∈ s.varEntries ∧ e.name = f := by
  obtain ⟨rfl, hown | ⟨hfield, -⟩⟩ := hsees.cases h
  · exact ⟨hown, rfl⟩
  · exact absurd hf hfield

/-- Traversal is complete. The fields of the bases are accessed where these have them if and only
    if no type hides a field that a base of it has inherited. -/
theorem fieldsSound_iff (ht : t < p.classes.length) : m.FieldsSound t ↔
    ∀ u f e, p.Extends t u → m.Sees u f e → p.HasField u f ∨ ¬p.Hides t u f := by
  obtain ⟨st, rt, pt, hT⟩ := m.exists_typeOf (List.getElem?_eq_getElem ht)
  constructor
  · intro hsound u f e hu hsees
    by_contra hnot
    obtain ⟨hfield, hhides⟩ := not_or.mp hnot
    rw [not_not] at hhides
    obtain ⟨su, hsu, hlookup⟩ := hsees
    obtain ⟨cu, ru, pu, hU⟩ := m.typeOf_of_scope hsu
    obtain ⟨rfl, hown | ⟨-, hinherited, v, hv⟩⟩ := Sees.cases hU ⟨su, hsu, hlookup⟩
    · exact hfield (hU.hasField_iff.mpr ⟨e, hown, rfl⟩)
    · -- The layout has the name for another field.
      obtain ⟨v', hv', hlt⟩ := ExtensionTypes.Declares.of_hides hu hhides
      obtain ⟨cv, hcv, -⟩ := hv.hasField
      obtain ⟨sv, rv, pv, hV⟩ := m.exists_typeOf hcv
      obtain ⟨cv', hcv', -⟩ := hv'.hasField
      obtain ⟨sv', rv', pv', hV'⟩ := m.exists_typeOf hcv'
      obtain ⟨e', he', hname, hsees'⟩ := hV.exists_sees hv.hasField
      obtain ⟨e'', he'', hname', -⟩ := hV'.exists_sees hv'.hasField
      obtain ⟨a, ha, ha'⟩ := hsound.accesses u e.name hu e v e' ⟨su, hsu, hlookup⟩ hv hsees'
      rw [hV'.accessAddress_copy hT.type hinherited he'' hname' hv'] at ha
      rw [hV.accessAddress_own hV.type .refl he'] at ha'
      refine address_ne hV' hV hT.type hv'.extends (hu.trans hv.extends) he'' he' ?_
        (Option.some.inj (ha.trans ha'.symm))
      exact ((ExtensionTypes.Extends.le hv.extends).trans_lt hlt).ne'
  · intro hcond
    refine ⟨traversesOnce ht, fun u f hu e v e' hsees hv hsees' => ?_⟩
    obtain ⟨cv, hcv, -⟩ := hv.hasField
    obtain ⟨sv, rv, pv, hV⟩ := m.exists_typeOf hcv
    obtain ⟨he', hname'⟩ := hV.sees_own hv.hasField hsees'
    refine ⟨_, ?_, hV.accessAddress_own hV.type .refl he'⟩
    obtain ⟨su, hsu, hlookup⟩ := hsees
    obtain ⟨cu, ru, pu, hU⟩ := m.typeOf_of_scope hsu
    obtain ⟨rfl, hown | ⟨hfield, hinherited, -⟩⟩ := Sees.cases hU ⟨su, hsu, hlookup⟩
    · -- A field of the type itself has its own entry.
      cases hv with
      | own _ =>
        obtain rfl := Option.some.inj (hV.scope.symm.trans hsu)
        obtain rfl := hV.scopeOf.eq_of_name he' hown hname'
        exact hV.accessAddress_own hT.type hu he'
      | base hf _ _ => exact absurd (hU.hasField_iff.mpr ⟨e, hown, rfl⟩) hf
    · have hhides := (hcond u e.name e hu ⟨su, hsu, hlookup⟩).resolve_left hfield
      exact hV.accessAddress_copy hT.type hinherited he' hname' (hv.of_not_hides hu hhides)

end RenderedModule

/-- A type with a field `x`, and one that extends it and has a field `y`. -/
def pairTypes : ExtensionTypes where
  classes :=
    [⟨none, [.field "x".toList "x".toList .object]⟩, ⟨some 0, [.field "y".toList "y".toList .object]⟩]
  earlier := by
    rintro (_ | _ | t) b c hc hb
    · obtain rfl := Option.some.inj hc
      cases hb
    · obtain rfl := Option.some.inj hc
      obtain rfl := Option.some.inj hb
      exact Nat.zero_lt_one
    · cases hc

def pairModule : RenderedModule pairTypes where
  scopes := (declareTypes pairTypes.classes).getD []
  types :=
    (renderExtensionTypes pairTypes.classes ((declareTypes pairTypes.classes).getD [])).getD []
  declared := rfl
  rendered := rfl

theorem fieldsSound_pair : pairModule.FieldsSound 1 := by
  refine (RenderedModule.fieldsSound_iff Nat.one_lt_two).mpr fun u f e hu hsees => .inr ?_
  rintro ⟨w, hw, hwu, hne, c, hc, hf⟩
  have hle := ExtensionTypes.Extends.le hw
  have hle' := ExtensionTypes.Extends.le hwu
  obtain rfl : w = 1 := by omega
  obtain rfl : u = 0 := by omega
  obtain rfl := Option.some.inj hc
  obtain rfl := List.mem_singleton.mp hf
  obtain ⟨s, hs, hlookup⟩ := hsees
  obtain rfl := Option.some.inj hs
  cases hlookup

/-- A type with a field `x`, one that extends it, and one that extends that and has a field `x` of
    its own. -/
def hidingTypes : ExtensionTypes where
  classes :=
    [⟨none, [.field "x".toList "x".toList .object]⟩, ⟨some 0, [.method "__init__".toList]⟩,
      ⟨some 1, [.field "x".toList "x".toList .object]⟩]
  earlier := by
    rintro (_ | _ | _ | t) b c hc hb
    · obtain rfl := Option.some.inj hc
      cases hb
    · obtain rfl := Option.some.inj hc
      obtain rfl := Option.some.inj hb
      exact Nat.zero_lt_one
    · obtain rfl := Option.some.inj hc
      obtain rfl := Option.some.inj hb
      exact Nat.one_lt_two
    · cases hc

def hidingModule : RenderedModule hidingTypes where
  scopes := (declareTypes hidingTypes.classes).getD []
  types :=
    (renderExtensionTypes hidingTypes.classes ((declareTypes hidingTypes.classes).getD [])).getD []
  declared := rfl
  rendered := rfl

/-- The method `__init__` of the second type is rendered again for the third type. There it stores
    `x` in the field of the third type, not in that of the first. -/
theorem fieldsSound_not_hiding : ¬hidingModule.FieldsSound 2 := by
  intro h
  have hbase : ∀ t, t < 2 → hidingTypes.IsBase (t + 1) t := by
    rintro (_ | _ | t) ht
    · exact ⟨_, rfl, rfl⟩
    · exact ⟨_, rfl, rfl⟩
    · omega
  have hfield : ¬hidingTypes.HasField 1 "x".toList := by
    rintro ⟨c, hc, hf⟩
    obtain rfl := Option.some.inj hc
    cases hf
  obtain ⟨a, ha, ha'⟩ := h.accesses 1 "x".toList (.single (hbase 1 Nat.one_lt_two)) _ 0 _
    ⟨_, rfl, rfl⟩ (.base hfield (hbase 0 Nat.zero_lt_two) (.own ⟨_, rfl, List.mem_cons_self⟩))
    ⟨_, rfl, rfl⟩
  have h₁ : a = 1 := Option.some.inj (ha.symm.trans rfl)
  have h₀ : a = 0 := Option.some.inj (ha'.symm.trans rfl)
  omega

end AHPy.ModuleWriter
