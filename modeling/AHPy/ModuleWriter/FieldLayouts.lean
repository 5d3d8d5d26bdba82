import AHPy.Lib.Lists
import AHPy.Lib.OrderedDict
import AHPy.ModuleWriter.NativeScalars
import AHPy.ModuleWriter.SymbolNames

/-!
# Scopes of extension types

The scope of an extension type has entries for its own fields and, first, copies
of the entries of its base type. A field may have the name of a field of a base
type, which it then hides. The copies are objects of their own, and are kept in
`inherited_var_entries`; `var_entries` has the own fields only.

* `declareTypes`: the scopes of the types of a module;
* `ScopeOf`: what is in the scope of a type.
-/

namespace AHPy.ModuleWriter

/-! ## Declarations -/

/-- The C types of fields, as far as their storage depends on them. -/
inductive FieldType
  /-- `py_object_type` -/
  | object
  | native (kind : StorageKind)
  /-- `CTypedefType` -/
  | typedef (isExternal : Bool) (baseType : FieldType)
  /-- Arrays; the size is an integer that is known when compiling, or not. -/
  | array (baseType : FieldType) (size : Option ℤ)
  | other

/-- What is declared in the body of an extension type. -/
inductive Member
  | field (name cname : Name) (type : FieldType)
  | method (name : Name)
  | property (name : Name)

/-- The name of a field. -/
def Member.fieldName : Member → Option Name
  | .field name _ _ => some name
  | .method _ => none
  | .property _ => none

/-- `CClassDefNode`: an extension type, with the number of its base type. -/
structure CClassDefNode where
  base : Option ℕ
  members : List Member

/-- The names of the fields. -/
def CClassDefNode.fieldNames (c : CClassDefNode) : List Name := c.members.filterMap Member.fieldName

/-- The extension types of a module, in the order of their declarations. The base of a type is
    declared before it. -/
structure ExtensionTypes where
  classes : List CClassDefNode
  earlier : ∀ (t b : ℕ) (c : CClassDefNode), classes[t]? = some c → c.base = some b → b < t

namespace ExtensionTypes

variable (p : ExtensionTypes)

/-- `b` is the base of `t`. -/
def IsBase (t b : ℕ) : Prop := ∃ c, p.classes[t]? = some c ∧ c.base = some b

/-- `u` is `t`, or one of the types that it extends. -/
def Extends (t u : ℕ) : Prop := Relation.ReflTransGen p.IsBase t u

/-- A type has a field of its own with a name. -/
def HasField (t : ℕ) (f : Name) : Prop := ∃ c, p.classes[t]? = some c ∧ f ∈ c.fieldNames

/-- The field with the name `f` of `t` is that of `v`. -/
inductive Declares (f : Name) : ℕ → ℕ → Prop
  | own {t : ℕ} : p.HasField t f → Declares f t t
  | base {t b v : ℕ} : ¬p.HasField t f → p.IsBase t b → Declares f b v → Declares f t v

end ExtensionTypes

/-! ## Scopes -/

/-- The identity of an entry: the type in whose scope it is, whether it is a copy for a base
    type, and its place among the entries that are, or are not. -/
structure EntryId where
  scope : ℕ
  inherited : Bool
  position : ℕ
deriving DecidableEq

/-- `Entry`, of a field. -/
structure VarEntry where
  identity : EntryId
  name : Name
  cname : Name
  type : FieldType

/-- `is_inherited` -/
abbrev VarEntry.isInherited (e : VarEntry) : Bool := e.identity.inherited

/-- `CClassScope`; the entries of methods and properties are no more than there. -/
structure CClassScope where
  entries : OrderedDict Name (Option VarEntry)
  inheritedVarEntries : List VarEntry
  varEntries : List VarEntry

namespace CClassScope

def empty : CClassScope := ⟨.empty, [], []⟩

variable (s : CClassScope)

/-- `lookup_here`, of a field -/
def lookupHere (name : Name) : Option VarEntry := (s.entries.get? name).join

/-- A declaration of the name is an error: the type has declared it already. -/
def IsRedeclared (name : Name) : Prop :=
  name ∈ s.entries ∧ (s.lookupHere name).all fun e => !e.isInherited

instance (name : Name) : Decidable (s.IsRedeclared name) := by
  unfold IsRedeclared
  infer_instance

/-- The declaration of an entry of the base type in `declare_inherited_c_attributes`. -/
def declareInherited (number : ℕ) (baseEntry : VarEntry) : CClassScope :=
  let entry : VarEntry :=
    { identity := ⟨number, true, s.inheritedVarEntries.length⟩
      name := baseEntry.name
      cname := "__pyx_base.".toList ++ baseEntry.cname
      type := baseEntry.type }
  { s with
    entries := s.entries.set baseEntry.name (some entry)
    inheritedVarEntries := s.inheritedVarEntries ++ [entry] }

/-- `declare_inherited_c_attributes` -/
def declareInheritedCAttributes (number : ℕ) (baseScope : CClassScope) : CClassScope :=
  (baseScope.inheritedVarEntries ++ baseScope.varEntries).foldl
    (fun s e => s.declareInherited number e) empty

/-- `declare_var`, `declare_pyfunction` and `declare_property`. A property is put into the entry
    that there is, even if it is that of a field. -/
def declareMember (number : ℕ) : Member → Option CClassScope
  | .field name cname type =>
    let entry : VarEntry :=
      { identity := ⟨number, false, s.varEntries.length⟩
        name := name
        cname := cname
        type := type }
    if s.IsRedeclared name then none
    else some
      { s with
        entries := s.entries.set name (some entry)
        varEntries := s.varEntries ++ [entry] }
  | .method name =>
    if s.IsRedeclared name then none else some { s with entries := s.entries.set name none }
  | .property name =>
    if name ∈ s.entries then some s else some { s with entries := s.entries.set name none }

end CClassScope

/-- The scope of a type, from those of the types before it. -/
def declareType (done : List CClassScope) (c : CClassDefNode) : Option CClassScope :=
  let number := done.length
  let scope := (c.base.bind fun b => done[b]?).elim CClassScope.empty
    (CClassScope.declareInheritedCAttributes number)
  c.members.foldlM (fun s m => s.declareMember number m) scope

/-- The scopes of the types of a module. -/
def declareTypes (classes : List CClassDefNode) : Option (List CClassScope) :=
  grow declareType [] classes

/-! ## What is in a scope -/

/-- The entries in the scope of a type: copies with the names `inherited`, and fields with the names
    `declared`. -/
structure ScopeOf (number : ℕ) (inherited declared : List Name) (s : CClassScope) : Prop where
  identity : ∀ (i : ℕ) (e : VarEntry), s.varEntries[i]? = some e → e.identity = ⟨number, false, i⟩
  names : s.varEntries.map VarEntry.name = declared
  lookup_own : ∀ e ∈ s.varEntries, s.entries.get? e.name = some (some e)
  copies : ∀ e ∈ s.inheritedVarEntries, e.isInherited = true
  copyNames : s.inheritedVarEntries.map VarEntry.name = inherited
  lookup : ∀ f e, s.lookupHere f = some e →
    e.name = f ∧ (e ∈ s.varEntries ∨ e ∈ s.inheritedVarEntries)

namespace ScopeOf

variable {number : ℕ} {inherited declared : List Name} {s s' : CClassScope}

theorem empty : ScopeOf number [] [] CClassScope.empty where
  identity i e h := by simp [CClassScope.empty] at h
  names := rfl
  lookup_own e h := by cases h
  copies e h := by cases h
  copyNames := rfl
  lookup f e h := by simp [CClassScope.lookupHere, CClassScope.empty] at h

/-- A lookup finds the new entry under its name, and what was there under others. -/
theorem lookupHere_set {entries : OrderedDict Name (Option VarEntry)} {name f : Name}
    {entry : Option VarEntry} {e : VarEntry}
    (h : ((entries.set name entry).get? f).join = some e) :
    f = name ∧ entry = some e ∨ (entries.get? f).join = some e := by
  rw [OrderedDict.get?_set] at h
  split at h
  next hf => exact .inl ⟨hf, by simpa using h⟩
  next => exact .inr h

theorem declareInherited (h : ScopeOf number inherited [] s) (e : VarEntry) :
    ScopeOf number (inherited ++ [e.name]) [] (s.declareInherited number e) where
  identity := h.identity
  names := h.names
  lookup_own e' he' := by
    have hnil : s.varEntries = [] := List.map_eq_nil_iff.mp h.names
    rw [CClassScope.declareInherited, hnil] at he'
    cases he'
  copies e' he' := by
    rcases List.mem_append.mp he' with he' | he'
    · exact h.copies e' he'
    · rw [List.mem_singleton.mp he']
  copyNames := by
    rw [CClassScope.declareInherited, List.map_append, h.copyNames]
    rfl
  lookup f e' he' := by
    rcases lookupHere_set he' with ⟨rfl, hentry⟩ | he'
    · rw [← Option.some.inj hentry]
      exact ⟨rfl, .inr (List.mem_append_right _ List.mem_cons_self)⟩
    · obtain ⟨hname, hmem⟩ := h.lookup f e' he'
      exact ⟨hname, hmem.imp_right (List.mem_append_left _)⟩

theorem foldl_declareInherited (h : ScopeOf number inherited [] s) (l : List VarEntry) :
    ScopeOf number (inherited ++ l.map VarEntry.name) []
      (l.foldl (fun s e => s.declareInherited number e) s) := by
  induction l generalizing inherited s with
  | nil => rwa [List.map_nil, List.append_nil]
  | cons e l ih =>
    rw [List.foldl_cons, List.map_cons, List.append_cons]
    exact ih (h.declareInherited e)

/-- A name that may be declared is not that of a field of the type. -/
theorem ne_of_not_redeclared (h : ScopeOf number inherited declared s) {name : Name}
    (hname : ¬s.IsRedeclared name) {e : VarEntry} (he : e ∈ s.varEntries) : e.name ≠ name := by
  rintro rfl
  have hget := h.lookup_own e he
  obtain ⟨i, hi⟩ := List.mem_iff_getElem?.mp he
  refine hname ⟨OrderedDict.mem_of_get? hget, ?_⟩
  rw [CClassScope.lookupHere, hget]
  simp [VarEntry.isInherited, h.identity i e hi]

/-- Another entry than that of a field takes the place of none of the fields. -/
theorem set_none (h : ScopeOf number inherited declared s) {name : Name}
    (hname : ∀ e ∈ s.varEntries, e.name ≠ name) :
    ScopeOf number inherited declared { s with entries := s.entries.set name none } where
  identity := h.identity
  names := h.names
  lookup_own e he := (OrderedDict.get?_set_of_ne _ (hname e he) _).trans (h.lookup_own e he)
  copies := h.copies
  copyNames := h.copyNames
  lookup f e he := by
    rcases lookupHere_set he with ⟨-, hentry⟩ | he
    · cases hentry
    · exact h.lookup f e he

theorem declareMember (h : ScopeOf number inherited declared s) {m : Member}
    (hm : s.declareMember number m = some s') :
    ScopeOf number inherited (declared ++ m.fieldName.toList) s' := by
  cases m with
  | field name cname type =>
    rw [CClassScope.declareMember] at hm
    split at hm
    next => cases hm
    next hname =>
      obtain rfl := Option.some.inj hm
      refine ⟨fun i e hi => ?_, ?_, fun e he => ?_, h.copies, h.copyNames, fun f e he => ?_⟩
      · rw [List.getElem?_append] at hi
        split at hi
        next => exact h.identity i e hi
        next hlt =>
          obtain ⟨hi', rfl⟩ := List.getElem?_eq_some_iff.mp hi
          obtain rfl : i = s.varEntries.length := by
            simp only [List.length_singleton] at hi'
            omega
          rw [List.getElem_singleton]
      · rw [List.map_append, h.names]
        rfl
      · rcases List.mem_append.mp he with he | he
        · exact (OrderedDict.get?_set_of_ne _ (h.ne_of_not_redeclared hname he) _).trans
            (h.lookup_own e he)
        · rw [List.mem_singleton.mp he]
          exact OrderedDict.get?_set_self _ _ _
      · rcases lookupHere_set he with ⟨rfl, hentry⟩ | he
        · rw [← Option.some.inj hentry]
          exact ⟨rfl, .inl (List.mem_append_right _ List.mem_cons_self)⟩
        · obtain ⟨hf, hmem⟩ := h.lookup f e he
          exact ⟨hf, hmem.imp_left (List.mem_append_left _)⟩
  | method name =>
    rw [CClassScope.declareMember] at hm
    split at hm
    next => cases hm
    next hname =>
      obtain rfl := Option.some.inj hm
      rw [Member.fieldName, Option.toList_none, List.append_nil]
      exact h.set_none fun e he => h.ne_of_not_redeclared hname he
  | property name =>
    rw [CClassScope.declareMember] at hm
    rw [Member.fieldName, Option.toList_none, List.append_nil]
    split at hm
    next => exact Option.some.inj hm ▸ h
    next hname =>
      obtain rfl := Option.some.inj hm
      refine h.set_none fun e he hne => hname ?_
      exact OrderedDict.mem_of_get? (hne ▸ h.lookup_own e he)

theorem foldlM_declareMember (h : ScopeOf number inherited declared s) {l : List Member}
    (hl : l.foldlM (fun s m => s.declareMember number m) s = some s') :
    ScopeOf number inherited (declared ++ l.filterMap Member.fieldName) s' := by
  induction l generalizing declared s with
  | nil =>
    rw [List.filterMap_nil, List.append_nil]
    exact Option.some.inj hl ▸ h
  | cons m l ih =>
    obtain ⟨s₁, hm, hl⟩ := Option.bind_eq_some_iff.mp hl
    have h' := ih (h.declareMember hm) hl
    rw [List.append_assoc] at h'
    convert h' using 2
    cases hname : m.fieldName <;> simp [hname]

/-- Fields of a type have different names. -/
theorem eq_of_name (h : ScopeOf number inherited declared s) {e e' : VarEntry}
    (he : e ∈ s.varEntries) (he' : e' ∈ s.varEntries) (hname : e.name = e'.name) : e = e' := by
  have hget := h.lookup_own e he
  rw [hname, h.lookup_own e' he'] at hget
  exact (Option.some.inj (Option.some.inj hget)).symm

end ScopeOf

/-- The names in the scope of the base type are those of the copies. -/
theorem declareType_scopeOf {done : List CClassScope} {c : CClassDefNode} {s : CClassScope}
    (h : declareType done c = some s) :
    ScopeOf done.length ((c.base.bind fun b => done[b]?).elim [] fun b =>
      (b.inheritedVarEntries ++ b.varEntries).map VarEntry.name) c.fieldNames s := by
  rw [← List.nil_append c.fieldNames]
  refine ScopeOf.foldlM_declareMember ?_ h
  cases c.base.bind fun b => done[b]? with
  | none => exact ScopeOf.empty
  | some b => exact ScopeOf.empty.foldl_declareInherited _

/-!
## Layouts of extension types

The writer makes a C structure for every extension type, which begins with that
of its base type, a function that visits its objects for the garbage collector,
and a layout: the place of each field that the methods of the type can access,
by the identity of its entry, and by its name.

* `renderExtensionTypes`: what the writer makes of the types of a module;
* `objects`, `traverseFunctions`: what it means in C;
* `accessAddress`: the storage that code addresses, if it is rendered with the
  layout of a type.
-/

/-! ## Storage -/

/-- How a field is stored. -/
inductive FieldStorage
  /-- `HPyField` -/
  | object
  | native (kind : StorageKind)
  | fixedArray (kind : StorageKind) (size : ℤ)
deriving DecidableEq

/-- `_resolve_extension_field_storage_type` -/
def FieldType.resolve : FieldType → Option FieldType
  | .typedef true _ => none
  | .typedef false baseType => baseType.resolve
  | .object => some .object
  | .native kind => some (.native kind)
  | .array baseType size => some (.array baseType size)
  | .other => some .other

/-- The storage of an array with a size and elements of a type. -/
def fixedArrayStorage (baseType : FieldType) (size : ℤ) : Option FieldStorage :=
  match baseType.resolve with
  | some (.native kind) => if 0 < size then some (.fixedArray kind size) else none
  | _ => none

/-- `_extension_field_storage`; `none` is an assertion that fails. -/
def extensionFieldStorage (type : FieldType) : Option FieldStorage :=
  match type.resolve with
  | some .object => some .object
  | some (.native kind) => some (.native kind)
  | some (.array baseType (some size)) => fixedArrayStorage baseType size
  | _ => none

/-! ## Layouts -/

/-- The keys of layouts: `id(field)`, and `("field", field.name)`. -/
inductive LayoutKey
  | entry (identity : EntryId)
  | field (name : Name)
deriving DecidableEq

/-- The place of a field in the structure of a type. Structures are known by the numbers of their
    types. -/
structure FieldPlace where
  struct : ℕ
  cname : Name
  storage : FieldStorage

abbrev FieldLayout := OrderedDict LayoutKey FieldPlace

/-- The structure of a type. It has a reserved member where it would be empty. -/
structure StructDecl where
  base : Option ℕ
  fields : List (Name × FieldStorage)
  reserved : Bool

/-- The function with which a type is traversed: the base type whose function it calls first, and
    the fields that it visits. -/
structure TraverseImpl where
  base : Option ℕ
  fields : List Name

/-- What the writer makes of a type. -/
structure RenderedType where
  layout : FieldLayout
  struct : StructDecl
  traverse : Option TraverseImpl

/-- `"__pyx_hpy_field_%d_%s"` -/
def fieldCname (index : ℕ) (field : VarEntry) : Name :=
  "__pyx_hpy_field_".toList ++ (decimal index ++ '_' :: field.cname)

/-- The fields with their C names and storages. The index of a field is the number of those before
    it. -/
def fieldPlaces (number : ℕ) (fields : List VarEntry) : Option (List (VarEntry × FieldPlace)) :=
  grow (fun done field => (extensionFieldStorage field.type).map fun storage =>
    (field, ⟨number, fieldCname done.length field, storage⟩)) [] fields

/-- The storage of the base type for an entry that is a copy. -/
def aliasInherited (baseScope : CClassScope) (layout : FieldLayout) (field : VarEntry) :
    FieldLayout :=
  if field.isInherited then
    match (baseScope.lookupHere field.name).bind fun e => layout.get? (.entry e.identity) with
    | some baseStorage => layout.set (.entry field.identity) baseStorage
    | none => layout
  else layout

/-- A field of the type itself in its layout. -/
def addField (layout : FieldLayout) (p : VarEntry × FieldPlace) : FieldLayout :=
  (layout.set (.entry p.1.identity) p.2).set (.field p.1.name) p.2

/-- The rendering of a type, from those of the types before it. -/
def renderExtensionType (scopes : List CClassScope) (done : List RenderedType)
    (c : CClassDefNode) : Option RenderedType := do
  let number := done.length
  let scope ← scopes[number]?
  let allFields := scope.varEntries
  let fields := allFields.filter fun field => !field.isInherited
  let places ← fieldPlaces number fields
  let baseType := c.base.bind fun b => done[b]?
  let baseLayout := baseType.elim .empty RenderedType.layout
  let aliased := (c.base.bind fun b => scopes[b]?).elim baseLayout fun baseScope =>
    allFields.foldl (aliasInherited baseScope) baseLayout
  let objectFieldCnames :=
    (places.filter fun p => p.2.storage = .object).map fun p => p.2.cname
  let baseTraverses := baseType.any fun b => b.traverse.isSome
  some
    { layout := places.foldl addField aliased
      struct :=
        { base := c.base
          fields := places.map fun p => (p.2.cname, p.2.storage)
          reserved := fields.isEmpty && c.base.isNone }
      traverse :=
        if !objectFieldCnames.isEmpty || baseTraverses then
          some ⟨if baseTraverses then c.base else none, objectFieldCnames⟩
        else none }

/-- `_render_extension_type_declarations`, of structures, layouts and traverse functions -/
def renderExtensionTypes (classes : List CClassDefNode) (scopes : List CClassScope) :
    Option (List RenderedType) :=
  grow (renderExtensionType scopes) [] classes

/-! ## Objects -/

/-- The members of a structure in the order of their addresses, those of the structure that it
    begins with first. -/
def structMembers (done : List (List FieldPlace)) (d : StructDecl) : List FieldPlace :=
  ((d.base.bind fun b => done[b]?).getD [] ++
    d.fields.map fun f => ⟨done.length, f.1, f.2⟩) ++
    if d.reserved then [⟨done.length, "__pyx_hpy_reserved".toList, .native .char⟩] else []

/-- The members of the structures. -/
def objects (types : List RenderedType) : List (List FieldPlace) :=
  build structMembers (types.map RenderedType.struct)

/-- The address of `data->cname`, for a pointer to the structure of a type. -/
def memberAddress (members : List (List FieldPlace)) (struct : ℕ) (cname : Name) : Option ℕ :=
  (members[struct]?).bind fun l => l.findIdx? fun p => p.struct = struct ∧ p.cname = cname

/-! ## Accesses -/

/-- `_extension_field_storage` of a function writer -/
def FieldLayout.storage (layout : FieldLayout) (e : VarEntry) : Option FieldPlace :=
  (layout.get? (.entry e.identity)).or (layout.get? (.field e.name))

/-- The address of a field in an object, in code that is rendered with the layout of a type. -/
def accessAddress (types : List RenderedType) (t : ℕ) (e : VarEntry) : Option ℕ :=
  (types[t]?).bind fun r => (r.layout.storage e).bind fun place =>
    memberAddress (objects types) place.struct place.cname

/-! ## Traversal -/

/-- Traverse functions: for the results of `visit` at the addresses in an object, the addresses
    that are visited, and the result. -/
abbrev Traverse := (ℕ → ℤ) → List ℕ × ℤ

/-- `HPy_VISIT` of addresses, one after another. It returns what `visit` does, if that is not 0. -/
def visitAll (visit : ℕ → ℤ) : List ℕ → List ℕ × ℤ
  | [] => ([], 0)
  | a :: l =>
    if visit a = 0 then (a :: (visitAll visit l).1, (visitAll visit l).2) else ([a], visit a)

/-- The call of the function of the base type, if there is one, and what follows it. -/
def afterBase (base : Option Traverse) (rest : Traverse) : Traverse := fun visit =>
  match base with
  | none => rest visit
  | some base =>
    if (base visit).2 < 0 then ((base visit).1, -1)
    else ((base visit).1 ++ (rest visit).1, (rest visit).2)

/-- What a traverse function does. -/
def runTraverse (members : List (List FieldPlace)) (done : List (Option Traverse))
    (impl : TraverseImpl) : Traverse :=
  afterBase (impl.base.bind fun b => (done[b]?).join) fun visit =>
    visitAll visit (impl.fields.filterMap (memberAddress members done.length))

/-- The traverse functions of the types that have one. -/
def traverseFunctions (types : List RenderedType) : List (Option Traverse) :=
  build (fun done r => r.traverse.map (runTraverse (objects types) done)) types

end AHPy.ModuleWriter
