import AHPy.ModuleWriter.NumericSlots

/-!
# Names of C symbols

The writer makes the file-scope identifiers of a module from the names of its
functions and extension types. A name that is no identifier of C is encoded
first. Most identifiers have the index of what they are for; those of the
structure and the specification of a type have its name only.

* `cIdentifierFragment`: the encoding of a name;
* `SymbolModule.fileScopeNames`: the identifiers of a module;
* `SymbolModule.EncodedNameTaken`: where two of them are the same.
-/

namespace AHPy.ModuleWriter

/-! ## Fragments -/

/-- The characters that identifiers of C consist of. -/
def isWordChar (c : Char) : Bool := c.isAlphanum || c == '_'

/-- `_C_IDENTIFIER`, for names, which have no line break that `$` would match before. -/
def isCIdentifier : Name → Bool
  | [] => false
  | c :: n => !c.isDigit && isWordChar c && n.all isWordChar

/-- Two hexadecimal digits. -/
def hexByte (b : UInt8) : Name := [(b.toNat / 16).digitChar, (b.toNat % 16).digitChar]

/-- `value.encode("utf8").hex()` -/
def utf8Hex (n : Name) : Name := (n.flatMap String.utf8EncodeChar).flatMap hexByte

/-- `"unicode_%s"` -/
def unicodeName (n : Name) : Name := "unicode_".toList ++ utf8Hex n

/-- `_c_identifier_fragment` -/
def cIdentifierFragment (n : Name) : Name := if isCIdentifier n then n else unicodeName n

/-- `%d` -/
abbrev decimal (i : ℕ) : Name := Nat.toDigits 10 i

/-! ## Slots -/

/-- A slot of a type: the methods for which it is defined, as methods of the type, or also as
    methods of its bases. -/
structure SlotSymbol where
  slot : Name
  methods : List Name
  inherited : Bool

/-- A slot that is defined for methods of the type itself. -/
def SlotSymbol.own (slot : String) (methods : List String) : SlotSymbol :=
  ⟨slot.toList, methods.map String.toList, false⟩

/-- A slot that is defined for methods of bases, too. -/
def SlotSymbol.effective (slot : String) (methods : List String) : SlotSymbol :=
  ⟨slot.toList, methods.map String.toList, true⟩

/-- The slots in the order of the writer, without those for numbers. -/
def specialSlots : List SlotSymbol :=
  [.effective "tp_new" ["__call__", "__cinit__"],
    .own "bf_getbuffer" ["__getbuffer__"],
    .own "bf_releasebuffer" ["__getbuffer__"],
    .effective "init" ["__init__"],
    .effective "tp_call" ["__call__"],
    .own "tp_repr" ["__repr__"],
    .own "tp_str" ["__str__"],
    .own "nb_negative" ["__neg__"],
    .own "nb_positive" ["__pos__"],
    .own "nb_absolute" ["__abs__"],
    .own "nb_invert" ["__invert__"],
    .own "nb_int" ["__int__"],
    .own "nb_float" ["__float__"],
    .own "nb_index" ["__index__"],
    .own "sq_length" ["__len__"],
    .own "mp_length" ["__len__"],
    .own "mp_subscript" ["__getitem__"],
    .own "sq_item" ["__getitem__"],
    .own "tp_hash" ["__hash__"],
    .own "nb_bool" ["__bool__"],
    .own "sq_contains" ["__contains__"],
    .own "tp_finalize" ["__del__"],
    .own "mp_ass_subscript" ["__setitem__", "__delitem__"],
    .own "sq_ass_item" ["__setitem__", "__delitem__"],
    .own "tp_richcompare" ["__lt__", "__le__", "__eq__", "__ne__", "__gt__", "__ge__"]]

/-- The slots of `numeric_inplace_slots`, and that of `__ipow__`. -/
def inplaceSlots : List SlotSymbol :=
  [.own "nb_inplace_add" ["__iadd__"],
    .own "nb_inplace_subtract" ["__isub__"],
    .own "nb_inplace_multiply" ["__imul__"],
    .own "nb_inplace_remainder" ["__imod__"],
    .own "nb_inplace_floor_divide" ["__ifloordiv__"],
    .own "nb_inplace_true_divide" ["__itruediv__"],
    .own "nb_inplace_lshift" ["__ilshift__"],
    .own "nb_inplace_rshift" ["__irshift__"],
    .own "nb_inplace_and" ["__iand__"],
    .own "nb_inplace_xor" ["__ixor__"],
    .own "nb_inplace_or" ["__ior__"],
    .own "nb_inplace_matrix_multiply" ["__imatmul__"],
    .own "nb_inplace_power" ["__ipow__"]]

/-- The slot of a family of numeric methods. -/
def NumericFamily.symbol (family : NumericFamily) : SlotSymbol :=
  ⟨family.slotName, [family.leftName, family.rightName], false⟩

def slotSymbols : List SlotSymbol :=
  specialSlots ++ inplaceSlots ++ (numericBinaryFamilies ++ [powerFamily]).map NumericFamily.symbol

/-- The methods that get no method definition. -/
def isSpecialMethod (n : Name) : Bool :=
  ("__cinit__".toList :: "__releasebuffer__".toList ::
    slotSymbols.flatMap SlotSymbol.methods).contains n

/-! ## Modules -/

/-- A field of a type. -/
structure SymbolField where
  /-- `public` or `readonly` -/
  exposed : Bool
  readonly : Bool
  /-- An object, which the type traverses. -/
  object : Bool
  longDouble : Bool

structure SymbolProperty where
  name : Name
  getter : Bool
  setter : Bool

/-- An extension type, as far as names are made for it. -/
structure SymbolType where
  name : Name
  methods : List Name
  /-- The methods of the bases. -/
  inherited : List Name
  properties : List SymbolProperty
  fields : List SymbolField
  /-- The base type has a traverse function. -/
  baseTraverses : Bool

structure SymbolModule where
  functions : List Name
  types : List SymbolType
  /-- The environments of closures: whether they capture variables. -/
  environments : List Bool
  /-- The number of nested functions. -/
  closures : ℕ

/-- What follows the name of a definition: nothing, for the definition itself, and the name of its
    implementation. -/
def definitionSuffixes : List Name := [[], "_impl".toList]

/-- What follows the name of a definition with accessors. -/
def accessorSuffixes (getter setter : Bool) : List Name :=
  [] :: ((if getter then ["_get".toList] else []) ++ if setter then ["_set".toList] else [])

/-- The names with the indices of a list in them. -/
def indexedNames {α : Type} (start : Name) (suffixes : α → List Name) (l : List α) : List Name :=
  l.zipIdx.flatMap fun p => (suffixes p.1).map fun s => start ++ (decimal p.2 ++ s)

namespace SymbolType

variable (t : SymbolType)

/-- The names for a member. -/
def memberSuffixes (f : SymbolField) : List Name :=
  if f.exposed then
    if f.object || f.longDouble then accessorSuffixes true !f.readonly else [[]]
  else []

def traverses : Bool := t.baseTraverses || t.fields.any SymbolField.object

/-- What follows the name of a type in the names that have no index. -/
def typeSuffixes : List Name :=
  ["_object".toList, "_object_AsStruct".toList] ++
  (if t.traverses then ["_traverse".toList, "_traverse_impl".toList] else []) ++
  indexedNames "_member_".toList memberSuffixes t.fields ++
  ["_defines".toList, "_spec".toList]

def has (s : SlotSymbol) : Bool :=
  s.methods.any fun m => t.methods.contains m || s.inherited && t.inherited.contains m

/-- What follows the name of a type in the names that have its index. -/
def slotSuffixes : List Name :=
  (if t.methods.contains "__cinit__".toList then ["_cinit_impl".toList] else []) ++
  (slotSymbols.filter t.has).flatMap (fun s => definitionSuffixes.map ('_' :: s.slot ++ ·)) ++
  indexedNames "_property_".toList
    (fun p => (accessorSuffixes p.getter p.setter).map ('_' :: cIdentifierFragment p.name ++ ·))
    t.properties ++
  indexedNames "_method_".toList
    (fun m => if isSpecialMethod m then []
      else definitionSuffixes.map ('_' :: cIdentifierFragment m ++ ·))
    t.methods

end SymbolType

def typeStart : Name := "__pyx_hpy_type_".toList

/-- The names for the object types of closures. -/
def closureSuffixes (captures : Bool) : List Name :=
  ["_object".toList, "_object_AsStruct".toList] ++
  (if captures then ["_traverse".toList, "_traverse_impl".toList] else []) ++
  ["_defines".toList, "_spec".toList]

namespace SymbolModule

variable (m : SymbolModule)

/-- The names that have the name of a type without its index. -/
def typeNames : List Name :=
  m.types.flatMap fun t =>
    t.typeSuffixes.map fun s => typeStart ++ (cIdentifierFragment t.name ++ s)

/-- The names for the module itself. -/
def moduleNames : List Name :=
  ["__pyx_hpy_mod_exec".toList, "__pyx_hpy_mod_exec_impl".toList, "__pyx_hpy_defines".toList,
    "__pyx_hpy_module".toList]

/-- The file-scope identifiers of the module, by what they are for. -/
def fileScopeNames : List Name :=
  [m.typeNames,
    indexedNames typeStart
      (fun t : SymbolType => t.slotSuffixes.map ('_' :: cIdentifierFragment t.name ++ ·)) m.types,
    indexedNames "__pyx_hpy_closure_env_".toList closureSuffixes m.environments,
    indexedNames "__pyx_hpy_closure_fn_".toList
      (fun _ => closureSuffixes true ++ definitionSuffixes.map ("_tp_call".toList ++ ·))
      (List.range m.closures),
    indexedNames "__pyx_hpy_def_".toList
      (fun f => definitionSuffixes.map ('_' :: cIdentifierFragment f ++ ·)) m.functions,
    moduleNames].flatten

/-- The file-scope identifiers are different identifiers of C. -/
def UniqueSymbols : Prop :=
  m.fileScopeNames.Nodup ∧ ∀ n ∈ m.fileScopeNames, isCIdentifier n = true

/-- The extension types have different names. -/
def DistinctTypes : Prop := (m.types.map SymbolType.name).Nodup

instance : Decidable m.DistinctTypes :=
  inferInstanceAs (Decidable (m.types.map SymbolType.name).Nodup)

/-- A type has the encoded name of another type of the module. -/
def EncodedNameTaken : Prop :=
  ∃ t ∈ m.types, ∃ t' ∈ m.types, isCIdentifier t.name = false ∧ t'.name = unicodeName t.name

end SymbolModule

end AHPy.ModuleWriter
