import Mathlib

/-!
# Markers of extension types

Each extension type gets an attribute whose name has the module and the class in
it. The slots for numbers look for it on the types of both operands, to see
which of them is a receiver, whose storage they then access.

* `typeSlotMarkerAttribute_inj`: when two types have the same marker;
* `Types.identified_iff`: when markers tell the instances of the types of a program apart.
-/

namespace AHPy.ModuleWriter

/-- Names of Python. -/
abbrev Name := List Char

def typeSlotMarkerPrefix : Name := "__pyx_hpy_slot_owner_".toList

/-- `_type_slot_marker_attribute` -/
def typeSlotMarkerAttribute (moduleName className : Name) : Name :=
  typeSlotMarkerPrefix ++ moduleName ++ '_' :: className

/-- An extension type, as it is compiled. -/
structure ExtensionType where
  moduleName : Name
  className : Name
  /-- The methods and fields. -/
  members : List Name
  /-- Members with the names of markers are refused. -/
  not_reserved : ∀ n ∈ members, ¬typeSlotMarkerPrefix <+: n

namespace ExtensionType

variable (e e' : ExtensionType)

def marker : Name := typeSlotMarkerAttribute e.moduleName e.className

/-- The names of the types are the same. -/
def SameType : Prop := e.moduleName = e'.moduleName ∧ e.className = e'.className

/-- The module name of `e` goes on, after that of `e'` and an underscore, with what the class
    name of `e'` starts with, before an underscore and that of `e`. -/
def Overlaps : Prop :=
  ∃ x, e.moduleName = e'.moduleName ++ '_' :: x ∧ e'.className = x ++ '_' :: e.className

end ExtensionType

variable {e e' : ExtensionType}

/-- Two types have the same marker exactly if they are the same, or an underscore of the one
    module name is the underscore before the class name of the other. -/
theorem typeSlotMarkerAttribute_inj :
    e.marker = e'.marker ↔ e.SameType e' ∨ e.Overlaps e' ∨ e'.Overlaps e := by
  rw [ExtensionType.marker, ExtensionType.marker, typeSlotMarkerAttribute, typeSlotMarkerAttribute,
    List.append_assoc, List.append_assoc, List.append_cancel_left_eq, List.append_eq_append_iff]
  constructor
  · rintro (⟨as, hmodule, hclass⟩ | ⟨as, hmodule, hclass⟩)
    · cases as with
      | nil =>
        rw [List.nil_append, List.cons.injEq] at hclass
        exact .inl ⟨by rw [hmodule, List.append_nil], hclass.2⟩
      | cons c as =>
        rw [List.cons_append, List.cons.injEq] at hclass
        obtain ⟨rfl, hclass⟩ := hclass
        exact .inr (.inr ⟨as, hmodule, hclass⟩)
    · cases as with
      | nil =>
        rw [List.nil_append, List.cons.injEq] at hclass
        exact .inl ⟨by rw [hmodule, List.append_nil], hclass.2.symm⟩
      | cons c as =>
        rw [List.cons_append, List.cons.injEq] at hclass
        obtain ⟨rfl, hclass⟩ := hclass
        exact .inr (.inl ⟨as, hmodule, hclass⟩)
  · rintro (⟨hmodule, hclass⟩ | ⟨x, hmodule, hclass⟩ | ⟨x, hmodule, hclass⟩)
    · exact .inl ⟨[], by rw [hmodule, List.append_nil], by rw [hclass, List.nil_append]⟩
    · exact .inr ⟨'_' :: x, hmodule, by rw [hclass, List.cons_append]⟩
    · exact .inl ⟨'_' :: x, hmodule, by rw [hclass, List.cons_append]⟩

/-! ## Type objects -/

/-- A type object at run time. -/
structure TypeObject where
  /-- The extension type that it is made for, if it is not a class of Python. -/
  extension : Option ExtensionType
  bases : List ℕ
  /-- The other attributes that are found on the type itself: those of a class of Python,
      those that were set later, and what its metaclass answers. -/
  answers : Name → Bool

/-- The attributes that `_emit_type_caches` and the specification of the type define. -/
def TypeObject.ownAttribute (t : TypeObject) (n : Name) : Prop :=
  (∃ e ∈ t.extension, n = e.marker ∨ n ∈ e.members) ∨ t.answers n = true

/-- The type objects of a program; bases come before the types that are derived from them. -/
structure Types where
  objects : List TypeObject
  bases_lt : ∀ (i : ℕ) (t : TypeObject), objects[i]? = some t → ∀ j ∈ t.bases, j < i

namespace Types

variable (w : Types)

/-- `i` is `j`, or derived from it. -/
inductive Derives : ℕ → ℕ → Prop
  | refl (i : ℕ) : Derives i i
  | base {i j k : ℕ} {t : TypeObject} : w.objects[i]? = some t → j ∈ t.bases → Derives j k →
      Derives i k

/-- `HPy_HasAttr_s` on a type: some type that it is derived from has the attribute. -/
def HasAttr (i : ℕ) (n : Name) : Prop :=
  ∃ j t, w.Derives i j ∧ w.objects[j]? = some t ∧ t.ownAttribute n

/-- Objects of the type `i` have the storage of the extension type. -/
def IsInstance (i : ℕ) (e : ExtensionType) : Prop :=
  ∃ j t e', w.Derives i j ∧ w.objects[j]? = some t ∧ t.extension = some e' ∧ e'.SameType e

/-- The extension type has a type object. -/
def Defines (e : ExtensionType) : Prop :=
  ∃ (i : ℕ) (t : TypeObject), w.objects[i]? = some t ∧ t.extension = some e

/-- Markers are injective, and the checks of slots accept only instances. -/
structure Identified : Prop where
  inj : ∀ e e', w.Defines e → w.Defines e' → e.marker = e'.marker → e.SameType e'
  isInstance : ∀ e, w.Defines e → ∀ i, w.HasAttr i e.marker → w.IsInstance i e

/-- No two extension types overlap, and no other attribute has the name of a marker, other than on
    an instance of the type. -/
structure Separate : Prop where
  not_overlaps : ∀ e e', w.Defines e → w.Defines e' → e.Overlaps e' → e.SameType e'
  not_answers : ∀ e, w.Defines e → ∀ i t, w.objects[i]? = some t → t.answers e.marker = true →
    w.IsInstance i e

variable {w}

theorem Derives.trans {i j k : ℕ} (h : w.Derives i j) (h' : w.Derives j k) : w.Derives i k := by
  induction h with
  | refl i => exact h'
  | base ht hj _ ih => exact .base ht hj (ih h')

theorem IsInstance.of_derives {i j : ℕ} (h : w.IsInstance j e) (hij : w.Derives i j) :
    w.IsInstance i e := by
  obtain ⟨k, t, e', hjk, ht⟩ := h
  exact ⟨k, t, e', hij.trans hjk, ht⟩

theorem marker_startsWith (e : ExtensionType) : typeSlotMarkerPrefix <+: e.marker := by
  rw [ExtensionType.marker, typeSlotMarkerAttribute, List.append_assoc]
  exact List.prefix_append _ _

/-- The attributes of extension types are their markers, and not those of others. -/
theorem ownAttribute_marker {t : TypeObject} :
    t.ownAttribute e.marker ↔
      (∃ e' ∈ t.extension, e.marker = e'.marker) ∨ t.answers e.marker = true := by
  refine or_congr_left (exists_congr fun e' => and_congr_right fun _ => ?_)
  exact or_iff_left fun hmem => e'.not_reserved _ hmem (marker_startsWith e)

/-- Markers identify the extension types of a program if these are separate. -/
theorem Separate.identified (h : w.Separate) : w.Identified := by
  have hinj : ∀ e e', w.Defines e → w.Defines e' → e.marker = e'.marker → e.SameType e' := by
    intro e e' he he' hm
    rcases typeSlotMarkerAttribute_inj.1 hm with hsame | ho | ho
    · exact hsame
    · exact h.not_overlaps e e' he he' ho
    · have hsame := h.not_overlaps e' e he' he ho
      exact ⟨hsame.1.symm, hsame.2.symm⟩
  refine ⟨hinj, fun e he i ⟨j, t, hij, ht, hown⟩ => ?_⟩
  rcases ownAttribute_marker.1 hown with ⟨e', he', hm⟩ | hanswers
  · exact ⟨j, t, e', hij, ht, he', hinj e' e ⟨j, t, ht, he'⟩ he hm.symm⟩
  · exact (h.not_answers e he j t ht hanswers).of_derives hij

/-- Markers identify the extension types of a program exactly if these are separate. -/
theorem identified_iff : w.Identified ↔ w.Separate := by
  refine ⟨fun h => ⟨fun e e' he he' ho => ?_, fun e he i t ht hanswers => ?_⟩, Separate.identified⟩
  · exact h.inj e e' he he' (typeSlotMarkerAttribute_inj.2 (.inr (.inl ho)))
  · exact h.isInstance e he i ⟨i, t, .refl i, ht, .inr hanswers⟩

end Types

/-- An extension type without members. -/
def ExtensionType.empty (moduleName className : Name) : ExtensionType :=
  ⟨moduleName, className, [], fun _ hn => absurd hn List.not_mem_nil⟩

/-- The type objects of extension types without bases. -/
def rootTypes (types : List ExtensionType) : List TypeObject :=
  types.map fun e => ⟨some e, [], fun _ => false⟩

theorem bases_lt_rootTypes (types : List ExtensionType) (i : ℕ) (t : TypeObject)
    (ht : (rootTypes types)[i]? = some t) (j : ℕ) (hj : j ∈ t.bases) : j < i := by
  have hmem := List.mem_of_getElem? ht
  obtain ⟨e, -, rfl⟩ := List.mem_map.1 hmem
  cases hj

/-- A program that imports the type `C` of the module `a_b`, and the type `b_C` of the module
    `a`. -/
def overlappingTypes : Types :=
  ⟨rootTypes [.empty "a_b".toList "C".toList, .empty "a".toList "b_C".toList],
    bases_lt_rootTypes _⟩

/-- Slots of the one type take instances of the other for their own. -/
theorem overlappingTypes_not_identified : ¬overlappingTypes.Identified := by
  intro h
  have hsame := h.inj (.empty "a_b".toList "C".toList) (.empty "a".toList "b_C".toList)
    ⟨0, _, rfl, rfl⟩ ⟨1, _, rfl, rfl⟩ rfl
  exact absurd hsame.1 (by decide)

end AHPy.ModuleWriter
