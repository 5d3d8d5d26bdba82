import AHPy.Lib.UniqueNames
import AHPy.ModuleWriter.SymbolNames

/-!
# Uniqueness of C symbols

The file-scope identifiers of a module are identifiers of C, and they are
different unless an extension type has the name that the writer makes from the
name of another one: only the names of types are used without an index.

* `cIdentifierFragment_inj`: the names with the same fragment;
* `typeSuffix_inj`: where the name of a type ends in an identifier;
* `SymbolModule.fileScopeNames_unique`: the exact condition.
-/

namespace AHPy.ModuleWriter

open NumberedNames

/-! ## Fragments -/

theorem hexByte_inj {b c : UInt8} (h : hexByte b = hexByte c) : b = c := by
  have hdigit : ∀ i < 16, ∀ j < 16, i.digitChar = j.digitChar → i = j := by decide
  have hb := b.toNat_lt
  have hc := c.toNat_lt
  obtain ⟨hhigh, hlow, -⟩ : _ ∧ _ ∧ True := by simpa [hexByte] using h
  have hdiv := hdigit _ (by omega) _ (by omega) hhigh
  have hmod := hdigit _ (by omega) _ (by omega) hlow
  exact UInt8.toNat_inj.mp (by omega)

theorem flatMap_hexByte_inj {l m : List UInt8} (h : l.flatMap hexByte = m.flatMap hexByte) :
    l = m := by
  induction l generalizing m with
  | nil =>
    cases m with
    | nil => rfl
    | cons c m => simp [hexByte] at h
  | cons b l ih =>
    cases m with
    | nil => simp [hexByte] at h
    | cons c m =>
      rw [List.flatMap_cons, List.flatMap_cons] at h
      obtain ⟨hbyte, hrest⟩ := List.append_inj h rfl
      rw [hexByte_inj hbyte, ih hrest]

theorem utf8Hex_inj {n m : Name} (h : utf8Hex n = utf8Hex m) : n = m := by
  have hbytes : n.utf8Encode = m.utf8Encode := by
    rw [List.utf8Encode, List.utf8Encode, flatMap_hexByte_inj h]
  have hdecode := congrArg ByteArray.utf8Decode? hbytes
  rw [List.utf8Decode?_utf8Encode, List.utf8Decode?_utf8Encode, Option.some_inj] at hdecode
  simpa using hdecode

theorem unicodeName_inj {n m : Name} (h : unicodeName n = unicodeName m) : n = m :=
  utf8Hex_inj (List.append_cancel_left h)

theorem isWordChar_hexByte {b : UInt8} {c : Char} (h : c ∈ hexByte b) : isWordChar c = true := by
  have hdigit : ∀ i < 16, isWordChar i.digitChar = true := by decide
  have hb := b.toNat_lt
  rcases List.mem_cons.mp h with rfl | h
  · exact hdigit _ (by omega)
  · rw [List.mem_singleton.mp h]
    exact hdigit _ (by omega)

/-- Names that consist of word characters. -/
abbrev IsWord (n : Name) : Prop := n.all isWordChar = true

theorem isWord_append {n m : Name} : IsWord (n ++ m) ↔ IsWord n ∧ IsWord m := by
  rw [IsWord, List.all_append, Bool.and_eq_true]

theorem isWord_cons {c : Char} {n : Name} : IsWord (c :: n) ↔ isWordChar c = true ∧ IsWord n := by
  rw [IsWord, List.all_cons, Bool.and_eq_true]

theorem isWord_utf8Hex (n : Name) : IsWord (utf8Hex n) := by
  refine List.all_eq_true.mpr fun c hc => ?_
  obtain ⟨b, -, hb⟩ := List.mem_flatMap.mp hc
  exact isWordChar_hexByte hb

theorem isWord_decimal (i : ℕ) : IsWord (decimal i) := by
  refine List.all_eq_true.mpr fun c hc => ?_
  have hdigit := isDigit_of_mem hc
  simp [isWordChar, Char.isAlphanum, hdigit]

theorem isWord_of_isCIdentifier {n : Name} (h : isCIdentifier n = true) : IsWord n := by
  cases n with
  | nil => cases h
  | cons c n =>
    rw [isCIdentifier, Bool.and_eq_true, Bool.and_eq_true] at h
    exact isWord_cons.mpr ⟨h.1.2, h.2⟩

/-- A word after a beginning that is an identifier. -/
theorem isCIdentifier_append {n m : Name} (hn : isCIdentifier n = true) (hm : IsWord m) :
    isCIdentifier (n ++ m) = true := by
  have hword := isWord_append.mpr ⟨isWord_of_isCIdentifier hn, hm⟩
  cases n with
  | nil => cases hn
  | cons c n =>
    rw [isCIdentifier, Bool.and_eq_true, Bool.and_eq_true] at hn
    rw [List.cons_append, isWord_cons] at hword
    rw [List.cons_append, isCIdentifier, hn.1.1, hn.1.2, Bool.true_and, Bool.true_and]
    exact hword.2

theorem isCIdentifier_unicodeName (n : Name) : isCIdentifier (unicodeName n) = true :=
  isCIdentifier_append (by decide) (isWord_utf8Hex n)

theorem isCIdentifier_fragment (n : Name) : isCIdentifier (cIdentifierFragment n) = true := by
  rw [cIdentifierFragment]
  split
  next h => exact h
  next => exact isCIdentifier_unicodeName n

theorem isWord_fragment (n : Name) : IsWord (cIdentifierFragment n) :=
  isWord_of_isCIdentifier (isCIdentifier_fragment n)

/-- A name is the encoding of another one, which is no identifier of C. -/
def EncodedAs (n m : Name) : Prop := isCIdentifier n = false ∧ m = unicodeName n

/-- Different names have the same fragment where one of them is the encoding of the other. -/
theorem cIdentifierFragment_inj {n m : Name} (h : cIdentifierFragment n = cIdentifierFragment m) :
    n = m ∨ EncodedAs n m ∨ EncodedAs m n := by
  rw [cIdentifierFragment, cIdentifierFragment] at h
  by_cases hn : isCIdentifier n = true <;> by_cases hm : isCIdentifier m = true
  · rw [if_pos hn, if_pos hm] at h
    exact .inl h
  · rw [if_pos hn, if_neg hm] at h
    exact .inr (.inr ⟨by simpa using hm, h⟩)
  · rw [if_neg hn, if_pos hm] at h
    exact .inr (.inl ⟨by simpa using hn, h.symm⟩)
  · rw [if_neg hn, if_neg hm] at h
    exact .inl (unicodeName_inj h)

theorem EncodedAs.fragment {n m : Name} (h : EncodedAs n m) :
    cIdentifierFragment n = cIdentifierFragment m := by
  have hm : isCIdentifier m = true := h.2 ▸ isCIdentifier_unicodeName n
  rw [cIdentifierFragment, cIdentifierFragment, if_neg (by simp [h.1]), if_pos hm, h.2]

theorem EncodedAs.ne {n m : Name} (h : EncodedAs n m) : n ≠ m := by
  rintro rfl
  have hn : isCIdentifier n = true := h.2 ▸ isCIdentifier_unicodeName n
  rw [h.1] at hn
  cases hn

/-! ## Suffixes of types -/

/-- How the suffixes of types begin. -/
def suffixStarts : List Name :=
  ["_object".toList, "_traverse".toList, "_member_".toList, "_defines".toList, "_spec".toList]

def StartsSuffix (s : Name) : Prop := ∃ p ∈ suffixStarts, p <+: s

instance (s : Name) : Decidable (StartsSuffix s) :=
  inferInstanceAs (Decidable (∃ p ∈ suffixStarts, p <+: s))

/-- The suffixes of types without those for members. -/
def fixedSuffixes : List Name :=
  ["_object".toList, "_object_AsStruct".toList, "_traverse".toList, "_traverse_impl".toList,
    "_defines".toList, "_spec".toList]

/-- The endings of the names for members. -/
def memberEndings : List Name := [[], "_get".toList, "_set".toList]

/-- What can follow the name of a type. -/
def IsTypeSuffix (s : Name) : Prop :=
  s ∈ fixedSuffixes ∨ ∃ i, ∃ t ∈ memberEndings, s = "_member_".toList ++ (decimal i ++ t)

theorem IsTypeSuffix.startsSuffix {s : Name} (h : IsTypeSuffix s) : StartsSuffix s := by
  rcases h with h | ⟨i, t, -, rfl⟩
  · exact (by decide : ∀ s ∈ fixedSuffixes, StartsSuffix s) s h
  · exact ⟨_, by decide, List.prefix_append _ _⟩

/-- Suffixes begin with an underscore and a letter. -/
theorem StartsSuffix.letter {s : Name} (h : StartsSuffix s) :
    ∃ c r, s = '_' :: c :: r ∧ c.isDigit = false := by
  obtain ⟨p, hp, r, rfl⟩ := h
  simp only [suffixStarts, List.mem_cons, List.not_mem_nil, or_false] at hp
  rcases hp with rfl | rfl | rfl | rfl | rfl
  all_goals exact ⟨_, _, rfl, by decide⟩

theorem exists_decimal (i : ℕ) : ∃ c d, decimal i = c :: d ∧ c.isDigit = true :=
  exists_toDigits i

/-- No suffix begins with the number of a member. -/
theorem not_startsSuffix_decimal (i : ℕ) (t : Name) : ¬ StartsSuffix (decimal i ++ t) := by
  intro h
  obtain ⟨c, d, hd, hc⟩ := exists_decimal i
  obtain ⟨_, _, hs, _⟩ := h.letter
  rw [hd, List.cons_append, List.cons.injEq] at hs
  rw [hs.1] at hc
  cases hc

theorem not_startsSuffix_underscore (i : ℕ) (t : Name) :
    ¬ StartsSuffix ('_' :: (decimal i ++ t)) := by
  intro h
  obtain ⟨c, d, hd, hc⟩ := exists_decimal i
  obtain ⟨c', _, hs, hc'⟩ := h.letter
  rw [hd, List.cons_append, List.cons.injEq, List.cons.injEq] at hs
  rw [← hs.2.1, hc] at hc'
  cases hc'

/-- No suffix begins inside of the name for a member. -/
theorem eq_nil_of_member {u s t : Name} {i : ℕ} (hs : StartsSuffix s) (ht : t ∈ memberEndings)
    (h : u ++ s = "_member_".toList ++ (decimal i ++ t)) : u = [] := by
  obtain ⟨c, r, hcr, hc⟩ := hs.letter
  rcases List.append_eq_append_iff.mp h with ⟨a, hu, rfl⟩ | ⟨a, rfl, hr⟩
  · -- It does not begin at the underscore before the number either.
    have hends : ∀ a ∈ ("_member_".toList).tails, a.head? = some '_' →
        a = "_member_".toList ∨ a = ['_'] := by
      decide
    cases a with
    | nil => exact absurd hs (not_startsSuffix_decimal i t)
    | cons x a =>
      rw [List.cons_append, List.cons.injEq] at hcr
      have hmem : x :: a ∈ ("_member_".toList).tails :=
        (List.mem_tails ..).mpr (hu ▸ List.suffix_append u (x :: a))
      rcases hends _ hmem (congrArg some hcr.1) with ha | ha
      · exact List.self_eq_append_left.mp (ha ▸ hu)
      · rw [ha] at hs
        exact absurd hs (not_startsSuffix_underscore i t)
  · have hends : ∀ t ∈ memberEndings, ∀ s ∈ t.tails, ¬ StartsSuffix s := by decide
    rcases List.append_eq_append_iff.mp hr with ⟨b, -, rfl⟩ | ⟨b, hb, rfl⟩
    · exact absurd hs (hends _ ht s ((List.mem_tails ..).mpr (List.suffix_append b s)))
    · cases b with
      | nil => exact absurd hs (hends t ht t ((List.mem_tails ..).mpr List.suffix_rfl))
      | cons x b =>
        have hx : x ∈ decimal i := hb ▸ List.mem_append_right a List.mem_cons_self
        rw [List.cons_append, List.cons.injEq] at hcr
        exact absurd (isDigit_of_mem hx) (by rw [hcr.1]; decide)

/-- A suffix ends in no other one. -/
theorem IsTypeSuffix.eq_nil {u s : Name} (hs : StartsSuffix s) (h : IsTypeSuffix (u ++ s)) :
    u = [] := by
  rcases h with h | ⟨i, t, ht, h⟩
  · have hends : ∀ w ∈ fixedSuffixes, ∀ s ∈ w.tails, StartsSuffix s → s = w := by decide
    have hw := hends _ h s ((List.mem_tails ..).mpr (List.suffix_append u s)) hs
    exact List.self_eq_append_left.mp hw
  · exact eq_nil_of_member hs ht h

/-- The name of a type ends where its suffix begins. -/
theorem typeSuffix_inj {x y s t : Name} (hs : IsTypeSuffix s) (ht : IsTypeSuffix t)
    (h : x ++ s = y ++ t) : x = y ∧ s = t := by
  rcases List.append_eq_append_iff.mp h with ⟨a, rfl, rfl⟩ | ⟨a, rfl, rfl⟩
  · have ha := hs.eq_nil ht.startsSuffix
    rw [ha]
    exact ⟨(List.append_nil x).symm, rfl⟩
  · have ha := ht.eq_nil hs.startsSuffix
    rw [ha]
    exact ⟨List.append_nil y, rfl⟩

/-! ## Names of a type -/

variable (t : SymbolType)

theorem memberSuffixes_sublist (f : SymbolField) :
    (SymbolType.memberSuffixes f).Sublist memberEndings := by
  rw [SymbolType.memberSuffixes]
  obtain ⟨exposed, readonly, object, longDouble⟩ := f
  revert exposed readonly object longDouble
  decide

/-- The names for members have the index of the member. -/
theorem member_of_mem {s : Name}
    (h : s ∈ indexedNames "_member_".toList SymbolType.memberSuffixes t.fields) :
    ∃ i, ∃ e ∈ memberEndings, s = "_member_".toList ++ (decimal i ++ e) := by
  obtain ⟨p, -, hs⟩ := List.mem_flatMap.mp h
  obtain ⟨e, he, rfl⟩ := List.mem_map.mp hs
  exact ⟨p.2, e, (memberSuffixes_sublist p.1).subset he, rfl⟩

/-- The suffixes of a type, apart from those for members. -/
def fixedPart (traverses : Bool) : List Name :=
  ["_object".toList, "_object_AsStruct".toList] ++
  (if traverses then ["_traverse".toList, "_traverse_impl".toList] else []) ++
  ["_defines".toList, "_spec".toList]

theorem fixedPart_sublist (traverses : Bool) : (fixedPart traverses).Sublist fixedSuffixes := by
  revert traverses
  decide

theorem typeSuffixes_perm : t.typeSuffixes.Perm (fixedPart t.traverses ++
    indexedNames "_member_".toList SymbolType.memberSuffixes t.fields) := by
  simp only [SymbolType.typeSuffixes, fixedPart, List.append_assoc]
  exact (List.perm_append_comm.append_left _).append_left _

theorem isTypeSuffix_of_mem {s : Name} (h : s ∈ t.typeSuffixes) : IsTypeSuffix s := by
  rw [(typeSuffixes_perm t).mem_iff, List.mem_append] at h
  rcases h with h | h
  · exact .inl ((fixedPart_sublist _).subset h)
  · exact .inr (member_of_mem t h)

theorem noDigit_memberEndings {e : Name} (h : e ∈ memberEndings) : NoDigit e := by
  simp only [memberEndings, List.mem_cons, List.not_mem_nil, or_false] at h
  rcases h with rfl | rfl | rfl
  all_goals simp [NoDigit]

theorem nodup_typeSuffixes : t.typeSuffixes.Nodup := by
  rw [(typeSuffixes_perm t).nodup_iff, List.nodup_append']
  refine ⟨(by decide : fixedSuffixes.Nodup).sublist (fixedPart_sublist _), ?_, ?_⟩
  · refine nodup_numbered (fun f _ => ?_) (fun f _ e he => ?_)
    · exact (by decide : memberEndings.Nodup).sublist (memberSuffixes_sublist f)
    · exact noDigit_memberEndings ((memberSuffixes_sublist f).subset he)
  · intro s hs hmember
    have hfixed : ∀ s ∈ fixedSuffixes, ¬ "_member_".toList <+: s := by decide
    obtain ⟨i, e, -, rfl⟩ := member_of_mem t hmember
    exact hfixed _ ((fixedPart_sublist _).subset hs) (List.prefix_append _ _)

/-! ## Names with the index of a type -/

/-- A number for a name, which is compared faster. -/
def nameNumber (n : Name) : ℕ := n.foldl (fun k c => 256 * k + c.toNat) 0

theorem slotSymbols_nodup :
    (slotSymbols.flatMap fun s => definitionSuffixes.map ('_' :: s.slot ++ ·)).Nodup := by
  refine List.Nodup.of_map nameNumber ?_
  decide

/-- The suffixes of slots are neither those of other definitions nor begin like these. -/
theorem slotSymbols_apart : ∀ s ∈ slotSymbols, ∀ n ∈ definitionSuffixes.map ('_' :: s.slot ++ ·),
    n ≠ "_cinit_impl".toList ∧ ¬ "_property_".toList <+: n ∧ ¬ "_method_".toList <+: n := by
  decide

theorem start_of_mem {α : Type} {start n : Name} {f : α → List Name} {l : List α}
    (h : n ∈ indexedNames start f l) : start <+: n := by
  obtain ⟨p, -, hn⟩ := List.mem_flatMap.mp h
  obtain ⟨s, -, rfl⟩ := List.mem_map.mp hn
  exact List.prefix_append _ _

/-- Different names that go on with an underscore and a fragment. -/
def UnderscoreNames (l : List Name) : Prop := l.Nodup ∧ ∀ s ∈ l, s.head? = some '_'

theorem underscoreNames_map {l : List Name} (h : l.Nodup) (fragment : Name) :
    UnderscoreNames (l.map ('_' :: fragment ++ ·)) := by
  refine ⟨nodup_map_append h _, fun s hs => ?_⟩
  obtain ⟨e, -, rfl⟩ := List.mem_map.mp hs
  rfl

theorem nodup_indexedNames {α : Type} {start : Name} {f : α → List Name} {l : List α}
    (hf : ∀ a, UnderscoreNames (f a)) : (indexedNames start f l).Nodup := by
  refine nodup_numbered (fun a _ => (hf a).1) (fun a _ s hs c hc => ?_)
  rw [(hf a).2 s hs, Option.mem_some_iff] at hc
  rw [← hc]
  decide

theorem nodup_accessorSuffixes (getter setter : Bool) : (accessorSuffixes getter setter).Nodup := by
  revert getter setter
  decide

theorem nodup_slotSuffixes : t.slotSuffixes.Nodup := by
  have hslots : ((slotSymbols.filter t.has).flatMap
      fun s => definitionSuffixes.map ('_' :: s.slot ++ ·)).Sublist
      (slotSymbols.flatMap fun s => definitionSuffixes.map ('_' :: s.slot ++ ·)) :=
    List.filter_sublist.flatMap _
  have happart : ∀ n ∈ (slotSymbols.filter t.has).flatMap
      (fun s => definitionSuffixes.map ('_' :: s.slot ++ ·)),
      n ≠ "_cinit_impl".toList ∧ ¬ "_property_".toList <+: n ∧ ¬ "_method_".toList <+: n := by
    intro n hn
    obtain ⟨s, hs, hn⟩ := List.mem_flatMap.mp (hslots.subset hn)
    exact slotSymbols_apart s hs n hn
  have hcinit : ∀ n ∈
      (if t.methods.contains "__cinit__".toList then ["_cinit_impl".toList] else []),
      n = "_cinit_impl".toList := by
    intro n hn
    split at hn
    next => exact List.mem_singleton.mp hn
    next => cases hn
  rw [SymbolType.slotSuffixes, List.nodup_append', List.nodup_append', List.nodup_append']
  refine ⟨⟨⟨?_, slotSymbols_nodup.sublist hslots, ?_⟩, ?_, ?_⟩, ?_, ?_⟩
  · split
    next => exact List.nodup_singleton _
    next => exact List.nodup_nil
  · intro n hn hslot
    exact (happart n hslot).1 (hcinit n hn)
  · exact nodup_indexedNames fun p =>
      underscoreNames_map (nodup_accessorSuffixes p.getter p.setter) _
  · intro n hn hproperty
    have hstart := start_of_mem hproperty
    rcases List.mem_append.mp hn with hn | hn
    · rw [hcinit n hn] at hstart
      exact absurd hstart (by decide)
    · exact (happart n hn).2.1 hstart
  · refine nodup_indexedNames fun m => ?_
    split
    next => exact ⟨List.nodup_nil, by simp⟩
    next => exact underscoreNames_map (by decide) _
  · intro n hn hmethod
    have hstart := start_of_mem hmethod
    rcases List.mem_append.mp hn with hn | hn
    · rcases List.mem_append.mp hn with hn | hn
      · rw [hcinit n hn] at hstart
        exact absurd hstart (by decide)
      · exact (happart n hn).2.2 hstart
    · rcases List.prefix_or_prefix_of_prefix hstart (start_of_mem hn) with h | h
      · exact absurd h (by decide)
      · exact absurd h (by decide)

/-! ## Identifiers -/

theorem isWord_of_mem_map {l : List Name} {start n : Name} (hstart : IsWord start)
    (hl : ∀ s ∈ l, IsWord s) (h : n ∈ l.map (start ++ ·)) : IsWord n := by
  obtain ⟨s, hs, rfl⟩ := List.mem_map.mp h
  exact isWord_append.mpr ⟨hstart, hl s hs⟩

theorem isWord_indexedNames {α : Type} {start n : Name} {f : α → List Name} {l : List α}
    (hstart : IsWord start) (hf : ∀ a, ∀ s ∈ f a, IsWord s) (h : n ∈ indexedNames start f l) :
    IsWord n := by
  obtain ⟨p, -, hn⟩ := List.mem_flatMap.mp h
  obtain ⟨s, hs, rfl⟩ := List.mem_map.mp hn
  exact isWord_append.mpr ⟨hstart, isWord_append.mpr ⟨isWord_decimal p.2, hf p.1 s hs⟩⟩

theorem isWord_underscore_fragment (n : Name) : IsWord ('_' :: cIdentifierFragment n) :=
  isWord_cons.mpr ⟨by decide, isWord_fragment n⟩

theorem isWord_definitionSuffixes : ∀ s ∈ definitionSuffixes, IsWord s := by decide

theorem isWord_accessorSuffixes (getter setter : Bool) :
    ∀ s ∈ accessorSuffixes getter setter, IsWord s := by
  revert getter setter
  decide

theorem IsTypeSuffix.isWord {s : Name} (h : IsTypeSuffix s) : IsWord s := by
  rcases h with h | ⟨i, e, he, rfl⟩
  · exact (by decide : ∀ s ∈ fixedSuffixes, IsWord s) s h
  · have hending : ∀ e ∈ memberEndings, IsWord e := by decide
    exact isWord_append.mpr ⟨by decide, isWord_append.mpr ⟨isWord_decimal i, hending e he⟩⟩

theorem isWord_slotSuffixes {s : Name} (h : s ∈ t.slotSuffixes) : IsWord s := by
  have hslots : ∀ s ∈ slotSymbols, IsWord s.slot := by decide
  rw [SymbolType.slotSuffixes, List.mem_append, List.mem_append, List.mem_append] at h
  rcases h with ((h | h) | h) | h
  · split at h
    next =>
      rw [List.mem_singleton.mp h]
      decide
    next => cases h
  · obtain ⟨slot, hslot, h⟩ := List.mem_flatMap.mp h
    refine isWord_of_mem_map ?_ isWord_definitionSuffixes h
    exact isWord_cons.mpr ⟨by decide, hslots slot (List.mem_filter.mp hslot).1⟩
  · refine isWord_indexedNames (by decide) (fun p e he => ?_) h
    exact isWord_of_mem_map (isWord_underscore_fragment p.name)
      (isWord_accessorSuffixes p.getter p.setter) he
  · refine isWord_indexedNames (by decide) (fun n e he => ?_) h
    split at he
    next => cases he
    next => exact isWord_of_mem_map (isWord_underscore_fragment n) isWord_definitionSuffixes he

/-! ## Names of a module -/

namespace SymbolModule

theorem object_mem (t : SymbolType) : "_object".toList ∈ t.typeSuffixes := by
  refine (typeSuffixes_perm t).mem_iff.mpr (List.mem_append_left _ ?_)
  exact List.mem_append_left _ (List.mem_append_left _ List.mem_cons_self)

/-- The names of two types are apart where their fragments are different. -/
theorem disjoint_iff {t u : SymbolType} :
    (t.typeSuffixes.map fun s => typeStart ++ (cIdentifierFragment t.name ++ s)).Disjoint
        (u.typeSuffixes.map fun s => typeStart ++ (cIdentifierFragment u.name ++ s)) ↔
      cIdentifierFragment t.name ≠ cIdentifierFragment u.name := by
  constructor
  · intro h heq
    refine h (List.mem_map_of_mem (object_mem t)) ?_
    rw [heq]
    exact List.mem_map_of_mem (object_mem u)
  · intro hne n hn hn'
    obtain ⟨s, hs, rfl⟩ := List.mem_map.mp hn
    obtain ⟨s', hs', heq⟩ := List.mem_map.mp hn'
    have hinj := typeSuffix_inj (isTypeSuffix_of_mem u hs') (isTypeSuffix_of_mem t hs)
      (List.append_cancel_left heq)
    exact hne hinj.1.symm

variable (m : SymbolModule)

theorem nodup_typeNames : m.typeNames.Nodup ↔
    m.types.Pairwise fun t u => cIdentifierFragment t.name ≠ cIdentifierFragment u.name := by
  rw [typeNames, List.nodup_flatMap]
  refine (and_congr_right fun _ => List.Pairwise.iff fun t u => disjoint_iff).trans ?_
  refine ⟨And.right, fun h => ⟨fun t _ => ?_, h⟩⟩
  refine (nodup_typeSuffixes t).map fun s s' hs => ?_
  exact List.append_cancel_left (List.append_cancel_left hs)

/-- The fragments are different unless an encoded name is taken. -/
theorem pairwise_fragment (hname : (m.types.map SymbolType.name).Nodup) :
    (m.types.Pairwise fun t u => cIdentifierFragment t.name ≠ cIdentifierFragment u.name) ↔
      ¬ m.EncodedNameTaken := by
  constructor
  · rintro h ⟨t, ht, u, hu, hcode⟩
    have hcode : EncodedAs t.name u.name := hcode
    have hsymm : Std.Symm fun t u : SymbolType =>
        cIdentifierFragment t.name ≠ cIdentifierFragment u.name := ⟨fun _ _ => Ne.symm⟩
    exact h.forall ht hu (fun htu => hcode.ne (congrArg _ htu)) hcode.fragment
  · intro h
    rw [List.Nodup, List.pairwise_map] at hname
    refine hname.imp_of_mem fun {t u} ht hu hne heq => ?_
    rcases cIdentifierFragment_inj heq with h' | h' | h'
    · exact hne h'
    · exact h ⟨t, ht, u, hu, h'⟩
    · exact h ⟨u, hu, t, ht, h'⟩

/-- A name without an index does not go on with a digit, after the beginning of types. -/
theorem noDigit_fragment (n s : Name) : NoDigit (cIdentifierFragment n ++ s) := by
  have h := isCIdentifier_fragment n
  cases hf : cIdentifierFragment n with
  | nil => rw [hf] at h; cases h
  | cons c r =>
    rw [hf, isCIdentifier, Bool.and_eq_true, Bool.and_eq_true, Bool.not_eq_true'] at h
    exact noDigit_cons.mpr h.1.1

theorem disjoint_typeNames : m.typeNames.Disjoint (indexedNames typeStart
    (fun t : SymbolType => t.slotSuffixes.map ('_' :: cIdentifierFragment t.name ++ ·))
    m.types) := by
  intro n hn hn'
  obtain ⟨t, -, hn⟩ := List.mem_flatMap.mp hn
  obtain ⟨s, -, rfl⟩ := List.mem_map.mp hn
  obtain ⟨p, -, hn'⟩ := List.mem_flatMap.mp hn'
  obtain ⟨s', -, heq⟩ := List.mem_map.mp hn'
  obtain ⟨c, d, hd, hc⟩ := exists_decimal p.2
  have hhead := noDigit_fragment t.name s
  rw [← List.append_cancel_left heq, hd, List.cons_append, noDigit_cons, hc] at hhead
  cases hhead

theorem starts_typeNames : ∀ n ∈ m.typeNames, typeStart <+: n := by
  intro n hn
  obtain ⟨t, -, hn⟩ := List.mem_flatMap.mp hn
  obtain ⟨s, -, rfl⟩ := List.mem_map.mp hn
  exact List.prefix_append _ _

theorem underscoreNames_closureSuffixes (captures : Bool) :
    UnderscoreNames (closureSuffixes captures) := by
  unfold UnderscoreNames
  revert captures
  decide

theorem nodup_closureNames : (indexedNames "__pyx_hpy_closure_fn_".toList
    (fun _ => closureSuffixes true ++ definitionSuffixes.map ("_tp_call".toList ++ ·))
    (List.range m.closures)).Nodup := by
  refine nodup_indexedNames fun _ => ?_
  unfold UnderscoreNames
  decide

/-- Only the names without an index can be the same. -/
theorem nodup_fileScopeNames : m.fileScopeNames.Nodup ↔ m.typeNames.Nodup := by
  rw [fileScopeNames, List.nodup_flatten]
  constructor
  · rintro ⟨h, -⟩
    exact h _ List.mem_cons_self
  · intro h
    refine ⟨?_, ?_⟩
    · simp only [List.forall_mem_cons]
      refine ⟨h, ?_, ?_, nodup_closureNames m, ?_, ?_, by simp⟩
      · exact nodup_indexedNames fun t => underscoreNames_map (nodup_slotSuffixes t) _
      · exact nodup_indexedNames underscoreNames_closureSuffixes
      · exact nodup_indexedNames fun f => underscoreNames_map (by decide) _
      · decide
    · have htypes := starts_typeNames m
      have hslots : ∀ n ∈ indexedNames typeStart (fun t : SymbolType =>
          t.slotSuffixes.map ('_' :: cIdentifierFragment t.name ++ ·)) m.types, typeStart <+: n :=
        fun n hn => start_of_mem hn
      have henv : ∀ n ∈ indexedNames "__pyx_hpy_closure_env_".toList closureSuffixes
          m.environments, "__pyx_hpy_closure_env_".toList <+: n := fun n hn => start_of_mem hn
      have hfn : ∀ n ∈ indexedNames "__pyx_hpy_closure_fn_".toList
          (fun _ => closureSuffixes true ++ definitionSuffixes.map ("_tp_call".toList ++ ·))
          (List.range m.closures), "__pyx_hpy_closure_fn_".toList <+: n :=
        fun n hn => start_of_mem hn
      have hdef : ∀ n ∈ indexedNames "__pyx_hpy_def_".toList
          (fun f => definitionSuffixes.map ('_' :: cIdentifierFragment f ++ ·)) m.functions,
          "__pyx_hpy_def_".toList <+: n := fun n hn => start_of_mem hn
      have hlast : ∀ {l : List Name} {p : Name}, (∀ n ∈ l, p <+: n) →
          (∀ n ∈ moduleNames, ¬ p <+: n) → l.Disjoint moduleNames :=
        fun hl hp n hn hn' => hp n hn' (hl n hn)
      simp only [List.pairwise_cons, List.forall_mem_cons, List.Pairwise.nil]
      refine ⟨⟨disjoint_typeNames m, ?_, ?_, ?_, ?_, by simp⟩, ⟨?_, ?_, ?_, ?_, by simp⟩,
        ⟨?_, ?_, ?_, by simp⟩, ⟨?_, ?_, by simp⟩, ⟨?_, by simp⟩, by simp⟩
      · exact disjoint_of_starts htypes henv (by decide) (by decide)
      · exact disjoint_of_starts htypes hfn (by decide) (by decide)
      · exact disjoint_of_starts htypes hdef (by decide) (by decide)
      · exact hlast htypes (by decide)
      · exact disjoint_of_starts hslots henv (by decide) (by decide)
      · exact disjoint_of_starts hslots hfn (by decide) (by decide)
      · exact disjoint_of_starts hslots hdef (by decide) (by decide)
      · exact hlast hslots (by decide)
      · exact disjoint_of_starts henv hfn (by decide) (by decide)
      · exact disjoint_of_starts henv hdef (by decide) (by decide)
      · exact hlast henv (by decide)
      · exact disjoint_of_starts hfn hdef (by decide) (by decide)
      · exact hlast hfn (by decide)
      · exact hlast hdef (by decide)

/-- The identifiers begin with that of the writer and consist of word characters. -/
theorem isCIdentifier_of_start {start n : Name} (hstart : isCIdentifier start = true)
    (hn : start <+: n) (hword : IsWord n) : isCIdentifier n = true := by
  obtain ⟨r, rfl⟩ := hn
  exact isCIdentifier_append hstart (isWord_append.mp hword).2

theorem isWord_typeNames {n : Name} (h : n ∈ m.typeNames) : IsWord n := by
  obtain ⟨t, -, hn⟩ := List.mem_flatMap.mp h
  obtain ⟨s, hs, rfl⟩ := List.mem_map.mp hn
  have hsuffix := (isTypeSuffix_of_mem t hs).isWord
  exact isWord_append.mpr ⟨by decide, isWord_append.mpr ⟨isWord_fragment t.name, hsuffix⟩⟩

theorem isCIdentifier_indexedNames {α : Type} {start n : Name} {f : α → List Name} {l : List α}
    (hstart : isCIdentifier start = true) (hf : ∀ a, ∀ s ∈ f a, IsWord s)
    (h : n ∈ indexedNames start f l) : isCIdentifier n = true :=
  isCIdentifier_of_start hstart (start_of_mem h)
    (isWord_indexedNames (isWord_of_isCIdentifier hstart) hf h)

theorem isCIdentifier_fileScopeNames {n : Name} (h : n ∈ m.fileScopeNames) :
    isCIdentifier n = true := by
  have hclosure : ∀ captures, ∀ s ∈ closureSuffixes captures, IsWord s := by decide
  have hcall : ∀ s ∈ definitionSuffixes.map ("_tp_call".toList ++ ·), IsWord s := by decide
  have hlast : ∀ n ∈ moduleNames, isCIdentifier n = true := by decide
  obtain ⟨l, hl, hn⟩ := List.mem_flatten.mp h
  simp only [List.mem_cons, List.not_mem_nil, or_false] at hl
  rcases hl with rfl | rfl | rfl | rfl | rfl | rfl
  · exact isCIdentifier_of_start (by decide) (starts_typeNames m n hn) (isWord_typeNames m hn)
  · refine isCIdentifier_indexedNames (by decide) (fun t s hs => ?_) hn
    exact isWord_of_mem_map (isWord_underscore_fragment t.name)
      (fun _ => isWord_slotSuffixes t) hs
  · exact isCIdentifier_indexedNames (by decide) hclosure hn
  · refine isCIdentifier_indexedNames (by decide) (fun _ s hs => ?_) hn
    exact (List.mem_append.mp hs).elim (hclosure true s) (hcall s)
  · refine isCIdentifier_indexedNames (by decide) (fun f s hs => ?_) hn
    exact isWord_of_mem_map (isWord_underscore_fragment f) isWord_definitionSuffixes hs
  · exact hlast n hn

/-- A module with the extension types of these names. -/
def ofTypes (names : List String) : SymbolModule :=
  ⟨[], names.map fun n => ⟨n.toList, [], [], [], [], false⟩, [], 0⟩

end SymbolModule

end AHPy.ModuleWriter
