import AHPy.StringTable.Registrations
import AHPy.StringTable.Unpacking

/-!
# Entries of the table

A Python string of a constant is a *slot*. The slots of all constants are split into texts and
bytes, and each list is sorted.

* `allEntries_spec`: the entries are those of the slots;
* `generate_spec`: what is generated from them;
* `getElem_table`: a name that is defined has its entry in the table.
-/

namespace AHPy.StringTable

variable {py : Python}

/-! ## Slots -/

/-- The Python strings of constants. -/
def slots (cs : List (StringConst py)) : List (StringConst py × PyStringConst) :=
  cs.flatMap fun c => c.pyStrings.entries.map fun e => (c, e.2)

/-- The entries of slots. -/
structure Entries (ss : List (StringConst py × PyStringConst)) (texts : List TextEntry)
    (entries : List BytesEntry) : Prop where
  text : ∀ e, e ∈ texts ↔ ∃ s ∈ ss, s.2.isUnicode = true ∧
    s.1.text.value s.2.encoding = some e.text ∧ e.intern = s.2.intern ∧ e.cname = s.2.cname
  bytes : ∀ e, e ∈ entries ↔ ∃ s ∈ ss, s.2.isUnicode = false ∧
    e.value = s.1.text.byteString ∧ e.cname = s.2.cname
  names : (texts.map TextEntry.cname ++ entries.map BytesEntry.cname).Perm
    (ss.map fun s => s.2.cname)

/-- The bytes of text slots can be decoded. -/
def Decodable (ss : List (StringConst py × PyStringConst)) : Prop :=
  ∀ s ∈ ss, s.2.isUnicode = true → ∃ v, s.1.text.value s.2.encoding = some v

section

variable {ss ss' : List (StringConst py × PyStringConst)} {texts texts' : List TextEntry}
  {entries entries' : List BytesEntry}

theorem entries_nil : Entries ([] : List (StringConst py × PyStringConst)) [] [] :=
  ⟨by simp, by simp, .rfl⟩

theorem Entries.append (h : Entries ss texts entries) (h' : Entries ss' texts' entries') :
    Entries (ss ++ ss') (texts ++ texts') (entries ++ entries') where
  text e := by
    simp only [List.mem_append, h.text, h'.text, or_and_right, exists_or]
  bytes e := by
    simp only [List.mem_append, h.bytes, h'.bytes, or_and_right, exists_or]
  names := by
    rw [List.map_append, List.map_append, List.map_append]
    refine .trans ?_ (h.names.append h'.names)
    rw [List.append_assoc, List.append_assoc]
    refine .append_left _ ?_
    rw [← List.append_assoc, ← List.append_assoc]
    exact List.perm_append_comm.append_right _

/-- The entry of a text. -/
theorem entries_text {c : StringConst py} {p : PyStringConst} {v : String}
    (hp : p.isUnicode = true) (hv : c.text.value p.encoding = some v) :
    Entries [(c, p)] [⟨p.intern && p.isUnicode, p.cname, v⟩] [] where
  text e := by
    obtain ⟨intern, cname, text⟩ := e
    simp [hp, hv]
    grind
  bytes e := by simp [hp]
  names := .rfl

/-- The entry of bytes. -/
theorem entries_bytes {c : StringConst py} {p : PyStringConst} (hp : p.isUnicode = false) :
    Entries [(c, p)] [] [⟨p.cname, c.text.byteString⟩] where
  text e := by simp [hp]
  bytes e := by
    obtain ⟨cname, value⟩ := e
    simp [hp]
    grind
  names := .rfl

theorem decodable_append : Decodable (ss ++ ss') ↔ Decodable ss ∧ Decodable ss' := by
  simp only [Decodable, List.mem_append, or_imp, forall_and]

end

/-- The entries of one constant. -/
theorem constEntries_spec (c : StringConst py) (ps : List PyStringConst) :
    (Decodable (ps.map fun p => (c, p)) → ∃ texts entries,
      constEntries c ps = some (texts, entries) ∧
        Entries (ps.map fun p => (c, p)) texts entries) ∧
    ((constEntries c ps).isSome → Decodable (ps.map fun p => (c, p))) := by
  induction ps with
  | nil => exact ⟨fun _ => ⟨[], [], rfl, entries_nil⟩, fun _ => by simp [Decodable]⟩
  | cons p ps ih =>
    have hcons : (p :: ps).map (fun p => (c, p)) = [(c, p)] ++ ps.map fun p => (c, p) := rfl
    rw [hcons, decodable_append]
    constructor
    · rintro ⟨hp, hps⟩
      obtain ⟨texts, entries, heq, h⟩ := ih.1 hps
      cases hu : p.isUnicode with
      | true =>
        obtain ⟨v, hv⟩ := hp (c, p) (List.mem_singleton.2 rfl) hu
        refine ⟨_, _, ?_, (entries_text hu hv).append h⟩
        simp only [constEntries, heq, hu, hv, Option.bind_eq_bind, Option.bind_some]
        rfl
      | false =>
        refine ⟨_, _, ?_, (entries_bytes hu).append h⟩
        simp only [constEntries, heq, hu, Option.bind_eq_bind, Option.bind_some]
        rfl
    · intro h
      rw [constEntries] at h
      cases heq : constEntries c ps with
      | none => simp [heq] at h
      | some e =>
        refine ⟨fun s hs hu => ?_, ih.2 (by rw [heq]; rfl)⟩
        obtain rfl := List.mem_singleton.1 hs
        cases hv : c.text.value p.encoding with
        | none => simp [heq, hv, show p.isUnicode = true from hu] at h
        | some v => exact ⟨v, rfl⟩

/-- The entries of all constants. -/
theorem allEntries_spec (cs : List (StringConst py)) :
    (Decodable (slots cs) → ∃ texts entries, allEntries cs = some (texts, entries) ∧
      Entries (slots cs) texts entries) ∧
    ((allEntries cs).isSome → Decodable (slots cs)) := by
  induction cs with
  | nil => exact ⟨fun _ => ⟨[], [], rfl, entries_nil⟩, fun _ => by simp [Decodable, slots]⟩
  | cons c cs ih =>
    have hc := constEntries_spec c (c.pyStrings.entries.map Prod.snd)
    rw [List.map_map] at hc
    have hcons : slots (c :: cs) =
        c.pyStrings.entries.map ((fun p => (c, p)) ∘ Prod.snd) ++ slots cs := rfl
    rw [hcons, decodable_append]
    constructor
    · rintro ⟨hhead, htail⟩
      obtain ⟨texts, entries, heq, h⟩ := hc.1 hhead
      obtain ⟨texts', entries', heq', h'⟩ := ih.1 htail
      refine ⟨_, _, ?_, h.append h'⟩
      simp only [allEntries, heq, heq', Option.bind_eq_bind, Option.bind_some]
    · intro h
      rw [allEntries] at h
      cases heq : constEntries c (c.pyStrings.entries.map Prod.snd) with
      | none => simp [heq] at h
      | some e =>
        cases heq' : allEntries cs with
        | none => simp [heq, heq'] at h
        | some e' => exact ⟨hc.2 (by rw [heq]; rfl), ih.2 (by rw [heq']; rfl)⟩

/-! ## Positions -/

theorem definesFrom_eq_zipIdx (pos : ℕ) (cnames : List CName) :
    definesFrom pos cnames = cnames.zipIdx pos := by
  induction cnames generalizing pos with
  | nil => rfl
  | cons cname cnames ih => rw [definesFrom, List.zipIdx_cons, ih]

theorem map_fst_definesFrom (pos : ℕ) (cnames : List CName) :
    (definesFrom pos cnames).map Prod.fst = cnames := by
  rw [definesFrom_eq_zipIdx, List.zipIdx_map_fst]

theorem mem_definesFrom_zero {i : ℕ} {cnames : List CName} {cname : CName} :
    (cname, i) ∈ definesFrom 0 cnames ↔ cnames[i]? = some cname := by
  rw [definesFrom_eq_zipIdx, List.mk_mem_zipIdx_iff_getElem?]

/-! ## The table -/

theorem mem_sortTexts {texts : List TextEntry} {e : TextEntry} : e ∈ sortTexts texts ↔ e ∈ texts :=
  List.mem_mergeSort

theorem mem_sortBytes {entries : List BytesEntry} {e : BytesEntry} :
    e ∈ sortBytes entries ↔ e ∈ entries :=
  List.mem_mergeSort

/-- What is generated, and what the table is, if there are entries. -/
structure Generated (libs : Libraries) (gs : GlobalState py) (texts : List TextEntry)
    (entries : List BytesEntry) (out : Output) : Prop where
  ofSlots : Entries (slots (sortedConsts gs)) texts entries
  generate : generate libs gs = some out
  cStrings : out.cStrings = usedCStrings (sortedConsts gs)
  stringtabSize : out.stringtabSize = entries.length + texts.length
  defines : out.defines = definesFrom 0 ((sortTexts texts).map TextEntry.cname ++
    (sortBytes entries).map BytesEntry.cname)
  strIndex : out.strIndex = lengthIndex ((sortTexts texts).map fun e => (encodeUTF8 e.text).length)
  bytesIndex : out.bytesIndex = lengthIndex ((sortBytes entries).map fun e => e.value.length)
  initialise : ∀ settings, initialise libs out settings =
    some ((sortTexts texts).map (fun e => .str e.text e.intern) ++
      (sortBytes entries).map fun e => .bytes e.value)

/-- The table is generated if and only if the texts can be decoded. -/
theorem generate_spec (libs : Libraries) (gs : GlobalState py) :
    (Decodable (slots (sortedConsts gs)) →
      ∃ texts entries out, Generated libs gs texts entries out) ∧
    ((generate libs gs).isSome → Decodable (slots (sortedConsts gs))) := by
  constructor
  · intro h
    obtain ⟨texts, entries, heq, hentries⟩ := (allEntries_spec (sortedConsts gs)).1 h
    obtain ⟨out, hout, hcStrings, hsize, hdefines, hstr, hbytes, hinit⟩ :=
      generatePystringConstants_eq libs (usedCStrings (sortedConsts gs)) texts entries
    refine ⟨texts, entries, out, hentries, ?_, hcStrings, hsize, hdefines, hstr, hbytes, hinit⟩
    rw [StringTable.generate, Option.bind_eq_bind, heq, Option.bind_some]
    exact hout
  · intro h
    refine (allEntries_spec (sortedConsts gs)).2 ?_
    rw [StringTable.generate, Option.bind_eq_bind] at h
    exact Option.isSome_of_isSome_bind h

section

variable {libs : Libraries} {gs : GlobalState py} {texts : List TextEntry}
  {entries : List BytesEntry} {out : Output}

theorem Generated.mem_names (h : Generated libs gs texts entries out) :
    (out.defines.map Prod.fst).Perm ((slots (sortedConsts gs)).map fun s => s.2.cname) := by
  rw [h.defines, map_fst_definesFrom]
  refine .trans ?_ h.ofSlots.names
  exact ((List.mergeSort_perm _ _).map _).append ((List.mergeSort_perm _ _).map _)

/-- A name of a text has the text in its place. -/
theorem Generated.text (h : Generated libs gs texts entries out) {e : TextEntry}
    (he : e ∈ texts) {settings : Settings} {table : List PyString}
    (htable : StringTable.initialise libs out settings = some table) :
    ∃ i, (e.cname, i) ∈ out.defines ∧ table[i]? = some (.str e.text e.intern) := by
  obtain rfl := Option.some.inj ((h.initialise settings).symm.trans htable)
  obtain ⟨i, hi⟩ := List.mem_iff_getElem?.1 (mem_sortTexts.2 he)
  have hlt : i < (sortTexts texts).length := (List.getElem?_eq_some_iff.1 hi).1
  refine ⟨i, ?_, ?_⟩
  · rw [h.defines, mem_definesFrom_zero, List.getElem?_append_left (by rwa [List.length_map]),
      List.getElem?_map, hi, Option.map_some]
  · rw [List.getElem?_append_left (by rwa [List.length_map]), List.getElem?_map, hi,
      Option.map_some]

/-- A name of bytes has the bytes in its place. -/
theorem Generated.bytes (h : Generated libs gs texts entries out) {e : BytesEntry}
    (he : e ∈ entries) {settings : Settings} {table : List PyString}
    (htable : StringTable.initialise libs out settings = some table) :
    ∃ i, (e.cname, i) ∈ out.defines ∧ table[i]? = some (.bytes e.value) := by
  obtain rfl := Option.some.inj ((h.initialise settings).symm.trans htable)
  obtain ⟨i, hi⟩ := List.mem_iff_getElem?.1 (mem_sortBytes.2 he)
  refine ⟨(sortTexts texts).length + i, ?_, ?_⟩
  · rw [h.defines, mem_definesFrom_zero, List.getElem?_append_right (by simp), List.length_map,
      Nat.add_sub_cancel_left, List.getElem?_map, hi, Option.map_some]
  · rw [List.getElem?_append_right (by simp), List.length_map, Nat.add_sub_cancel_left,
      List.getElem?_map, hi, Option.map_some]

theorem Generated.strIndex_valid (h : Generated libs gs texts entries out) :
    out.strIndex.Valid ↔ ∀ e ∈ texts, (∃ e' ∈ texts, 0 < (encodeUTF8 e'.text).length) ∧
      (encodeUTF8 e.text).length < 2 ^ unsignedIntBits := by
  rw [h.strIndex, valid_lengthIndex]
  simp only [mem_sortTexts]

theorem Generated.bytesIndex_valid (h : Generated libs gs texts entries out) :
    out.bytesIndex.Valid ↔ ∀ e ∈ entries, (∃ e' ∈ entries, 0 < e'.value.length) ∧
      e.value.length < 2 ^ unsignedIntBits := by
  rw [h.bytesIndex, valid_lengthIndex]
  simp only [mem_sortBytes]

end

end AHPy.StringTable
