import AHPy.StringTable.Entries

/-!
# Which constants the table keeps

* `Correct`: names, declarations and the initialised table are those of the registered
  constants;
* `Representable`: the registrations for which they are;
* `correct_iff_representable`: for all registrations, in all orders.
-/

namespace AHPy.StringTable

variable {py : Python}

/-! ## Registered constants -/

/-- The texts and identifier flags of the registered Python strings. -/
def requests (rs : List (Registration py)) : List (Text py × Option Bool) :=
  rs.filterMap Registration.python

/-- A text; or bytes. -/
def isText (r : Text py × Option Bool) : Bool := (kindOf r.1.encoding r.2).1

def encodingKey (r : Text py × Option Bool) : Option (List Char) := (kindOf r.1.encoding r.2).2.2

/-- Whether a string is interned, by the text that was registered first with its bytes. -/
def internIn (rs : List (Registration py)) (r : Text py × Option Bool) : Bool :=
  (firstText rs r.1.byteString).elim false fun text => internOf text r.2

/-- The value of the text that was registered first with its bytes. -/
def valueIn (rs : List (Registration py)) (r : Text py × Option Bool) : Option String :=
  (firstText rs r.1.byteString).bind (Text.value none)

/-- The suffix of a byte string. -/
def suffixIn (rs : List (Registration py)) (b : Bytes) : CName :=
  ((namedSuffixes rs).2.get? b).getD []

def Constant.request (k : Constant py) : Text py × Option Bool := (k.text, k.identifier)

/-- What a constant is. -/
def Constant.object (k : Constant py) : Option PyString :=
  if isText k.request then (k.text.value none).map fun v => .str v k.result.intern
  else some (.bytes k.text.byteString)

/-- Constants that differ have different names, the declarations are valid, and each name has its
    constant in the table, however the code is compiled. -/
def Correct (libs : Libraries) (rs : List (Registration py)) : Prop :=
  ∃ cs gs, registerAll .empty rs = some (cs, gs) ∧
    (∀ k ∈ cs, ∀ k' ∈ cs, ¬(k.text.byteString = k'.text.byteString ∧
      isText k.request = isText k'.request ∧ k.result.intern = k'.result.intern) →
        k.result.cname ≠ k'.result.cname) ∧
    ∃ out, generate libs gs = some out ∧ out.Valid ∧
      ∀ settings, ∃ table, initialise libs out settings = some table ∧
        ∀ k ∈ cs, ∃ i obj, (k.result.cname, i) ∈ out.defines ∧ k.object = some obj ∧
          table[i]? = some obj

/-- What registrations must be like. -/
structure Representable (rs : List (Registration py)) : Prop where
  /-- The table is not empty. -/
  nonempty : requests rs ≠ []
  /-- A text is the one that was registered first with its bytes. -/
  values : ∀ r ∈ requests rs, isText r = true → ∃ v, r.1.value none = some v ∧
    valueIn rs r = some v
  /-- Some text is not empty, if there are any. -/
  texts : ∀ r ∈ requests rs, isText r = true → ∃ r' ∈ requests rs, isText r' = true ∧
    r'.1.value none ≠ some ""
  textLengths : ∀ r ∈ requests rs, isText r = true → ∀ v ∈ r.1.value none,
    (encodeUTF8 v).length < 2 ^ unsignedIntBits
  /-- Some bytes are not empty, if there are any. -/
  bytes : ∀ r ∈ requests rs, isText r = false → ∃ r' ∈ requests rs, isText r' = false ∧
    r'.1.byteString ≠ []
  bytesLengths : ∀ r ∈ requests rs, isText r = false →
    r.1.byteString.length < 2 ^ unsignedIntBits
  /-- No suffix repeats an encoding and another suffix. -/
  names : ∀ r ∈ requests rs, ∀ r' ∈ requests rs, isText r = false → isText r' = false →
    internIn rs r = internIn rs r' → encodingKey r = none → ∀ e ∈ encodingKey r',
      suffixIn rs r.1.byteString ≠ e ++ '_' :: suffixIn rs r'.1.byteString

/-! ## Constants and slots -/

/-- A constant, seen from the registrations. -/
structure Registered (rs : List (Registration py)) (gs : GlobalState py) (k : Constant py)
    (c : StringConst py) : Prop where
  index : gs.stringConstIndex.get? k.text.byteString = some c
  pyString : c.pyStrings.get? k.key = some k.result
  ok : c.Ok gs.constCnamesUsed k.text.byteString
  intern : k.result.intern = internIn rs k.request
  isUnicode : k.result.isUnicode = isText k.request
  suffix : c.suffix = suffixIn rs k.text.byteString
  cname : k.result.cname = pyStringCname k.key (suffixIn rs k.text.byteString)
  keyOk : k.key.Ok
  value : isText k.request = true → c.text.value k.result.encoding = valueIn rs k.request

section

variable {rs : List (Registration py)} {cs : List (Constant py)} {gs : GlobalState py}

theorem Inv.mem (h : Inv rs cs gs) {k : Constant py} (hk : k ∈ cs) :
    ∃ c, Registered rs gs k c := by
  obtain ⟨c, hc, hp, hintern⟩ := h.constants k hk
  have hok := h.ok _ c hc
  obtain ⟨hkey, hcname, -, hunicode, hencoding⟩ := hok.pyStrings k.key k.result hp
  have hfirst : firstText rs k.text.byteString = some c.text := by
    rw [h.first, hc, Option.map_some]
  have hsuffix : c.suffix = suffixIn rs k.text.byteString := by
    rw [suffixIn, ← h.named, hc, Option.map_some, Option.getD_some]
  refine ⟨c, hc, hp, hok, ?_, hunicode, hsuffix, hsuffix ▸ hcname, hkey, fun ht => ?_⟩
  · rw [hintern, internIn, Constant.request, hfirst, Option.elim_some]
  · rw [hencoding ht, valueIn, Constant.request, hfirst, Option.bind_some]

theorem mem_sortedConsts {c : StringConst py} :
    c ∈ sortedConsts gs ↔ ∃ b, gs.stringConstIndex.get? b = some c := by
  rw [sortedConsts, List.mem_mergeSort]
  simp only [List.mem_map, Prod.exists, exists_eq_right, OrderedDict.get?_eq_some_iff]

/-- Constants have slots, and slots are those of constants. -/
theorem Inv.mem_slots (h : Inv rs cs gs) {c : StringConst py} {p : PyStringConst} :
    (c, p) ∈ slots (sortedConsts gs) ↔ ∃ k ∈ cs, Registered rs gs k c ∧ k.result = p := by
  have hmem : (c, p) ∈ slots (sortedConsts gs) ↔
      c ∈ sortedConsts gs ∧ ∃ key, c.pyStrings.get? key = some p := by
    simp only [slots, List.mem_flatMap, List.mem_map, Prod.mk.injEq, Prod.exists,
      OrderedDict.get?_eq_some_iff]
    grind
  rw [hmem, mem_sortedConsts]
  constructor
  · rintro ⟨⟨b, hb⟩, key, hp⟩
    obtain ⟨k, hk, rfl, rfl, rfl⟩ := h.registered b c key p hb hp
    obtain ⟨c', hc'⟩ := h.mem hk
    obtain rfl : c = c' := Option.some.inj (hb ▸ hc'.index)
    exact ⟨k, hk, hc', rfl⟩
  · rintro ⟨k, -, hc, rfl⟩
    exact ⟨⟨_, hc.index⟩, k.key, hc.pyString⟩

/-- A bytes constant has the name of another one only if they are the same, or if a suffix repeats
    an encoding and the other suffix. -/
theorem Inv.cname_inj (h : Inv rs cs gs) (hnames : ∀ k ∈ cs, ∀ k' ∈ cs,
      isText k.request = false → isText k'.request = false →
      internIn rs k.request = internIn rs k'.request → encodingKey k.request = none →
      ∀ e ∈ encodingKey k'.request,
        suffixIn rs k.text.byteString ≠ e ++ '_' :: suffixIn rs k'.text.byteString)
    {k k' : Constant py} (hk : k ∈ cs) (hk' : k' ∈ cs)
    (hcname : k.result.cname = k'.result.cname) :
    k.text.byteString = k'.text.byteString ∧ k.key = k'.key := by
  obtain ⟨c, hc⟩ := h.mem hk
  obtain ⟨c', hc'⟩ := h.mem hk'
  rw [hc.cname, hc'.cname, pyStringCname_inj] at hcname
  obtain ⟨hintern, hunicode, hrest⟩ := hcname
  -- A clash is one of bytes: texts have no encoding key.
  have hclash : ∀ k₁ ∈ cs, ∀ k₂ ∈ cs, ∀ c₁ c₂, Registered rs gs k₁ c₁ → Registered rs gs k₂ c₂ →
      k₁.key.intern = k₂.key.intern → k₁.key.isUnicode = k₂.key.isUnicode →
      ¬Clash k₁.key (suffixIn rs k₁.text.byteString) k₂.key (suffixIn rs k₂.text.byteString) := by
    rintro k₁ hk₁ k₂ hk₂ c₁ c₂ h₁ h₂ hi hu ⟨he₁, e, he₂, hs⟩
    have hbytes : isText k₂.request = false := by
      rw [← Bool.not_eq_true]
      intro ht
      have hnone : k₂.key.encodingKey = none := h₂.keyOk.unicode ht
      rw [hnone] at he₂
      cases he₂
    exact hnames k₁ hk₁ k₂ hk₂ (hu.trans hbytes) hbytes
      (h₁.intern.symm.trans (hi.trans h₂.intern)) he₁ e he₂ hs
  rcases nameRest_inj hc.keyOk hc'.keyOk hrest with ⟨hkey, hsuffix⟩ | hcl | hcl
  · refine ⟨h.suffix _ _ c c' hc.index hc'.index ?_, ?_⟩
    · rw [hc.suffix, hc'.suffix, hsuffix]
    · rw [Key.mk.injEq]
      exact ⟨hintern, hunicode, hkey⟩
  · exact absurd hcl (hclash k hk k' hk' c c' hc hc' hintern hunicode)
  · exact absurd hcl (hclash k' hk' k hk c' c hc' hc hintern.symm hunicode.symm)

/-- Then no name is defined twice. -/
theorem Inv.nodup_names (h : Inv rs cs gs) (hinj : ∀ k ∈ cs, ∀ k' ∈ cs,
      k.result.cname = k'.result.cname → k.text.byteString = k'.text.byteString ∧ k.key = k'.key) :
    ((slots (sortedConsts gs)).map fun s => s.2.cname).Nodup := by
  have hperm : (sortedConsts gs).Perm (gs.stringConstIndex.entries.map Prod.snd) :=
    List.mergeSort_perm _ _
  have hslots : ((slots (sortedConsts gs)).map fun s => s.2.cname).Perm
      (gs.stringConstIndex.entries.flatMap fun e =>
        e.2.pyStrings.entries.map fun q => q.2.cname) := by
    rw [slots, List.map_flatMap]
    simp only [List.map_map, Function.comp_def]
    have := hperm.flatMap_right fun c => c.pyStrings.entries.map fun q => q.2.cname
    rwa [List.flatMap_map] at this
  rw [hslots.nodup_iff, List.nodup_flatMap]
  -- Entries with one name are those of one constant.
  have hentry : ∀ e ∈ gs.stringConstIndex.entries, ∀ e' ∈ gs.stringConstIndex.entries,
      ∀ q ∈ e.2.pyStrings.entries, ∀ q' ∈ e'.2.pyStrings.entries, q.2.cname = q'.2.cname →
        e.1 = e'.1 ∧ q.1 = q'.1 := by
    rintro ⟨b, c⟩ he ⟨b', c'⟩ he' ⟨key, p⟩ hq ⟨key', p'⟩ hq' hcname
    obtain ⟨k, hk, rfl, rfl, rfl⟩ := h.registered b c key p
      (OrderedDict.get?_eq_some_iff.2 he) (OrderedDict.get?_eq_some_iff.2 hq)
    obtain ⟨k', hk', rfl, rfl, rfl⟩ := h.registered b' c' key' p'
      (OrderedDict.get?_eq_some_iff.2 he') (OrderedDict.get?_eq_some_iff.2 hq')
    exact hinj k hk k' hk' hcname
  constructor
  · intro e he
    refine List.Nodup.map_on (fun q hq q' hq' hcname => ?_) (List.Nodup.of_map _ e.2.pyStrings.nodup)
    have hkey := (hentry e he e he q hq q' hq' hcname).2
    exact Prod.ext hkey (OrderedDict.eq_of_mem_entries hq (hkey ▸ hq'))
  · refine (List.pairwise_map.1 gs.stringConstIndex.nodup).imp_of_mem fun {e e'} he he' hne => ?_
    intro cname hin hin'
    obtain ⟨q, hq, rfl⟩ := List.mem_map.1 hin
    obtain ⟨q', hq', hcname⟩ := List.mem_map.1 hin'
    exact hne (hentry e he e' he' q hq q' hq' hcname.symm).1

/-- C strings have different names. -/
theorem Inv.nodup_cStrings (h : Inv rs cs gs) :
    ((usedCStrings (sortedConsts gs)).map Prod.fst).Nodup := by
  have hperm : (sortedConsts gs).Perm (gs.stringConstIndex.entries.map Prod.snd) :=
    List.mergeSort_perm _ _
  have hall : ((sortedConsts gs).map StringConst.cname).Nodup := by
    rw [(hperm.map StringConst.cname).nodup_iff, List.map_map, List.Nodup, List.pairwise_map]
    refine (List.pairwise_map.1 gs.stringConstIndex.nodup).imp_of_mem fun {e e'} he he' hne hc => ?_
    have hget := OrderedDict.get?_eq_some_iff.2 he
    have hget' := OrderedDict.get?_eq_some_iff.2 he'
    have hcname : e.2.cname = e'.2.cname := hc
    exact hne (h.suffix _ _ _ _ hget hget' (by rw [StringConst.suffix, hcname, StringConst.suffix]))
  rw [usedCStrings, List.map_map]
  exact hall.sublist ((List.filter_sublist).map _)

/-- Identifiers are declared and defined. -/
theorem Inv.isIdentifier (h : Inv rs cs gs) : ∀ cname ∈
    (usedCStrings (sortedConsts gs)).map Prod.fst ++
      (slots (sortedConsts gs)).map (fun s => s.2.cname), IsIdentifier cname := by
  intro cname hcname
  rcases List.mem_append.1 hcname with hmem | hmem
  · rw [usedCStrings, List.map_map] at hmem
    obtain ⟨c, hc, rfl⟩ := List.mem_map.1 hmem
    obtain ⟨b, hb⟩ := mem_sortedConsts.1 (List.mem_of_mem_filter hc)
    have hok := h.ok b c hb
    rw [Function.comp_apply, hok.cname]
    exact isIdentifier_constCname hok.chars
  · obtain ⟨⟨c, p⟩, hs, rfl⟩ := List.mem_map.1 hmem
    obtain ⟨k, -, hk, rfl⟩ := h.mem_slots.1 hs
    rw [hk.cname, ← hk.suffix]
    exact isIdentifier_pyStringCname hk.keyOk hk.ok.chars

/-- No name is both that of a C string and of a Python string. -/
theorem Inv.disjoint_names (h : Inv rs cs gs) :
    ((usedCStrings (sortedConsts gs)).map Prod.fst).Disjoint
      ((slots (sortedConsts gs)).map fun s => s.2.cname) := by
  intro cname hmem hs
  rw [usedCStrings, List.map_map] at hmem
  obtain ⟨c, hc, rfl⟩ := List.mem_map.1 hmem
  obtain ⟨b, hb⟩ := mem_sortedConsts.1 (List.mem_of_mem_filter hc)
  obtain ⟨⟨c', p⟩, hs, hcname⟩ := List.mem_map.1 hs
  obtain ⟨k, -, hk, rfl⟩ := h.mem_slots.1 hs
  have heq : k.result.cname = c.cname := hcname
  rw [hk.cname, (h.ok b c hb).cname] at heq
  exact constCname_ne_pyStringCname _ _ _ heq.symm

/-! ## The table -/

/-- The texts in the table can be decoded. -/
theorem Inv.decodable_iff (h : Inv rs cs gs) : Decodable (slots (sortedConsts gs)) ↔
    ∀ k ∈ cs, isText k.request = true → ∃ v, valueIn rs k.request = some v := by
  constructor
  · intro hd k hk ht
    obtain ⟨c, hc⟩ := h.mem hk
    have hs : (c, k.result) ∈ slots (sortedConsts gs) := h.mem_slots.2 ⟨k, hk, hc, rfl⟩
    exact hc.value ht ▸ hd _ hs (hc.isUnicode.trans ht)
  · rintro hv ⟨c, p⟩ hs hu
    obtain ⟨k, hk, hc, rfl⟩ := h.mem_slots.1 hs
    have ht : isText k.request = true := hc.isUnicode.symm.trans hu
    exact hc.value ht ▸ hv k hk ht

section

variable {libs : Libraries} {texts : List TextEntry} {entries : List BytesEntry} {out : Output}

/-- Texts in the table are text constants. -/
theorem Inv.mem_texts (h : Inv rs cs gs) (hg : Generated libs gs texts entries out)
    {e : TextEntry} : e ∈ texts ↔ ∃ k ∈ cs, isText k.request = true ∧
      valueIn rs k.request = some e.text ∧ e.intern = k.result.intern ∧
        e.cname = k.result.cname := by
  rw [hg.ofSlots.text]
  constructor
  · rintro ⟨⟨c, p⟩, hs, hu, hv, hintern, hcname⟩
    obtain ⟨k, hk, hc, rfl⟩ := h.mem_slots.1 hs
    have ht : isText k.request = true := hc.isUnicode.symm.trans hu
    exact ⟨k, hk, ht, (hc.value ht).symm.trans hv, hintern, hcname⟩
  · rintro ⟨k, hk, ht, hv, hintern, hcname⟩
    obtain ⟨c, hc⟩ := h.mem hk
    exact ⟨(c, k.result), h.mem_slots.2 ⟨k, hk, hc, rfl⟩, hc.isUnicode.trans ht,
      (hc.value ht).trans hv, hintern, hcname⟩

/-- Bytes in the table are bytes constants. -/
theorem Inv.mem_entries (h : Inv rs cs gs) (hg : Generated libs gs texts entries out)
    {e : BytesEntry} : e ∈ entries ↔ ∃ k ∈ cs, isText k.request = false ∧
      e.value = k.text.byteString ∧ e.cname = k.result.cname := by
  rw [hg.ofSlots.bytes]
  constructor
  · rintro ⟨⟨c, p⟩, hs, hu, hv, hcname⟩
    obtain ⟨k, hk, hc, rfl⟩ := h.mem_slots.1 hs
    exact ⟨k, hk, hc.isUnicode.symm.trans hu, hv.trans hc.ok.text, hcname⟩
  · rintro ⟨k, hk, ht, hv, hcname⟩
    obtain ⟨c, hc⟩ := h.mem hk
    exact ⟨(c, k.result), h.mem_slots.2 ⟨k, hk, hc, rfl⟩, hc.isUnicode.trans ht,
      hv.trans hc.ok.text.symm, hcname⟩

/-- Where names are defined once, they have one position. -/
theorem Generated.position_unique (hg : Generated libs gs texts entries out)
    (hnodup : (out.defines.map Prod.fst).Nodup) {cname : CName} {i j : ℕ}
    (hi : (cname, i) ∈ out.defines) (hj : (cname, j) ∈ out.defines) : i = j := by
  rw [hg.defines, map_fst_definesFrom] at hnodup
  rw [hg.defines, mem_definesFrom_zero] at hi hj
  exact (List.getElem?_inj (List.getElem?_eq_some_iff.1 hi).1 hnodup).1 (hi.trans hj.symm)

/-- A text constant has the text that was registered first. -/
theorem Inv.text_in_table (h : Inv rs cs gs) (hg : Generated libs gs texts entries out)
    {k : Constant py} (hk : k ∈ cs) (ht : isText k.request = true) {v : String}
    (hv : valueIn rs k.request = some v) {settings : Settings} {table : List PyString}
    (htable : initialise libs out settings = some table) :
    ∃ i, (k.result.cname, i) ∈ out.defines ∧ table[i]? = some (.str v k.result.intern) :=
  hg.text ((h.mem_texts hg (e := ⟨k.result.intern, k.result.cname, v⟩)).2
    ⟨k, hk, ht, hv, rfl, rfl⟩) htable

/-- A bytes constant has its bytes. -/
theorem Inv.bytes_in_table (h : Inv rs cs gs) (hg : Generated libs gs texts entries out)
    {k : Constant py} (hk : k ∈ cs) (ht : isText k.request = false) {settings : Settings}
    {table : List PyString} (htable : initialise libs out settings = some table) :
    ∃ i, (k.result.cname, i) ∈ out.defines ∧ table[i]? = some (.bytes k.text.byteString) :=
  hg.bytes ((h.mem_entries hg (e := ⟨k.result.cname, k.text.byteString⟩)).2
    ⟨k, hk, ht, rfl, rfl⟩) htable

end

theorem mem_requests (hpython : cs.map Constant.request = requests rs)
    {r : Text py × Option Bool} : r ∈ requests rs ↔ ∃ k ∈ cs, k.request = r := by
  rw [← hpython, List.mem_map]

theorem encodeUTF8_length_pos {v : String} : 0 < (encodeUTF8 v).length ↔ v ≠ "" := by
  have hempty : (encodeUTF8 "").length = 0 := rfl
  constructor
  · rintro hpos rfl
    exact absurd hempty hpos.ne'
  · intro hne
    refine Nat.pos_of_ne_zero fun hzero => hne (encodeUTF8_injective ?_)
    rw [List.length_eq_zero_iff.1 hzero, List.length_eq_zero_iff.1 hempty]

/-- Where the table is that of the constants, they are representable. -/
theorem Inv.representable {libs : Libraries} (h : Inv rs cs gs)
    (hpython : cs.map Constant.request = requests rs) (hdistinct : ∀ k ∈ cs, ∀ k' ∈ cs,
      ¬(k.text.byteString = k'.text.byteString ∧ isText k.request = isText k'.request ∧
        k.result.intern = k'.result.intern) → k.result.cname ≠ k'.result.cname)
    {out : Output} (hout : generate libs gs = some out) (hvalid : out.Valid)
    (hinit : ∀ settings, ∃ table, initialise libs out settings = some table ∧
      ∀ k ∈ cs, ∃ i obj, (k.result.cname, i) ∈ out.defines ∧ k.object = some obj ∧
        table[i]? = some obj) : Representable rs := by
  have hdecodable := (generate_spec libs gs).2 (by rw [hout]; rfl)
  obtain ⟨texts, entries, out', hg⟩ := (generate_spec libs gs).1 hdecodable
  obtain rfl : out' = out := Option.some.inj (hg.generate.symm.trans hout)
  have hnodup : (out'.defines.map Prod.fst).Nodup := (List.nodup_append.1 hvalid.names).2.1
  have hvalues : ∀ k ∈ cs, isText k.request = true →
      ∃ v, k.text.value none = some v ∧ valueIn rs k.request = some v := by
    intro k hk ht
    obtain ⟨v, hv⟩ := h.decodable_iff.1 hdecodable k hk ht
    obtain ⟨table, htable, hobjects⟩ := hinit ⟨none, 0⟩
    obtain ⟨i, obj, hi, hobj, hin⟩ := hobjects k hk
    obtain ⟨j, hj, hin'⟩ := h.text_in_table hg hk ht hv htable
    obtain rfl := hg.position_unique hnodup hi hj
    rw [Constant.object, if_pos ht] at hobj
    obtain ⟨v', hv', rfl⟩ := Option.map_eq_some_iff.1 hobj
    rw [hin', Option.some.injEq, PyString.str.injEq] at hin
    exact ⟨v, hin.1 ▸ hv', hv⟩
  have htext : ∀ {k}, k ∈ cs → isText k.request = true → ∀ {v}, k.text.value none = some v →
      ⟨k.result.intern, k.result.cname, v⟩ ∈ texts := by
    intro k hk ht v hv
    obtain ⟨v', hv', hvalue⟩ := hvalues k hk ht
    obtain rfl := Option.some.inj (hv.symm.trans hv')
    exact (h.mem_texts hg).2 ⟨k, hk, ht, hvalue, rfl, rfl⟩
  have hbytes : ∀ {k}, k ∈ cs → isText k.request = false →
      ⟨k.result.cname, k.text.byteString⟩ ∈ entries := fun {k} hk ht =>
    (h.mem_entries hg).2 ⟨k, hk, ht, rfl, rfl⟩
  have hstr := hg.strIndex_valid.1 hvalid.strIndex
  have hbytesIndex := hg.bytesIndex_valid.1 hvalid.bytesIndex
  refine ⟨?_, fun r hr ht => ?_, fun r hr ht => ?_, fun r hr ht v hv => ?_, fun r hr ht => ?_,
    fun r hr ht => ?_, fun r hr r' hr' ht ht' hintern hkey e he hs => ?_⟩
  · -- The table has an entry.
    have hpos := hvalid.stringtab
    rw [hg.stringtabSize, Nat.add_pos_iff_pos_or_pos] at hpos
    obtain ⟨k, hk⟩ : ∃ k, k ∈ cs := by
      rcases hpos with hpos | hpos
      · obtain ⟨e, he⟩ := List.exists_mem_of_length_pos hpos
        obtain ⟨k, hk, -⟩ := (h.mem_entries hg).1 he
        exact ⟨k, hk⟩
      · obtain ⟨e, he⟩ := List.exists_mem_of_length_pos hpos
        obtain ⟨k, hk, -⟩ := (h.mem_texts hg).1 he
        exact ⟨k, hk⟩
    exact List.ne_nil_of_mem ((mem_requests hpython).2 ⟨k, hk, rfl⟩)
  · obtain ⟨k, hk, rfl⟩ := (mem_requests hpython).1 hr
    exact hvalues k hk ht
  · obtain ⟨k, hk, rfl⟩ := (mem_requests hpython).1 hr
    obtain ⟨v, hv, -⟩ := hvalues k hk ht
    obtain ⟨⟨e, he, hpos⟩, -⟩ := hstr _ (htext hk ht hv)
    obtain ⟨k', hk', ht', hvalue, -⟩ := (h.mem_texts hg).1 he
    refine ⟨k'.request, (mem_requests hpython).2 ⟨k', hk', rfl⟩, ht', fun hnil => ?_⟩
    obtain ⟨v', hv', hvalue'⟩ := hvalues k' hk' ht'
    obtain rfl := Option.some.inj (hvalue.symm.trans hvalue')
    exact encodeUTF8_length_pos.1 hpos (Option.some.inj (hv'.symm.trans hnil))
  · obtain ⟨k, hk, rfl⟩ := (mem_requests hpython).1 hr
    exact (hstr _ (htext hk ht hv)).2
  · obtain ⟨k, hk, rfl⟩ := (mem_requests hpython).1 hr
    obtain ⟨⟨e, he, hpos⟩, -⟩ := hbytesIndex _ (hbytes hk ht)
    obtain ⟨k', hk', ht', hvalue, -⟩ := (h.mem_entries hg).1 he
    refine ⟨k'.request, (mem_requests hpython).2 ⟨k', hk', rfl⟩, ht', ?_⟩
    exact hvalue ▸ List.ne_nil_of_length_pos hpos
  · obtain ⟨k, hk, rfl⟩ := (mem_requests hpython).1 hr
    exact (hbytesIndex _ (hbytes hk ht)).2
  · -- A clash of names: the constants differ in their bytes.
    obtain ⟨k, hk, rfl⟩ := (mem_requests hpython).1 hr
    obtain ⟨k', hk', rfl⟩ := (mem_requests hpython).1 hr'
    obtain ⟨c, hc⟩ := h.mem hk
    obtain ⟨c', hc'⟩ := h.mem hk'
    have hclash : Clash k.key (suffixIn rs k.text.byteString) k'.key
        (suffixIn rs k'.text.byteString) := ⟨hkey, e, he, hs⟩
    refine hdistinct k hk k' hk' (fun heq => hclash.ne (by rw [heq.1])) ?_
    rw [hc.cname, hc'.cname, pyStringCname_inj]
    exact ⟨hc.intern.trans (hintern.trans hc'.intern.symm), ht.trans ht'.symm, hclash.nameRest_eq⟩

/-- Where they are representable, the declarations are valid. -/
theorem Inv.valid {libs : Libraries} (h : Inv rs cs gs)
    (hpython : cs.map Constant.request = requests rs) (hr : Representable rs)
    (hinj : ∀ k ∈ cs, ∀ k' ∈ cs, k.result.cname = k'.result.cname →
      k.text.byteString = k'.text.byteString ∧ k.key = k'.key)
    {texts : List TextEntry} {entries : List BytesEntry} {out : Output}
    (hg : Generated libs gs texts entries out) : out.Valid := by
  have hvalues : ∀ {k}, k ∈ cs → isText k.request = true → ∀ {v},
      valueIn rs k.request = some v → k.text.value none = some v := by
    intro k hk ht v hv
    obtain ⟨v', hv', hvalue⟩ := hr.values _ ((mem_requests hpython).2 ⟨k, hk, rfl⟩) ht
    obtain rfl := Option.some.inj (hv.symm.trans hvalue)
    exact hv'
  have hperm := (List.Perm.refl (out.cStrings.map Prod.fst)).append hg.mem_names
  rw [hg.cStrings] at hperm
  refine ⟨hg.strIndex_valid.2 fun e he => ?_, hg.bytesIndex_valid.2 fun e he => ?_, ?_,
    fun cname hcname => ?_, ?_⟩
  · obtain ⟨k, hk, ht, hv, -⟩ := (h.mem_texts hg).1 he
    have hmem := (mem_requests hpython).2 ⟨k, hk, rfl⟩
    refine ⟨?_, hr.textLengths _ hmem ht _ (hvalues hk ht hv)⟩
    obtain ⟨r', hmem', ht', hne⟩ := hr.texts _ hmem ht
    obtain ⟨k', hk', rfl⟩ := (mem_requests hpython).1 hmem'
    obtain ⟨v', hv', hvalue'⟩ := hr.values _ hmem' ht'
    refine ⟨⟨k'.result.intern, k'.result.cname, v'⟩,
      (h.mem_texts hg).2 ⟨k', hk', ht', hvalue', rfl, rfl⟩, encodeUTF8_length_pos.2 ?_⟩
    rintro rfl
    exact hne hv'
  · obtain ⟨k, hk, ht, hv, -⟩ := (h.mem_entries hg).1 he
    have hmem := (mem_requests hpython).2 ⟨k, hk, rfl⟩
    refine ⟨?_, hv ▸ hr.bytesLengths _ hmem ht⟩
    obtain ⟨r', hmem', ht', hne⟩ := hr.bytes _ hmem ht
    obtain ⟨k', hk', rfl⟩ := (mem_requests hpython).1 hmem'
    exact ⟨⟨k'.result.cname, k'.text.byteString⟩,
      (h.mem_entries hg).2 ⟨k', hk', ht', rfl, rfl⟩, List.length_pos_iff.2 hne⟩
  · obtain ⟨r, hmem⟩ := List.exists_mem_of_ne_nil _ hr.nonempty
    obtain ⟨k, hk, rfl⟩ := (mem_requests hpython).1 hmem
    rw [hg.stringtabSize, Nat.add_pos_iff_pos_or_pos]
    cases ht : isText k.request with
    | false =>
      exact .inl (List.length_pos_of_mem ((h.mem_entries hg
        (e := ⟨k.result.cname, k.text.byteString⟩)).2 ⟨k, hk, ht, rfl, rfl⟩))
    | true =>
      obtain ⟨v, -, hv⟩ := hr.values _ hmem ht
      exact .inr (List.length_pos_of_mem ((h.mem_texts hg
        (e := ⟨k.result.intern, k.result.cname, v⟩)).2 ⟨k, hk, ht, hv, rfl, rfl⟩))
  · rw [hg.cStrings] at hcname
    exact h.isIdentifier cname (hperm.mem_iff.1 hcname)
  · rw [hg.cStrings, hperm.nodup_iff]
    exact List.nodup_append.2 ⟨h.nodup_cStrings, h.nodup_names hinj,
      fun a ha b hb hab => h.disjoint_names ha (hab ▸ hb)⟩

/-- And the table is that of the constants. -/
theorem Inv.correct (libs : Libraries) (h : Inv rs cs gs)
    (hpython : cs.map Constant.request = requests rs)
    (hregister : registerAll .empty rs = some (cs, gs)) (hr : Representable rs) :
    Correct libs rs := by
  have hmem : ∀ {k}, k ∈ cs → k.request ∈ requests rs := fun {k} hk =>
    (mem_requests hpython).2 ⟨k, hk, rfl⟩
  have hinj : ∀ k ∈ cs, ∀ k' ∈ cs, k.result.cname = k'.result.cname →
      k.text.byteString = k'.text.byteString ∧ k.key = k'.key := fun k hk k' hk' hcname =>
    h.cname_inj (fun k₁ h₁ k₂ h₂ => hr.names _ (hmem h₁) _ (hmem h₂)) hk hk' hcname
  have hdecodable : Decodable (slots (sortedConsts gs)) := h.decodable_iff.2 fun k hk ht => by
    obtain ⟨v, -, hv⟩ := hr.values _ (hmem hk) ht
    exact ⟨v, hv⟩
  obtain ⟨texts, entries, out, hg⟩ := (generate_spec libs gs).1 hdecodable
  refine ⟨cs, gs, hregister, fun k hk k' hk' hne hcname => hne ?_, out, hg.generate,
    h.valid hpython hr hinj hg, fun settings => ⟨_, hg.initialise settings, fun k hk => ?_⟩⟩
  · obtain ⟨hbytes, hkey⟩ := hinj k hk k' hk' hcname
    exact ⟨hbytes, congrArg Key.isUnicode hkey, congrArg Key.intern hkey⟩
  · rw [Constant.object]
    cases ht : isText k.request with
    | true =>
      obtain ⟨v, hv, hvalue⟩ := hr.values _ (hmem hk) ht
      obtain ⟨i, hi, hin⟩ := h.text_in_table hg hk ht hvalue (hg.initialise settings)
      have hv' : k.text.value none = some v := hv
      exact ⟨i, _, hi, by rw [if_pos rfl, hv', Option.map_some], hin⟩
    | false =>
      obtain ⟨i, hi, hin⟩ := h.bytes_in_table hg hk ht (hg.initialise settings)
      exact ⟨i, _, hi, by rw [if_neg Bool.false_ne_true], hin⟩

end

theorem representable_of_correct {libs : Libraries} {rs : List (Registration py)}
    (h : Correct libs rs) : Representable rs := by
  obtain ⟨cs, gs, hregister, hinv⟩ := registerAll_spec rs
  obtain ⟨cs', gs', hregister', hdistinct, out, hout, hvalid, hinit⟩ := h
  obtain ⟨rfl, rfl⟩ := Prod.mk.inj (Option.some.inj (hregister.symm.trans hregister'))
  exact hinv.representable (registerAll_python hregister) hdistinct hout hvalid hinit

/-- The table is right for the representable registrations, and for no others. -/
theorem correct_iff_representable (libs : Libraries) (rs : List (Registration py)) :
    Correct libs rs ↔ Representable rs := by
  refine ⟨representable_of_correct, fun hr => ?_⟩
  obtain ⟨cs, gs, hregister, hinv⟩ := registerAll_spec rs
  exact hinv.correct libs (registerAll_python hregister) hregister hr

/-! ## A table of empty bytes -/

/-- A Python with one encoding. -/
def utf8Python : Python := ⟨isAsciiWord, fun _ s => some (encodeUTF8 s), fun _ b => decodeUTF8 b⟩

def utf8 : Encoding := ⟨['u', 't', 'f', '8'], 'u', List.mem_cons_self, rfl⟩

/-- No compression. -/
def storeOnly : Libraries := ⟨⟨id, some, fun _ => rfl⟩, none, none⟩

/-- The constants of `x = b''`. -/
def emptyBytes : List (Registration utf8Python) :=
  [.pyStringConst (.unicode "x") (some true), .pyStringConst (.bytes [] utf8) none]

/-- The bit-field for the lengths of bytes has no width, if the only bytes are empty. -/
theorem emptyBytes_not_correct :
    ¬∀ (py : Python) (libs : Libraries) (rs : List (Registration py)), Correct libs rs := by
  intro h
  have hr := representable_of_correct (h utf8Python storeOnly emptyBytes)
  obtain ⟨r, hr, ht, hne⟩ := hr.bytes (.bytes [] utf8, none) (by simp [requests, emptyBytes,
    Registration.python]) rfl
  have hrequests : requests emptyBytes =
      [(.unicode "x", some true), (.bytes [] utf8, none)] := rfl
  rw [hrequests] at hr
  rcases List.mem_cons.1 hr with rfl | hr
  · cases ht
  · obtain rfl := List.mem_singleton.1 hr
    exact hne rfl

end AHPy.StringTable
