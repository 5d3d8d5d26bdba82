import AHPy.Lib.UniqueNames
import AHPy.StringTable.Generation

/-!
# Names of string constants

* `uniqueConstCname_spec`: a suffix is not in use yet;
* `pyStringCname_inj`, `nameRest_inj`: two constants have one name only if a suffix repeats
  the encoding and the suffix of the other;
* `isIdentifier_pyStringCname`: names are identifiers.
-/

namespace AHPy.StringTable

/-! ## Unique suffixes -/

theorem numbered_injective {value : CName} {m n : ℕ} (h : numbered value m = numbered value n) :
    m = n := by
  have hdigits : Nat.toDigits 10 m = Nat.toDigits 10 n := by
    simpa [numbered] using List.append_cancel_left h
  rw [← @Nat.ofDigitChars_ten_toDigits m, hdigits, Nat.ofDigitChars_ten_toDigits]

theorem numbered_ne (value : CName) (n : ℕ) : numbered value n ≠ value := by
  intro h
  have hlength := congrArg List.length h
  simp [numbered] at hlength

theorem uniqueLoop_eq (value : CName) (fuel : ℕ) (used : OrderedDict CName ℕ) (cname : CName) :
    uniqueLoop value fuel used cname = uniqueNameLoop (numbered value) value fuel used cname := by
  induction fuel generalizing used cname with
  | zero => rfl
  | succ fuel ih => simp only [uniqueLoop, uniqueNameLoop, ih]

/-- A suffix that is not in use is found. -/
theorem uniqueConstCname_spec (used : OrderedDict CName ℕ) (value : CName) :
    ∃ cname used', uniqueConstCname used value = some (cname, used') ∧ cname ∉ used ∧
      (∀ k, k ∈ used' ↔ k = cname ∨ k ∈ used) ∧
      (cname = value ∨ ∃ n, cname = numbered value n) := by
  rw [uniqueConstCname, uniqueLoop_eq]
  exact uniqueName_spec (fun _ _ => numbered_injective) (numbered_ne value) used

/-! ## Characters -/

theorem isAsciiWord_of_isAlphanum {c : Char} (h : c.isAlphanum = true) : isAsciiWord c = true := by
  rw [isAsciiWord, h, Bool.true_or]

theorem ne_underscore_of_isAlphanum {c : Char} (h : c.isAlphanum = true) : c ≠ '_' := by
  rintro rfl
  simp [Char.isAlphanum, Char.isAlpha, Char.isUpper, Char.isLower, Char.isDigit] at h

theorem isAsciiWord_replaceIdentifier {inRun : Bool} {s : List Char} :
    ∀ c ∈ replaceIdentifier inRun s, isAsciiWord c = true := by
  induction s generalizing inRun with
  | nil => simp [replaceIdentifier]
  | cons d s ih =>
    intro c hc
    rw [replaceIdentifier] at hc
    split_ifs at hc with hd hrun
    · rcases List.mem_cons.1 hc with rfl | hc
      · exact hd
      · exact ih c hc
    · exact ih c hc
    · rcases List.mem_cons.1 hc with rfl | hc
      · rfl
      · exact ih c hc

theorem mem_of_mem_strip {s : List Char} {c : Char} (h : c ∈ strip s) : c ∈ s := by
  rw [strip, List.mem_reverse] at h
  exact List.dropWhile_subset _ (List.mem_reverse.1 (List.dropWhile_subset _ h))

/-- Suffixes consist of letters, digits and underscores. -/
theorem isAsciiWord_suffixValue (b : Bytes) : ∀ c ∈ suffixValue b, isAsciiWord c = true :=
  fun c hc => isAsciiWord_replaceIdentifier c (List.mem_of_mem_take (mem_of_mem_strip hc))

theorem isAsciiWord_numbered {value : CName} (h : ∀ c ∈ value, isAsciiWord c = true) (n : ℕ) :
    ∀ c ∈ numbered value n, isAsciiWord c = true := by
  intro c hc
  rw [numbered, List.mem_append, List.mem_cons] at hc
  rcases hc with hc | rfl | hc
  · exact h c hc
  · rfl
  · exact isAsciiWord_of_isAlphanum (by
      simp [Char.isAlphanum, Nat.isDigit_of_mem_toDigits (by omega) (by omega) hc])

/-! ## Encodings -/

theorem isAlphanum_toLower {c : Char} (h : c.isAlphanum = true) : c.toLower.isAlphanum = true := by
  unfold Char.toLower
  split_ifs with hu
  · simp [Char.isAlphanum, Char.isAlpha, Char.isUpper, Char.isLower, Char.isDigit] at h ⊢
    grind
  · exact h

theorem findAlphanums_lower_ne_nil (e : Encoding) : findAlphanums e.lower ≠ [] := by
  obtain ⟨c, hc, halphanum⟩ := e.hasAlphanum
  exact List.ne_nil_of_mem (List.mem_filter.2 ⟨List.mem_map_of_mem hc,
    isAlphanum_toLower halphanum⟩)

/-- The keys of registered constants: texts have no encoding key, and encoding keys are letters
    and digits. -/
structure Key.Ok (key : Key) : Prop where
  unicode : key.isUnicode = true → key.encodingKey = none
  alphanum : ∀ e ∈ key.encodingKey, e ≠ [] ∧ ∀ c ∈ e, c.isAlphanum = true

theorem keyOk_kindOf (intern : Bool) (encoding : Option Encoding) (identifier : Option Bool) :
    Key.Ok ⟨intern, (kindOf encoding identifier).1, (kindOf encoding identifier).2.2⟩ := by
  cases encoding with
  | none => exact ⟨fun _ => rfl, nofun⟩
  | some e =>
    rw [kindOf]
    split_ifs with hid hplain
    · exact ⟨fun _ => rfl, nofun⟩
    · exact ⟨nofun, nofun⟩
    · refine ⟨nofun, fun e' he' => ?_⟩
      obtain rfl := Option.some.inj he'
      exact ⟨findAlphanums_lower_ne_nil e, fun c hc => (List.mem_filter.1 hc).2⟩

/-! ## Names of constants -/

/-- A name after its prefix and kind. -/
def nameRest (encodingKey : Option (List Char)) (suffix : CName) : CName :=
  encodingKey.elim suffix fun e => e ++ '_' :: suffix

theorem pyStringCname_eq (key : Key) (suffix : CName) :
    pyStringCname key suffix = (if key.intern then internedPrefix else pyConstPrefix) ++
      (if key.isUnicode then 'u' else 'b') :: '_' :: nameRest key.encodingKey suffix := by
  rcases key with ⟨intern, isUnicode, _ | e⟩ <;> cases isUnicode <;>
    simp [pyStringCname, nameRest]

/-- The prefix of a name tells its kind and whether it is interned. -/
theorem pyStringCname_inj {key key' : Key} {suffix suffix' : CName} :
    pyStringCname key suffix = pyStringCname key' suffix' ↔ key.intern = key'.intern ∧
      key.isUnicode = key'.isUnicode ∧
        nameRest key.encodingKey suffix = nameRest key'.encodingKey suffix' := by
  rw [pyStringCname_eq, pyStringCname_eq]
  rcases key with ⟨intern, isUnicode, e⟩
  rcases key' with ⟨intern', isUnicode', e'⟩
  cases intern <;> cases intern' <;> cases isUnicode <;> cases isUnicode' <;>
    simp [internedPrefix, pyConstPrefix]

/-- A suffix repeats an encoding key and another suffix. -/
def Clash (key : Key) (suffix : CName) (key' : Key) (suffix' : CName) : Prop :=
  key.encodingKey = none ∧ ∃ e, key'.encodingKey = some e ∧ suffix = e ++ '_' :: suffix'

theorem append_underscore_inj {e e' s s' : List Char} (he : '_' ∉ e) (he' : '_' ∉ e')
    (h : e ++ '_' :: s = e' ++ '_' :: s') : e = e' ∧ s = s' := by
  induction e generalizing e' with
  | nil =>
    cases e' with
    | nil => simpa using h
    | cons c e' =>
      have hc : '_' = c := (List.cons.inj h).1
      exact absurd (hc ▸ List.mem_cons_self) he'
  | cons c e ih =>
    cases e' with
    | nil =>
      have hc : c = '_' := (List.cons.inj h).1
      exact absurd (hc ▸ List.mem_cons_self) he
    | cons c' e' =>
      obtain ⟨rfl, htail⟩ := List.cons.inj h
      obtain ⟨rfl, rfl⟩ := ih (fun h => he (List.mem_cons_of_mem c h))
        (fun h => he' (List.mem_cons_of_mem c h)) htail
      exact ⟨rfl, rfl⟩

/-- But for a clash, the rest of a name tells the encoding key and the suffix. -/
theorem nameRest_inj {key key' : Key} {suffix suffix' : CName} (hk : key.Ok) (hk' : key'.Ok)
    (h : nameRest key.encodingKey suffix = nameRest key'.encodingKey suffix') :
    (key.encodingKey = key'.encodingKey ∧ suffix = suffix') ∨ Clash key suffix key' suffix' ∨
      Clash key' suffix' key suffix := by
  have halphanum : ∀ {k : Key}, k.Ok → ∀ e ∈ k.encodingKey, '_' ∉ e := fun hk e he hu =>
    ne_underscore_of_isAlphanum ((hk.alphanum e he).2 '_' hu) rfl
  cases he : key.encodingKey with
  | none =>
    cases he' : key'.encodingKey with
    | none => exact .inl ⟨rfl, by simpa [he, he', nameRest] using h⟩
    | some e' => exact .inr (.inl ⟨he, e', he', by simpa [he, he', nameRest] using h⟩)
  | some e =>
    cases he' : key'.encodingKey with
    | none => exact .inr (.inr ⟨he', e, he, by simpa [he, he', nameRest] using h.symm⟩)
    | some e' =>
      rw [he, he'] at h
      obtain ⟨rfl, rfl⟩ := append_underscore_inj (halphanum hk e he) (halphanum hk' e' he') h
      exact .inl ⟨rfl, rfl⟩

theorem Clash.ne {key key' : Key} {suffix suffix' : CName} (h : Clash key suffix key' suffix') :
    suffix ≠ suffix' := by
  rintro rfl
  obtain ⟨-, e, -, h⟩ := h
  have hlength := congrArg List.length h
  simp at hlength
  omega

theorem Clash.nameRest_eq {key key' : Key} {suffix suffix' : CName}
    (h : Clash key suffix key' suffix') :
    nameRest key.encodingKey suffix = nameRest key'.encodingKey suffix' := by
  obtain ⟨he, e, he', hs⟩ := h
  rw [he, he']
  exact hs

/-- A name that starts as an identifier does. -/
theorem isIdentifier_append {start : CName} (hstart : ∀ c ∈ start, isAsciiWord c = true)
    (hhead : ∃ c ∈ start.head?, c.isDigit = false) {rest : CName}
    (hrest : ∀ c ∈ rest, isAsciiWord c = true) : IsIdentifier (start ++ rest) := by
  refine ⟨fun c hc => (List.mem_append.1 hc).elim (hstart c) (hrest c), ?_⟩
  obtain ⟨c, hc, hdigit⟩ := hhead
  refine ⟨c, ?_, hdigit⟩
  rw [Option.mem_def] at hc ⊢
  rw [List.head?_append, hc, Option.some_or]

theorem isIdentifier_constCname {suffix : CName} (h : ∀ c ∈ suffix, isAsciiWord c = true) :
    IsIdentifier (constPrefix ++ suffix) :=
  isIdentifier_append (List.all_eq_true.1 rfl) ⟨'_', rfl, rfl⟩ h

theorem isIdentifier_pyStringCname {key : Key} (hk : key.Ok) {suffix : CName}
    (h : ∀ c ∈ suffix, isAsciiWord c = true) : IsIdentifier (pyStringCname key suffix) := by
  rw [pyStringCname_eq]
  have hrest : ∀ c ∈ nameRest key.encodingKey suffix, isAsciiWord c = true := by
    cases he : key.encodingKey with
    | none => simpa [nameRest] using h
    | some e =>
      intro c hc
      rw [nameRest, Option.elim_some, List.mem_append, List.mem_cons] at hc
      rcases hc with hc | rfl | hc
      · exact isAsciiWord_of_isAlphanum ((hk.alphanum e he).2 c hc)
      · rfl
      · exact h c hc
  refine isIdentifier_append ?_ ?_ fun c hc => ?_
  · cases key.intern <;> exact List.all_eq_true.1 rfl
  · cases key.intern <;> exact ⟨'_', rfl, rfl⟩
  · rcases List.mem_cons.1 hc with rfl | hc
    · cases key.isUnicode <;> rfl
    · rcases List.mem_cons.1 hc with rfl | hc
      · rfl
      · exact hrest c hc

/-- The names of C strings are not those of Python strings. -/
theorem constCname_ne_pyStringCname (suffix : CName) (key : Key) (suffix' : CName) :
    constPrefix ++ suffix ≠ pyStringCname key suffix' := by
  rw [pyStringCname_eq]
  cases key.intern <;> simp [constPrefix, internedPrefix, pyConstPrefix]

/-!
## Registrations of string constants

What the registrations of a module leave in `GlobalState`, whatever their order.

* `Inv`: the invariant: one `StringConst` for each registered byte string, with the text that
  was registered first, a suffix of its own, and the registered kinds;
* `registerAll_spec`: registrations succeed, and keep it.
-/

variable {py : Python}

/-- The first text that was registered with these bytes. -/
def firstText (rs : List (Registration py)) (b : Bytes) : Option (Text py) :=
  (rs.map Registration.text).find? fun t => t.byteString = b

/-- The suffixes of byte strings that are named in this order, and the names in use. -/
def suffixes (bs : List Bytes) : OrderedDict CName ℕ × OrderedDict Bytes CName :=
  bs.foldl (fun s b =>
    if b ∈ s.2 then s
    else (uniqueConstCname s.1 (suffixValue b)).elim s fun (suffix, used) =>
      (used, s.2.set b suffix)) (.empty, .empty)

/-- The suffixes of the registered byte strings. -/
def namedSuffixes (rs : List (Registration py)) : OrderedDict CName ℕ × OrderedDict Bytes CName :=
  suffixes (rs.map fun r => r.text.byteString)

/-- The text and the identifier flag of a registered Python string. -/
def Registration.python : Registration py → Option (Text py × Option Bool)
  | .stringConst _ => none
  | .pyStringConst text identifier => some (text, identifier)

/-- The key of a constant. -/
def Constant.key (k : Constant py) : Key :=
  ⟨k.result.intern, (kindOf k.text.encoding k.identifier).1,
    (kindOf k.text.encoding k.identifier).2.2⟩

/-- A constant in the index. -/
structure StringConst.Ok (used : OrderedDict CName ℕ) (b : Bytes) (c : StringConst py) :
    Prop where
  byteString : c.byteString = b
  text : c.text.byteString = b
  cname : c.cname = constPrefix ++ c.suffix
  used : c.suffix ∈ used
  chars : ∀ ch ∈ c.suffix, isAsciiWord ch = true
  pyStrings : ∀ key p, c.pyStrings.get? key = some p → key.Ok ∧
    p.cname = pyStringCname key c.suffix ∧ p.intern = key.intern ∧
      p.isUnicode = key.isUnicode ∧ (key.isUnicode = true → p.encoding = none)

/-- The constants that are registered, and the strings in the index. -/
structure Inv (done : List (Registration py)) (cs : List (Constant py)) (gs : GlobalState py) :
    Prop where
  ok : ∀ b c, gs.stringConstIndex.get? b = some c → c.Ok gs.constCnamesUsed b
  suffix : ∀ b b' c c', gs.stringConstIndex.get? b = some c →
    gs.stringConstIndex.get? b' = some c' → c.suffix = c'.suffix → b = b'
  used : gs.constCnamesUsed = (namedSuffixes done).1
  named : ∀ b, (gs.stringConstIndex.get? b).map StringConst.suffix = (namedSuffixes done).2.get? b
  first : ∀ b, firstText done b = (gs.stringConstIndex.get? b).map StringConst.text
  constants : ∀ k ∈ cs, ∃ c, gs.stringConstIndex.get? k.text.byteString = some c ∧
    c.pyStrings.get? k.key = some k.result ∧ k.result.intern = internOf c.text k.identifier
  registered : ∀ b c key p, gs.stringConstIndex.get? b = some c →
    c.pyStrings.get? key = some p → ∃ k ∈ cs, k.text.byteString = b ∧ k.key = key ∧ k.result = p

theorem inv_empty : Inv ([] : List (Registration py)) [] .empty where
  ok _ _ h := by simp [GlobalState.empty] at h
  suffix _ _ _ _ h := by simp [GlobalState.empty] at h
  used := rfl
  named b := rfl
  first b := rfl
  constants _ h := by simp at h
  registered _ _ _ _ h := by simp [GlobalState.empty] at h

/-! ## One registration -/

theorem firstText_concat (done : List (Registration py)) (r : Registration py) (b : Bytes) :
    firstText (done ++ [r]) b =
      (firstText done b).or (if r.text.byteString = b then some r.text else none) := by
  rw [firstText, List.map_append, List.find?_append]
  congr 1
  by_cases h : r.text.byteString = b <;> simp [h]

/-- What `get_string_const` returns. -/
theorem getStringConst_spec (gs : GlobalState py) (text : Text py) (cUsed : Bool) :
    ∃ c gs', getStringConst gs text cUsed = some (c, gs') ∧
      gs'.stringConstIndex.get? text.byteString = some c ∧
      (∀ b, b ≠ text.byteString → gs'.stringConstIndex.get? b = gs.stringConstIndex.get? b) ∧
      ((∃ c₀, gs.stringConstIndex.get? text.byteString = some c₀ ∧
          c = { c₀ with cUsed := c₀.cUsed || cUsed } ∧
            gs'.constCnamesUsed = gs.constCnamesUsed) ∨
        (gs.stringConstIndex.get? text.byteString = none ∧ ∃ suffix,
          c = ⟨constPrefix ++ suffix, text, text.byteString, .empty, cUsed⟩ ∧
            uniqueConstCname gs.constCnamesUsed (suffixValue text.byteString) =
              some (suffix, gs'.constCnamesUsed))) := by
  cases h : gs.stringConstIndex.get? text.byteString with
  | some c₀ =>
    refine ⟨{ c₀ with cUsed := c₀.cUsed || cUsed }, { gs with
      stringConstIndex := gs.stringConstIndex.set text.byteString
        { c₀ with cUsed := c₀.cUsed || cUsed } },
      by simp only [getStringConst, h, Option.map_some], ?_, fun b hb => ?_,
      .inl ⟨c₀, rfl, rfl, rfl⟩⟩
    · exact OrderedDict.get?_set_self _ _ _
    · exact OrderedDict.get?_set_of_ne _ hb _
  | none =>
    obtain ⟨suffix, used, hunique, -⟩ :=
      uniqueConstCname_spec gs.constCnamesUsed (suffixValue text.byteString)
    refine ⟨_, _, by simp only [getStringConst, h, newStringConst, hunique, Option.map_some]; rfl,
      ?_, fun b hb => ?_, .inr ⟨rfl, suffix, by simp, hunique⟩⟩
    · exact OrderedDict.get?_set_self _ _ _
    · rw [OrderedDict.get?_set_of_ne _ hb, OrderedDict.get?_set_of_ne _ hb]

/-- A suffix is new, and stays in use. -/
theorem uniqueConstCname_fresh {used used' : OrderedDict CName ℕ} {b : Bytes} {suffix : CName}
    (h : uniqueConstCname used (suffixValue b) = some (suffix, used')) :
    suffix ∉ used ∧ suffix ∈ used' ∧ (∀ s, s ∈ used → s ∈ used') ∧
      ∀ ch ∈ suffix, isAsciiWord ch = true := by
  obtain ⟨suffix', used'', hunique, hfresh, hused, hform⟩ :=
    uniqueConstCname_spec used (suffixValue b)
  obtain ⟨rfl, rfl⟩ := Prod.mk.inj (Option.some.inj (hunique.symm.trans h))
  refine ⟨hfresh, (hused suffix').2 (.inl rfl), fun s hs => (hused s).2 (.inr hs), ?_⟩
  rcases hform with rfl | ⟨n, rfl⟩
  · exact isAsciiWord_suffixValue b
  · exact isAsciiWord_numbered (isAsciiWord_suffixValue b) n

theorem namedSuffixes_concat (done : List (Registration py)) (r : Registration py) :
    namedSuffixes (done ++ [r]) =
      if r.text.byteString ∈ (namedSuffixes done).2 then namedSuffixes done
      else (uniqueConstCname (namedSuffixes done).1 (suffixValue r.text.byteString)).elim
        (namedSuffixes done) fun (suffix, used) =>
          (used, (namedSuffixes done).2.set r.text.byteString suffix) := by
  rw [namedSuffixes, suffixes, List.map_append, List.map_singleton, List.foldl_append]
  rfl

theorem suffix_mk (suffix : CName) (text : Text py) (b : Bytes)
    (pyStrings : OrderedDict Key PyStringConst) (cUsed : Bool) :
    (StringConst.mk (constPrefix ++ suffix) text b pyStrings cUsed).suffix = suffix :=
  List.drop_left

/-- A change of one constant of the index. -/
structure Update (done : List (Registration py)) (cs : List (Constant py)) (gs : GlobalState py)
    (b : Bytes) (c : StringConst py) (done' : List (Registration py)) (cs' : List (Constant py))
    (gs' : GlobalState py) : Prop where
  self : gs'.stringConstIndex.get? b = some c
  other : ∀ b', b' ≠ b → gs'.stringConstIndex.get? b' = gs.stringConstIndex.get? b'
  mono : ∀ s, s ∈ gs.constCnamesUsed → s ∈ gs'.constCnamesUsed
  used : gs'.constCnamesUsed = (namedSuffixes done').1
  named : (namedSuffixes done').2.get? b = some c.suffix
  namedOther : ∀ b', b' ≠ b → (namedSuffixes done').2.get? b' = (namedSuffixes done).2.get? b'
  ok : c.Ok gs'.constCnamesUsed b
  suffix : ∀ b' c', b' ≠ b → gs.stringConstIndex.get? b' = some c' → c'.suffix ≠ c.suffix
  firstSelf : firstText done' b = some c.text
  firstOther : ∀ b', b' ≠ b → firstText done' b' = firstText done b'
  subset : ∀ k ∈ cs, k ∈ cs'
  constants : ∀ k ∈ cs', (k ∈ cs ∧ k.text.byteString ≠ b) ∨
    (k.text.byteString = b ∧ c.pyStrings.get? k.key = some k.result ∧
      k.result.intern = internOf c.text k.identifier)
  registered : ∀ key p, c.pyStrings.get? key = some p →
    ∃ k ∈ cs', k.text.byteString = b ∧ k.key = key ∧ k.result = p

section

variable {done done' : List (Registration py)} {cs cs' : List (Constant py)}
  {gs gs' : GlobalState py} {b : Bytes} {c : StringConst py}

theorem Update.inv (u : Update done cs gs b c done' cs' gs') (h : Inv done cs gs) :
    Inv done' cs' gs' where
  ok b' c' hc' := by
    by_cases hb : b' = b
    · subst hb
      obtain rfl : c = c' := Option.some.inj (u.self ▸ hc')
      exact u.ok
    · have hok := h.ok b' c' (u.other b' hb ▸ hc')
      exact ⟨hok.byteString, hok.text, hok.cname, u.mono _ hok.used, hok.chars, hok.pyStrings⟩
  suffix b₁ b₂ c₁ c₂ h₁ h₂ hs := by
    by_cases hb₁ : b₁ = b <;> by_cases hb₂ : b₂ = b
    · rw [hb₁, hb₂]
    · obtain rfl : c = c₁ := Option.some.inj (u.self ▸ hb₁ ▸ h₁)
      exact absurd hs.symm (u.suffix b₂ c₂ hb₂ (u.other b₂ hb₂ ▸ h₂))
    · obtain rfl : c = c₂ := Option.some.inj (u.self ▸ hb₂ ▸ h₂)
      exact absurd hs (u.suffix b₁ c₁ hb₁ (u.other b₁ hb₁ ▸ h₁))
    · exact h.suffix b₁ b₂ c₁ c₂ (u.other b₁ hb₁ ▸ h₁) (u.other b₂ hb₂ ▸ h₂) hs
  used := u.used
  named b' := by
    by_cases hb : b' = b
    · rw [hb, u.named, u.self, Option.map_some]
    · rw [u.namedOther b' hb, u.other b' hb, h.named]
  first b' := by
    by_cases hb : b' = b
    · rw [hb, u.firstSelf, u.self, Option.map_some]
    · rw [u.firstOther b' hb, u.other b' hb, h.first]
  constants k hk := by
    rcases u.constants k hk with ⟨hk, hb⟩ | ⟨hb, hp⟩
    · obtain ⟨c', hc', hp⟩ := h.constants k hk
      exact ⟨c', by rw [u.other _ hb, hc'], hp⟩
    · exact ⟨c, by rw [hb, u.self], hp⟩
  registered b' c' key p hc' hp := by
    by_cases hb : b' = b
    · subst hb
      obtain rfl : c = c' := Option.some.inj (u.self ▸ hc')
      exact u.registered key p hp
    · obtain ⟨k, hk, hrest⟩ := h.registered b' c' key p (u.other b' hb ▸ hc') hp
      exact ⟨k, u.subset k hk, hrest⟩

end

/-- The registration of the bytes of a constant. -/
theorem inv_getStringConst {done : List (Registration py)} {cs : List (Constant py)}
    {gs : GlobalState py} (h : Inv done cs gs) (r : Registration py) (cUsed : Bool) :
    ∃ c gs', getStringConst gs r.text cUsed = some (c, gs') ∧ Inv (done ++ [r]) cs gs' ∧
      gs'.stringConstIndex.get? r.text.byteString = some c := by
  obtain ⟨c, gs', hget, hself, hother, hcases⟩ := getStringConst_spec gs r.text cUsed
  refine ⟨c, gs', hget, Update.inv (b := r.text.byteString) (c := c) ?_ h, hself⟩
  have hfirst : ∀ b', b' ≠ r.text.byteString → firstText (done ++ [r]) b' = firstText done b' := by
    intro b' hb
    rw [firstText_concat, if_neg (Ne.symm hb), Option.or_none]
  rcases hcases with ⟨c₀, hc₀, rfl, hused⟩ | ⟨hnone, suffix, rfl, hunique⟩
  · -- The bytes are known.
    have hok := h.ok _ c₀ hc₀
    have hget? : (namedSuffixes done).2.get? r.text.byteString = some c₀.suffix := by
      rw [← h.named, hc₀, Option.map_some]
    have hnamed : namedSuffixes (done ++ [r]) = namedSuffixes done := by
      rw [namedSuffixes_concat, if_pos (OrderedDict.mem_of_get? hget?)]
    exact {
      self := hself
      other := hother
      mono := fun s hs => hused ▸ hs
      used := by rw [hused, h.used, hnamed]
      named := hnamed ▸ hget?
      namedOther := fun b' _ => by rw [hnamed]
      ok := ⟨hok.byteString, hok.text, hok.cname, hused ▸ hok.used, hok.chars, hok.pyStrings⟩
      suffix := fun b' c' hb hc' hs => hb (h.suffix _ _ c' c₀ hc' hc₀ hs)
      firstSelf := by rw [firstText_concat, h.first, hc₀, Option.map_some, Option.some_or]
      firstOther := hfirst
      subset := fun _ => id
      constants := fun k hk => by
        by_cases hb : k.text.byteString = r.text.byteString
        · obtain ⟨c', hc', hp⟩ := h.constants k hk
          obtain rfl : c₀ = c' := Option.some.inj (hc₀ ▸ hb ▸ hc')
          exact .inr ⟨hb, hp⟩
        · exact .inl ⟨hk, hb⟩
      registered := fun key p hp => h.registered _ c₀ key p hc₀ hp }
  · -- They are new: no Python string is registered for them.
    obtain ⟨hfresh, hin, hmono, hchars⟩ := uniqueConstCname_fresh hunique
    have hnotMem : r.text.byteString ∉ (namedSuffixes done).2 := by
      rw [← OrderedDict.get?_eq_none_iff, ← h.named, hnone, Option.map_none]
    have hnamed : namedSuffixes (done ++ [r]) = (gs'.constCnamesUsed,
        (namedSuffixes done).2.set r.text.byteString suffix) := by
      rw [namedSuffixes_concat, if_neg hnotMem, ← h.used, hunique, Option.elim_some]
    exact {
      self := hself
      other := hother
      mono := hmono
      used := by rw [hnamed]
      named := by rw [hnamed, suffix_mk, OrderedDict.get?_set_self]
      namedOther := fun b' hb => by rw [hnamed, OrderedDict.get?_set_of_ne _ hb]
      ok := ⟨rfl, rfl, by rw [suffix_mk], by rwa [suffix_mk], by rwa [suffix_mk], nofun⟩
      suffix := fun b' c' _ hc' hs => by
        rw [suffix_mk] at hs
        exact hfresh (hs ▸ (h.ok b' c' hc').used)
      firstSelf := by
        rw [firstText_concat, h.first, hnone, Option.map_none, Option.none_or, if_pos rfl]
      firstOther := hfirst
      subset := fun _ => id
      constants := fun k hk => .inl ⟨hk, fun hb => by
        obtain ⟨c', hc', -⟩ := h.constants k hk
        rw [hb, hnone] at hc'
        cases hc'⟩
      registered := nofun }

/-- What `StringConst.get_py_string_const` returns. -/
theorem StringConst.getPyStringConst_spec (c : StringConst py) (encoding : Option Encoding)
    (identifier : Option Bool) {key : Key} (hkey : key = ⟨internOf c.text identifier,
      (kindOf encoding identifier).1, (kindOf encoding identifier).2.2⟩) :
    ∃ p pyStrings, c.getPyStringConst encoding identifier = (p, { c with pyStrings }) ∧
      pyStrings.get? key = some p ∧
      (∀ key', key' ≠ key → pyStrings.get? key' = c.pyStrings.get? key') ∧
      (c.pyStrings.get? key = some p ∨ c.pyStrings.get? key = none ∧
        p = ⟨pyStringCname key c.suffix, (kindOf encoding identifier).2.1, key.intern,
          key.isUnicode⟩) := by
  subst hkey
  cases h : c.pyStrings.get? ⟨internOf c.text identifier, (kindOf encoding identifier).1,
      (kindOf encoding identifier).2.2⟩ with
  | some p => exact ⟨p, c.pyStrings, by simp only [getPyStringConst, h], h, fun _ _ => rfl, .inl rfl⟩
  | none =>
    exact ⟨_, _, by simp only [getPyStringConst, h], OrderedDict.get?_set_self _ _ _,
      fun key' hne => OrderedDict.get?_set_of_ne _ hne _, .inr ⟨rfl, rfl⟩⟩

/-- The encoding of a text constant is not kept. -/
theorem kindOf_encoding (encoding : Option Encoding) (identifier : Option Bool)
    (h : (kindOf encoding identifier).1 = true) : (kindOf encoding identifier).2.1 = none := by
  cases encoding with
  | none => rfl
  | some e =>
    rw [kindOf] at h ⊢
    split_ifs at h ⊢
    rfl

/-- The registration of a Python string. -/
theorem inv_getPyStringConst {done : List (Registration py)} {cs : List (Constant py)}
    {gs : GlobalState py} (h : Inv done cs gs) (text : Text py) (identifier : Option Bool) :
    ∃ p gs', getPyStringConst gs text identifier = some (p, gs') ∧
      Inv (done ++ [.pyStringConst text identifier]) (cs ++ [⟨text, identifier, p⟩]) gs' := by
  obtain ⟨c, gs₁, hget, h₁, hself⟩ := inv_getStringConst h (.pyStringConst text identifier) false
  change gs₁.stringConstIndex.get? text.byteString = some c at hself
  have hok := h₁.ok _ c hself
  obtain ⟨key, hkeyDef⟩ : ∃ key : Key, key = ⟨internOf c.text identifier,
    (kindOf text.encoding identifier).1, (kindOf text.encoding identifier).2.2⟩ := ⟨_, rfl⟩
  obtain ⟨p, pyStrings, hp, hkey, hother, hcases⟩ :=
    c.getPyStringConst_spec text.encoding identifier hkeyDef
  -- What is registered under a key, before or now.
  have hget? : ∀ key' q, pyStrings.get? key' = some q →
      c.pyStrings.get? key' = some q ∨ (key' = key ∧ q = p) := by
    intro key' q hq
    by_cases hne : key' = key
    · rw [hne, hkey] at hq
      exact .inr ⟨hne, (Option.some.inj hq).symm⟩
    · exact .inl (hother key' hne ▸ hq)
  have hpOk := hcases.elim (fun hq => (hok.pyStrings _ p hq).2) fun hq =>
    ⟨congrArg PyStringConst.cname hq.2, congrArg PyStringConst.intern hq.2,
      congrArg PyStringConst.isUnicode hq.2,
      fun hu => (congrArg PyStringConst.encoding hq.2).trans
        (kindOf_encoding text.encoding identifier (by rwa [hkeyDef] at hu))⟩
  have hconstKey : (⟨text, identifier, p⟩ : Constant py).key = key := by
    rw [Constant.key, hpOk.2.1, hkeyDef]
  refine ⟨p, { gs₁ with
      stringConstIndex := gs₁.stringConstIndex.set text.byteString { c with pyStrings } }, ?_,
    Update.inv (?_ : Update _ cs gs₁ text.byteString { c with pyStrings } _ _ _) h₁⟩
  · have hget' : getStringConst gs text false = some (c, gs₁) := hget
    simp only [getPyStringConst, hget', Option.map_some, hp]
  have hnamed : (namedSuffixes (done ++ [.pyStringConst text identifier])).2.get?
      text.byteString = some c.suffix := by
    rw [← h₁.named, hself, Option.map_some]
  refine ⟨OrderedDict.get?_set_self _ _ _, fun b hb => ?_, fun _ => id, h₁.used, hnamed,
    fun _ _ => rfl, ?_, fun b' c' hb hc' hs => ?_, ?_, fun _ _ => rfl,
    fun k hk => List.mem_append_left _ hk, fun k hk => ?_, fun key' q hq => ?_⟩
  · exact OrderedDict.get?_set_of_ne _ hb _
  · refine ⟨hok.byteString, hok.text, hok.cname, hok.used, hok.chars, fun key' q hq => ?_⟩
    rcases hget? key' q hq with hq | ⟨rfl, rfl⟩
    · exact hok.pyStrings key' q hq
    · exact ⟨hkeyDef ▸ keyOk_kindOf _ _ _, hpOk⟩
  · exact hb (h₁.suffix _ _ c' c hc' hself hs)
  · exact (h₁.first _).trans (by rw [hself, Option.map_some])
  · rcases List.mem_append.1 hk with hk | hk
    · by_cases hb : k.text.byteString = text.byteString
      · obtain ⟨c', hc', hq, hintern⟩ := h₁.constants k hk
        obtain rfl : c = c' := Option.some.inj (hself ▸ hb ▸ hc')
        refine .inr ⟨hb, ?_, hintern⟩
        by_cases hne : k.key = key
        · rw [hne] at hq ⊢
          rcases hcases with hcase | ⟨hnone, -⟩
          · rw [hkey, ← hcase, hq]
          · rw [hnone] at hq
            cases hq
        · exact (hother _ hne).trans hq
      · exact .inl ⟨hk, hb⟩
    · obtain rfl := List.mem_singleton.1 hk
      exact .inr ⟨rfl, hconstKey ▸ hkey, hpOk.2.1.trans (by rw [hkeyDef])⟩
  · rcases hget? key' q hq with hq | ⟨rfl, rfl⟩
    · obtain ⟨k, hk, hrest⟩ := h₁.registered _ c key' q hself hq
      exact ⟨k, List.mem_append_left _ hk, hrest⟩
    · exact ⟨_, List.mem_append_right _ (List.mem_singleton.2 rfl), rfl, hconstKey, rfl⟩

/-! ## All registrations -/

/-- One registration. -/
theorem register_spec {done : List (Registration py)} {cs : List (Constant py)}
    {gs : GlobalState py} (h : Inv done cs gs) (r : Registration py) :
    ∃ cs' gs', register gs r = some (cs', gs') ∧ Inv (done ++ [r]) (cs ++ cs') gs' := by
  cases r with
  | stringConst text =>
    obtain ⟨c, gs', hget, h', -⟩ := inv_getStringConst h (.stringConst text) true
    have hget' : getStringConst gs text true = some (c, gs') := hget
    refine ⟨[], gs', ?_, by rwa [List.append_nil]⟩
    rw [register, hget', Option.map_some]
  | pyStringConst text identifier =>
    obtain ⟨p, gs', hget, h'⟩ := inv_getPyStringConst h text identifier
    refine ⟨[⟨text, identifier, p⟩], gs', ?_, h'⟩
    rw [register, hget, Option.map_some]

theorem registerAll_of_inv {done : List (Registration py)} {cs : List (Constant py)}
    {gs : GlobalState py} (h : Inv done cs gs) (rs : List (Registration py)) :
    ∃ cs' gs', registerAll gs rs = some (cs', gs') ∧ Inv (done ++ rs) (cs ++ cs') gs' := by
  induction rs generalizing done cs gs with
  | nil => exact ⟨[], gs, rfl, by rwa [List.append_nil, List.append_nil]⟩
  | cons r rs ih =>
    obtain ⟨cs₁, gs₁, hr, h₁⟩ := register_spec h r
    obtain ⟨cs₂, gs₂, hrs, h₂⟩ := ih h₁
    refine ⟨cs₁ ++ cs₂, gs₂, ?_, by rwa [← List.append_assoc, List.append_cons]⟩
    simp only [registerAll, hr, hrs, Option.bind_eq_bind, Option.bind_some]

/-- Registrations succeed, in any order. -/
theorem registerAll_spec (rs : List (Registration py)) :
    ∃ cs gs, registerAll .empty rs = some (cs, gs) ∧ Inv rs cs gs :=
  registerAll_of_inv inv_empty rs

/-- The Python strings among the registrations. -/
theorem registerAll_python {gs gs' : GlobalState py} {rs : List (Registration py)}
    {cs : List (Constant py)} (h : registerAll gs rs = some (cs, gs')) :
    cs.map (fun k => (k.text, k.identifier)) = rs.filterMap Registration.python := by
  induction rs generalizing gs cs with
  | nil =>
    obtain ⟨rfl, -⟩ := Prod.mk.inj (Option.some.inj h)
    rfl
  | cons r rs ih =>
    simp only [registerAll, Option.bind_eq_bind, Option.bind_eq_some_iff, Option.some.injEq,
      Prod.mk.injEq] at h
    obtain ⟨⟨cs₁, gs₁⟩, hr, ⟨cs₂, gs₂⟩, hrs, rfl, rfl⟩ := h
    rw [List.map_append, ih hrs]
    cases r with
    | stringConst text =>
      obtain ⟨_, _, hr⟩ := Option.map_eq_some_iff.1 hr
      obtain ⟨rfl, -⟩ := Prod.mk.inj hr
      rfl
    | pyStringConst text identifier =>
      obtain ⟨_, _, hr⟩ := Option.map_eq_some_iff.1 hr
      obtain ⟨rfl, -⟩ := Prod.mk.inj hr
      rfl

end AHPy.StringTable
