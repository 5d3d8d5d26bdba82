import AHPy.Lib.CLiterals

/-!
# Escaping byte strings

`_to_escape_sequence`, the replacement of special characters, and `escape_byte_string`.

* `SourceUnit`: what a C compiler does not cut: a character, or an escape sequence;
* `escaped_escapeByteString`: an escaped byte string consists of such units, is read as its
  bytes, and has no two question marks in a row.
-/

namespace AHPy.StringEncoding

/-- A byte as a character of ISO-8859-1. -/
def byteChar (b : UInt8) : Char := Char.ofNat b.toNat

/-- `.encode('ASCII')` -/
def ascii (s : List Char) : List UInt8 := s.map fun c => UInt8.ofNat c.toNat

/-- `\%03o` of a byte. -/
def octalEscape (n : ℕ) : List Char :=
  ['\\', Nat.digitChar (n / 64 % 8), Nat.digitChar (n / 8 % 8), Nat.digitChar (n % 8)]

/-- `_to_escape_sequence` -/
def toEscapeSequence (s : List Char) : List Char :=
  if s = ['\n'] then ['\\', 'n']
  else if s = ['\r'] then ['\\', 'r']
  else if s = ['\t'] then ['\\', 't']
  else if s = ['"'] then ['\\', '"']
  else if s = ['\\'] then ['\\', '\\']
  else s.flatMap fun c => octalEscape c.toNat

/-- `_c_special` -/
def cSpecial : List (List Char) :=
  [['\\'], ['?', '?'], ['"'], ['\'']] ++ (List.range 32).map fun n => [Char.ofNat n]

theorem ne_nil_of_mem_cSpecial {special : List Char} (h : special ∈ cSpecial) : special ≠ [] := by
  rcases List.mem_append.1 h with h | h
  · rintro rfl
    simp at h
  · obtain ⟨n, -, rfl⟩ := List.mem_map.1 h
    exact List.cons_ne_nil _ _

/-- The regular expression of `_build_specials_replacer`: the first alternative that matches. -/
def specials : Pattern UInt8 (List Char) where
  find s := (cSpecial.find? fun special => (ascii special).isPrefixOf s).map fun special =>
    (special, special.length)
  pos h := by
    obtain ⟨special, hfind, heq⟩ := Option.map_eq_some_iff.1 h
    rw [← (Prod.mk.inj heq).2]
    exact List.length_pos_of_ne_nil (ne_nil_of_mem_cSpecial (List.mem_of_find?_eq_some hfind))

/-- `_replace_specials` -/
def replaceSpecials (s : List UInt8) : List UInt8 :=
  specials.sub (fun special => ascii (toEscapeSequence special)) s

/-- A byte in the loop of `escape_byte_string`. -/
def escapeByte (b : UInt8) : List Char := if 127 ≤ b then octalEscape b.toNat else [byteChar b]

/-- `escape_byte_string` -/
def escapeByteString (bytes : List UInt8) : List Char :=
  let s := replaceSpecials bytes
  if s.all (· < 128) then s.map byteChar else s.flatMap escapeByte

/-! ## Units -/

/-- A character of a literal that is no backslash, or an escape sequence of four characters at
    most. -/
inductive SourceUnit : List Char → Prop
  | plain {c : Char} (h : c ≠ '\\') : SourceUnit [c]
  | escape {c : Char} {ds : List Char} (h : c = '\\' → ds = []) (hlength : ds.length ≤ 2)
      (hds : '\\' ∉ ds) : SourceUnit ('\\' :: c :: ds)

/-- A unit that is read as one character, and is not a question mark. -/
structure Encodes (u : List Char) (c : Char) : Prop where
  sourceUnit : SourceUnit u
  reads : Denotes u [c]
  notMem : '?' ∉ u

theorem digitValue_digitChar {k : ℕ} (h : k < 8) : digitValue 8 (Nat.digitChar k) = some k := by
  interval_cases k <;> rfl

theorem digitChar_ne {k : ℕ} (h : k < 8) :
    Nat.digitChar k ≠ '\\' ∧ Nat.digitChar k ≠ '?' ∧ (Nat.digitChar k).toNat < 127 := by
  interval_cases k <;> decide

theorem encodes_octalEscape {n : ℕ} (h : n < 512) : Encodes (octalEscape n) (Char.ofNat n) := by
  have h₂ : n / 64 % 8 < 8 := Nat.mod_lt _ (by decide)
  have h₁ : n / 8 % 8 < 8 := Nat.mod_lt _ (by decide)
  have h₀ : n % 8 < 8 := Nat.mod_lt _ (by decide)
  have hvalue : (n / 64 % 8 * 8 + n / 8 % 8) * 8 + n % 8 = n := by omega
  refine ⟨.escape (fun hc => absurd hc (digitChar_ne h₂).1) le_rfl ?_, ?_, ?_⟩
  · simp only [List.mem_cons, List.not_mem_nil, or_false, not_or]
    exact ⟨(digitChar_ne h₁).1.symm, (digitChar_ne h₀).1.symm⟩
  · simp [Denotes, octalEscape, literals, literalStep, insideStep, digitValue_digitChar, h₂, h₁, h₀,
      hvalue]
  · simp only [octalEscape, List.mem_cons, List.not_mem_nil, or_false, not_or]
    exact ⟨by decide, (digitChar_ne h₂).2.1.symm, (digitChar_ne h₁).2.1.symm,
      (digitChar_ne h₀).2.1.symm⟩

/-- An escape sequence of one character. -/
theorem encodes_simple {c d : Char} (h : simpleEscape c = some d) (hc : digitValue 8 c = none)
    (hmark : c ≠ '?') : Encodes ['\\', c] d := by
  refine ⟨.escape (fun _ => rfl) (Nat.zero_le 2) List.not_mem_nil, ?_, ?_⟩
  · simp [Denotes, literals, literalStep, insideStep, h, hc]
  · simp only [List.mem_cons, List.not_mem_nil, or_false, not_or]
    exact ⟨by decide, hmark.symm⟩

theorem encodes_toEscapeSequence {c : Char} (h : c.toNat < 512) :
    Encodes (toEscapeSequence [c]) c := by
  rw [toEscapeSequence]
  split_ifs with hn hr ht hq hb
  · obtain rfl := List.singleton_inj.1 hn
    exact encodes_simple rfl rfl (by decide)
  · obtain rfl := List.singleton_inj.1 hr
    exact encodes_simple rfl rfl (by decide)
  · obtain rfl := List.singleton_inj.1 ht
    exact encodes_simple rfl rfl (by decide)
  · obtain rfl := List.singleton_inj.1 hq
    exact encodes_simple rfl rfl (by decide)
  · obtain rfl := List.singleton_inj.1 hb
    exact encodes_simple rfl rfl (by decide)
  · have hencodes := encodes_octalEscape h
    rw [Char.ofNat_toNat] at hencodes
    simpa using hencodes

/-! ## Special characters -/

theorem toNat_byteChar (b : UInt8) : (byteChar b).toNat = b.toNat := by
  have hvalid : b.toNat.isValidChar := .inl (b.toNat_lt.trans (by decide))
  rw [byteChar, Char.ofNat, dif_pos hvalid]
  exact UInt32.toNat_ofNatLT

theorem byteChar_injective : Function.Injective byteChar := fun b b' h => by
  rw [← UInt8.toNat_inj, ← toNat_byteChar, ← toNat_byteChar, h]

theorem byteChar_ofNat {c : Char} (h : c.toNat < 256) : byteChar (UInt8.ofNat c.toNat) = c := by
  rw [byteChar, UInt8.toNat_ofNat_of_lt' h, Char.ofNat_toNat]

theorem lt_of_mem_cSpecial {special : List Char} (h : special ∈ cSpecial) :
    ∀ c ∈ special, c.toNat < 127 := by
  rcases List.mem_append.1 h with h | h
  · simp only [List.mem_cons, List.not_mem_nil, or_false] at h
    rcases h with rfl | rfl | rfl | rfl <;> simp
  · obtain ⟨n, hn, rfl⟩ := List.mem_map.1 h
    have hn := List.mem_range.1 hn
    simp only [List.mem_singleton, forall_eq]
    interval_cases n <;> decide

/-- Two question marks are escaped one by one. -/
theorem toEscapeSequence_eq {special : List Char} (h : special ∈ cSpecial) :
    toEscapeSequence special = special.flatMap fun c => toEscapeSequence [c] := by
  rcases List.mem_append.1 h with h | h
  · simp only [List.mem_cons, List.not_mem_nil, or_false] at h
    rcases h with rfl | rfl | rfl | rfl <;> rfl
  · obtain ⟨n, -, rfl⟩ := List.mem_map.1 h
    simp

theorem lt_of_mem_toEscapeSequence (c : Char) : ∀ d ∈ toEscapeSequence [c], d.toNat < 127 := by
  rw [toEscapeSequence]
  split_ifs
  · simp
  · simp
  · simp
  · simp
  · simp
  · have hdigit : ∀ n, (Nat.digitChar (n % 8)).toNat < 127 := fun n =>
      (digitChar_ne (Nat.mod_lt n (by decide))).2.2
    simp only [List.flatMap_cons, List.flatMap_nil, List.append_nil, octalEscape,
      List.forall_mem_cons]
    exact ⟨by decide, hdigit _, hdigit _, hdigit _, fun d hd => absurd hd List.not_mem_nil⟩

theorem find_specials_some {s : List UInt8} {special : List Char} {n : ℕ}
    (h : specials.find s = some (special, n)) :
    special ∈ cSpecial ∧ s = ascii special ++ s.drop n := by
  obtain ⟨special', hfind, heq⟩ := Option.map_eq_some_iff.1 h
  obtain ⟨rfl, rfl⟩ := Prod.mk.inj heq
  have hstart : (ascii special').isPrefixOf s = true := List.find?_some
    (p := fun special => (ascii special).isPrefixOf s) hfind
  obtain ⟨t, ht⟩ := List.isPrefixOf_iff_prefix.1 hstart
  refine ⟨List.mem_of_find?_eq_some hfind, ?_⟩
  have hlength : special'.length = (ascii special').length := (List.length_map _).symm
  rw [hlength, ← ht, List.drop_left]

theorem find_specials_none {b : UInt8} {s : List UInt8} (h : specials.find (b :: s) = none) :
    (∀ c, [c] ∈ cSpecial → byteChar b ≠ c) ∧ (b = 63 → s.head? ≠ some 63) := by
  have hnone : ∀ special ∈ cSpecial, ¬ ascii special <+: b :: s := by
    intro special hmem hstart
    have hfind := List.find?_eq_none.1 (Option.map_eq_none_iff.1 h) special hmem
    exact hfind <| List.isPrefixOf_iff_prefix.2 hstart
  constructor
  · rintro c hc rfl
    refine hnone _ hc ?_
    have hbyte : UInt8.ofNat (byteChar b).toNat = b := by
      rw [toNat_byteChar, UInt8.ofNat_toNat]
    rw [ascii, List.map_singleton, hbyte]
    exact List.prefix_cons_iff.2 (.inr ⟨[], rfl, List.nil_prefix⟩)
  · rintro rfl hhead
    obtain ⟨t, rfl⟩ := List.head?_eq_some_iff.1 hhead
    exact hnone ['?', '?'] (by decide) ⟨t, rfl⟩

/-! ## Escaped strings -/

/-- A byte after the replacements: it stays what it is if all of them are ASCII. -/
def passByte (trial : Bool) (b : UInt8) : List Char := if trial then [byteChar b] else escapeByte b

theorem escapeByteString_eq (bytes : List UInt8) : escapeByteString bytes =
    (replaceSpecials bytes).flatMap (passByte ((replaceSpecials bytes).all (· < 128))) := by
  have htrue : passByte true = fun b => [byteChar b] := rfl
  have hfalse : passByte false = escapeByte := rfl
  rw [escapeByteString]
  cases (replaceSpecials bytes).all (· < 128) with
  | true => rw [htrue, if_pos rfl, List.map_eq_flatMap]
  | false => rw [hfalse, if_neg Bool.false_ne_true]

theorem flatMap_passByte_ascii (trial : Bool) {s : List Char} (h : ∀ c ∈ s, c.toNat < 127) :
    (ascii s).flatMap (passByte trial) = s := by
  have hbyte : ∀ c ∈ s, passByte trial (UInt8.ofNat c.toNat) = [c] := by
    intro c hc
    have hlt := h c hc
    have hchar := byteChar_ofNat (c := c) (by omega)
    have hnot : ¬ (127 : UInt8) ≤ UInt8.ofNat c.toNat := by
      rw [UInt8.le_iff_toNat_le, UInt8.toNat_ofNat_of_lt' (by rw [UInt8.size]; omega)]
      exact not_le.2 hlt
    rw [passByte, escapeByte, hchar, if_neg hnot, ite_self]
  rw [ascii, List.flatMap_map, List.flatMap_congr hbyte, List.flatMap_singleton']

/-- A text that stands for bytes, unit by unit. -/
structure Escaped (text : List Char) (bytes : List UInt8) : Prop where
  units : ∃ units : List (List Char), units.flatten = text ∧
    ∀ u ∈ units, SourceUnit u ∧ ∃ cs, Denotes u cs
  reads : Denotes text (bytes.map byteChar)
  marks : SingleMarks text
  head : text.head? = some '?' → bytes.head? = some 63

theorem escaped_nil : Escaped [] [] :=
  ⟨⟨[], rfl, fun u hu => absurd hu List.not_mem_nil⟩, rfl, .nil, fun h => absurd h (by simp)⟩

theorem Escaped.cons_of_encodes {text u : List Char} {bytes : List UInt8} {b : UInt8}
    (h : Escaped text bytes) (hu : Encodes u (byteChar b)) : Escaped (u ++ text) (b :: bytes) := by
  obtain ⟨units, rfl, hunits⟩ := h.units
  refine ⟨⟨u :: units, rfl, List.forall_mem_cons.2 ⟨⟨hu.sourceUnit, _, hu.reads⟩, hunits⟩⟩,
    hu.reads.append h.reads, (singleMarks_append hu.notMem).2 h.marks, fun hhead => ?_⟩
  have hne : u ≠ [] := by
    rintro rfl
    exact absurd hu.reads (by simp [Denotes, literals])
  rw [List.head?_append_of_ne_nil _ hne] at hhead
  exact absurd (List.mem_of_mem_head? hhead) hu.notMem

/-- The characters of a match are escaped one after the other. -/
theorem Escaped.append_match {text special : List Char} {bytes : List UInt8}
    (h : Escaped text bytes) (hlt : ∀ c ∈ special, c.toNat < 256) :
    Escaped ((special.flatMap fun c => toEscapeSequence [c]) ++ text)
      (ascii special ++ bytes) := by
  induction special with
  | nil => exact h
  | cons c special ih =>
    obtain ⟨hc, hlt⟩ := List.forall_mem_cons.1 hlt
    have hencodes := encodes_toEscapeSequence (hc.trans (by decide))
    rw [← byteChar_ofNat hc] at hencodes
    have hcons := (ih hlt).cons_of_encodes hencodes
    rw [byteChar_ofNat hc, ← List.append_assoc] at hcons
    exact hcons

/-- A question mark stays what it is if no other one follows. -/
theorem Escaped.cons_mark {text : List Char} {bytes : List UInt8} (h : Escaped text bytes)
    (hnext : bytes.head? ≠ some 63) : Escaped ('?' :: text) (63 :: bytes) := by
  obtain ⟨units, rfl, hunits⟩ := h.units
  have hread : Denotes ['?'] ['?'] := rfl
  refine ⟨⟨['?'] :: units, rfl, List.forall_mem_cons.2 ⟨⟨.plain (by decide), _, hread⟩, hunits⟩⟩,
    hread.append h.reads, ?_, fun _ => rfl⟩
  refine List.isChain_cons.2 ⟨fun c hc _ heq => hnext (h.head ?_), h.marks⟩
  rw [heq] at hc
  exact hc

theorem escaped_replaceSpecials (trial : Bool) (bytes : List UInt8) :
    Escaped ((replaceSpecials bytes).flatMap (passByte trial)) bytes := by
  induction bytes using specials.split_induction with
  | nil => exact escaped_nil
  | piece b s special n hfind ih =>
    obtain ⟨hspecial, hs⟩ := find_specials_some hfind
    have hlt := lt_of_mem_cSpecial hspecial
    have hpass : (ascii (toEscapeSequence special)).flatMap (passByte trial) =
        special.flatMap fun c => toEscapeSequence [c] := by
      rw [toEscapeSequence_eq hspecial]
      refine flatMap_passByte_ascii trial fun d hd => ?_
      obtain ⟨c, -, hd⟩ := List.mem_flatMap.1 hd
      exact lt_of_mem_toEscapeSequence c d hd
    rw [replaceSpecials, Pattern.sub_of_find _ hfind, List.flatMap_append, hpass,
      ← replaceSpecials]
    have happend := ih.append_match fun c hc => (hlt c hc).trans (by decide)
    rwa [← hs] at happend
  | symbol b s hfind ih =>
    obtain ⟨hne, hmark⟩ := find_specials_none hfind
    rw [replaceSpecials, Pattern.sub_of_none _ hfind, List.flatMap_cons, ← replaceSpecials]
    by_cases hraw : passByte trial b = [byteChar b]
    · rw [hraw]
      by_cases hb : b = 63
      · subst hb
        exact ih.cons_mark (hmark rfl)
      · refine ih.cons_of_encodes ⟨.plain (hne '\\' (by decide)), ?_, ?_⟩
        · have h₁ := hne '"' (by decide)
          have h₂ := hne '\\' (by decide)
          have h₃ := hne '\n' (by decide)
          simp [Denotes, literals, literalStep, insideStep, h₁, h₂, h₃]
        · rw [List.mem_singleton]
          exact fun heq => hb (byteChar_injective heq.symm)
    · have hoctal : passByte trial b = octalEscape b.toNat := by
        rw [passByte, escapeByte] at hraw ⊢
        split_ifs at hraw ⊢
        · exact absurd rfl hraw
        · rfl
        · exact absurd rfl hraw
      rw [hoctal]
      exact ih.cons_of_encodes (encodes_octalEscape (b.toNat_lt.trans (by decide)))

/-- An escaped byte string is read as its bytes. -/
theorem escaped_escapeByteString (bytes : List UInt8) : Escaped (escapeByteString bytes) bytes := by
  rw [escapeByteString_eq]
  exact escaped_replaceSpecials _ bytes

example : escapeByteString [63, 63, 63, 34, 200] =
    ['\\', '0', '7', '7', '\\', '0', '7', '7', '?', '\\', '"', '\\', '3', '1', '0'] := by
  decide

end AHPy.StringEncoding
