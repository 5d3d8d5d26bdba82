import AHPy.Formatting.Digits

/-!
# Formatted characters

Characters are converted to `int`, and encoded into a buffer. The test for values that are no
code points does not see those from 2 ** 21 on: it accepts what has one of the high bits.

* `ucharToPyUnicode_of_lt`: below that, the text is the one that Python formats;
* `fromOrdinalPadded_raises_iff`: when a padded character that is none is rejected;
* `cIntToPyUnicode_agrees_iff`: when generated code does as Python.
-/

namespace AHPy.Formatting

/-! ## Bits -/

theorem bits_of_nonneg {t : CIntType} {v : ℤ} (h₀ : 0 ≤ v) (h : v < 2 ^ t.width) :
    t.bits v = v.toNat := by
  have hrange : t.unsigned.InRange v := (CIntType.inRange_unsigned rfl).2 ⟨h₀, h⟩
  rw [CIntType.bits, CIntType.convert_of_inRange hrange]

/-- A bit pattern of the lead byte, or of a tail. -/
theorem or_and_eq (i a b : ℕ) : 2 ^ i * a ||| (b &&& 2 ^ i - 1) = 2 ^ i * a + b % 2 ^ i := by
  rw [Nat.and_two_pow_sub_one_eq_mod,
    ← Nat.two_pow_add_eq_or_of_lt (Nat.mod_lt b (Nat.two_pow_pos i))]

/-- The bits above the lowest ones. -/
theorem and_two_pow_sub_ne_zero_iff {n k w : ℕ} (hk : k ≤ w) (h : n < 2 ^ w) :
    n &&& 2 ^ w - 2 ^ k ≠ 0 ↔ 2 ^ k ≤ n := by
  have hmask (i : ℕ) : (2 ^ w - 2 ^ k).testBit i = (decide (i < w) && !decide (i < k)) := by
    have hlt : 2 ^ k - 1 < 2 ^ w :=
      (Nat.sub_lt (Nat.two_pow_pos k) one_pos).trans_le (Nat.pow_le_pow_right two_pos hk)
    have hbit := Nat.testBit_two_pow_sub_succ hlt i
    rwa [Nat.sub_add_cancel (Nat.one_le_two_pow), Nat.testBit_two_pow_sub_one] at hbit
  constructor
  · intro hne
    refine not_lt.1 fun hlt => hne (Nat.eq_of_testBit_eq fun i => ?_)
    rw [Nat.testBit_and, hmask, Nat.zero_testBit]
    rcases Nat.lt_or_ge i k with hi | hi
    · simp [hi]
    · rw [Nat.testBit_lt_two_pow (hlt.trans_le (Nat.pow_le_pow_right two_pos hi)), Bool.false_and]
  · intro hle hzero
    obtain ⟨i, hi, hbit⟩ := Nat.exists_ge_and_testBit_of_ge_two_pow hle
    have hw : i < w := by
      refine not_le.1 fun hw => ?_
      rw [Nat.testBit_lt_two_pow (h.trans_le (Nat.pow_le_pow_right two_pos hw))] at hbit
      cases hbit
    have hand := Nat.testBit_and n (2 ^ w - 2 ^ k) i
    rw [hzero, Nat.zero_testBit, hmask, hbit] at hand
    simp [hw, Nat.not_lt.2 hi] at hand

/-- The bits of a negative integer. -/
theorem bits_neg {t : CIntType} {n : ℕ} (h₀ : 0 < n) (h : n ≤ 2 ^ t.width) :
    t.bits (-n) = 2 ^ t.width - n := by
  have hcast : ((2 ^ t.width - n : ℕ) : ℤ) = 2 ^ t.width - n := by
    rw [Nat.cast_sub h, Nat.cast_pow, Nat.cast_ofNat]
  have hle : (n : ℤ) ≤ 2 ^ t.width := by exact_mod_cast h
  have hconvert : t.unsigned.convert (-n) = 2 ^ t.width - n := by
    refine CIntType.convert_eq_of_inRange ((CIntType.inRange_unsigned rfl).2 ?_) ?_
    · show (0 : ℤ) ≤ 2 ^ t.width - n ∧ (2 : ℤ) ^ t.width - n < 2 ^ t.width
      omega
    · rw [sub_eq_add_neg]
      exact Int.add_modEq_left
  rw [CIntType.bits, hconvert, ← hcast, Int.toNat_natCast]

theorem lt_two_pow_width {t : IntType} {v : ℤ} (h : t.type.InRange v) (h₀ : 0 ≤ v) :
    v < 2 ^ t.type.width := by
  have hlt : ((v.natAbs : ℕ) : ℤ) < ((2 ^ t.type.width : ℕ) : ℤ) := by exact_mod_cast natAbs_lt h
  rw [Int.natAbs_of_nonneg h₀, Nat.cast_pow, Nat.cast_ofNat] at hlt
  exact hlt

/-- The bits from 2 ** 21 on. -/
theorem highBits_ne_zero_iff {t : IntType} {v : ℤ} (hsize : 3 ≤ t.size) (h : t.type.InRange v)
    (h₀ : 0 ≤ v) : highBits t v ≠ 0 ↔ 0x200000 ≤ v := by
  have hwidth : t.type.width = 8 * t.size := rfl
  have hle : 2 ^ 21 ≤ 2 ^ t.type.width := Nat.pow_le_pow_right two_pos (by omega)
  have hlt : v.toNat < 2 ^ t.type.width := by
    rw [Int.toNat_lt h₀, Nat.cast_pow, Nat.cast_ofNat]
    exact lt_two_pow_width h h₀
  have hmask : t.type.bits (-0x1FFFFF - 1) = 2 ^ t.type.width - 2 ^ 21 := bits_neg (by norm_num) hle
  rw [highBits, bits_of_nonneg h₀ (lt_two_pow_width h h₀), hmask,
    and_two_pow_sub_ne_zero_iff (by omega) hlt]
  omega

/-! ## Encoded characters -/

/-- The code points that a buffer of UTF-8 has room for. -/
theorem decodeUtf8_encodeOrdinal {u : ℕ} (hlow : 0x80 ≤ u)
    (hsurrogate : ¬(0xD800 ≤ u ∧ u ≤ 0xDFFF)) :
    decodeUtf8 (encodeOrdinal u) =
      if u < 0x10000 then some [u]
      else if 0x10000 ≤ u % 2 ^ 21 ∧ u % 2 ^ 21 ≤ 0x10FFFF then some [u % 2 ^ 21] else none := by
  have htail (b : ℕ) : 0x80 ||| (b &&& 0x3F) = 0x80 + b % 64 := or_and_eq 6 2 b
  have h₂ (b : ℕ) : 0xC0 ||| (b &&& 0x1F) = 0xC0 + b % 32 := or_and_eq 5 6 b
  have h₃ (b : ℕ) : 0xE0 ||| (b &&& 0x0F) = 0xE0 + b % 16 := or_and_eq 4 14 b
  have h₄ (b : ℕ) : 0xF0 ||| (b &&& 0x07) = 0xF0 + b % 8 := or_and_eq 3 30 b
  simp only [encodeOrdinal, htail, h₂, h₃, h₄, Nat.shiftRight_eq_div_pow]
  split
  next h =>
    have hu : u / 2 ^ 6 % 32 * 64 + u % 64 = u := by omega
    rw [decodeUtf8_two (by omega) (by omega) (by omega), hu, if_pos (by omega)]
  next h =>
    split
    next h' =>
      have hu : u / 2 ^ 12 % 16 * 4096 + u / 2 ^ 6 % 64 * 64 + u % 64 = u := by omega
      rw [decodeUtf8_three (by omega) (by omega) (by omega) (by omega) (by omega), hu]
    next h' =>
      have hu : u / 2 ^ 18 % 8 * 262144 + u / 2 ^ 12 % 64 * 4096 + u / 2 ^ 6 % 64 * 64 + u % 64 =
          u % 2 ^ 21 := by omega
      rw [decodeUtf8_four (by omega) (by omega) (by omega) (by omega), hu]

theorem length_encodeOrdinal (u : ℕ) : (encodeOrdinal u).length ≤ 4 := by
  rw [encodeOrdinal]
  split_ifs <;> simp

/-! ## Padded characters -/

section

variable {internals : Bool} {u : ℤ} {ulength : ℕ} {padding : Padding}

theorem Padding.char_le (padding : Padding) : padding.char ≤ 0x7F := by cases padding <;> decide

theorem toChar_of_nonneg (h₀ : 0 ≤ u) (h : u ≤ 255) : toChar u = u.toNat :=
  bits_of_nonneg h₀ (show u < 2 ^ 8 by omega)

theorem decodeUTF8_replicate_append (n : ℕ) (padding : Padding) (bytes : List ℕ) :
    decodeUTF8 (List.replicate n padding.char ++ bytes) =
      (decodeUTF8 bytes).map (List.replicate n padding.char ++ ·) := by
  rw [decodeUTF8, decodeUtf8_replicate_append padding.char_le, decodeUTF8]
  cases decodeUtf8 bytes <;> rfl

/-- The buffer of Latin-1. -/
theorem fromOrdinalPadded_latin1 (hlength : 1 < ulength) (hroom : ulength - 1 ≤ 250)
    (hu : u ≤ 255) : fromOrdinalPadded internals u ulength padding =
      some (.ok (List.replicate (ulength - 1) padding.char ++ [toChar u])) := by
  obtain ⟨n, rfl⟩ := Nat.exists_eq_add_of_le' hlength.le
  obtain ⟨k, hk⟩ := Nat.exists_eq_add_of_le (by omega : n + 1 ≤ 256)
  have hchars : writeFrom (List.replicate 256 0) 0 (List.replicate n padding.char) =
      some (List.replicate n padding.char ++ List.replicate (k + 1) 0) := by
    rw [hk, add_assoc, add_comm 1 k, List.replicate_add]
    exact writeFrom_append [] _ (by rw [List.length_replicate, List.length_replicate])
  have hwrite := write_append (List.replicate n padding.char) (List.replicate k 0) 0 (toChar u)
  rw [List.length_replicate, ← List.replicate_succ] at hwrite
  have htake : (List.replicate n padding.char ++ toChar u :: List.replicate k 0).take (n + 1) =
      List.replicate n padding.char ++ [toChar u] := by
    rw [List.append_cons]
    exact List.take_left' (by simp)
  rw [fromOrdinalPadded, if_pos ⟨hroom, by omega⟩, if_pos hu, Nat.add_sub_cancel, hchars,
    Option.bind_some, Nat.cast_add, Nat.cast_one, add_sub_cancel_right, hwrite, Option.map_some,
    decodeLatin1, htake]

/-- The buffer of UTF-8. -/
theorem fromOrdinalPadded_utf8 (hroom : ulength - 1 ≤ 250) (hu : 255 < u)
    (hsurrogate : ¬(0xD800 ≤ u ∧ u ≤ 0xDFFF)) :
    fromOrdinalPadded internals u ulength padding =
      some ((decodeUTF8 (encodeOrdinal u.toNat)).map
        (List.replicate (ulength - 1) padding.char ++ ·)) := by
  have hlength := length_encodeOrdinal u.toNat
  have hfirst := prepend_chars 256 [] (encodeOrdinal u.toNat) (by omega)
  have hsecond := prepend_chars (256 - (encodeOrdinal u.toNat).length)
    (encodeOrdinal u.toNat) (List.replicate (ulength - 1) padding.char)
    (by rw [List.length_replicate]; omega)
  rw [List.append_nil] at hfirst
  rw [fromOrdinalPadded, if_pos ⟨hroom, by omega⟩, if_neg (by omega), hfirst, Option.bind_some,
    hsecond, Option.map_some, decodeUTF8_replicate_append]

/-- A text that is put together. -/
theorem fromOrdinalPadded_concat (hout : ¬(ulength - 1 ≤ 250 ∧ (u < 0xD800 ∨ u > 0xDFFF)))
    (hu : ¬(u ≤ 127 ∧ internals = true)) :
    fromOrdinalPadded internals u ulength padding =
      some ((fromOrdinal u).map (List.replicate (ulength - 1) padding.char ++ ·)) := by
  rw [fromOrdinalPadded, if_neg hout, if_neg hu]

/-- Padding is written with one character. -/
theorem fromOrdinalPadded_build (hlength : 1 < ulength) (hroom : ¬ulength - 1 ≤ 250) (hu : u ≤ 127)
    (hinternals : internals = true) :
    fromOrdinalPadded internals u ulength padding =
      some (.ok (List.replicate (ulength - 1) padding.char ++ [toChar u])) := by
  rw [fromOrdinalPadded, if_neg (fun h => hroom h.1), if_pos ⟨hu, hinternals⟩, hinternals,
    buildFromAscii, if_pos rfl,
    buildWithInternals_eq
      (Nat.sub_add_cancel hlength.le : ulength - 1 + [toChar u].length = ulength),
    frontText_false]
  rfl

/-- Code points are padded. -/
theorem fromOrdinalPadded_of_le (hlength : 1 < ulength) (h₀ : 0 ≤ u) (h : u ≤ 0x10FFFF) :
    fromOrdinalPadded internals u ulength padding =
      some (.ok (List.replicate (ulength - 1) padding.char ++ [u.toNat])) := by
  by_cases hin : ulength - 1 ≤ 250 ∧ (u < 0xD800 ∨ u > 0xDFFF)
  · rcases le_or_gt u 255 with hu | hu
    · rw [fromOrdinalPadded_latin1 hlength hin.1 hu, toChar_of_nonneg h₀ hu]
    · have hmod : u.toNat % 2 ^ 21 = u.toNat := Nat.mod_eq_of_lt (by omega)
      have hdecode : decodeUtf8 (encodeOrdinal u.toNat) = some [u.toNat] := by
        rw [decodeUtf8_encodeOrdinal (by omega) (by omega), hmod]
        split
        next => rfl
        next hbig => rw [if_pos (by omega)]
      rw [fromOrdinalPadded_utf8 hin.1 hu (by omega), decodeUTF8, hdecode]
      rfl
  · by_cases hbuild : u ≤ 127 ∧ internals = true
    · rw [fromOrdinalPadded_build hlength (by omega) hbuild.1 hbuild.2,
        toChar_of_nonneg h₀ (by omega)]
    · rw [fromOrdinalPadded_concat hin hbuild, fromOrdinal, if_pos ⟨h₀, h⟩]
      rfl

theorem map_raises_iff {result : Result} {f : List ℕ → List ℕ} :
    (∃ e, some (result.map f) = some (.error e)) ↔ ∃ e, result = .error e := by
  cases result with
  | error e => exact iff_of_true ⟨e, rfl⟩ ⟨e, rfl⟩
  | ok text =>
    constructor
    all_goals
      rintro ⟨e, h⟩
      cases h

theorem ok_raises_iff {text : List ℕ} :
    (∃ e, (some (.ok text) : Option Result) = some (.error e)) ↔ False := by
  refine iff_of_false ?_ id
  rintro ⟨e, h⟩
  cases h

theorem fromOrdinal_raises_iff : (∃ e, fromOrdinal u = .error e) ↔ ¬(0 ≤ u ∧ u ≤ 0x10FFFF) := by
  rw [fromOrdinal]
  split
  next h =>
    refine iff_of_false ?_ (not_not.2 h)
    rintro ⟨e, h⟩
    cases h
  next h => exact iff_of_true ⟨_, rfl⟩ h

/-- The values of type `int` that are rejected as characters. -/
def Rejects (internals : Bool) (width : ℕ) (u : ℤ) : Prop :=
  if width ≤ 1 then ¬(0 ≤ u ∧ u ≤ 0x10FFFF)
  else if width ≤ 251 then 0x10FFFF < u ∧ ¬(0x10000 ≤ u % 2 ^ 21 ∧ u % 2 ^ 21 ≤ 0x10FFFF)
  else 0x10FFFF < u ∨ u < 0 ∧ internals = false

/-- A padded character is rejected by a decoder, or by `PyUnicode_FromOrdinal`. -/
theorem fromOrdinalPadded_raises_iff (hlength : 1 < ulength) :
    (∃ e, fromOrdinalPadded internals u ulength padding = some (.error e)) ↔
      Rejects internals ulength u := by
  rw [Rejects, if_neg (not_le.2 hlength)]
  by_cases hvalid : 0 ≤ u ∧ u ≤ 0x10FFFF
  · rw [fromOrdinalPadded_of_le hlength hvalid.1 hvalid.2, ok_raises_iff]
    split
    all_goals exact iff_of_false id (by omega)
  by_cases hroom : ulength - 1 ≤ 250
  · rw [if_pos (by omega)]
    rcases le_or_gt u 255 with hu | hu
    · rw [fromOrdinalPadded_latin1 hlength hroom hu, ok_raises_iff]
      exact iff_of_false id (by omega)
    · rw [fromOrdinalPadded_utf8 hroom hu (by omega), map_raises_iff, decodeUTF8,
        decodeUtf8_encodeOrdinal (by omega) (by omega), if_neg (by omega)]
      split
      next h =>
        refine iff_of_false ?_ (by omega)
        rintro ⟨e, he⟩
        cases he
      next h => exact iff_of_true ⟨_, rfl⟩ (by omega)
  · rw [if_neg (by omega)]
    by_cases hbuild : u ≤ 127 ∧ internals = true
    · rw [fromOrdinalPadded_build hlength hroom hbuild.1 hbuild.2, ok_raises_iff]
      refine iff_of_false id ?_
      rintro (h | ⟨-, h⟩)
      · omega
      · rw [hbuild.2] at h
        cases h
    · rw [fromOrdinalPadded_concat (fun h => hroom h.1) hbuild, map_raises_iff,
        fromOrdinal_raises_iff]
      refine iff_of_true hvalid ?_
      rcases lt_or_ge u 0 with hu | hu
      · exact .inr ⟨hu, Bool.eq_false_iff.2 fun h => hbuild ⟨by omega, h⟩⟩
      · exact .inl (by omega)

end

/-! ## Characters -/

section

variable {t : IntType} {v : ℤ}

theorem Agrees.raises_iff {generated : Option Result} {e : Raised} :
    Agrees generated (.error e) ↔ ∃ e, generated = some (.error e) := by
  constructor
  · rintro (h | ⟨h, -⟩)
    · exact ⟨e, h⟩
    · exact h
  · exact fun h => .inr ⟨h, e, rfl⟩

/-- The test for values that are no code points. -/
theorem rejected_iff (h : t.type.InRange v) :
    ¬(t.isUnsigned ∨ v = 0 ∨ v > 0) ∨
        ¬(t.size ≤ 2 ∨ highBits t v ≠ 0 ∨ checkUnicodeValue (CIntType.int.convert v)) ↔
      v < 0 ∨ 0x10FFFF < v ∧ v < 0x200000 := by
  rcases lt_or_ge v 0 with hneg | hpos
  · have hsigned : ¬t.isUnsigned := by
      intro hunsigned
      rw [isUnsigned_eq, Bool.not_eq_true'] at hunsigned
      have := ((CIntType.inRange_unsigned hunsigned).1 h).1
      omega
    exact iff_of_true (.inl (by
      rintro (hu | hv)
      · exact hsigned hu
      · omega)) (.inl hneg)
  · rw [or_iff_right (not_not.2 (by omega : t.isUnsigned = true ∨ v = 0 ∨ v > 0)),
      or_iff_right (not_lt.2 hpos)]
    rcases Nat.lt_or_ge t.size 3 with hsize | hsize
    · have hlt := lt_two_pow_width h hpos
      have hle : (2 : ℤ) ^ t.type.width ≤ 2 ^ 16 :=
        pow_le_pow_right₀ (by norm_num) (by
          rw [IntType.type]
          show 8 * t.size ≤ 16
          omega)
      exact iff_of_false (not_not.2 (.inl (by omega))) (by omega)
    · rw [or_iff_right (by omega : ¬t.size ≤ 2), highBits_ne_zero_iff hsize h hpos,
        checkUnicodeValue, decide_eq_true_iff]
      rcases lt_or_ge v 0x200000 with hlow | hhigh
      · have hint : CIntType.int.InRange v := by
          simp only [CIntType.InRange, CIntType.lo, CIntType.int, if_true]
          norm_num
          omega
        rw [CIntType.convert_of_inRange hint]
        omega
      · exact iff_of_false (not_not.2 (.inl hhigh)) (by omega)

/-- Below 2 ** 21, characters are formatted as by Python, or rejected. -/
theorem ucharToPyUnicode_of_lt (internals : Bool) (h : t.type.InRange v) (hv : v < 0x200000)
    (width : ℕ) (padding : Padding) :
    ucharToPyUnicode internals t v width padding = some (pyFormat v width padding .c) := by
  rw [ucharToPyUnicode, pyFormat]
  split
  next hrejected =>
    have := (rejected_iff h).1 hrejected
    rw [if_neg (by omega)]
  next haccepted =>
    have hrange := mt (rejected_iff h).2 haccepted
    have hint : CIntType.int.convert v = v := by
      refine CIntType.convert_of_inRange ?_
      simp only [CIntType.InRange, CIntType.lo, CIntType.int, if_true]
      norm_num
      omega
    rw [hint, if_pos (by omega : 0 ≤ v ∧ v ≤ 0x10FFFF)]
    split
    next hwidth =>
      rw [fromOrdinal, if_pos (by omega), Nat.sub_eq_zero_of_le hwidth]
      rfl
    next hwidth => exact fromOrdinalPadded_of_le (not_le.1 hwidth) (by omega) (by omega)

/-- From 2 ** 21 on, characters are rejected after the conversion to `int` only. -/
theorem ucharToPyUnicode_raises_iff (internals : Bool) (h : t.type.InRange v)
    (hv : 0x200000 ≤ v) (width : ℕ) (padding : Padding) :
    (∃ e, ucharToPyUnicode internals t v width padding = some (.error e)) ↔
      Rejects internals width (CIntType.int.convert v) := by
  rw [ucharToPyUnicode, if_neg (mt (rejected_iff h).1 (by omega))]
  split
  next hwidth =>
    rw [Rejects, if_pos hwidth, ← fromOrdinal_raises_iff]
    simp only [Option.some.injEq]
  next hwidth => exact fromOrdinalPadded_raises_iff (not_le.1 hwidth)

/-- Generated code formats a C integer as Python does, but for a character from 2 ** 21 on that
    is not rejected after the conversion to `int`. -/
theorem cIntToPyUnicode_agrees_iff (internals : Bool) (h : t.type.InRange v) (width : ℕ)
    (padding : Padding) (format : Format) :
    Agrees (cIntToPyUnicode internals t v width padding format) (pyFormat v width padding format) ↔
      (format = .c → 0x200000 ≤ v → Rejects internals width (CIntType.int.convert v)) := by
  cases format with
  | number format =>
    exact iff_of_true (.inl (numberToPyUnicode_eq internals h width padding format))
      fun hc => by cases hc
  | c =>
    rw [cIntToPyUnicode]
    rcases lt_or_ge v 0x200000 with hlow | hhigh
    · exact iff_of_true (.inl (ucharToPyUnicode_of_lt internals h hlow width padding))
        fun _ hhigh => absurd hlow (not_lt.2 hhigh)
    · rw [pyFormat, if_neg (by omega), Agrees.raises_iff,
        ucharToPyUnicode_raises_iff internals h hhigh]
      exact ⟨fun hrejects _ _ => hrejects, fun hrejects => hrejects rfl hhigh⟩

end

/-- `signed char` -/
def signedChar : IntType := ⟨1, true, Nat.one_pos⟩

/-- The least value of a type, with zeros after its sign. -/
theorem agrees_signedChar_min :
    Agrees (cIntToPyUnicode true signedChar (-128) 6 .zero (.number .d))
      (pyFormat (-128) 6 .zero (.number .d)) :=
  (cIntToPyUnicode_agrees_iff true (t := signedChar) (by decide) 6 .zero (.number .d)).2
    fun h => by cases h

theorem eight_pos : 0 < 8 := by decide

/-- `long` -/
def longType : IntType := ⟨8, true, eight_pos⟩

/-- The value 2 ** 32 + 65 is formatted as the character `A`. -/
theorem not_agrees_long_char :
    longType.type.InRange (2 ^ 32 + 65) ∧
      ¬Agrees (cIntToPyUnicode true longType (2 ^ 32 + 65) 0 .blank .c)
        (pyFormat (2 ^ 32 + 65) 0 .blank .c) := by
  have hrange : longType.type.InRange (2 ^ 32 + 65) := by decide
  have hconvert : CIntType.int.convert (2 ^ 32 + 65) = 65 := by decide
  refine ⟨hrange, fun h => ?_⟩
  rw [pyFormat, if_neg (by norm_num), Agrees.raises_iff, cIntToPyUnicode,
    ucharToPyUnicode_raises_iff true hrange (by norm_num), hconvert, Rejects,
    if_pos (by norm_num)] at h
  exact h (by norm_num)

end AHPy.Formatting
