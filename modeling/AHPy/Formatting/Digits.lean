import AHPy.Formatting.CIntToUnicode

/-!
# The digits of a C integer

The loop over the digits (`digitLoop`) does not need the absolute value of the number: the
digits of a negative remainder are those of its absolute value.

* `NumberFormat.digits_of_le`: the digits that Python formats, from the last one;
* `digitLoop_pairs`, `digitLoop_hex`: the digits that are left in the buffer;
* `exists_digitLoop`: the digits of all values of a type fit into the buffer, and a sign.
-/

namespace AHPy.Formatting

/-! ## The digits of Python -/

namespace NumberFormat

variable {format : NumberFormat} {n : ℕ}

theorem one_lt_base (format : NumberFormat) : 1 < format.base := by cases format <;> decide

theorem digits_of_lt (h : n < format.base) : format.digits n = [format.digit n] := by
  rw [digits]
  split
  next h₀ => rw [h₀]
  next h₀ => rw [Nat.digits_of_lt _ _ h₀ h, List.map_singleton, List.reverse_singleton]

theorem digits_of_le (h : format.base ≤ n) :
    format.digits n = format.digits (n / format.base) ++ [format.digit (n % format.base)] := by
  have hb := one_lt_base format
  have hdiv : n / format.base ≠ 0 := Nat.ne_of_gt (Nat.div_pos h (by omega))
  rw [digits, if_neg (by omega), digits, if_neg hdiv, Nat.digits_def' hb (by omega), List.map_cons,
    List.reverse_cons]

theorem digit_lt (h : n < format.base) : format.digit n < 128 := by
  cases format <;> simp only [digit, base] at h ⊢ <;> split <;> omega

theorem digits_lt (n : ℕ) : ∀ c ∈ format.digits n, c < 128 := by
  have hb := one_lt_base format
  intro c hc
  rw [digits] at hc
  split at hc
  next =>
    rw [List.mem_singleton.1 hc]
    exact digit_lt (by omega)
  next =>
    obtain ⟨d, hd, rfl⟩ := List.mem_map.1 (List.mem_reverse.1 hc)
    exact digit_lt (Nat.digits_lt_base hb hd)

theorem digits_ne_nil (format : NumberFormat) (n : ℕ) : format.digits n ≠ [] := by
  rw [digits]
  split
  next => exact List.cons_ne_nil _ _
  next h =>
    rw [ne_eq, List.reverse_eq_nil_iff, List.map_eq_nil_iff, Nat.digits_eq_nil_iff_eq_zero]
    exact h

end NumberFormat

/-! ## Tables -/

/-- The characters that a table has for a number, if it has as many for each of them. -/
theorem take_drop_flatMap_range {f : ℕ → List ℕ} {m n p : ℕ} (hf : ∀ i, (f i).length = m)
    (hp : p < n) : (((List.range n).flatMap f).drop (p * m)).take m = f p := by
  obtain ⟨k, rfl⟩ := Nat.exists_eq_add_of_lt hp
  have hlength : ((List.range p).flatMap f).length = p * m := by
    rw [List.length_flatMap, List.map_congr_left fun i _ => hf i, List.map_const',
      List.sum_replicate, List.length_range, smul_eq_mul]
  rw [add_assoc, List.range_add, List.flatMap_append, ← hlength, List.drop_left,
    List.range_succ_eq_map, List.map_cons, List.flatMap_cons, add_zero, ← hf p, List.take_left]

theorem digitPairs_eq {base p : ℕ} (hp : p < base * base) :
    ((digitPairs base).drop (p * 2)).take 2 = [48 + p / base, 48 + p % base] :=
  take_drop_flatMap_range (fun _ => rfl) hp

theorem digitsHex_eq {d : ℕ} (hd : d < 16) :
    (digitsHex.drop d).take 1 = [NumberFormat.x.digit d] := by
  revert d
  decide

theorem digitsHex_upper_eq {d : ℕ} (hd : d < 16) :
    ((digitsHex.drop 16).drop d).take 1 = [NumberFormat.X.digit d] := by
  revert d
  decide

/-! ## Steps -/

section

variable {t : IntType} {r : ℤ}

/-- Quotients are values of the type. -/
theorem inRange_tdiv {t : CIntType} (h : t.InRange r) (k : ℕ) : t.InRange (r.tdiv k) := by
  have h₀ := CIntType.inRange_zero (t := t)
  have habs : (r.tdiv k).natAbs ≤ r.natAbs := by
    rw [Int.natAbs_tdiv]
    exact Nat.div_le_self _ _
  rcases le_total 0 r with hr | hr
  · have hq : 0 ≤ r.tdiv k := Int.tdiv_nonneg hr (Int.natCast_nonneg k)
    exact ⟨h₀.1.trans hq, by have := h.2; omega⟩
  · have hq : r.tdiv k ≤ 0 := by
      rw [← neg_neg r, Int.neg_tdiv, neg_nonpos]
      exact Int.tdiv_nonneg (neg_nonneg.2 hr) (Int.natCast_nonneg k)
    exact ⟨by have := h.1; omega, hq.trans_lt h₀.2⟩

/-- A digit is that of the absolute value. -/
theorem natAbs_convert_tmod (r : ℤ) {k : ℕ} (hk : 0 < k) (hk' : k ≤ 128) :
    (CIntType.int.convert (r.tmod k)).natAbs = r.natAbs % k := by
  have habs : (r.tmod k).natAbs = r.natAbs % k := by rw [Int.natAbs_tmod, Int.natAbs_natCast]
  have hlt := Nat.mod_lt r.natAbs hk
  have hrange : CIntType.int.InRange (r.tmod k) := by
    simp only [CIntType.InRange, CIntType.lo, CIntType.int, if_true]
    norm_num
    omega
  rw [CIntType.convert_of_inRange hrange, habs]

theorem prepend_chars (pos : ℕ) (chars cs : List ℕ) (h : cs.length ≤ pos) :
    (BackBuffer.mk pos chars).prepend cs = some ⟨pos - cs.length, cs ++ chars⟩ :=
  BackBuffer.prepend_of_le h

theorem pairStep_eq {base : ℕ} (h : t.type.InRange r) (hb : 0 < base) (hb' : base * base ≤ 128)
    {pos : ℕ} {chars : List ℕ} {off : Bool} (hpos : 2 ≤ pos) :
    pairStep t base (digitPairs base) ⟨r, ⟨pos, chars⟩, off⟩ =
      some ⟨r.tdiv (base * base : ℕ), ⟨pos - 2, [48 + r.natAbs % (base * base) / base,
        48 + r.natAbs % base] ++ chars⟩, r.natAbs % (base * base) < base⟩ := by
  have hpos' := Nat.mul_pos hb hb
  rw [pairStep]
  simp only
  rw [natAbs_convert_tmod r hpos' hb', digitPairs_eq (Nat.mod_lt _ hpos'), Nat.mod_mul_left_mod,
    prepend_chars _ _ _ hpos, Option.map_some,
    CIntType.convert_of_inRange (inRange_tdiv h _)]
  rfl

theorem hexStep_eq {table : List ℕ} {digit : ℕ → ℕ}
    (htable : ∀ {d}, d < 16 → (table.drop d).take 1 = [digit d]) (h : t.type.InRange r)
    {pos : ℕ} {chars : List ℕ} {off : Bool} (hpos : 1 ≤ pos) :
    hexStep t table ⟨r, ⟨pos, chars⟩, off⟩ =
      some ⟨r.tdiv 16, ⟨pos - 1, [digit (r.natAbs % 16)] ++ chars⟩, off⟩ := by
  have hdigit := natAbs_convert_tmod r (k := 16) (by norm_num) (by norm_num)
  have hrange := inRange_tdiv h 16
  rw [hexStep]
  simp only
  push_cast at hdigit hrange
  rw [hdigit, htable (Nat.mod_lt _ (by norm_num)),
    prepend_chars _ _ _ hpos, Option.map_some,
    CIntType.convert_of_inRange hrange]
  rfl

end

/-! ## The loop -/

section

variable {t : IntType} {format : NumberFormat}

theorem digitLoop_succ {n : ℕ} {s s' : DigitState} (h : digitStep t format s = some s') :
    digitLoop t format (n + 1) s =
      if s'.remaining ≠ 0 then digitLoop t format n s' else some s' := by
  rw [digitLoop, h, Option.bind_some]

theorem tdiv_eq_zero_iff (r : ℤ) {k : ℕ} (hk : 0 < k) : r.tdiv k = 0 ↔ r.natAbs < k := by
  rw [← Int.natAbs_eq_zero, Int.natAbs_tdiv, Int.natAbs_natCast]
  exact Nat.div_eq_zero_iff.trans (by omega)

section

variable (hdigit : ∀ {n}, n < format.base → format.digit n = 48 + n)

include hdigit

/-- A pair is the digits of a number, with a zero in front of a single one. -/
theorem pair_of_lt {n : ℕ} (h : n < format.base * format.base) :
    [48 + n / format.base, 48 + n % format.base] =
      (if n < format.base then [48] else []) ++ format.digits n := by
  have hb := NumberFormat.one_lt_base format
  split
  next hlow =>
    rw [NumberFormat.digits_of_lt hlow, hdigit hlow, Nat.div_eq_of_lt hlow, Nat.mod_eq_of_lt hlow]
    rfl
  next hhigh =>
    have hdiv : n / format.base < format.base := Nat.div_lt_of_lt_mul h
    rw [NumberFormat.digits_of_le (not_lt.1 hhigh), NumberFormat.digits_of_lt hdiv, hdigit hdiv,
      hdigit (Nat.mod_lt _ (by omega))]
    rfl

/-- The last pair of digits. -/
theorem digits_append_pair {n : ℕ} (h : format.base * format.base ≤ n) :
    format.digits (n / (format.base * format.base)) ++
        [48 + n % (format.base * format.base) / format.base, 48 + n % format.base] =
      format.digits n := by
  have hb := NumberFormat.one_lt_base format
  have hdiv : format.base ≤ n / format.base := (Nat.le_div_iff_mul_le (by omega)).2 h
  have hbase : format.base ≤ n := hdiv.trans (Nat.div_le_self _ _)
  rw [NumberFormat.digits_of_le hbase, NumberFormat.digits_of_le hdiv,
    hdigit (Nat.mod_lt _ (by omega)), hdigit (Nat.mod_lt _ (by omega)), Nat.div_div_eq_div_mul,
    Nat.mod_mul_right_div_self, List.append_assoc]
  rfl

end

/-- Pairs of digits. There may be a zero in front. -/
theorem digitLoop_pairs (hdigit : ∀ {n}, n < format.base → format.digit n = 48 + n)
    (hstep : ∀ s, digitStep t format s = pairStep t format.base (digitPairs format.base) s)
    (hbase : format.base * format.base ≤ 128) {k fuel pos : ℕ} {r : ℤ} (chars : List ℕ)
    (off : Bool) (hr : t.type.InRange r) (hlt : r.natAbs < (format.base * format.base) ^ k)
    (hk : 0 < k) (hpos : 2 * k ≤ pos) (hfuel : k ≤ fuel) :
    ∃ (off' : Bool) (pos' : ℕ), pos - 2 * k ≤ pos' ∧
      digitLoop t format fuel ⟨r, ⟨pos, chars⟩, off⟩ = some
        ⟨0, ⟨pos', (if off' then [48] else []) ++ format.digits r.natAbs ++ chars⟩, off'⟩ := by
  have hb : 0 < format.base := Nat.zero_lt_of_lt (NumberFormat.one_lt_base format)
  have hbb := Nat.mul_pos hb hb
  induction fuel generalizing k pos r chars off with
  | zero => omega
  | succ fuel ih =>
    have hs := (hstep ⟨r, ⟨pos, chars⟩, off⟩).trans (pairStep_eq hr hb hbase (by omega))
    rw [digitLoop_succ hs]
    rcases Nat.lt_or_ge r.natAbs (format.base * format.base) with hlow | hhigh
    · -- The last pair.
      have hzero : r.tdiv (format.base * format.base : ℕ) = 0 := (tdiv_eq_zero_iff r hbb).2 hlow
      rw [if_neg (not_not.2 hzero), hzero]
      refine ⟨r.natAbs < format.base, pos - 2, by omega, ?_⟩
      rw [Nat.mod_eq_of_lt hlow, pair_of_lt hdigit hlow]
      simp only [decide_eq_true_eq]
    · -- There are pairs before it, with less room.
      have hne : r.tdiv (format.base * format.base : ℕ) ≠ 0 := fun h =>
        absurd ((tdiv_eq_zero_iff r hbb).1 h) (not_lt.2 hhigh)
      obtain ⟨k, rfl⟩ := Nat.exists_eq_add_of_le' hk
      have hk' : 0 < k := by
        rcases Nat.eq_zero_or_pos k with rfl | hk'
        · rw [zero_add, pow_one] at hlt
          omega
        · exact hk'
      have habs : (r.tdiv (format.base * format.base : ℕ)).natAbs =
          r.natAbs / (format.base * format.base) := by
        rw [Int.natAbs_tdiv, Int.natAbs_natCast]
        rfl
      have hlt' : (r.tdiv (format.base * format.base : ℕ)).natAbs <
          (format.base * format.base) ^ k := by
        rw [habs]
        exact Nat.div_lt_of_lt_mul (by rw [← pow_succ']; exact hlt)
      obtain ⟨off', pos', hpos', hloop⟩ := ih
        ([48 + r.natAbs % (format.base * format.base) / format.base,
          48 + r.natAbs % format.base] ++ chars)
        (decide (r.natAbs % (format.base * format.base) < format.base)) (inRange_tdiv hr _)
        hlt' hk' (by omega : 2 * k ≤ pos - 2) (by omega)
      refine ⟨off', pos', by omega, ?_⟩
      rw [if_pos hne, hloop, habs, ← digits_append_pair hdigit hhigh]
      simp only [List.append_assoc]

/-- Single digits. -/
theorem digitLoop_hex {table : List ℕ} (hstep : ∀ s, digitStep t format s = hexStep t table s)
    (htable : ∀ {d}, d < 16 → (table.drop d).take 1 = [format.digit d])
    (hbase : format.base = 16) {k fuel pos : ℕ} {r : ℤ} (chars : List ℕ)
    (hr : t.type.InRange r) (hlt : r.natAbs < 16 ^ k) (hk : 0 < k) (hpos : k ≤ pos)
    (hfuel : k ≤ fuel) :
    ∃ pos', pos - k ≤ pos' ∧ digitLoop t format fuel ⟨r, ⟨pos, chars⟩, false⟩ =
      some ⟨0, ⟨pos', format.digits r.natAbs ++ chars⟩, false⟩ := by
  induction fuel generalizing k pos r chars with
  | zero => omega
  | succ fuel ih =>
    have hs := (hstep ⟨r, ⟨pos, chars⟩, false⟩).trans (hexStep_eq htable hr (by omega))
    rw [digitLoop_succ hs]
    have hiff := tdiv_eq_zero_iff r (k := 16) (by norm_num)
    have hdigits : (r.tdiv (16 : ℕ)).natAbs = r.natAbs / 16 := by
      rw [Int.natAbs_tdiv]
      rfl
    have hrange := inRange_tdiv hr 16
    push_cast at hiff hdigits hrange
    rcases Nat.lt_or_ge r.natAbs 16 with hlow | hhigh
    · refine ⟨pos - 1, by omega, ?_⟩
      rw [if_neg (not_not.2 (hiff.2 hlow)), hiff.2 hlow, Nat.mod_eq_of_lt hlow,
        NumberFormat.digits_of_lt (hlow.trans_eq hbase.symm)]
    · obtain ⟨k, rfl⟩ := Nat.exists_eq_add_of_le' hk
      have hk' : 0 < k := by
        rcases Nat.eq_zero_or_pos k with rfl | hk'
        · rw [zero_add, pow_one] at hlt
          omega
        · exact hk'
      have hlt' : (r.tdiv 16).natAbs < 16 ^ k := by
        rw [hdigits]
        exact Nat.div_lt_of_lt_mul (by rw [← pow_succ']; exact hlt)
      obtain ⟨pos', hpos', hloop⟩ := ih
        ([format.digit (r.natAbs % 16)] ++ chars) hrange hlt' hk' (by omega : k ≤ pos - 1)
        (by omega)
      refine ⟨pos', by omega, ?_⟩
      rw [if_pos fun h => absurd (hiff.1 h) (not_lt.2 hhigh), hloop, hdigits,
        NumberFormat.digits_of_le (n := r.natAbs) (hbase.trans_le hhigh), hbase, List.append_assoc]

end

/-! ## The room for the digits -/

theorem natAbs_lt {t : IntType} {v : ℤ} (h : t.type.InRange v) : v.natAbs < 2 ^ (8 * t.size) := by
  have hpow := CIntType.two_pow_width t.type
  have hpos : (0 : ℤ) < 2 ^ (t.type.width - 1) := by positivity
  have hwidth : t.type.width = 8 * t.size := rfl
  have hv : (v.natAbs : ℤ) < 2 ^ (8 * t.size) := by
    rw [← hwidth, hpow]
    cases hs : t.type.signed with
    | true =>
      have := (CIntType.inRange_signed hs).1 h
      omega
    | false =>
      have := (CIntType.inRange_unsigned hs).1 h
      omega
  exact_mod_cast hv

/-- Pairs of octal or decimal digits for the bits of so many bytes. -/
theorem lt_pairs {base size n : ℕ} (hb : 8 ≤ base) (h : n < 2 ^ (8 * size)) :
    n < (base * base) ^ ((4 * size + 2) / 3) := by
  have hbase : 64 ≤ base * base := Nat.mul_le_mul hb hb
  calc n < 2 ^ (8 * size) := h
    _ ≤ 2 ^ (6 * ((4 * size + 2) / 3)) := Nat.pow_le_pow_right (by norm_num) (by omega)
    _ = 64 ^ ((4 * size + 2) / 3) := pow_mul 2 6 _
    _ ≤ (base * base) ^ ((4 * size + 2) / 3) := Nat.pow_le_pow_left hbase _

/-- The digits of all values of a type fit into the buffer, and a sign: there is a zero in front
    of them, if the last pair had one digit too many. -/
theorem exists_digitLoop (t : IntType) (format : NumberFormat) {v : ℤ} (h : t.type.InRange v) :
    ∃ (off : Bool) (pos : ℕ), 1 ≤ pos ∧
      digitLoop t format (t.size * 3 + 2 + 1) ⟨v, ⟨t.size * 3 + 2, []⟩, false⟩ =
        some ⟨0, ⟨pos, (if off then [48] else []) ++ format.digits v.natAbs⟩, off⟩ := by
  have hsize := t.size_pos
  have hlt := natAbs_lt h
  have hpairs : 2 * ((4 * t.size + 2) / 3) + 1 ≤ t.size * 3 + 2 := by omega
  have hhex : v.natAbs < 16 ^ (2 * t.size) := by
    rw [show 16 = 2 ^ 4 by norm_num, ← pow_mul, ← mul_assoc]
    exact hlt
  have hdecimal (n : ℕ) (hn : n < NumberFormat.d.base) : NumberFormat.d.digit n = 48 + n :=
    if_pos hn
  have hoctal (n : ℕ) (hn : n < NumberFormat.o.base) : NumberFormat.o.digit n = 48 + n :=
    if_pos (Nat.lt_trans hn (by decide))
  cases format with
  | d =>
    obtain ⟨off, pos, hpos, hloop⟩ := digitLoop_pairs (hdecimal _) (fun _ => rfl) (by decide) []
      false h (lt_pairs (by decide) hlt) (by omega) (Nat.le_of_succ_le hpairs)
      (by omega : (4 * t.size + 2) / 3 ≤ t.size * 3 + 2 + 1)
    rw [List.append_nil] at hloop
    exact ⟨off, pos, by omega, hloop⟩
  | o =>
    obtain ⟨off, pos, hpos, hloop⟩ := digitLoop_pairs (hoctal _) (fun _ => rfl) (by decide) []
      false h (lt_pairs (by decide) hlt) (by omega) (Nat.le_of_succ_le hpairs)
      (by omega : (4 * t.size + 2) / 3 ≤ t.size * 3 + 2 + 1)
    rw [List.append_nil] at hloop
    exact ⟨off, pos, by omega, hloop⟩
  | x =>
    obtain ⟨pos, hpos, hloop⟩ := digitLoop_hex (fun _ => rfl) digitsHex_eq rfl [] h hhex (by omega)
      (by omega : 2 * t.size ≤ t.size * 3 + 2) (by omega : 2 * t.size ≤ t.size * 3 + 2 + 1)
    rw [List.append_nil] at hloop
    exact ⟨false, pos, by omega, hloop⟩
  | X =>
    obtain ⟨pos, hpos, hloop⟩ := digitLoop_hex (fun _ => rfl) digitsHex_upper_eq rfl [] h hhex
      (by omega) (by omega : 2 * t.size ≤ t.size * 3 + 2)
      (by omega : 2 * t.size ≤ t.size * 3 + 2 + 1)
    rw [List.append_nil] at hloop
    exact ⟨false, pos, by omega, hloop⟩

end AHPy.Formatting

/-!
## Formatted numbers

The sign goes in front of the digits, or in front of the padding.

* `buildFromAscii_eq`: both ways of building a text put the same characters together;
* `numberToPyUnicode_eq`: the text is the one that Python formats, for all values of the type.
-/

namespace AHPy.Formatting

/-! ## Building texts -/

/-- The sign and the padding in front of the characters. -/
def frontText (free : ℕ) (prependSign : Bool) (padding : Padding) : List ℕ :=
  if 0 < free then
    let sign := if prependSign then [minus] else []
    sign ++ List.replicate (free - sign.length) padding.char
  else []

variable {free ulength : ℕ} {chars : List ℕ} {prependSign : Bool} {padding : Padding}

theorem length_frontText (free : ℕ) (prependSign : Bool) (padding : Padding) :
    (frontText free prependSign padding).length = free := by
  rw [frontText]
  split
  next h =>
    simp only [List.length_append, List.length_replicate]
    cases prependSign
    · exact Nat.zero_add _
    · exact Nat.add_sub_of_le h
  next h => exact (Nat.eq_zero_of_not_pos h).symm

theorem frontText_false : frontText free false padding = List.replicate free padding.char := by
  rw [frontText]
  split
  next h => rfl
  next h => rw [Nat.eq_zero_of_not_pos h, List.replicate_zero]

theorem frontText_true : frontText (free + 1) true padding =
    minus :: List.replicate free padding.char := by
  rw [frontText, if_pos (Nat.succ_pos free)]
  rfl

theorem buildWithInternals_eq (h : free + chars.length = ulength) :
    buildWithInternals ulength chars prependSign padding =
      some (frontText free prependSign padding ++ chars) := by
  have huoffset : (ulength : ℤ) - chars.length = free := by omega
  have hlength := length_frontText free prependSign padding
  have hend := writeFrom_end (frontText free prependSign padding)
    (List.length_replicate : (List.replicate chars.length 0).length = chars.length)
  have hfront : (if (0 : ℤ) < free then
        writeFrom (List.replicate ulength 0) 0 (frontText free prependSign padding)
      else some (List.replicate ulength 0)) =
      some (frontText free prependSign padding ++ List.replicate chars.length 0) := by
    rw [← h, List.replicate_add]
    split
    next hpos => exact writeFrom_append [] _ (by rw [hlength, List.length_replicate])
    next hpos =>
      rw [Nat.eq_zero_of_not_pos (by omega : ¬0 < free)]
      rfl
  rw [hlength] at hend
  rw [← hend, buildWithInternals, ← Option.bind_some (f := fun udata => writeFrom udata free chars),
    ← hfront]
  simp only [huoffset, Int.toNat_natCast]
  congr 1
  split
  next hpos => rw [frontText, if_pos (show 0 < free by omega)]
  next hpos => rfl

theorem buildWithConcat_eq (h : free + chars.length = ulength) (hchars : ∀ c ∈ chars, c ≤ 127) :
    buildWithConcat ulength chars prependSign padding =
      .ok (frontText free prependSign padding ++ chars) := by
  have huoffset : (ulength : ℤ) - chars.length = free := by omega
  rw [buildWithConcat, decodeASCII, if_pos hchars, Except.map, huoffset]
  rcases Nat.eq_zero_or_pos free with rfl | hfree
  · rfl
  · obtain ⟨n, rfl⟩ := Nat.exists_eq_add_of_le' hfree
    cases prependSign with
    | false => simp [frontText_false]
    | true => simp [frontText_true]

/-- Both ways of building a text put the same characters together. -/
theorem buildFromAscii_eq (internals : Bool) (h : free + chars.length = ulength)
    (hchars : ∀ c ∈ chars, c ≤ 127) :
    buildFromAscii internals ulength chars prependSign padding =
      some (.ok (frontText free prependSign padding ++ chars)) := by
  rw [buildFromAscii]
  split
  next => rw [buildWithInternals_eq h, Option.map_some]
  next => rw [buildWithConcat_eq h hchars]

/-! ## Numbers -/

variable {t : IntType} {v : ℤ}

theorem isUnsigned_eq (t : IntType) : t.isUnsigned = !t.signed := by
  rw [IntType.isUnsigned, Bool.eq_iff_iff, decide_eq_true_iff, CIntType.convert_neg_one_pos_iff,
    Bool.not_eq_true']
  rfl

/-- The test for a negative number. -/
theorem negative_iff (h : t.type.InRange v) :
    ¬t.isUnsigned ∧ v ≤ t.type.convert (-1) ↔ v < 0 := by
  have hpow := CIntType.two_pow_width t.type
  have hpos : (1 : ℤ) ≤ 2 ^ (t.type.width - 1) := one_le_pow₀ (by norm_num)
  rw [isUnsigned_eq]
  cases hs : t.signed with
  | true =>
    have hneg : t.type.InRange (-1) := (CIntType.inRange_signed hs).2 (by omega)
    rw [CIntType.convert_of_inRange hneg]
    simp
    omega
  | false =>
    have := ((CIntType.inRange_unsigned hs).1 h).1
    simp
    omega

theorem fromOrdinal_natCast {c : ℕ} (h : c ≤ 127) : fromOrdinal c = .ok [c] := by
  rw [fromOrdinal, if_pos (by omega), Int.toNat_natCast]

/-- The end of the conversion: texts of one character are not built. -/
theorem finish_eq (internals prependSign : Bool) (padding : Padding)
    (hchars : ∀ c ∈ chars, c ≤ 127) (hne : chars ≠ [])
    (h : free + chars.length = ulength) :
    (if ulength = 1 then some (fromOrdinal (chars.headD 0))
      else buildFromAscii internals ulength chars prependSign padding) =
      some (.ok (frontText free prependSign padding ++ chars)) := by
  have hlength := List.length_pos_iff.2 hne
  split
  next hone =>
    obtain rfl : free = 0 := by omega
    obtain ⟨c, rfl⟩ := List.length_eq_one_iff.1 ((Nat.zero_add _).symm.trans (h.trans hone))
    exact congrArg some (fromOrdinal_natCast (hchars c (List.mem_singleton_self c)))
  next => exact buildFromAscii_eq internals h hchars

/-- The text of a number: zeros stand after the sign. -/
def signedText (v : ℤ) (width : ℕ) (padding : Padding) (digits : List ℕ) : List ℕ :=
  let sign := if v < 0 then [minus] else []
  let fill := List.replicate (width - (sign.length + digits.length)) padding.char
  if padding = .zero then sign ++ fill ++ digits else fill ++ sign ++ digits

theorem signedText_of_nonneg (hv : ¬v < 0) (width : ℕ) (digits : List ℕ) :
    signedText v width padding digits =
      List.replicate (width - digits.length) padding.char ++ digits := by
  rw [signedText, if_neg hv]
  simp

theorem signedText_of_neg (hv : v < 0) {width : ℕ} {digits : List ℕ}
    (h : padding = .blank ∨ width ≤ digits.length + 1) :
    signedText v width padding digits =
      List.replicate (width - (digits.length + 1)) padding.char ++ minus :: digits := by
  rw [signedText, if_pos hv]
  simp only [List.length_singleton, Nat.add_comm 1]
  rcases h with rfl | h
  · rw [if_neg (by decide), List.append_assoc, List.singleton_append]
  · rw [Nat.sub_eq_zero_of_le h, List.replicate_zero]
    split <;> rfl

theorem signedText_of_zeros (hv : v < 0) (width : ℕ) (digits : List ℕ) :
    signedText v width .zero digits =
      minus :: List.replicate (width - (digits.length + 1)) Padding.zero.char ++ digits := by
  rw [signedText, if_pos hv, if_pos rfl]
  simp only [List.length_singleton, Nat.add_comm 1]
  rfl

/-- The sign goes into the buffer of the digits, or in front of the padding. -/
theorem signDigits_eq (internals : Bool) (h : t.type.InRange v) (width : ℕ) (padding : Padding)
    {pos : ℕ} {digits : List ℕ} (hpos : 1 ≤ pos) (hdigits : ∀ c ∈ digits, c ≤ 127)
    (hne : digits ≠ []) :
    signDigits internals t v width padding ⟨pos, digits⟩ =
      some (.ok (signedText v width padding digits)) := by
  have hmax (n : ℕ) : (if width > n then width else n) = (width - n) + n := by
    split <;> omega
  rw [signDigits]
  simp only [negative_iff h, hmax]
  split
  next hv =>
    split
    next hin =>
      have hend := finish_eq internals false padding
        (List.forall_mem_cons.2 ⟨(by decide : minus ≤ 127), hdigits⟩) (List.cons_ne_nil _ _)
        (rfl : width - (digits.length + 1) + (minus :: digits).length = _)
      rw [frontText_false, ← signedText_of_neg hv hin] at hend
      rw [prepend_chars pos digits [minus] hpos, Option.bind_some]
      exact hend
    next hout =>
      obtain ⟨hpadding, hwidth⟩ := not_or.1 hout
      obtain rfl : padding = .zero := by
        cases padding with
        | blank => exact absurd rfl hpadding
        | zero => rfl
      have hfree : width - (digits.length + 1) + 1 + digits.length =
          width - (digits.length + 1) + (digits.length + 1) := by omega
      rw [finish_eq internals true .zero hdigits hne hfree,
        frontText_true, signedText_of_zeros hv]
  next hv =>
    rw [finish_eq internals false padding hdigits hne
      (rfl : width - digits.length + digits.length = _), frontText_false,
      signedText_of_nonneg hv]

/-- The text of a number is the one that Python formats. -/
theorem numberToPyUnicode_eq (internals : Bool) (h : t.type.InRange v) (width : ℕ)
    (padding : Padding) (format : NumberFormat) :
    numberToPyUnicode internals t v width padding format =
      some (pyFormat v width padding (.number format)) := by
  obtain ⟨off, pos, hpos, hloop⟩ := exists_digitLoop t format h
  have hdigits (c : ℕ) (hc : c ∈ format.digits v.natAbs) : c ≤ 127 :=
    Nat.le_of_lt_succ (format.digits_lt _ c hc)
  have hne := format.digits_ne_nil v.natAbs
  rw [numberToPyUnicode]
  simp only
  rw [hloop, Option.bind_some]
  cases off with
  | true => exact signDigits_eq internals h width padding (Nat.le_add_left 1 pos) hdigits hne
  | false => exact signDigits_eq internals h width padding hpos hdigits hne

end AHPy.Formatting
