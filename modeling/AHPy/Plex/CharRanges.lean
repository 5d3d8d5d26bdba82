import AHPy.Plex.Languages
import AHPy.Plex.LexiconNfa

/-!
# Ranges of characters

What the ranges of `chars_to_ranges` cover. They are sorted, and no two of them touch;
the characters of the string are in them. But a range gets longer by one with each
character that is not behind its end, also with one that is in it already: the ranges
are as long, taken together, as the string.

* `coversExactly_iff`: so they cover the characters of the string and no others if and only
  if no character is in it twice. Then `Any` and `AnyBut` match as they say.
-/

namespace AHPy.Plex

/-! ## Ranges -/

/-- The ranges are sorted, and there are codes between any two of them. -/
structure Separate (ranges : List (Int × Int)) : Prop where
  lt : ∀ r ∈ ranges, r.1 < r.2
  pairwise : ranges.Pairwise fun r r' => r.2 < r'.1

/-- The code is in one of the ranges. -/
def Covered (ranges : List (Int × Int)) (code : Int) : Prop :=
  ∃ r ∈ ranges, r.1 ≤ code ∧ code < r.2

theorem covered_cons {r : Int × Int} {ranges : List (Int × Int)} {code : Int} :
    Covered (r :: ranges) code ↔ (r.1 ≤ code ∧ code < r.2) ∨ Covered ranges code :=
  List.exists_mem_cons_iff _ _ _

/-- The codes of ranges. -/
noncomputable def codeSet (ranges : List (Int × Int)) : Finset Int :=
  ranges.foldr (fun r codes => Finset.Ico r.1 r.2 ∪ codes) ∅

theorem mem_codeSet {ranges : List (Int × Int)} {code : Int} :
    code ∈ codeSet ranges ↔ Covered ranges code := by
  induction ranges with
  | nil => simp [codeSet, Covered]
  | cons r ranges ih =>
    rw [codeSet, List.foldr_cons, ← codeSet, Finset.mem_union, Finset.mem_Ico, ih, covered_cons]

/-- How many codes are in ranges, one after the other. -/
def total (ranges : List (Int × Int)) : Nat := (ranges.map fun r => (r.2 - r.1).toNat).sum

theorem Separate.card_codeSet {ranges : List (Int × Int)} (h : Separate ranges) :
    (codeSet ranges).card = total ranges := by
  induction ranges with
  | nil => rfl
  | cons r ranges ih =>
    obtain ⟨hlt, hranges⟩ := List.forall_mem_cons.1 h.lt
    obtain ⟨hbefore, hpairwise⟩ := List.pairwise_cons.1 h.pairwise
    have hdisjoint : Disjoint (Finset.Ico r.1 r.2) (codeSet ranges) := by
      rw [Finset.disjoint_left]
      intro code hcode hmem
      obtain ⟨r', hr', hcode'⟩ := mem_codeSet.1 hmem
      rw [Finset.mem_Ico] at hcode
      have := hbefore r' hr'
      omega
    rw [codeSet, List.foldr_cons, ← codeSet, Finset.card_union_of_disjoint hdisjoint,
      ih ⟨hranges, hpairwise⟩, Int.card_Ico, total, total, List.map_cons, List.sum_cons]

/-- The gaps between ranges, with what is before the first and after the last. -/
theorem Separate.covered_between {ranges : List (Int × Int)} (h : Separate ranges) {a z : Int}
    (ha : ∀ r ∈ ranges, a ≤ r.1) (hz : ∀ r ∈ ranges, r.2 ≤ z) (haz : a ≤ z) (code : Int) :
    Covered (pairs (a :: flattenPairs ranges ++ [z])) code ↔
      (a ≤ code ∧ code < z) ∧ ¬Covered ranges code := by
  induction ranges generalizing a with
  | nil => simp [flattenPairs, pairs, Covered]
  | cons r ranges ih =>
    obtain ⟨hlt, hranges⟩ := List.forall_mem_cons.1 h.lt
    obtain ⟨hbefore, hpairwise⟩ := List.pairwise_cons.1 h.pairwise
    obtain ⟨har, -⟩ := List.forall_mem_cons.1 ha
    obtain ⟨hrz, hz⟩ := List.forall_mem_cons.1 hz
    have hcons : pairs (a :: flattenPairs (r :: ranges) ++ [z]) =
        (a, r.1) :: pairs (r.2 :: flattenPairs ranges ++ [z]) := rfl
    have hrest := ih ⟨hranges, hpairwise⟩ (fun r' hr' => (hbefore r' hr').le) hz hrz
    have hafter : Covered ranges code → r.2 < code := by
      rintro ⟨r', hr', hcode⟩
      exact (hbefore r' hr').trans_le hcode.1
    rw [hcons, covered_cons, covered_cons, hrest]
    by_cases hcode : Covered ranges code
    · have := hafter hcode
      simp only [hcode, not_true, and_false, or_true, or_false, iff_false]
      omega
    · simp only [hcode, not_false_eq_true, and_true, or_false]
      omega

/-! ## The ranges of a string -/

/-- What `extendRange` makes of sorted codes after those of a range. -/
structure Extends (code1 code2 : Int) (codes : List Int) (ranges : List (Int × Int)) : Prop where
  separate : Separate ranges
  le : ∀ r ∈ ranges, code1 ≤ r.1
  start : ∀ code, code1 ≤ code → code < code2 → Covered ranges code
  covered : ∀ code ∈ codes, Covered ranges code
  total : total ranges = (code2 - code1).toNat + codes.length
  /-- Without repetitions no other codes are covered. -/
  exact : codes.Pairwise (· < ·) → (∀ code ∈ codes, code2 ≤ code) → ∀ code, Covered ranges code →
    (code1 ≤ code ∧ code < code2) ∨ code ∈ codes

theorem extendRange_extends {code1 code2 : Int} (hlt : code1 < code2) {codes : List Int}
    (hsorted : codes.Pairwise (· ≤ ·)) (hle : ∀ code ∈ codes, code1 ≤ code) :
    ∃ ranges, extendRange code1 code2 codes = flattenPairs ranges ∧
      Extends code1 code2 codes ranges := by
  induction codes generalizing code1 code2 with
  | nil =>
    refine ⟨[(code1, code2)], rfl, ⟨⟨by simpa using hlt, List.pairwise_singleton _ _⟩, by simp,
      fun code h₁ h₂ => ⟨_, List.mem_singleton_self _, h₁, h₂⟩, by simp, by simp [total], ?_⟩⟩
    rintro - - code ⟨r, hr, hcode⟩
    rw [List.mem_singleton.1 hr] at hcode
    exact .inl hcode
  | cons c codes ih =>
    obtain ⟨hc, hle⟩ := List.forall_mem_cons.1 hle
    obtain ⟨hfirst, hsorted⟩ := List.pairwise_cons.1 hsorted
    rw [extendRange]
    by_cases hnext : code2 ≥ c
    · obtain ⟨ranges, heq, h⟩ := ih (show code1 < code2 + 1 by omega) hsorted hle
      rw [if_pos hnext]
      refine ⟨ranges, heq, h.separate, h.le, fun code h₁ h₂ => h.start code h₁ (by omega),
        List.forall_mem_cons.2 ⟨h.start c hc (by omega), h.covered⟩, ?_, fun hstrict hge => ?_⟩
      · rw [h.total, List.length_cons]
        omega
      · -- The next code is the end of the range: it is not one of the range again.
        obtain ⟨hstrict, hstrict'⟩ := List.pairwise_cons.1 hstrict
        have hcode2 : c = code2 := le_antisymm hnext (hge c List.mem_cons_self)
        have hge' : ∀ code ∈ codes, code2 + 1 ≤ code := fun code hcode => by
          have := hstrict code hcode
          omega
        intro code hcode
        rw [List.mem_cons]
        rcases h.exact hstrict' hge' code hcode with hin | hmem
        · omega
        · exact .inr (.inr hmem)
    · obtain ⟨ranges, heq, h⟩ := ih (show c < c + 1 by omega) hsorted hfirst
      rw [if_neg hnext]
      refine ⟨(code1, code2) :: ranges, by rw [heq]; rfl,
        ⟨List.forall_mem_cons.2 ⟨hlt, h.separate.lt⟩,
          List.pairwise_cons.2 ⟨fun r hr => ?_, h.separate.pairwise⟩⟩,
        List.forall_mem_cons.2 ⟨le_rfl, fun r hr => hc.trans (h.le r hr)⟩,
        fun code h₁ h₂ => covered_cons.2 (.inl ⟨h₁, h₂⟩), List.forall_mem_cons.2
          ⟨covered_cons.2 (.inr (h.start c le_rfl (by omega))),
            fun code hcode => covered_cons.2 (.inr (h.covered code hcode))⟩, ?_,
        fun hstrict _ code hcode => ?_⟩
      · have := h.le r hr
        simp only
        omega
      · have htotal := h.total
        rw [Plex.total] at htotal ⊢
        rw [List.map_cons, List.sum_cons, htotal, List.length_cons]
        omega
      · obtain ⟨hstrict, hstrict'⟩ := List.pairwise_cons.1 hstrict
        rw [List.mem_cons]
        rcases covered_cons.1 hcode with hin | hcode
        · exact .inl hin
        · rcases h.exact hstrict' (fun code hcode => hstrict code hcode) code hcode with hin | hmem
          · exact .inr (.inl (by omega))
          · exact .inr (.inr hmem)

theorem charsToRanges_extends (s : List CodePoint) :
    ∃ ranges, charsToRanges s = flattenPairs ranges ∧ Separate ranges ∧
      (∀ c ∈ s, Covered ranges c.val) ∧ (∀ r ∈ ranges, 0 ≤ r.1) ∧ total ranges = s.length ∧
      (s.Nodup → ∀ code, Covered ranges code → ∃ c ∈ s, code = c.val) := by
  have hmem : ∀ code : Int, code ∈ (s.map fun c => (c.val : Int)).insertionSort (· ≤ ·) ↔
      ∃ c ∈ s, code = c.val := by
    intro code
    rw [List.mem_insertionSort, List.mem_map]
    exact exists_congr fun c => and_congr_right fun _ => eq_comm
  have hsorted := List.pairwise_insertionSort (· ≤ ·) (s.map fun c => (c.val : Int))
  have hlength := List.length_insertionSort (· ≤ ·) (s.map fun c => (c.val : Int))
  have hnodup : s.Nodup → ((s.map fun c => (c.val : Int)).insertionSort (· ≤ ·)).Nodup := by
    intro h
    rw [(List.perm_insertionSort (· ≤ ·) _).nodup_iff]
    exact h.map fun c c' heq => Fin.ext (by simpa using heq)
  rw [List.length_map] at hlength
  rw [charsToRanges]
  generalize (s.map fun c => (c.val : Int)).insertionSort (· ≤ ·) = codes at *
  rcases codes with _ | ⟨code1, codes⟩
  · refine ⟨[], rfl, ⟨by simp, .nil⟩, fun c hc => ?_, by simp, hlength, ?_⟩
    · exact absurd ((hmem c.val).2 ⟨c, hc, rfl⟩) List.not_mem_nil
    · rintro - code ⟨r, hr, -⟩
      exact absurd hr List.not_mem_nil
  · obtain ⟨hfirst, hsorted⟩ := List.pairwise_cons.1 hsorted
    obtain ⟨ranges, heq, h⟩ := extendRange_extends (lt_add_one code1) hsorted hfirst
    have hpos : 0 ≤ code1 := by
      obtain ⟨c, -, rfl⟩ := (hmem code1).1 List.mem_cons_self
      exact Int.natCast_nonneg _
    refine ⟨ranges, heq, h.separate, fun c hc => ?_, fun r hr => hpos.trans (h.le r hr), ?_,
      fun hs code hcode => ?_⟩
    · rcases List.mem_cons.1 ((hmem c.val).2 ⟨c, hc, rfl⟩) with hc | hc
      · exact h.start _ hc.ge (by omega)
      · exact h.covered _ hc
    · rw [h.total, ← hlength, List.length_cons]
      omega
    · have hstrict : (code1 :: codes).Pairwise (· < ·) :=
        ((List.pairwise_cons.2 ⟨hfirst, hsorted⟩).and (hnodup hs)).imp fun h => lt_of_le_of_ne h.1 h.2
      obtain ⟨hstrict, hstrict'⟩ := List.pairwise_cons.1 hstrict
      refine (hmem code).1 (List.mem_cons.2 ?_)
      exact (h.exact hstrict' hstrict code hcode).imp_left fun h => by omega

/-- Two ranges cover no more codes than there are in a list only if this has none twice. -/
theorem nodup_of_covered {s : List CodePoint} {ranges : List (Int × Int)} (h : Separate ranges)
    (htotal : total ranges = s.length)
    (hcovered : ∀ code, Covered ranges code → ∃ c ∈ s, code = c.val) : s.Nodup := by
  have hsub : codeSet ranges ⊆ s.toFinset.image fun c => (c.val : Int) := by
    intro code hcode
    obtain ⟨c, hc, rfl⟩ := hcovered code (mem_codeSet.1 hcode)
    exact Finset.mem_image.2 ⟨c, List.mem_toFinset.2 hc, rfl⟩
  have hcard := (Finset.card_le_card hsub).trans Finset.card_image_le
  rw [h.card_codeSet, htotal, List.card_toFinset] at hcard
  rw [← List.dedup_eq_self]
  exact (List.dedup_sublist s).eq_of_length_le hcard

/-! ## Character sets -/

/-- `Any(s)`. -/
def any (s : List CodePoint) : RE := codeRanges (charsToRanges s)

/-- `AnyBut(s)`. -/
def anyBut (s : List CodePoint) : RE := codeRanges (-maxint :: charsToRanges s ++ [maxint])

theorem mem_language_codeRanges {codeList : List Int} {w : List Symbol} :
    w ∈ (codeRanges codeList).language false ↔
      ∃ c : CodePoint, Covered (pairs codeList) c.val ∧ w = [.char c] := by
  rw [codeRanges, RE.language, RE.mem_altLanguage]
  constructor
  · rintro ⟨re, hre, hw⟩
    obtain ⟨r, hr, rfl⟩ := List.mem_map.1 hre
    obtain ⟨c, hc, rfl⟩ := RE.mem_language_codeRange.1 hw
    exact ⟨c, ⟨r, hr, hc⟩, rfl⟩
  · rintro ⟨c, ⟨r, hr, hc⟩, rfl⟩
    exact ⟨_, List.mem_map_of_mem hr, RE.mem_language_codeRange.2 ⟨c, hc, rfl⟩⟩

/-- The ranges of a string are sorted and do not touch, they cover its characters and
    no others, and `Any` and `AnyBut` match these and the others. -/
structure CoversExactly (s : List CodePoint) : Prop where
  flatten : flattenPairs (pairs (charsToRanges s)) = charsToRanges s
  separate : Separate (pairs (charsToRanges s))
  covered_iff : ∀ code, Covered (pairs (charsToRanges s)) code ↔ ∃ c ∈ s, code = c.val
  any : ∀ w, w ∈ (any s).language false ↔ ∃ c ∈ s, w = [.char c]
  anyBut : ∀ w, w ∈ (anyBut s).language false ↔ ∃ c, c ∉ s ∧ w = [.char c]

/-- `chars_to_ranges` covers a string exactly if no character is in it twice, and only
    then. -/
theorem coversExactly_iff (s : List CodePoint) : CoversExactly s ↔ s.Nodup := by
  obtain ⟨ranges, heq, hseparate, hcovered, hpos, htotal, hexact⟩ := charsToRanges_extends s
  have hpairs : pairs (charsToRanges s) = ranges := by rw [heq, pairs_flattenPairs]
  constructor
  · intro h
    refine nodup_of_covered hseparate htotal fun code hcode => ?_
    rw [← hpairs] at hcode
    exact (h.covered_iff code).1 hcode
  · intro hs
    have hiff : ∀ code, Covered ranges code ↔ ∃ c ∈ s, code = c.val := by
      refine fun code => ⟨hexact hs code, ?_⟩
      rintro ⟨c, hc, rfl⟩
      exact hcovered c hc
    have hchar : ∀ c : CodePoint, Covered ranges c.val ↔ c ∈ s := by
      intro c
      rw [hiff]
      refine ⟨?_, fun hc => ⟨c, hc, rfl⟩⟩
      rintro ⟨c', hc', heq⟩
      rwa [Fin.ext (show c.val = c'.val by simpa using heq)]
    refine ⟨by rw [hpairs, heq], hpairs ▸ hseparate, by rwa [hpairs], fun w => ?_, fun w => ?_⟩
    · rw [Plex.any, mem_language_codeRanges, hpairs]
      simp only [hchar]
    · have hend : ∀ r ∈ ranges, r.2 ≤ maxint := by
        intro r hr
        have hmaxint : maxint = 2147483647 := rfl
        obtain ⟨c, -, hc⟩ := (hiff (r.2 - 1)).1 ⟨r, hr, by have := hseparate.lt r hr; omega⟩
        have := c.isLt
        omega
      have hstart : ∀ r ∈ ranges, -maxint ≤ r.1 := fun r hr => le_trans (by decide) (hpos r hr)
      have hbetween := hseparate.covered_between hstart hend (by decide)
      rw [Plex.anyBut, mem_language_codeRanges, heq]
      refine exists_congr fun c => and_congr_left fun _ => ?_
      rw [hbetween, hchar]
      refine and_iff_right ⟨?_, ?_⟩
      · exact le_trans (by decide) (Int.natCast_nonneg _)
      · have := c.isLt
        have hmaxint : maxint = 2147483647 := rfl
        omega

/-- With `'a'` twice, `'b'` is covered. -/
theorem not_coversExactly : ¬∀ s : List CodePoint, CoversExactly s := by
  intro h
  have hcovered : Covered (pairs (charsToRanges [97, 97])) 98 := ⟨(97, 99), by decide, by decide⟩
  obtain ⟨c, hc, heq⟩ := ((h [97, 97]).covered_iff 98).1 hcovered
  simp only [List.mem_cons, List.not_mem_nil, or_false, or_self] at hc
  rw [hc] at heq
  exact absurd heq (by decide)

end AHPy.Plex
