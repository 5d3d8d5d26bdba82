import AHPy.StringTable.Generation
import AHPy.Lzss.RoundTrip

/-!
# The table is what was put into it

The initialisation undoes the concatenation, for each way to compress it.

* `data_eq`: all compressions give the concatenated bytes;
* `unpackTexts_spec`, `unpackBytes_spec`: the loops slice them at the lengths;
* `initialise_eq`: the table has the sorted texts, then the sorted bytes.
-/

namespace AHPy.StringTable

/-! ## Data -/

/-- A text survives its encoding. -/
theorem decodeUTF8_encodeUTF8 (s : String) : decodeUTF8 (encodeUTF8 s) = some s := by
  have hbytes : (⟨(encodeUTF8 s).toArray⟩ : ByteArray) = s.toByteArray := rfl
  rw [decodeUTF8, hbytes, String.fromUTF8?, dif_pos s.isValidUTF8]
  rfl

theorem encodeUTF8_injective {s t : String} (h : encodeUTF8 s = encodeUTF8 t) : s = t := by
  rw [← Option.some_inj, ← decodeUTF8_encodeUTF8 s, h, decodeUTF8_encodeUTF8]

/-- What the loop over the algorithms keeps is compressed data. -/
theorem compressWith_of_mem_compressions {libs : Libraries} {data compressed : Bytes}
    {a : Algorithm} (h : (a, compressed) ∈ (compressions libs data).found) :
    compressWith libs data a = some compressed ∧ data ≠ [] := by
  let P (s : Compressions) : Prop :=
    ∀ f ∈ s.found, compressWith libs data f.1 = some f.2 ∧ data ≠ []
  have hstep : ∀ (s : Compressions) (a : Algorithm), P s → P (tryAlgorithm libs data s a) := by
    intro s a hs
    cases hc : compressWith libs data a with
    | none => simpa only [tryAlgorithm, hc] using hs
    | some compressed =>
      by_cases hlong : data.length < compressed.length + 200
      · simpa only [tryAlgorithm, hc, if_pos hlong] using hs
      have hP : ∀ f ∈ s.found ++ [(a, compressed)],
          compressWith libs data f.1 = some f.2 ∧ data ≠ [] := by
        intro f hf
        rcases List.mem_append.1 hf with hf | hf
        · exact hs f hf
        · obtain rfl := List.mem_singleton.1 hf
          refine ⟨hc, ?_⟩
          rintro rfl
          exact hlong (by simp)
      simp only [tryAlgorithm, hc, if_neg hlong]
      split_ifs <;> first | exact hP | exact hs
  have hfold : ∀ (as : List Algorithm) (s : Compressions), P s →
      P (as.foldl (tryAlgorithm libs data) s) := by
    intro as
    induction as with
    | nil => exact fun s hs => hs
    | cons a as ih => exact fun s hs => ih _ (hstep s a hs)
  exact hfold _ _ (by simp [P]) _ h

/-- The data is what was concatenated, whatever is chosen when the code is compiled. -/
theorem data_eq {libs : Libraries} {out : Output}
    (h : out.compressions = compressions libs out.concatBytes) (settings : Settings) :
    out.data libs settings = some out.concatBytes := by
  cases hs : out.selected settings with
  | none => rw [Output.data, hs]
  | some f =>
    obtain ⟨a, compressed⟩ := f
    have hmem := List.mem_reverse.1 (List.mem_of_find?_eq_some hs)
    rw [h] at hmem
    obtain ⟨hcompress, hne⟩ := compressWith_of_mem_compressions hmem
    have hlibrary : (libs.find a).map (fun c => c.compress out.concatBytes) = some compressed →
        ((libs.find a).bind fun c => c.decompress compressed) = some out.concatBytes := by
      intro hc
      obtain ⟨c, hfind, rfl⟩ := Option.map_eq_some_iff.1 hc
      rw [hfind, Option.bind_some, c.lossless]
    cases a with
    | lzss =>
      obtain ⟨compressed', hcompress', hdecompress⟩ := Lzss.lzssDecompress_lzssCompress hne
      obtain rfl := Option.some.inj (hcompress'.symm.trans hcompress)
      simp only [Output.data, hs, Lzss.decompressString_of_lzssDecompress hdecompress]
    | zlib => simpa only [Output.data, hs] using hlibrary hcompress
    | bz2 => simpa only [Output.data, hs] using hlibrary hcompress
    | zstd => simpa only [Output.data, hs] using hlibrary hcompress

/-! ## Lengths -/

theorem le_foldl_max {l : List ℕ} {n m : ℕ} : n ≤ l.foldl max m ↔ n ≤ m ∨ ∃ k ∈ l, n ≤ k := by
  induction l generalizing m with
  | nil => simp
  | cons k l ih => rw [List.foldl_cons, ih, le_max_iff, List.exists_mem_cons_iff, or_assoc]

/-- The bit-field is wide enough for its lengths. -/
theorem read_lengthIndex {lengths : List ℕ} {n : ℕ} (h : n ∈ lengths) :
    (lengthIndex lengths).read n = n := by
  have hle : n ≤ lengths.foldl max 0 := le_foldl_max.2 (.inr ⟨n, h, le_rfl⟩)
  exact Nat.mod_eq_of_lt (hle.trans_lt (Nat.lt_size_self _))

/-- The declaration of a bit-field is valid if some length is positive, and none has more than
    the bits of an `unsigned int`. -/
theorem valid_lengthIndex {α : Type*} (l : List α) (f : α → ℕ) : (lengthIndex (l.map f)).Valid ↔
    ∀ a ∈ l, (∃ b ∈ l, 0 < f b) ∧ f a < 2 ^ unsignedIntBits := by
  have hpos : 0 < (lengthIndex (l.map f)).width ↔ ∃ a ∈ l, 0 < f a := by
    rw [lengthIndex, Nat.size_pos]
    exact le_foldl_max.trans ((or_iff_right (by simp)).trans (by simp [Nat.succ_le_iff]))
  have hle : (lengthIndex (l.map f)).width ≤ unsignedIntBits ↔
      ∀ a ∈ l, f a < 2 ^ unsignedIntBits := by
    rw [lengthIndex, Nat.size_le, ← not_iff_not, not_lt, le_foldl_max]
    simp
  rw [LengthIndex.Valid, hpos, hle]
  constructor
  · intro h a ha
    obtain ⟨hwidth, hlong⟩ := h (List.ne_nil_of_mem (List.mem_map_of_mem ha))
    exact ⟨hwidth, hlong a ha⟩
  · intro h hne
    obtain ⟨n, hn⟩ := List.exists_mem_of_ne_nil _ hne
    obtain ⟨a, ha, -⟩ := List.mem_map.1 hn
    exact ⟨(h a ha).1, fun b hb => (h b hb).2⟩

/-! ## Interned texts -/

/-- Where interned texts are last, the position of the first one tells which are interned. -/
theorem findFirstInterned_spec {texts : List TextEntry}
    (h : texts.Pairwise fun a b => a.intern = true → b.intern = true) (pos : ℕ) :
    ∃ first, findFirstInterned texts pos none = some first ∧ (∀ f ∈ first, pos ≤ f) ∧
      ∀ i e, texts[i]? = some e → first.elim false (· ≤ pos + i) = e.intern := by
  have hall : ∀ (texts : List TextEntry) (pos first : ℕ), (∀ e ∈ texts, e.intern = true) →
      findFirstInterned texts pos (some first) = some (some first) := by
    intro texts
    induction texts with
    | nil => exact fun _ _ _ => rfl
    | cons e texts ih =>
      intro pos first hintern
      rw [findFirstInterned, if_pos (hintern e List.mem_cons_self),
        ih _ _ fun e' he' => hintern e' (List.mem_cons_of_mem e he')]
  induction texts generalizing pos with
  | nil => exact ⟨none, rfl, by simp, by simp⟩
  | cons e texts ih =>
    obtain ⟨hhead, htail⟩ := List.pairwise_cons.1 h
    cases he : e.intern with
    | true =>
      refine ⟨some pos, ?_, fun f hf => (Option.some.inj hf).le, fun i e' hi => ?_⟩
      · rw [findFirstInterned, he, if_pos rfl, hall _ _ _ fun e' he' => hhead e' he' he]
      · have he' : e'.intern = true := by
          rcases List.mem_cons.1 (List.mem_of_getElem? hi) with rfl | hmem
          · exact he
          · exact hhead e' hmem he
        simp [he']
    | false =>
      obtain ⟨first, hfind, hle, hfirst⟩ := ih htail (pos + 1)
      refine ⟨first, ?_, fun f hf => (Nat.le_succ pos).trans (hle f hf), fun i e' hi => ?_⟩
      · rw [findFirstInterned, he, if_neg Bool.false_ne_true, hfind]
      · cases i with
        | zero =>
          obtain rfl := Option.some.inj hi
          rw [he]
          cases hf : first with
          | none => rfl
          | some f => exact decide_eq_false (Nat.not_le.2 (hle f hf))
        | succ i => rw [← hfirst i e' hi, Nat.add_right_comm, Nat.add_assoc]

/-! ## Slices -/

theorem slice_append (before bytes after : Bytes) :
    slice (before ++ bytes ++ after) before.length bytes.length = some bytes := by
  rw [slice, if_pos (by simp), List.append_assoc, List.drop_left, List.take_left]

/-- The texts, and the position after them. -/
theorem unpackTexts_spec {out : Output} {texts : List TextEntry}
    (hread : ∀ e ∈ texts, out.strIndex.read (encodeUTF8 e.text).length = (encodeUTF8 e.text).length)
    {i : ℕ} (hfirst : ∀ j e, texts[j]? = some e →
      out.firstInterned.elim false (· ≤ i + j) = e.intern) (before after : Bytes) :
    unpackTexts out (before ++ (texts.map fun e => encodeUTF8 e.text).flatten ++ after) i
        before.length (texts.map fun e => (encodeUTF8 e.text).length) =
      some (texts.map fun e => .str e.text e.intern,
        (before ++ (texts.map fun e => encodeUTF8 e.text).flatten).length) := by
  induction texts generalizing i before with
  | nil => simp [unpackTexts]
  | cons e texts ih =>
    have hrest := ih (fun e' he' => hread e' (List.mem_cons_of_mem e he')) (i := i + 1)
      (fun j e' hj => by rw [← hfirst (j + 1) e' hj, Nat.add_right_comm, Nat.add_assoc])
      (before ++ encodeUTF8 e.text)
    simp only [List.length_append, List.append_assoc] at hrest
    have hslice := slice_append before (encodeUTF8 e.text)
      ((texts.map fun e => encodeUTF8 e.text).flatten ++ after)
    rw [List.append_assoc] at hslice
    have hintern : out.firstInterned.elim false (· ≤ i) = e.intern := hfirst 0 e rfl
    simp only [unpackTexts, List.map_cons, List.flatten_cons, List.append_assoc,
      hread e List.mem_cons_self, hslice, Option.bind_eq_bind, Option.bind_some,
      decodeUTF8_encodeUTF8, hrest, List.length_append, hintern]

/-- The bytes. -/
theorem unpackBytes_spec {out : Output} {entries : List BytesEntry}
    (hread : ∀ e ∈ entries, out.bytesIndex.read e.value.length = e.value.length)
    (before : Bytes) :
    unpackBytes out (before ++ (entries.map BytesEntry.value).flatten) before.length
        (entries.map fun e => e.value.length) =
      some (entries.map fun e => .bytes e.value) := by
  induction entries generalizing before with
  | nil => rfl
  | cons e entries ih =>
    have hrest := ih (fun e' he' => hread e' (List.mem_cons_of_mem e he')) (before ++ e.value)
    simp only [List.length_append, List.append_assoc] at hrest
    have hslice := slice_append before e.value (entries.map BytesEntry.value).flatten
    rw [List.append_assoc] at hslice
    simp only [unpackBytes, List.map_cons, List.flatten_cons, hread e List.mem_cons_self, hslice,
      Option.bind_eq_bind, Option.bind_some, hrest]

/-! ## Initialisation -/

theorem pairwise_sortTexts (texts : List TextEntry) :
    (sortTexts texts).Pairwise fun a b => a.intern = true → b.intern = true := by
  rw [sortTexts]
  refine (List.pairwise_mergeSort ?_ ?_ texts).imp fun {a b} h ha => ?_
  · intro a b c hab hbc
    rcases ha : a.intern <;> rcases hb : b.intern <;> rcases hc : c.intern <;>
      simp [ha, hb, hc] at hab hbc ⊢
    · exact hab.trans hbc
    · exact hab.trans hbc
  · intro a b
    cases a.intern <;> cases b.intern <;> simp
    · exact le_total _ _
    · exact le_total _ _
  · simp [ha] at h
    exact h.1

/-- The declarations and data of a table. -/
theorem generatePystringConstants_eq (libs : Libraries) (cStrings : List (CName × Bytes))
    (texts : List TextEntry) (entries : List BytesEntry) :
    ∃ out, generatePystringConstants libs cStrings texts entries = some out ∧
      out.cStrings = cStrings ∧ out.stringtabSize = entries.length + texts.length ∧
      out.defines = definesFrom 0 ((sortTexts texts).map TextEntry.cname ++
        (sortBytes entries).map BytesEntry.cname) ∧
      out.strIndex = lengthIndex ((sortTexts texts).map fun e => (encodeUTF8 e.text).length) ∧
      out.bytesIndex = lengthIndex ((sortBytes entries).map fun e => e.value.length) ∧
      ∀ settings, initialise libs out settings =
        some ((sortTexts texts).map (fun e => .str e.text e.intern) ++
          (sortBytes entries).map fun e => .bytes e.value) := by
  obtain ⟨first, hfind, -, hfirst⟩ := findFirstInterned_spec (pairwise_sortTexts texts) 0
  obtain ⟨out, hgenerate, hcStrings, hsize, hdefines, hstr, hbytes, hfirstInterned, hconcat,
      hcompressions⟩ : ∃ out, generatePystringConstants libs cStrings texts entries = some out ∧
      out.cStrings = cStrings ∧
      out.stringtabSize = (sortBytes entries).length + (sortTexts texts).length ∧
      out.defines = definesFrom 0 ((sortTexts texts).map TextEntry.cname ++
        (sortBytes entries).map BytesEntry.cname) ∧
      out.strIndex = lengthIndex (((sortTexts texts).map fun e => encodeUTF8 e.text).map
        List.length) ∧
      out.bytesIndex = lengthIndex (((sortBytes entries).map BytesEntry.value).map
        List.length) ∧
      out.firstInterned = first ∧
      out.concatBytes = ((sortTexts texts).map (fun e => encodeUTF8 e.text) ++
        (sortBytes entries).map BytesEntry.value).flatten ∧
      out.compressions = compressions libs out.concatBytes :=
    ⟨_, by rw [generatePystringConstants, hfind, Option.map_some], rfl, rfl, rfl, rfl, rfl, rfl,
      rfl, rfl⟩
  rw [List.map_map] at hstr hbytes
  refine ⟨out, hgenerate, hcStrings, ?_, hdefines, hstr, hbytes, fun settings => ?_⟩
  · rw [hsize, sortTexts, sortBytes, List.length_mergeSort, List.length_mergeSort]
  · have htexts := @unpackTexts_spec out (sortTexts texts)
      (fun e he => hstr ▸ read_lengthIndex (List.mem_map_of_mem he)) 0
      (fun j e hj => hfirstInterned ▸ hfirst j e hj) []
      ((sortBytes entries).map BytesEntry.value).flatten
    have hentries := @unpackBytes_spec out (sortBytes entries)
      (fun e he => hbytes ▸ read_lengthIndex (List.mem_map_of_mem he))
      ((sortTexts texts).map fun e => encodeUTF8 e.text).flatten
    rw [List.nil_append, ← List.flatten_append, ← hconcat, List.length_nil] at htexts
    rw [← List.flatten_append, ← hconcat] at hentries
    have hstrLengths : out.strIndex.lengths =
        (sortTexts texts).map fun e => (encodeUTF8 e.text).length := by rw [hstr]; rfl
    have hbytesLengths : out.bytesIndex.lengths =
        (sortBytes entries).map fun e => e.value.length := by rw [hbytes]; rfl
    rw [initialise, data_eq hcompressions settings, hstrLengths, hbytesLengths]
    simp only [Option.bind_eq_bind, Option.bind_some, htexts, hentries]

end AHPy.StringTable
