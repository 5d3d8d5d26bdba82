import AHPy.Lzss.Compress

/-!
# The round trip of the compression

What the compressor writes are tokens that denote the data (`Inv`, over the runs
of the main loop), packed in groups of eight behind their flags, and the
decompressor reads packed tokens back (`decodeGroups_pack`).

* `findLongestMatch_spec`: a match is one, whatever the heuristics prefer;
* `encodeItem_spec`: an item stands for a token that the data matches;
* `lzss_round_trip`: the round trip.
-/

namespace AHPy.Lzss

/-! ## Matches -/

/-- A loop with early errors that keeps `I` does not fail. -/
theorem foldlM_of_keeps {α β : Type} {I : β → Prop} {f : β → α → Option β} {l : List α}
    (h : ∀ a ∈ l, ∀ b, I b → ∃ b', f b a = some b' ∧ I b') {b : β} (hb : I b) :
    ∃ b', l.foldlM f b = some b' ∧ I b' := by
  induction l generalizing b with
  | nil => exact ⟨b, rfl, hb⟩
  | cons a l ih =>
    obtain ⟨b₁, hf, hb₁⟩ := h a List.mem_cons_self b hb
    rw [List.foldlM_cons, hf]
    exact ih (fun a' ha' => h a' (List.mem_cons_of_mem a ha')) hb₁

/-- The data has the same `length` bytes at both positions. -/
def SameBytes (data : List UInt8) (p q length : Nat) : Prop :=
  ∀ i < length, data[p + i]? = data[q + i]?

theorem extendMatch_spec (data : List UInt8) {prevPos pos : Nat} (remaining length : Nat)
    (hp : prevPos < pos) (h : remaining = 0 ∨ pos + length + remaining ≤ data.length) :
    ∃ m, extendMatch data prevPos pos remaining length = some m ∧ length ≤ m ∧
      m ≤ length + remaining ∧
      (SameBytes data prevPos pos length → SameBytes data prevPos pos m) := by
  induction remaining generalizing length with
  | zero => exact ⟨length, rfl, le_rfl, le_rfl, id⟩
  | succ remaining ih =>
    have h₁ : prevPos + length < data.length := by omega
    have h₂ : pos + length < data.length := by omega
    rw [extendMatch, List.getElem?_eq_getElem h₁, List.getElem?_eq_getElem h₂]
    by_cases heq : data[prevPos + length] = data[pos + length]
    · obtain ⟨m, hm, hle, hlt, hs⟩ := ih (length + 1) (by omega)
      refine ⟨m, ?_, by omega, by omega, fun hsame => hs fun i hi => ?_⟩
      · simpa [heq] using hm
      · rcases Nat.lt_succ_iff_lt_or_eq.1 hi with hi | rfl
        · exact hsame i hi
        · rw [List.getElem?_eq_getElem h₁, List.getElem?_eq_getElem h₂, heq]
    · exact ⟨length, by simp [heq], le_rfl, by omega, id⟩

/-- The positions in the table are earlier ones, each under its triplet. -/
def TableOk (data : List UInt8) (table : Table) (pos : Nat) : Prop :=
  ∀ key positions, table.get? key = some positions →
    ∀ p ∈ positions, p < pos ∧ slice data p (p + 3) = key

theorem tableOk_initial (data : List UInt8) : TableOk data .empty 0 :=
  fun key positions h => by simp at h

theorem TableOk.addPosition {data : List UInt8} {table : Table} {pos pos' : Nat}
    (h : TableOk data table pos) (hpos : pos < pos') :
    TableOk data (addPosition table (slice data pos (pos + 3)) pos) pos' := by
  intro key positions hk p hp
  rcases OrderedDict.get?_set_cases hk with ⟨rfl, rfl⟩ | ⟨-, hk⟩
  · rcases List.mem_append.1 hp with hp | hp
    · rcases hg : table.get? (slice data pos (pos + 3)) with _ | ps
      · simp [hg] at hp
      · rw [hg] at hp
        obtain ⟨hlt, hs⟩ := h _ ps hg p hp
        exact ⟨by omega, hs⟩
    · obtain rfl := List.mem_singleton.1 hp
      exact ⟨hpos, rfl⟩
  · obtain ⟨hlt, hs⟩ := h key positions hk p hp
    exact ⟨by omega, hs⟩

/-- Positions with the same triplet have the same three bytes. -/
theorem sameBytes_of_slice {data : List UInt8} {p q : Nat}
    (h : slice data p (p + 3) = slice data q (q + 3)) : SameBytes data p q 3 := by
  intro i hi
  have hget : ∀ r, (slice data r (r + 3))[i]? = data[r + i]? := by
    intro r
    rw [slice, List.getElem?_drop, List.getElem?_take_of_lt (by omega)]
  rw [← hget p, ← hget q, h]

/-- A result of the search: no match, or a match that ends in the data. -/
def MatchOk (data : List UInt8) (pos : Nat) (r : Nat × Nat) : Prop :=
  r.2 = 0 ∨ (3 ≤ r.2 ∧ r.2 ≤ 258 ∧ r.1 ≤ pos ∧ pos + r.2 ≤ data.length ∧
    SameBytes data (pos - r.1) pos r.2)

theorem considerMatch_spec {data : List UInt8} {pos windowStart prevPos : Nat} {best : Nat × Nat}
    (hpos : pos + 3 ≤ data.length) (hp : prevPos < pos)
    (hkey : slice data prevPos (prevPos + 3) = slice data pos (pos + 3))
    (hbest : MatchOk data pos best) :
    ∃ best', considerMatch data pos (min (255 + 3) (data.length - pos)) windowStart best prevPos =
      some best' ∧ MatchOk data pos best' := by
  rw [considerMatch]
  by_cases hw : prevPos < windowStart ∨ pos ≤ prevPos
  · exact ⟨best, if_pos hw, hbest⟩
  rw [if_neg hw]
  obtain ⟨m, hm, hle, hlt, hs⟩ := extendMatch_spec data
    (min (min (255 + 3) (data.length - pos)) (pos - prevPos) - 3) 3 hp (by omega)
  simp only [hm, Option.bind_eq_bind, Option.bind_some]
  by_cases hb : best.2 < m ∧ (pos : Int) - prevPos - m < windowSize
  · refine ⟨_, if_pos hb, .inr ⟨hle, by omega, by omega, by omega, ?_⟩⟩
    have hsub : pos - (pos - prevPos) = prevPos := by omega
    rw [hsub]
    exact hs (sameBytes_of_slice hkey)
  · exact ⟨best, if_neg hb, hbest⟩

theorem considerNextMatch_isSome {data : List UInt8} {pos maxMatch windowStart prevPos best : Nat}
    (hp : prevPos < pos) :
    ∃ best', considerNextMatch data pos maxMatch windowStart best prevPos = some best' := by
  rw [considerNextMatch]
  by_cases hw : prevPos < windowStart
  · exact ⟨best, if_pos hw⟩
  rw [if_neg hw]
  obtain ⟨m, hm, -⟩ := extendMatch_spec data
    (min maxMatch (min (pos - prevPos) (data.length - pos - 1)) - 3) 3
    (show prevPos < pos + 1 by omega) (by omega)
  simp only [hm, Option.bind_eq_bind, Option.bind_some]
  by_cases hb : best < m ∧ (pos : Int) - prevPos - best < windowSize
  · exact ⟨m, if_pos hb⟩
  · exact ⟨best, if_neg hb⟩

theorem lazyMatch_spec {data : List UInt8} {table : Table} {pos maxMatch : Nat} {best : Nat × Nat}
    (ht : TableOk data table pos) (hbest : MatchOk data pos best) :
    ∃ r, lazyMatch data table pos maxMatch best = some r ∧ MatchOk data pos r := by
  rw [lazyMatch]
  split
  next h =>
    obtain ⟨positions, hk⟩ := OrderedDict.mem_iff_exists_get?.1 h.2.2.1
    obtain ⟨n, hn, -⟩ := foldlM_of_keeps (I := fun _ => True) (l := positions) (b := 0)
      (f := considerNextMatch data pos maxMatch (pos + 1 - windowSize - maxMatch))
      (fun p hp b _ => by
        obtain ⟨b', hb'⟩ := considerNextMatch_isSome (ht _ _ hk p hp).1
        exact ⟨b', hb', trivial⟩) trivial
    simp only [hk, Option.getD_some, hn, Option.bind_eq_bind, Option.bind_some]
    by_cases hlt : best.2 + 1 < n
    · exact ⟨(0, 0), if_pos hlt, .inl rfl⟩
    · exact ⟨best, if_neg hlt, hbest⟩
  next => exact ⟨best, rfl, hbest⟩

/-- The search never fails, and what it finds is a match. -/
theorem findLongestMatch_spec {data : List UInt8} {table : Table} {pos : Nat}
    (ht : TableOk data table pos) :
    ∃ r, findLongestMatch data table pos = some r ∧ MatchOk data pos r := by
  rw [findLongestMatch]
  by_cases hlen : data.length < pos + 3
  · exact ⟨(0, 0), if_pos hlen, .inl rfl⟩
  rw [if_neg hlen]
  rcases hk : table.get? (slice data pos (pos + 3)) with _ | positions
  · exact ⟨(0, 0), rfl, .inl rfl⟩
  obtain ⟨best, hbest, hok⟩ := foldlM_of_keeps (I := MatchOk data pos) (l := positions) (b := (0, 0))
    (f := considerMatch data pos (min (255 + 3) (data.length - pos))
      (pos - windowSize - min (255 + 3) (data.length - pos)))
    (fun p hp b hb => considerMatch_spec (by omega) (ht _ _ hk p hp).1 (ht _ _ hk p hp).2 hb)
    (.inl rfl)
  simp only [hbest, Option.bind_eq_bind, Option.bind_some]
  exact lazyMatch_spec ht hok

/-! ## Items -/

/-- The bytes of items. -/
def itemBytes (items : List Item) : List UInt8 :=
  items.flatMap fun i => i.bytes.map UInt8.ofNat

/-- The item stands for the token: the decompressor, wherever it meets the bytes
    of the item, appends what the token denotes. -/
structure Item.StandsFor (item : Item) (t : Token UInt8) : Prop where
  length : item.length = t.size
  pos : 0 < t.size
  flag : item.flag < 2
  bytes : ∀ b ∈ item.bytes, b < 256
  nonempty : item.bytes ≠ []
  decode : ∀ pre rest dst dst' dstLen flags, t.append dst = some dst' → dst'.length ≤ dstLen →
    flags &&& 1 = item.flag →
    decodeItem (pre ++ item.bytes.map UInt8.ofNat ++ rest) dstLen flags ⟨pre.length, dst⟩ =
      some ⟨pre.length + item.bytes.length, dst'⟩

theorem literal_standsFor (b : UInt8) :
    Item.StandsFor ⟨1, [b.toNat], 1⟩ (.literal b) where
  length := rfl
  pos := Nat.one_pos
  flag := Nat.one_lt_two
  bytes := by simpa using b.toNat_lt
  nonempty := List.cons_ne_nil _ _
  decode := by
    intro pre rest dst dst' dstLen flags happ hle hflag
    obtain rfl := Option.some.inj happ
    rw [List.length_append, List.length_singleton] at hle
    rw [decodeItem, if_pos (by rw [hflag]; exact Nat.one_ne_zero), decodeLiteral]
    simp [Cursor.write, hle]

/-- A copy of a region that is written appends what a reference denotes. -/
theorem copy_eq {c : Cursor} {dst' : List UInt8} {dstLen endOffset length : Nat}
    (happ : (Token.reference (endOffset + length) length).append c.dst = some dst')
    (hle : dst'.length ≤ dstLen) : c.copy dstLen endOffset length = some { c with dst := dst' } := by
  rw [Token.append] at happ
  by_cases h : length ≤ endOffset + length ∧ endOffset + length ≤ c.dst.length
  · rw [if_pos h] at happ
    obtain rfl := Option.some.inj happ
    rw [List.length_append] at hle
    rw [Cursor.copy, if_pos h.2, if_pos (by omega), Cursor.write, Nat.sub_sub, if_pos hle]
  · rw [if_neg h] at happ
    exact absurd happ (Option.some_ne_none _).symm

theorem readByte_append (pre rest : List UInt8) {b : Nat} (hb : b < 256) :
    readByte (pre ++ UInt8.ofNat b :: rest) pre.length = some b := by
  rw [readByte, List.getElem?_append_right le_rfl, Nat.sub_self, List.getElem?_cons_zero,
    Option.map_some, UInt8.toNat_ofNat_of_lt' hb]

/-- A reference whose bytes decode to its offset and length stands for it. -/
theorem reference_standsFor {bytes : List Nat} {endOffset length : Nat} (hlength : 3 ≤ length)
    (hbytes : ∀ b ∈ bytes, b < 256) (hne : bytes ≠ [])
    (hdecode : ∀ pre rest dst dstLen,
      decodeReference (pre ++ bytes.map UInt8.ofNat ++ rest) dstLen ⟨pre.length, dst⟩ =
        Cursor.copy ⟨pre.length + bytes.length, dst⟩ dstLen endOffset length) :
    Item.StandsFor ⟨0, bytes, length⟩ (.reference (endOffset + length) length) where
  length := rfl
  pos := Nat.lt_of_lt_of_le (by decide : 0 < 3) hlength
  flag := Nat.two_pos
  bytes := hbytes
  nonempty := hne
  decode := by
    intro pre rest dst dst' dstLen flags happ hle hflag
    rw [decodeItem, if_neg (not_not.2 hflag), hdecode]
    exact copy_eq happ hle

theorem readByte_append_one {pre rest : List UInt8} {a b : Nat} (hb : b < 256) :
    readByte (pre ++ UInt8.ofNat a :: UInt8.ofNat b :: rest) (pre.length + 1) = some b := by
  have h := readByte_append (pre ++ [UInt8.ofNat a]) rest hb
  rwa [List.length_append, List.append_assoc] at h

theorem readByte_append_two {pre rest : List UInt8} {a b d : Nat} (hd : d < 256) :
    readByte (pre ++ UInt8.ofNat a :: UInt8.ofNat b :: UInt8.ofNat d :: rest) (pre.length + 2) =
      some d := by
  have h := readByte_append (pre ++ [UInt8.ofNat a, UInt8.ofNat b]) rest hd
  rwa [List.length_append, List.append_assoc] at h

/-! ### The formats of references -/

theorem and_0x7F (n : Nat) : n &&& 0x7F = n % 128 := Nat.and_two_pow_sub_one_eq_mod n 7

/-- A byte with seven bits of an offset and the mark of a longer format. -/
theorem marked_byte : ∀ n < 128,
    (n ||| 0x80) < 256 ∧ (n ||| 0x80) &&& 0x80 ≠ 0 ∧ (n ||| 0x80) &&& 0x7F = n := by
  decide

theorem unmarked_byte : ∀ n < 128, n &&& 0x80 = 0 := by decide

/-- The upper two bits of an offset and a length in one byte. -/
theorem shared_byte : ∀ q < 4, ∀ l < 32, ((q <<< 5) ||| l) < 128 ∧
    ((((q <<< 5) ||| l) <<< 2) &&& 0x180) = q <<< 7 ∧ ((q <<< 5) ||| l) &&& 0x1F = l := by
  decide

theorem upper_bits : ∀ n < 512, (n &&& 0x180) >>> 2 = (n / 128) <<< 5 := by decide +kernel

theorem join_bits : ∀ r < 128, ∀ q, (q <<< 7) ||| r = 128 * q + r := by
  intro r hr q
  rw [← Nat.shiftLeft_add_eq_or_of_lt hr, Nat.shiftLeft_eq, Nat.mul_comm]

/-- 7 bit offset + 8 bit length -/
theorem shortReference_standsFor {offset length : Nat} (ho : offset ≤ 0x7F) (h3 : 3 ≤ length)
    (hl : length ≤ 258) :
    Item.StandsFor ⟨0, [offset, length - 3], length⟩ (.reference (offset + length) length) := by
  refine reference_standsFor h3 ?_ (List.cons_ne_nil _ _) fun pre rest dst dstLen => ?_
  · simp only [List.mem_cons, List.not_mem_nil, or_false]
    rintro b (rfl | rfl) <;> omega
  · rw [decodeReference, List.append_assoc]
    simp only [List.map_cons, List.map_nil, List.cons_append, List.nil_append,
      readByte_append pre _ (show offset < 256 by omega),
      readByte_append_one (show length - 3 < 256 by omega), Option.bind_eq_bind, Option.bind_some]
    rw [if_pos (unmarked_byte offset (by omega)), Nat.sub_add_cancel h3]
    rfl

/-- 2+7 bit offset + 5 bit length -/
theorem middleReference_standsFor {offset length : Nat} (ho : offset < 512) (h3 : 3 ≤ length)
    (hl : length - 3 < 32) :
    Item.StandsFor
      ⟨0, [(offset &&& 0x7F) ||| 0x80, ((offset &&& 0x180) >>> 2) ||| (length - 3)], length⟩
      (.reference (offset + 0x80 + length) length) := by
  obtain ⟨hlo, hmark, hlow⟩ := marked_byte (offset % 128) (Nat.mod_lt _ (by decide))
  obtain ⟨hhi, hq, hlen⟩ := shared_byte (offset / 128) (by omega) (length - 3) hl
  rw [and_0x7F, upper_bits offset ho]
  refine reference_standsFor h3 ?_ (List.cons_ne_nil _ _) fun pre rest dst dstLen => ?_
  · simp only [List.mem_cons, List.not_mem_nil, or_false]
    rintro b (rfl | rfl) <;> omega
  · rw [decodeReference, List.append_assoc]
    simp only [List.map_cons, List.map_nil, List.cons_append, List.nil_append,
      readByte_append pre _ hlo, readByte_append_one (Nat.lt_trans hhi (by decide)),
      Option.bind_eq_bind, Option.bind_some]
    rw [if_neg hmark, if_pos (unmarked_byte _ hhi), hq, hlen, hlow,
      join_bits _ (Nat.mod_lt _ (by decide)), Nat.div_add_mod, Nat.sub_add_cancel h3,
      Nat.add_comm 0x80 offset]
    rfl

/-- 7+7 bit offset + 8 bit length -/
theorem longReference_standsFor {offset length : Nat} (ho : offset < 2 ^ 14) (h3 : 3 ≤ length)
    (hl : length ≤ 258) :
    Item.StandsFor
      ⟨0, [(offset &&& 0x7F) ||| 0x80, ((offset >>> 7) &&& 0x7F) ||| 0x80, length - 3], length⟩
      (.reference (offset + 0x80 + length) length) := by
  obtain ⟨hlo, hmark, hlow⟩ := marked_byte (offset % 128) (Nat.mod_lt _ (by decide))
  obtain ⟨hhi, hmark', hhigh⟩ := marked_byte (offset / 128) (by omega)
  have hdiv : (offset >>> 7) &&& 0x7F = offset / 128 := by
    rw [and_0x7F, Nat.shiftRight_eq_div_pow, Nat.mod_eq_of_lt (by omega)]
  rw [hdiv, and_0x7F]
  refine reference_standsFor h3 ?_ (List.cons_ne_nil _ _) fun pre rest dst dstLen => ?_
  · simp only [List.mem_cons, List.not_mem_nil, or_false]
    rintro b (rfl | rfl | rfl) <;> omega
  · rw [decodeReference, List.append_assoc]
    simp only [List.map_cons, List.map_nil, List.cons_append, List.nil_append,
      readByte_append pre _ hlo, readByte_append_one hhi,
      readByte_append_two (show length - 3 < 256 by omega), Option.bind_eq_bind, Option.bind_some]
    rw [if_neg hmark, if_neg hmark', hhigh, hlow, join_bits _ (Nat.mod_lt _ (by decide)),
      Nat.div_add_mod, Nat.sub_add_cancel h3, Nat.add_comm 0x80 offset]
    rfl

/-- A reference that is worth it stands for itself. -/
theorem encodeReference_standsFor {offset length : Nat} {bytes : List Nat} (h3 : 3 ≤ length)
    (hl : length ≤ 258) (h : encodeReference offset length = some bytes) :
    Item.StandsFor ⟨0, bytes, length⟩ (.reference (offset + length) length) := by
  rw [encodeReference] at h
  by_cases h₁ : offset ≤ 0x7F
  · rw [if_pos h₁] at h
    obtain rfl := Option.some.inj h
    exact shortReference_standsFor h₁ h3 hl
  rw [if_neg h₁] at h
  have hsub : offset - 0x80 + 0x80 = offset := by omega
  by_cases h₂ : length - 3 < 1 <<< 5 ∧ offset - 0x80 < 1 <<< 9
  · rw [if_pos h₂] at h
    obtain rfl := Option.some.inj h
    have hm := middleReference_standsFor h₂.2 h3 h₂.1
    rwa [hsub] at hm
  rw [if_neg h₂] at h
  by_cases h₃ : 3 < length ∧ offset - 0x80 < 1 <<< 14
  · rw [if_pos h₃] at h
    obtain rfl := Option.some.inj h
    have hm := longReference_standsFor h₃.2 h3 hl
    rwa [hsub] at hm
  · rw [if_neg h₃] at h
    exact absurd h (Option.some_ne_none _).symm

/-- The choice between a reference and a literal never fails, and stands for a
    token that the data matches. -/
theorem encodeItem_spec {data : List UInt8} {pos : Nat} {r : Nat × Nat} (hpos : pos < data.length)
    (hr : MatchOk data pos r) :
    ∃ item t, encodeItem data pos r.1 r.2 = some item ∧ item.StandsFor t ∧ t.Matches data pos := by
  rw [encodeItem]
  have literal : ∃ item t, (data[pos]?.map fun b => (⟨1, [b.toNat], 1⟩ : Item)) = some item ∧
      item.StandsFor t ∧ t.Matches data pos := by
    refine ⟨_, .literal data[pos], ?_, literal_standsFor data[pos], ?_⟩
    · rw [List.getElem?_eq_getElem hpos, Option.map_some]
    · rw [Token.Matches, List.getElem?_eq_getElem hpos]
  by_cases hworth : r.2 < 3 ∨ (r.1 : Int) - r.2 < 0
  · simp only [if_pos hworth]
    exact literal
  simp only [if_neg hworth]
  rcases he : encodeReference ((r.1 : Int) - r.2).toNat r.2 with _ | bytes
  · exact literal
  · rcases hr with h0 | ⟨h3, hl, hp, hend, hsame⟩
    · omega
    · have hsub : ((r.1 : Int) - r.2).toNat + r.2 = r.1 := by omega
      have hs := encodeReference_standsFor h3 hl he
      rw [hsub] at hs
      exact ⟨_, _, rfl, hs, by omega, hp, hend, hsame⟩

/-! ## Groups -/

/-- The flags of items, the first in the lowest bit. -/
def groupFlags : List Item → Nat
  | [] => 0
  | i :: items => i.flag + 2 * groupFlags items

theorem groupFlags_lt {items : List Item} (h : ∀ i ∈ items, i.flag < 2) :
    groupFlags items < 2 ^ items.length := by
  induction items with
  | nil => exact Nat.one_pos
  | cons i items ih =>
    have hi := h i List.mem_cons_self
    have := ih fun j hj => h j (List.mem_cons_of_mem i hj)
    rw [groupFlags, List.length_cons, Nat.pow_succ]
    omega

theorem groupFlags_concat (items : List Item) (i : Item) :
    groupFlags (items ++ [i]) = groupFlags items + 2 ^ items.length * i.flag := by
  induction items with
  | nil => simp [groupFlags]
  | cons j items ih =>
    rw [List.cons_append, groupFlags, ih, groupFlags, List.length_cons, Nat.pow_succ]
    ring

/-- A group of items behind its flags. -/
def packGroup (items : List Item) : List UInt8 :=
  UInt8.ofNat (groupFlags items) :: itemBytes items

theorem itemBytes_append (items items' : List Item) :
    itemBytes (items ++ items') = itemBytes items ++ itemBytes items' := List.flatMap_append

theorem itemBytes_cons (i : Item) (items : List Item) :
    itemBytes (i :: items) = i.bytes.map UInt8.ofNat ++ itemBytes items := rfl

/-- The items stand for tokens that take `dst` to `dst'`. -/
inductive Denotes : List Item → List UInt8 → List UInt8 → Prop
  | nil (dst : List UInt8) : Denotes [] dst dst
  | cons {i : Item} {items : List Item} {t : Token UInt8} {dst dst₁ dst' : List UInt8} :
    i.StandsFor t → t.append dst = some dst₁ → Denotes items dst₁ dst' →
      Denotes (i :: items) dst dst'

namespace Denotes

variable {items items' : List Item} {dst dst₁ dst' : List UInt8}

theorem append (h : Denotes items dst dst₁) (h' : Denotes items' dst₁ dst') :
    Denotes (items ++ items') dst dst' := by
  induction h with
  | nil => exact h'
  | cons hs happ _ ih => exact .cons hs happ (ih h')

/-- What comes out of a sequence of items comes out of its parts in turn. -/
theorem split (h : Denotes (items ++ items') dst dst') :
    ∃ dst₁, Denotes items dst dst₁ ∧ Denotes items' dst₁ dst' := by
  induction items generalizing dst with
  | nil => exact ⟨dst, .nil dst, h⟩
  | cons i items ih =>
    rcases h with _ | ⟨hs, happ, h⟩
    obtain ⟨dst₁, h₁, h₂⟩ := ih h
    exact ⟨dst₁, .cons hs happ h₁, h₂⟩

theorem flags_lt (h : Denotes items dst dst') : ∀ i ∈ items, i.flag < 2 := by
  induction h with
  | nil => exact fun i hi => absurd hi List.not_mem_nil
  | cons hs _ _ ih =>
    intro i hi
    rcases List.mem_cons.1 hi with rfl | hi
    · exact hs.flag
    · exact ih i hi

theorem itemBytes_ne_nil (h : Denotes items dst dst') (hne : items ≠ []) : itemBytes items ≠ [] := by
  rcases h with _ | ⟨hs, -, -⟩
  · exact absurd rfl hne
  · rw [itemBytes_cons]
    exact fun h0 => hs.nonempty (List.map_eq_nil_iff.1 (List.append_eq_nil_iff.1 h0).1)

/-- Every item adds something. -/
theorem length_le (h : Denotes items dst dst') : dst.length + items.length ≤ dst'.length := by
  induction h with
  | nil => exact le_rfl
  | cons hs happ _ ih =>
    have := Token.length_append happ
    have := hs.pos
    rw [List.length_cons]
    omega

end Denotes

/-! ### Reading groups -/

/-- The flags of the decompressor after `8 - n` items of a group, with the
    flags `v` of the items that are left. -/
def remainingFlags (n v : Nat) : Nat := (0xFF00 >>> (8 - n)) + v

theorem remainingFlags_succ : ∀ n < 8, ∀ v < 2 ^ (n + 1),
    remainingFlags (n + 1) v &&& 0x100 ≠ 0 ∧ remainingFlags (n + 1) v &&& 1 = v % 2 ∧
      remainingFlags (n + 1) v >>> 1 = remainingFlags n (v / 2) := by
  decide +kernel

theorem remainingFlags_eight : ∀ b < 256, b ||| 0xFF00 = remainingFlags 8 b := by decide +kernel

/-- The decompressor reads the items of a group that are left, and returns once
    the destination is full. -/
theorem decodeGroup_eq {items : List Item} {dst dst' : List UInt8} (h : Denotes items dst dst')
    {n fuel dstLen : Nat} (pre rest : List UInt8) (hn : n ≤ 8) (hle : items.length ≤ n)
    (hfuel : n < fuel) (hlen : dst'.length ≤ dstLen) (hlt : dst.length < dstLen)
    (hfull : items.length = n ∨ dst'.length = dstLen) :
    decodeGroup (pre ++ itemBytes items ++ rest) dstLen fuel (remainingFlags n (groupFlags items))
        ⟨pre.length, dst⟩ =
      some (decide (dstLen ≤ dst'.length), ⟨pre.length + (itemBytes items).length, dst'⟩) := by
  induction h generalizing n fuel pre with
  | nil dst =>
    obtain rfl : n = 0 := by
      rcases hfull with hn | hl
      · exact hn.symm
      · omega
    obtain ⟨fuel, rfl⟩ := Nat.exists_eq_succ_of_ne_zero (Nat.ne_of_gt hfuel)
    have hdone : ¬dstLen ≤ dst.length := Nat.not_le.2 hlt
    simp only [decodeGroup, hdone, decide_false]
    rfl
  | @cons i items t dst dst₁ dst' hs happ hd ih =>
    obtain ⟨n, rfl⟩ := Nat.exists_eq_succ_of_ne_zero (n := n) (by rintro rfl; simp at hle)
    obtain ⟨fuel, rfl⟩ := Nat.exists_eq_succ_of_ne_zero (Nat.ne_of_gt (by omega : 0 < fuel))
    rw [List.length_cons] at hle hfull
    have hflag := hs.flag
    have hv : groupFlags (i :: items) < 2 ^ (n + 1) :=
      (groupFlags_lt (Denotes.cons hs happ hd).flags_lt).trans_le
        (Nat.pow_le_pow_right Nat.two_pos (by rw [List.length_cons]; omega))
    obtain ⟨hmore, hbit, hshift⟩ := remainingFlags_succ n (by omega) _ hv
    have hmod : groupFlags (i :: items) % 2 = i.flag := by rw [groupFlags]; omega
    have hdiv : groupFlags (i :: items) / 2 = groupFlags items := by rw [groupFlags]; omega
    rw [hmod] at hbit
    rw [hdiv] at hshift
    have hlen₁ : dst₁.length + items.length ≤ dst'.length := hd.length_le
    have hdec := hs.decode pre (itemBytes items ++ rest) dst dst₁ dstLen _ happ (by omega) hbit
    rw [itemBytes_cons, ← List.append_assoc, List.append_assoc (pre ++ _), decodeGroup,
      if_neg hmore, hdec]
    simp only [Option.bind_eq_bind, Option.bind_some]
    by_cases hdone : dstLen ≤ dst₁.length
    · -- The destination is full: there are no more items.
      have hnil : items = [] := List.length_eq_zero_iff.1 (by omega)
      subst hnil
      rcases hd
      simp [hdone, itemBytes]
    · rw [if_neg hdone, hshift, ← List.append_assoc]
      have h := ih (pre ++ i.bytes.map UInt8.ofNat) (show n ≤ 8 by omega) (by omega)
        (show n < fuel by omega) hlen (by omega) (by omega)
      rw [List.length_append, List.length_map] at h
      rw [h, List.length_append, List.length_map, Nat.add_assoc]

/-- The groups of compressed data: all have eight items but the last, which may
    have less. -/
inductive Groups : List (List Item) → Prop
  | last {g : List Item} : g ≠ [] → g.length ≤ 8 → Groups [g]
  | cons {g : List Item} {gs : List (List Item)} : g.length = 8 → Groups gs → Groups (g :: gs)

theorem Groups.length_le {gs : List (List Item)} (h : Groups gs) : gs.length ≤ gs.flatten.length := by
  induction h with
  | @last g hne hle =>
    have := List.length_pos_iff.2 hne
    rw [List.flatten_singleton, List.length_singleton]
    omega
  | @cons g gs hg _ ih =>
    rw [List.length_cons, List.flatten_cons, List.length_append]
    omega

theorem Groups.flatten_ne_nil {gs : List (List Item)} (h : Groups gs) : gs.flatten ≠ [] := by
  rcases h with ⟨hne, -⟩ | ⟨hg, -⟩
  · simpa using hne
  · rw [List.flatten_cons]
    exact fun h => absurd (List.append_eq_nil_iff.1 h).1 (by rintro rfl; simp at hg)

/-- The decompressor reads packed groups. -/
theorem decodeGroups_pack {gs : List (List Item)} (hgs : Groups gs) (pre : List UInt8)
    {dst dst' : List UInt8} {fuel : Nat} (h : Denotes gs.flatten dst dst') (hfuel : gs.length < fuel) :
    decodeGroups (pre ++ gs.flatMap packGroup) dst'.length fuel ⟨pre.length, dst⟩ =
      some ⟨(pre ++ gs.flatMap packGroup).length, dst'⟩ := by
  -- One group, which leaves `rest` to be read.
  have group : ∀ {g : List Item} (rest pre : List UInt8) {dst dst₁ : List UInt8},
      Denotes g dst dst₁ → g ≠ [] → g.length ≤ 8 → dst₁.length ≤ dst'.length →
      (g.length = 8 ∨ dst₁.length = dst'.length) →
      readByte (pre ++ packGroup g ++ rest) pre.length = some (groupFlags g) ∧
      decodeGroup (pre ++ packGroup g ++ rest) dst'.length 17 (groupFlags g ||| 0xFF00)
        ⟨pre.length + 1, dst⟩ = some (decide (dst'.length ≤ dst₁.length),
          ⟨(pre ++ packGroup g).length, dst₁⟩) := by
    intro g rest pre dst dst₁ hd hne hle hlen hfull
    have hflags : groupFlags g < 256 := (groupFlags_lt hd.flags_lt).trans_le
      (Nat.pow_le_pow_right Nat.two_pos hle)
    have hpos := List.length_pos_iff.2 hne
    have hgrow := hd.length_le
    constructor
    · rw [packGroup, List.append_assoc, List.cons_append]
      exact readByte_append pre _ hflags
    · have h := decodeGroup_eq hd (pre ++ [UInt8.ofNat (groupFlags g)]) rest le_rfl hle
        (show 8 < 17 by omega) hlen (by omega) hfull
      rw [remainingFlags_eight _ hflags]
      simpa [packGroup, Nat.add_assoc, Nat.add_comm 1] using h
  induction hgs generalizing dst pre fuel with
  | @last g hne hle =>
    obtain ⟨fuel, rfl⟩ := Nat.exists_eq_succ_of_ne_zero (Nat.ne_of_gt (Nat.zero_lt_of_lt hfuel))
    rw [List.flatten_singleton] at h
    obtain ⟨hr, hd⟩ := group [] pre h hne hle le_rfl (.inr rfl)
    rw [List.append_nil] at hr hd
    rw [List.flatMap_singleton, decodeGroups, hr]
    simp [hd]
  | @cons g gs hg hgs ih =>
    obtain ⟨fuel, rfl⟩ := Nat.exists_eq_succ_of_ne_zero (Nat.ne_of_gt (Nat.zero_lt_of_lt hfuel))
    rw [List.flatten_cons] at h
    obtain ⟨dst₁, h₁, h₂⟩ := h.split
    have hgrow := h₂.length_le
    have hrest := List.length_pos_iff.2 hgs.flatten_ne_nil
    obtain ⟨hr, hd⟩ := group (gs.flatMap packGroup) pre h₁
      (by rintro rfl; simp at hg) hg.le (by omega) (.inl hg)
    have hmore : ¬dst'.length ≤ dst₁.length := by omega
    rw [List.flatMap_cons, ← List.append_assoc, decodeGroups, hr]
    simp only [Option.bind_eq_bind, Option.bind_some, hd, hmore, decide_false,
      Bool.false_eq_true, if_false]
    exact ih _ h₂ (by rw [List.length_cons] at hfuel; omega)

/-! ## Runs of the main loop -/

/-- The flags of the compressor when the items of a group are pending. -/
def pendingFlags (pending : List Item) : Nat :=
  (0xFF0000 >>> pending.length) + 2 ^ (8 - pending.length) * groupFlags pending

theorem pendingFlags_step : ∀ k < 8, ∀ v < 2 ^ k, ∀ f < 2,
    (f <<< 7) ||| (((0xFF0000 >>> k) + 2 ^ (8 - k) * v) >>> 1) =
      (0xFF0000 >>> (k + 1)) + 2 ^ (8 - (k + 1)) * (v + 2 ^ k * f) := by
  decide +kernel

theorem pendingFlags_concat {pending : List Item} {i : Item} (hlt : pending.length < 8)
    (hflags : ∀ j ∈ pending, j.flag < 2) (hi : i.flag < 2) :
    (i.flag <<< 7) ||| (pendingFlags pending >>> 1) = pendingFlags (pending ++ [i]) := by
  rw [pendingFlags, pendingFlags, groupFlags_concat, List.length_append, List.length_singleton]
  exact pendingFlags_step _ hlt _ (groupFlags_lt hflags) _ hi

theorem pendingFlags_full : ∀ v < 256, (0xFF0000 >>> 8) + v < 0x10000 ∧
    ((0xFF0000 >>> 8) + v) &&& 0xFF = v := by
  decide +kernel

theorem pendingFlags_not_full : ∀ k < 8, ∀ v < 2 ^ k,
    0x10000 ≤ (0xFF0000 >>> k) + 2 ^ (8 - k) * v := by
  decide +kernel

theorem padFlags_eq : ∀ k < 8, ∀ v < 2 ^ k, ∃ flags,
    padFlags 33 ((0xFF0000 >>> k) + 2 ^ (8 - k) * v) = some flags ∧ flags &&& 0xFF = v := by
  have h : ∀ k < 8, ∀ v < 2 ^ k,
      padFlags 33 ((0xFF0000 >>> k) + 2 ^ (8 - k) * v) = some ((0xFF0000 >>> 8) + v) := by
    decide +kernel
  intro k hk v hv
  refine ⟨_, h k hk v hv, (pendingFlags_full v (hv.trans_le ?_)).2⟩
  exact Nat.pow_le_pow_right Nat.two_pos (by omega : k ≤ 8)

/-- What the main loop has written stands for the data up to its position: full
    groups, then the items of a group whose flags are pending. -/
structure Inv (data : List UInt8) (s : State) (done : List (List Item)) (pending : List Item) :
    Prop where
  full : ∀ g ∈ done, g.length = 8
  notFull : pending.length < 8
  output : s.output = done.flatMap packGroup ++ 0 :: itemBytes pending
  flagsPos : s.flagsPos = (done.flatMap packGroup).length
  flags : s.flags = pendingFlags pending
  denotes : Denotes (done.flatten ++ pending) [] (data.take s.pos)
  pos : s.pos ≤ data.length
  table : TableOk data s.table s.pos

theorem inv_initial (data : List UInt8) : Inv data .initial [] [] where
  full := fun g hg => absurd hg List.not_mem_nil
  notFull := by decide
  output := rfl
  flagsPos := rfl
  flags := rfl
  denotes := .nil []
  pos := Nat.zero_le _
  table := tableOk_initial data

theorem appendBytes_eq {output : List UInt8} {bytes : List Nat} (h : ∀ b ∈ bytes, b < 256) :
    appendBytes output bytes = some (output ++ bytes.map UInt8.ofNat) := if_pos h

/-- Setting the byte in front of the pending items. -/
theorem setByte_eq {before after : List UInt8} {byte : Nat} (h : byte < 256) :
    setByte (before ++ 0 :: after) before.length byte =
      some (before ++ UInt8.ofNat byte :: after) := by
  rw [setByte, if_pos ⟨by simp, h⟩, List.set_append_right _ _ le_rfl, Nat.sub_self, List.set_cons_zero]

/-- An iteration of the main loop does not fail, keeps the invariant and makes
    progress. -/
theorem compressStep_spec {data : List UInt8} {s : State} {done : List (List Item)}
    {pending : List Item} (h : Inv data s done pending) (hpos : s.pos < data.length) :
    ∃ s' done' pending', compressStep data s = some s' ∧ Inv data s' done' pending' ∧
      s.pos < s'.pos := by
  obtain ⟨r, hr, hok⟩ := findLongestMatch_spec h.table
  obtain ⟨item, t, hitem, hs, hm⟩ := encodeItem_spec hpos hok
  have hle := hm.add_size_le
  have ht := hs.pos
  rw [← hs.length] at hle ht
  have hdenotes : Denotes (done.flatten ++ (pending ++ [item])) [] (data.take (s.pos + item.length)) := by
    rw [← List.append_assoc]
    refine h.denotes.append (.cons hs ?_ (.nil _))
    rw [hs.length]
    exact hm.append_take
  have htable := h.table.addPosition (by omega : s.pos < s.pos + item.length)
  have hflags : ∀ j ∈ pending, j.flag < 2 := fun j hj =>
    h.denotes.flags_lt j (List.mem_append_right _ hj)
  have houtput : s.output ++ item.bytes.map UInt8.ofNat =
      done.flatMap packGroup ++ 0 :: itemBytes (pending ++ [item]) := by
    rw [h.output, itemBytes_append, List.append_assoc]
    simp [itemBytes]
  have hnew := pendingFlags_concat h.notFull hflags hs.flag
  rw [← h.flags] at hnew
  have hlt := groupFlags_lt (show ∀ j ∈ pending ++ [item], j.flag < 2 from fun j hj =>
    (List.mem_append.1 hj).elim (hflags j) fun hj => List.mem_singleton.1 hj ▸ hs.flag)
  have hlength : (pending ++ [item]).length = pending.length + 1 := by simp
  simp only [compressStep, hr, hitem, appendBytes_eq hs.bytes, Option.bind_eq_bind,
    Option.bind_some, putFlag, hnew]
  rcases Nat.lt_or_eq_of_le (Nat.succ_le_of_lt h.notFull) with hk | hk
  · -- The group is not full yet.
    rw [pendingFlags, if_neg (Nat.not_lt.2 (pendingFlags_not_full _ (by omega) _ hlt))]
    exact ⟨_, done, pending ++ [item], rfl, {
      full := h.full
      notFull := by omega
      output := houtput
      flagsPos := h.flagsPos
      flags := rfl
      denotes := hdenotes
      pos := hle
      table := htable }, by show s.pos < s.pos + item.length; omega⟩
  · -- The group is full: its flags are written, and the next one begins.
    have h8 : (pending ++ [item]).length = 8 := by omega
    rw [h8] at hlt
    obtain ⟨hsmall, hbyte⟩ := pendingFlags_full _ hlt
    have hpf : pendingFlags (pending ++ [item]) =
        (0xFF0000 >>> 8) + groupFlags (pending ++ [item]) := by
      rw [pendingFlags, h8, Nat.sub_self, Nat.pow_zero, Nat.one_mul]
    rw [hpf, if_pos hsmall, hbyte, houtput, h.flagsPos, setByte_eq hlt]
    have hpack : done.flatMap packGroup ++
        UInt8.ofNat (groupFlags (pending ++ [item])) :: itemBytes (pending ++ [item]) =
        (done ++ [pending ++ [item]]).flatMap packGroup := by
      rw [List.flatMap_append, List.flatMap_singleton, packGroup]
    rw [hpack]
    refine ⟨_, done ++ [pending ++ [item]], [], rfl, {
      full := fun g hg => (List.mem_append.1 hg).elim (h.full g) fun hg =>
        List.mem_singleton.1 hg ▸ h8
      notFull := by decide
      output := rfl
      flagsPos := rfl
      flags := rfl
      denotes := ?_
      pos := hle
      table := htable }, by show s.pos < s.pos + item.length; omega⟩
    rw [List.append_nil, List.flatten_append, List.flatten_singleton]
    exact hdenotes

/-- The main loop ends with the invariant at the end of the data. -/
theorem compressLoop_spec {data : List UInt8} {s : State} {done : List (List Item)}
    {pending : List Item} (h : Inv data s done pending) {fuel : Nat}
    (hfuel : data.length - s.pos < fuel) :
    ∃ s' done' pending', compressLoop data fuel s = some s' ∧ Inv data s' done' pending' ∧
      s'.pos = data.length := by
  induction fuel generalizing s done pending with
  | zero => exact absurd hfuel (Nat.not_lt_zero _)
  | succ fuel ih =>
    rw [compressLoop]
    by_cases hpos : s.pos < data.length
    · obtain ⟨s₁, done₁, pending₁, hstep, hinv, hlt⟩ := compressStep_spec h hpos
      rw [if_pos hpos, hstep]
      exact ih hinv (by omega)
    · rw [if_neg hpos]
      exact ⟨s, done, pending, rfl, h, by have := h.pos; omega⟩

theorem groups_of_full {done : List (List Item)} (h : ∀ g ∈ done, g.length = 8) {gs : List (List Item)}
    (hgs : Groups gs) : Groups (done ++ gs) := by
  induction done with
  | nil => exact hgs
  | cons g done ih =>
    exact .cons (h g List.mem_cons_self) (ih fun g' hg' => h g' (List.mem_cons_of_mem g hg'))

/-- What comes after the main loop leaves packed groups. -/
theorem finish_spec {data : List UInt8} {s : State} {done : List (List Item)} {pending : List Item}
    (h : Inv data s done pending) (hpos : s.pos = data.length) (hne : data ≠ []) :
    ∃ gs, Groups gs ∧ Denotes gs.flatten [] data ∧ finish s = some (gs.flatMap packGroup) := by
  have hdenotes := h.denotes
  rw [hpos, List.take_length] at hdenotes
  rw [finish, h.flagsPos, h.output, h.flags]
  rcases List.eq_nil_or_concat pending with rfl | ⟨pending', i, rfl⟩
  · -- Without pending items the byte for their flags is dropped.
    rw [List.append_nil] at hdenotes
    refine ⟨done, ?_, hdenotes, ?_⟩
    · rcases List.eq_nil_or_concat done with rfl | ⟨done', g, rfl⟩
      · rcases hdenotes
        exact absurd rfl hne
      · have hg := h.full g (by simp)
        rw [List.concat_eq_append]
        exact groups_of_full (fun g' hg' => h.full g' (by simp [hg']))
          (.last (by rintro rfl; simp at hg) hg.le)
    · simp [itemBytes]
  · have hflags : ∀ j ∈ pending'.concat i, j.flag < 2 := fun j hj =>
      h.denotes.flags_lt j (List.mem_append_right _ hj)
    have hlt := groupFlags_lt hflags
    obtain ⟨flags, hpad, hbyte⟩ := padFlags_eq _ h.notFull _ hlt
    have hbytes : (itemBytes (pending'.concat i)).length ≠ 0 := by
      obtain ⟨dst₁, -, hd⟩ := hdenotes.split
      exact fun h0 => hd.itemBytes_ne_nil (by simp) (List.length_eq_zero_iff.1 h0)
    refine ⟨done ++ [pending'.concat i], groups_of_full h.full (.last ?_ h.notFull.le), ?_, ?_⟩
    · simp
    · simpa using hdenotes
    · rw [if_neg (by rw [List.length_append, List.length_cons]; omega), pendingFlags, hpad]
      simp only [Option.bind_eq_bind, Option.bind_some, hbyte]
      rw [setByte_eq (hlt.trans_le (Nat.pow_le_pow_right Nat.two_pos h.notFull.le)),
        List.flatMap_append, List.flatMap_singleton, packGroup]

/-- The compressor succeeds, and the decompressor writes the data back, and reads all of the
    compressed data. -/
theorem lzssDecompress_lzssCompress {data : List UInt8} (hne : data ≠ []) :
    ∃ compressed, lzssCompress data = some compressed ∧
      lzssDecompress compressed data.length = some (data, compressed.length) := by
  obtain ⟨s, done, pending, hloop, hinv, hpos⟩ := compressLoop_spec (inv_initial data)
    (show data.length - 0 < data.length + 1 by omega)
  obtain ⟨gs, hgs, hdenotes, hfinish⟩ := finish_spec hinv hpos hne
  have hcount := hgs.length_le
  have hlength := hdenotes.length_le
  have hdecode := decodeGroups_pack hgs [] hdenotes
    (show gs.length < data.length + 1 by rw [List.length_nil] at hlength; omega)
  refine ⟨gs.flatMap packGroup, ?_, ?_⟩
  · rw [lzssCompress, if_neg hne, hloop]
    exact hfinish
  · rw [List.nil_append, List.length_nil] at hdecode
    rw [lzssDecompress, hdecode, Option.map_some]

/-- The Python object has the data, if all of it was decompressed. -/
theorem decompressString_of_lzssDecompress {compressed data : List UInt8}
    (h : lzssDecompress compressed data.length = some (data, compressed.length)) :
    decompressString compressed data.length = some (.bytes data) := by
  rw [decompressString, h, Option.map_some, if_pos rfl]

/-- The round trip: the compressor does not fail, and on its result the
    decompressor, which fails on any access out of range and on any reference that
    begins before the destination or overlaps with it, writes the data, and returns
    the length of the compressed data. -/
theorem lzss_round_trip (data : List UInt8) (hne : 0 < data.length) :
    ∃ compressed, lzssCompress data = some compressed ∧
      lzssDecompress compressed data.length = some (data, compressed.length) ∧
      decompressString compressed data.length = some (.bytes data) := by
  obtain ⟨compressed, hcompress, hdecompress⟩ :=
    lzssDecompress_lzssCompress (List.length_pos_iff.1 hne)
  exact ⟨compressed, hcompress, hdecompress, decompressString_of_lzssDecompress hdecompress⟩

/-- The round trip of a text that repeats itself. -/
theorem lzss_round_trip_repeated :
    ∃ compressed, lzssCompress [1, 2, 3, 4, 1, 2, 3, 4, 5] = some compressed ∧
      lzssDecompress compressed 9 = some ([1, 2, 3, 4, 1, 2, 3, 4, 5], compressed.length) ∧
      decompressString compressed 9 = some (.bytes [1, 2, 3, 4, 1, 2, 3, 4, 5]) :=
  lzss_round_trip [1, 2, 3, 4, 1, 2, 3, 4, 5] (by decide)

end AHPy.Lzss
