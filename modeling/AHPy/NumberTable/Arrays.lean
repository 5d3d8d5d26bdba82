import AHPy.NumberTable.Spellings

/-!
# The arrays of integers

* `cInteger_intText`: the compiler reads the initialisers that are written;
* `collectAll_spec`: each constant is in one of the lists, and each integer of an array fits
  its type;
* `intArrays_spec`: the index expression reads the integers of all arrays in order.
-/

namespace AHPy.NumberTable

/-! ## Initialisers -/

/-- The suffixes of the initialisers. -/
def suffixes : List (List Char) := [[], ['L'], ['L', 'L']]

theorem unsignedCInteger_toDigits {n : ℕ} (hn : n < 2 ^ 63) {suffix : List Char}
    (hs : suffix ∈ suffixes) : unsignedCInteger (Nat.toDigits 10 n ++ suffix) = some n := by
  have hspan : (Nat.toDigits 10 n ++ suffix).span Char.isDigit = (Nat.toDigits 10 n, suffix) := by
    have hall : ∀ c ∈ Nat.toDigits 10 n, c.isDigit = true := fun c hc =>
      Nat.isDigit_of_mem_toDigits (by decide) (by decide) hc
    rw [List.span_eq_takeWhile_dropWhile, List.takeWhile_append_of_pos hall,
      List.dropWhile_append_of_pos hall]
    have hsuffix : suffix.takeWhile Char.isDigit = [] ∧ suffix.dropWhile Char.isDigit = suffix := by
      revert suffix
      decide
    rw [hsuffix.1, hsuffix.2, List.append_nil]
  have hbase : digits (if (Nat.toDigits 10 n).head? = some '0' then 8 else 10)
      (Nat.toDigits 10 n) = some n := by
    by_cases hzero : n = 0
    · subst hzero
      rfl
    · rw [if_neg (head?_toDigits hzero)]
      exact (digits_toDigits (by decide) (by decide) n).1
  rw [unsignedCInteger, hspan]
  dsimp only
  have hsuffix : suffix = [] ∨ suffix = ['L'] ∨ suffix = ['L', 'L'] := by
    simpa [suffixes] using hs
  rw [if_pos hsuffix, hbase, Option.filter_some, if_pos (decide_eq_true hn)]

/-- The compiler reads the initialiser of an integer. -/
theorem cInteger_intText {n : ℤ} (hn : n.natAbs < 2 ^ 63) {suffix : List Char}
    (hs : suffix ∈ suffixes) : cInteger (intText n ++ suffix) = some n := by
  cases n with
  | ofNat n =>
    have hread := unsignedCInteger_toDigits (n := n) hn hs
    rw [intText, cInteger.eq_def]
    split
    next cs heq =>
      obtain ⟨c, ds, hds, hdigit⟩ : ∃ c ds, Nat.toDigits 10 n = c :: ds ∧ c.isDigit = true := by
        obtain ⟨c, ds, hds⟩ := List.exists_cons_of_ne_nil (Nat.toDigits_ne_nil (n := n) (b := 10))
        exact ⟨c, ds, hds, Nat.isDigit_of_mem_toDigits (by decide) (by decide)
          (hds ▸ List.mem_cons_self)⟩
      rw [hds, List.cons_append] at heq
      rw [(List.cons.inj heq).1] at hdigit
      cases hdigit
    next =>
      rw [hread]
      rfl
  | negSucc n =>
    have hread := unsignedCInteger_toDigits (n := n + 1) hn hs
    rw [intText, List.cons_append, cInteger, hread]
    rfl

/-! ## The lists of integers -/

/-- The type of the items of an array. -/
def itemType (i : ℕ) : CIntType := (intTypes (i + 1)).getD int64

/-- An initialiser that fits the type of its array. -/
def Fits (i : ℕ) (e : Initialiser) : Prop :=
  ∃ n, cInteger e.2 = some n ∧ (itemType i).InRange n

/-- The lists of integers, whose lengths the suffix goes with. -/
structure Buckets.Ok (b : Buckets) : Prop where
  full : b.full.length ≤ 3
  suffix : b.suffix ∈ suffixes
  fits : ∀ i bucket, b.all[i]? = some bucket → ∀ e ∈ bucket, Fits i e

theorem Buckets.grow_spec {bits : ℕ} (hbits : bits ≤ 63) (b : Buckets) (h : b.Ok) :
    (b.grow bits).Ok ∧ (b.grow bits).all.flatten = b.all.flatten ∧
      (bits + 8) / 8 ≤ 2 ^ (b.grow bits).full.length := by
  induction b using Buckets.grow.induct bits with
  | case1 b hlt ih =>
    rw [Buckets.grow, if_pos hlt]
    rw [Nat.one_shiftLeft] at hlt
    have hfull : b.full.length < 3 := by
      by_contra hge
      have h8 := Nat.pow_le_pow_right (by decide : 0 < 2) (Nat.le_of_not_lt hge)
      omega
    have hnext : Buckets.Ok ⟨b.full ++ [b.last], [], ['L', 'L'].take b.full.length⟩ := by
      refine ⟨?_, ?_, ?_⟩
      · rw [List.length_append, List.length_singleton]
        omega
      · dsimp only
        interval_cases b.full.length <;> decide
      · intro i bucket hi e he
        change (b.all ++ [[]])[i]? = some bucket at hi
        rcases List.getElem?_eq_some_iff.1 hi with ⟨hlen, hi'⟩
        by_cases hlen' : i < b.all.length
        · rw [List.getElem?_append_left hlen'] at hi
          exact h.fits i bucket hi e he
        · rw [List.getElem_append_right (Nat.le_of_not_lt hlen'), List.getElem_singleton] at hi'
          rw [← hi'] at he
          cases he
    obtain ⟨hok, hflatten, hlast⟩ := ih hnext
    refine ⟨hok, hflatten.trans ?_, hlast⟩
    simp [Buckets.all]
  | case2 b hge =>
    rw [Buckets.grow, if_neg hge]
    rw [Nat.one_shiftLeft] at hge
    exact ⟨h, rfl, Nat.le_of_not_lt hge⟩

/-- An integer with as many bytes as the last list has fits its type. -/
theorem inRange_itemType {n : ℤ} {k : ℕ} (hk : k ≤ 3) (hn : (bitLength n + 8) / 8 ≤ 2 ^ k) :
    (itemType k).InRange n := by
  have hlt : n.natAbs < 2 ^ bitLength n := Nat.lt_size_self n.natAbs
  have hle : bitLength n ≤ 8 * 2 ^ k - 1 := by
    have hpos := Nat.two_pow_pos k
    omega
  have hbound := hlt.trans_le (Nat.pow_le_pow_right (by decide) hle)
  have hn' : (n.natAbs : ℤ) < 2 ^ (8 * 2 ^ k - 1) := by exact_mod_cast hbound
  interval_cases k <;>
  · simp only [itemType, intTypes, int64, Option.getD_some, CIntType.InRange, CIntType.lo]
    norm_num at hn' ⊢
    omega

/-- What the lists have of the constants that were collected. -/
structure Collected.Holds (done : List NumConst) (s : Collected) : Prop where
  ok : s.buckets.Ok
  count : s.intCount = s.buckets.all.flatten.length
  last : s.buckets.last = [] → s.intCount = 0
  names : (s.floats.map Prod.fst ++ (s.buckets.all.flatten.map Prod.fst ++
    s.large.map Prod.fst)).Perm (done.map NumConst.cname)
  floats : ∀ c ∈ done, c.pyType = .float → (c.cname, c.valueCode) ∈ s.floats
  ints : ∀ c ∈ done, c.pyType ≠ .float → ∀ n, strToNumber c.value = some n →
    (∃ text, (c.cname, text) ∈ s.buckets.all.flatten ∧ cInteger text = some n) ∨
      (c.cname, n) ∈ s.large
  float_codes : ∀ e ∈ s.floats, ∃ c ∈ done, c.pyType = .float ∧ c.valueCode = e.2

theorem holds_empty : Collected.Holds [] .empty where
  ok := ⟨by decide, by decide, fun i bucket hi e he => by
    rcases i with _ | i
    · obtain rfl := Option.some.inj hi
      cases he
    · cases hi⟩
  count := rfl
  last _ := rfl
  names := List.Perm.refl _
  floats c hc := absurd hc List.not_mem_nil
  ints c hc := absurd hc List.not_mem_nil
  float_codes e he := absurd he List.not_mem_nil

/-- An integer that is appended to the last list. -/
theorem Buckets.Ok.concat {b : Buckets} (h : b.Ok) {e : Initialiser}
    (he : Fits b.full.length e) : Buckets.Ok { b with last := b.last ++ [e] } where
  full := h.full
  suffix := h.suffix
  fits i bucket hi d hd := by
    rw [Buckets.all] at hi
    dsimp only at hi
    rcases Nat.lt_trichotomy i b.full.length with hlt | rfl | hgt
    · rw [List.getElem?_append_left hlt] at hi
      refine h.fits i bucket ?_ d hd
      rw [Buckets.all, List.getElem?_append_left hlt, hi]
    · rw [List.getElem?_concat_length, Option.some.injEq] at hi
      rw [← hi, List.mem_append, List.mem_singleton] at hd
      rcases hd with hd | rfl
      · exact h.fits b.full.length b.last (by rw [Buckets.all, List.getElem?_concat_length]) d hd
      · exact he
    · rw [List.getElem?_eq_none (by simp; omega)] at hi
      cases hi

theorem perm_insert {α : Type*} {l₁ l₂ l : List α} (h : (l₁ ++ l₂).Perm l) (a : α) :
    (l₁ ++ a :: l₂).Perm (l ++ [a]) :=
  List.perm_middle.trans ((h.cons a).trans (List.perm_append_singleton a l).symm)

theorem Collected.Holds.addFloat {done : List NumConst} {s : Collected} (h : s.Holds done)
    {c : NumConst} (hc : c.pyType = .float) :
    Collected.Holds (done ++ [c]) { s with floats := s.floats ++ [(c.cname, c.valueCode)] } where
  ok := h.ok
  count := h.count
  last := h.last
  names := by
    rw [List.map_append, List.map_append, List.append_assoc]
    exact perm_insert h.names c.cname
  floats d hd hfloat := by
    rcases List.mem_append.1 hd with hd | hd
    · exact List.mem_append_left _ (h.floats d hd hfloat)
    · rw [List.mem_singleton.1 hd]
      exact List.mem_append_right _ List.mem_cons_self
  ints d hd hfloat n hn := by
    rcases List.mem_append.1 hd with hd | hd
    · exact h.ints d hd hfloat n hn
    · exact absurd (List.mem_singleton.1 hd ▸ hc) hfloat
  float_codes e he := by
    rcases List.mem_append.1 he with he | he
    · obtain ⟨d, hd, hfloat, hcode⟩ := h.float_codes e he
      exact ⟨d, List.mem_append_left _ hd, hfloat, hcode⟩
    · rw [List.mem_singleton.1 he]
      exact ⟨c, List.mem_append_right _ List.mem_cons_self, hc, rfl⟩

theorem Collected.Holds.addInt {done : List NumConst} {s : Collected} (h : s.Holds done)
    {c : NumConst} (hc : c.pyType ≠ .float) {number : ℤ}
    (hnumber : strToNumber c.value = some number) :
    Collected.Holds (done ++ [c]) (s.addInt c.cname number) := by
  have hold : ∀ d ∈ done ++ [c], d.pyType = .float → d ∈ done := by
    intro d hd hfloat
    rcases List.mem_append.1 hd with hd | hd
    · exact hd
    · exact absurd (List.mem_singleton.1 hd ▸ hfloat) hc
  rw [Collected.addInt]
  split
  next hsmall =>
    obtain ⟨hok, hflatten, hbytes⟩ := s.buckets.grow_spec hsmall h.ok
    set b := s.buckets.grow (bitLength number) with hb
    have hread : cInteger (intText number ++ b.suffix) = some number := by
      have hlt : number.natAbs < 2 ^ bitLength number := Nat.lt_size_self number.natAbs
      exact cInteger_intText (hlt.trans_le (Nat.pow_le_pow_right (by decide) hsmall)) hok.suffix
    have hall : Buckets.all { b with last := b.last ++ [(c.cname, intText number ++ b.suffix)] } =
        b.full ++ [b.last ++ [(c.cname, intText number ++ b.suffix)]] := rfl
    have hflat : (Buckets.all
        { b with last := b.last ++ [(c.cname, intText number ++ b.suffix)] }).flatten =
        s.buckets.all.flatten ++ [(c.cname, intText number ++ b.suffix)] := by
      rw [hall, ← hflatten]
      simp [Buckets.all]
    refine ⟨?_, ?_, ?_, ?_, ?_, ?_, ?_⟩
    · exact hok.concat ⟨number, hread, inRange_itemType hok.full hbytes⟩
    · dsimp only
      rw [hflat, h.count, List.length_append, List.length_singleton]
    · intro hnil
      exact absurd hnil (by simp)
    · dsimp only
      have hnames := h.names
      rw [← List.append_assoc] at hnames
      rw [hflat]
      simpa only [List.append_assoc, List.map_append, List.map_cons, List.map_nil,
        List.cons_append, List.nil_append] using perm_insert hnames c.cname
    · exact fun d hd hfloat => h.floats d (hold d hd hfloat) hfloat
    · intro d hd hfloat n hn
      dsimp only
      rw [hflat]
      rcases List.mem_append.1 hd with hd | hd
      · rcases h.ints d hd hfloat n hn with ⟨text, hmem, hvalue⟩ | hlarge
        · exact .inl ⟨text, List.mem_append_left _ hmem, hvalue⟩
        · exact .inr hlarge
      · obtain rfl := List.mem_singleton.1 hd
        obtain rfl := Option.some.inj (hn.symm.trans hnumber)
        exact .inl ⟨_, List.mem_append_right _ List.mem_cons_self, hread⟩
    · intro e he
      obtain ⟨d, hd, hcode⟩ := h.float_codes e he
      exact ⟨d, List.mem_append_left _ hd, hcode⟩
  next =>
    refine ⟨h.ok, h.count, h.last, ?_, ?_, ?_, ?_⟩
    · have hnames := h.names
      rw [← List.append_assoc, ← List.append_nil (_ ++ _)] at hnames
      simpa only [List.append_assoc, List.map_append, List.map_cons, List.map_nil,
        List.cons_append, List.nil_append] using perm_insert hnames c.cname
    · exact fun d hd hfloat => h.floats d (hold d hd hfloat) hfloat
    · intro d hd hfloat n hn
      rcases List.mem_append.1 hd with hd | hd
      · exact (h.ints d hd hfloat n hn).imp id (List.mem_append_left _)
      · obtain rfl := List.mem_singleton.1 hd
        obtain rfl := Option.some.inj (hn.symm.trans hnumber)
        exact .inr (List.mem_append_right _ List.mem_cons_self)
    · intro e he
      obtain ⟨d, hd, hcode⟩ := h.float_codes e he
      exact ⟨d, List.mem_append_left _ hd, hcode⟩

/-- Each constant is in one of the lists. -/
theorem collectAll_spec {consts done : List NumConst} {s : Collected} (h : s.Holds done)
    (hconsts : ∀ c ∈ consts, c.pyType ≠ .float → (strToNumber c.value).isSome) :
    ∃ s', consts.foldlM collect s = some s' ∧ s'.Holds (done ++ consts) := by
  induction consts generalizing done s with
  | nil => exact ⟨s, rfl, by rwa [List.append_nil]⟩
  | cons c consts ih =>
    obtain ⟨hc, hconsts⟩ := List.forall_mem_cons.1 hconsts
    obtain ⟨s₁, heq, hs₁⟩ : ∃ s₁, collect s c = some s₁ ∧ s₁.Holds (done ++ [c]) := by
      rw [collect]
      split
      next hfloat => exact ⟨_, rfl, h.addFloat hfloat⟩
      next hint =>
        obtain ⟨number, hnumber⟩ := Option.isSome_iff_exists.1 (hc hint)
        exact ⟨_, by rw [hnumber]; rfl, h.addInt hint hnumber⟩
    obtain ⟨s', heq', hs'⟩ := ih hs₁ hconsts
    refine ⟨s', ?_, by rwa [List.append_assoc, List.singleton_append] at hs'⟩
    rw [List.foldlM_cons, heq, Option.bind_eq_bind, Option.bind_some, heq']

/-! ## The index expression -/

/-- What an initialiser is read as. -/
def initialValue (e : Initialiser) : Option ℤ := cInteger e.2

/-- The arrays for lists of integers, from a size on. -/
def arraysOf : ℕ → List (List Initialiser) → List IntArray
  | _, [] => []
  | k, bucket :: rest =>
    if bucket = [] then arraysOf (k + 1) rest
    else ⟨1 <<< k, itemType k, bucket.map Prod.snd⟩ :: arraysOf (k + 1) rest

theorem shiftLeft_ne {k j : ℕ} : 1 <<< k ≠ 1 <<< (k + 1 + j) := by
  rw [Nat.one_shiftLeft, Nat.one_shiftLeft]
  exact (Nat.pow_lt_pow_right (by decide) (by omega)).ne

/-- The items of the array of a size. -/
theorem readArray_arraysOf {bs : List (List Initialiser)} {k : ℕ}
    (hfits : ∀ j bucket, bs[j]? = some bucket → ∀ e ∈ bucket, Fits (k + j) e) {j : ℕ}
    {bucket : List Initialiser} (hj : bs[j]? = some bucket) (hne : bucket ≠ []) (i : ℕ) :
    readArray (arraysOf k bs) (1 <<< (k + j)) i = bucket[i]?.bind initialValue := by
  induction bs generalizing k j with
  | nil => cases hj
  | cons b bs ih =>
    have hrest : ∀ j bucket, bs[j]? = some bucket → ∀ e ∈ bucket, Fits (k + 1 + j) e := by
      intro j bucket hj e he
      have h := hfits (j + 1) bucket hj e he
      rwa [← Nat.add_assoc, Nat.add_right_comm] at h
    cases j with
    | zero =>
      obtain rfl := Option.some.inj hj
      rw [arraysOf, if_neg hne, readArray, List.find?_cons_of_pos (by simp)]
      simp only [Option.bind_eq_bind, Option.bind_some, List.getElem?_map]
      cases hi : b[i]? with
      | none => rfl
      | some e =>
        obtain ⟨n, hn, hrange⟩ := hfits 0 b rfl e (List.mem_of_getElem? hi)
        simp only [Option.map_some, Option.bind_some, initialValue, hn]
        exact congrArg some (CIntType.convert_of_inRange hrange)
    | succ j =>
      have h := ih hrest hj
      rw [arraysOf]
      split
      next => rwa [← Nat.add_assoc, Nat.add_right_comm]
      next =>
        rw [readArray, List.find?_cons_of_neg]
        · rwa [← Nat.add_assoc, Nat.add_right_comm]
        · rw [decide_eq_true_eq, ← Nat.add_assoc, Nat.add_right_comm]
          exact shiftLeft_ne

/-- An expression reads some integers; what stands for `%s` reads the others. -/
def HoleReads (arrays : List IntArray) (access : Access) (es : List Initialiser) : Prop :=
  ∀ a, ∃ a', access.fill a = some a' ∧ ∀ i, a'.eval arrays i =
    if i < es.length then es[i]?.bind initialValue else a.eval arrays i

theorem holeReads_nil (arrays : List IntArray) : HoleReads arrays .hole [] :=
  fun a => ⟨a, rfl, fun _ => rfl⟩

theorem fill_fill {a c d : Access} (h : a.fill c = some d) (e : Access) :
    d.fill e = (c.fill e).bind a.fill := by
  induction a generalizing d with
  | hole =>
    obtain rfl := Option.some.inj h
    cases c.fill e <;> rfl
  | item => cases h
  | cond bound size offset otherwise ih =>
    obtain ⟨d', hd', rfl⟩ := Option.map_eq_some_iff.1 h
    rw [Access.fill, ih hd']
    cases c.fill e <;> rfl

/-- The integers of one more array. -/
theorem readItem_append {arrays : List IntArray} {es bucket : List Initialiser} {size i : ℕ}
    (hread : ∀ i, readArray arrays size i = bucket[i]?.bind initialValue) (hi : es.length ≤ i) :
    readItem arrays size es.length i = (es ++ bucket)[i]?.bind initialValue := by
  rw [readItem, if_pos hi, hread, List.getElem?_append_right hi]

theorem HoleReads.cond {arrays : List IntArray} {access access' : Access}
    {es bucket : List Initialiser} {size : ℕ} (h : HoleReads arrays access es)
    (hread : ∀ i, readArray arrays size i = bucket[i]?.bind initialValue)
    (hfill : access.fill (.cond (es ++ bucket).length size es.length .hole) = some access') :
    HoleReads arrays access' (es ++ bucket) := by
  intro a
  obtain ⟨a', ha', heval⟩ := h (.cond (es ++ bucket).length size es.length a)
  refine ⟨a', by rw [fill_fill hfill a]; exact ha', fun i => ?_⟩
  rw [heval, Access.eval]
  by_cases hi : i < es.length
  · rw [if_pos hi, if_pos (by rw [List.length_append]; omega), List.getElem?_append_left hi]
  · rw [if_neg hi, readItem_append hread (Nat.le_of_not_lt hi)]

theorem defineConstants_append {α : Type} (l₁ l₂ : List (CName × α)) (offset : ℕ) :
    defineConstants (l₁ ++ l₂) offset =
      defineConstants l₁ offset ++ defineConstants l₂ (offset + l₁.length) := by
  rw [defineConstants, List.zipIdx_append, List.map_append, defineConstants, defineConstants,
    Nat.zero_add, List.zipIdx_eq_map_add (i := l₁.length), List.map_map]
  congr 1
  refine List.map_congr_left fun p _ => ?_
  rw [Function.comp_apply]
  simp only [Nat.add_assoc]

/-- The index expression reads the integers of all arrays in order. -/
theorem intArrays_spec {arrays : List IntArray} {total offset : ℕ}
    {rest : List (List Initialiser)} {k : ℕ} {b : IntBlock} {es : List Initialiser}
    (htotal : k + rest.length = total) (hle : total ≤ 4) (hseen : b.seen = es.length)
    (haccess : HoleReads arrays b.access es)
    (hread : ∀ j bucket, rest[j]? = some bucket → bucket ≠ [] → ∀ i,
      readArray arrays (1 <<< (k + j)) i = bucket[i]?.bind initialValue) :
    ∃ b', intArrays total offset (k + 1) rest b = some b' ∧
      b'.arrays = b.arrays ++ arraysOf k rest ∧
      b'.defines = b.defines ++ defineConstants rest.flatten (offset + es.length) ∧
      ∀ bucket, rest.getLast? = some bucket → bucket ≠ [] → ∀ i < (es ++ rest.flatten).length,
        b'.access.eval arrays i = (es ++ rest.flatten)[i]?.bind initialValue := by
  induction rest generalizing k b es with
  | nil =>
    refine ⟨b, rfl, by rw [arraysOf, List.append_nil], ?_, fun bucket h => by cases h⟩
    exact (List.append_nil b.defines).symm
  | cons bucket rest ih =>
    have hread' : ∀ j bucket', rest[j]? = some bucket' → bucket' ≠ [] → ∀ i,
        readArray arrays (1 <<< (k + 1 + j)) i = bucket'[i]?.bind initialValue := by
      intro j bucket' hj hne i
      have h := hread (j + 1) bucket' hj hne i
      rwa [← Nat.add_assoc, Nat.add_right_comm] at h
    rw [List.length_cons] at htotal
    rw [intArrays]
    by_cases hnil : bucket = []
    · obtain ⟨b', heq, harrays, hdefines, heval⟩ := ih (by omega) hseen haccess hread'
      refine ⟨b', by rw [if_pos hnil, heq], by rw [harrays, arraysOf, if_pos hnil], ?_, ?_⟩
      · rw [hdefines, hnil]
        rfl
      · intro last hlast hne
        rw [hnil] at hlast ⊢
        cases rest with
        | nil =>
          obtain rfl := Option.some.inj hlast
          exact absurd rfl hne
        | cons bucket' rest => exact heval last hlast hne
    · have hbucket : ∀ i, readArray arrays (1 <<< k) i = bucket[i]?.bind initialValue :=
        hread 0 bucket rfl hnil
      obtain ⟨type, htype⟩ : ∃ type, intTypes (k + 1) = some type := by
        have hk : k < 4 := by omega
        interval_cases k <;> exact ⟨_, rfl⟩
      rw [if_neg hnil, htype]
      simp only [Option.bind_eq_bind, Option.bind_some, Nat.add_sub_cancel, hseen]
      have harray : arraysOf k (bucket :: rest) =
          ⟨1 <<< k, type, bucket.map Prod.snd⟩ :: arraysOf (k + 1) rest := by
        rw [arraysOf, if_neg hnil, itemType, htype]
        rfl
      have hflatten : es ++ (bucket :: rest).flatten = es ++ bucket ++ rest.flatten := by
        rw [List.flatten_cons, List.append_assoc]
      have hdefine : defineConstants (bucket :: rest).flatten (offset + es.length) =
          defineConstants bucket (offset + es.length) ++
            defineConstants rest.flatten (offset + (es ++ bucket).length) := by
        rw [List.flatten_cons, defineConstants_append, List.length_append, Nat.add_assoc]
      by_cases hlast : k + 1 = total
      · -- The last array is read without a condition.
        obtain rfl : rest = [] := List.length_eq_zero_iff.1 (by omega)
        obtain ⟨access, hfill, heval⟩ := haccess (.item (1 <<< k) es.length)
        rw [if_pos hlast, hfill]
        refine ⟨_, rfl, by rw [harray]; rfl, ?_, ?_⟩
        · rw [hdefine]
          exact congrArg (b.defines ++ ·) (List.append_nil _).symm
        · intro last _ _ i hi
          rw [hflatten, List.flatten_nil, List.append_nil, heval]
          split
          next hlt => rw [List.getElem?_append_left hlt]
          next hge => rw [Access.eval, readItem_append hbucket (Nat.le_of_not_lt hge)]
      · obtain ⟨access, hfill, -⟩ :=
          haccess (.cond (es ++ bucket).length (1 <<< k) es.length .hole)
        have hnext := haccess.cond hbucket hfill
        obtain ⟨b', heq, harrays, hdefines, heval⟩ := ih (b := ⟨b.arrays ++
          [⟨1 <<< k, type, bucket.map Prod.snd⟩], b.defines ++
          defineConstants bucket (offset + es.length), access, (es ++ bucket).length⟩)
          (by omega) rfl hnext hread'
        rw [if_neg hlast, ← List.length_append, hfill]
        refine ⟨b', heq, ?_, ?_, ?_⟩
        · rw [harrays, harray, List.append_assoc, List.singleton_append]
        · rw [hdefines, hdefine, List.append_assoc]
        · intro last hlast' hne
          rw [hflatten]
          cases rest with
          | nil => exact absurd (by simpa using htotal) hlast
          | cons bucket' rest => exact heval last hlast' hne

end AHPy.NumberTable
