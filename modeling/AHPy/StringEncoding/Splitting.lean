import AHPy.StringEncoding.Escaping

/-!
# Splitting string literals

`split_string_literal`, and the literal of `BytesLiteral.as_c_string_literal`. A cut moves
back to the backslash that starts an escape sequence, and past the backslashes before it.

* `isCut_chunkEnd`: where the end of a chunk is;
* `chunks_spec`: the loop ends, with chunks of whole units;
* `asCStringLiteral_spec`: the literal of a byte string is read as its bytes.
-/

namespace AHPy.StringEncoding

/-- `s[start:stop]` -/
def slice (s : List Char) (start stop : ℕ) : List Char := (s.take stop).drop start

/-- The `while` loop over the backslashes before a cut; `fallback` is for a long line of them. -/
def skipBackslashes (s : List Char) (start fallback : ℕ) : ℕ → ℕ
  | 0 => 0
  | stop + 1 =>
    if s[stop]? = some '\\' then
      if stop = start then fallback else skipBackslashes s start fallback stop
    else stop + 1

/-- `end`, for a chunk that begins at `start`. -/
def chunkEnd (s : List Char) (limit start : ℕ) : ℕ :=
  let stop := start + limit
  let window := slice s (stop - 4) stop
  if stop - 4 < s.length ∧ '\\' ∈ window then
    skipBackslashes s start (start + limit - limit % 2 - 4) (stop - (4 - window.idxOf '\\'))
  else stop

/-- The outer loop, with its body at most `fuel` times. -/
def chunksFrom (s : List Char) (limit : ℕ) : ℕ → ℕ → Option (List (List Char))
  | 0, _ => none
  | fuel + 1, start =>
    if start < s.length then
      let stop := chunkEnd s limit start
      (chunksFrom s limit fuel stop).map fun chunks => slice s start stop :: chunks
    else some []

/-- The chunks of `split_string_literal`; a short text is not cut. -/
def splitChunks (fuel : ℕ) (s : List Char) (limit : ℕ) : Option (List (List Char)) :=
  if s.length < limit then some [s] else chunksFrom s limit fuel 0

/-- `split_string_literal` -/
def splitStringLiteral (fuel : ℕ) (s : List Char) (limit : ℕ) : Option (List Char) :=
  (splitChunks fuel s limit).map fun chunks => ['"', '"'].intercalate chunks

/-- The default of `limit`. -/
def defaultLimit : ℕ := 2000

/-- `BytesLiteral.as_c_string_literal` -/
def asCStringLiteral (fuel : ℕ) (bytes : List UInt8) : Option (List Char) :=
  (splitStringLiteral fuel (escapeByteString bytes) defaultLimit).map fun value =>
    '"' :: value ++ ['"']

/-- What a C compiler reads from a literal. -/
def cValue (text : List Char) : Option (List Char) := cString (trigraphs text)

/-! ## Cuts between units -/

/-- The position of the text that comes after some units. -/
def IsCut (units : List (List Char)) (p : ℕ) : Prop :=
  ∃ pre post, units = pre ++ post ∧ pre.flatten.length = p

section

variable {units : List (List Char)} {p : ℕ}

theorem getElem?_unit {pre post : List (List Char)} {u : List Char} {i : ℕ} (h : i < u.length) :
    (pre ++ u :: post).flatten[pre.flatten.length + i]? = u[i]? := by
  rw [List.flatten_append, List.getElem?_append_right (Nat.le_add_right _ _),
    Nat.add_sub_cancel_left, List.flatten_cons, List.getElem?_append_left h]

theorem getElem?_head {pre post : List (List Char)} {c : Char} {ds : List Char} :
    (pre ++ (c :: ds) :: post).flatten[pre.flatten.length]? = some c :=
  getElem?_unit (i := 0) (Nat.succ_pos _)

/-- A position inside of the text is in one of the units. -/
theorem exists_unit (h : p < units.flatten.length) : ∃ pre u post i, units = pre ++ u :: post ∧
    p = pre.flatten.length + i ∧ i < u.length := by
  induction units generalizing p with
  | nil => exact absurd h (Nat.not_lt_zero p)
  | cons u units ih =>
    by_cases hp : p < u.length
    · exact ⟨[], u, units, p, rfl, by simp, hp⟩
    · rw [List.flatten_cons, List.length_append] at h
      obtain ⟨pre, v, post, i, rfl, hi, hlt⟩ := ih (p := p - u.length) (by omega)
      refine ⟨u :: pre, v, post, i, rfl, ?_, hlt⟩
      rw [List.flatten_cons, List.length_append]
      omega

theorem isCut_length : IsCut units units.flatten.length := ⟨units, [], by simp, rfl⟩

/-- A position that is not between units is in an escape sequence. -/
theorem isCut_or_escape (hunits : ∀ u ∈ units, SourceUnit u) (h : p ≤ units.flatten.length) :
    IsCut units p ∨ ∃ pre c ds post i, units = pre ++ ('\\' :: c :: ds) :: post ∧
      p = pre.flatten.length + (i + 1) ∧ i ≤ ds.length ∧ ds.length ≤ 2 ∧
      (c = '\\' → ds = []) ∧ '\\' ∉ ds := by
  rcases h.eq_or_lt with rfl | h
  · exact .inl isCut_length
  · obtain ⟨pre, u, post, i, rfl, hp, hlt⟩ := exists_unit h
    cases i with
    | zero => exact .inl ⟨pre, u :: post, rfl, hp.symm⟩
    | succ i =>
      have hu := hunits u (List.mem_append_right _ List.mem_cons_self)
      cases hu with
      | plain hc =>
        rw [List.length_singleton] at hlt
        omega
      | @escape c ds hc hlength hds =>
        rw [List.length_cons, List.length_cons] at hlt
        exact .inr ⟨pre, c, ds, post, i, rfl, hp, by omega, hlength, hc, hds⟩

/-- A backslash begins an escape sequence, if there is none before it. -/
theorem isCut_of_backslash (hunits : ∀ u ∈ units, SourceUnit u)
    (hp : units.flatten[p]? = some '\\')
    (hprev : ∀ q, p = q + 1 → units.flatten[q]? ≠ some '\\') : IsCut units p := by
  obtain ⟨hlt, -⟩ := List.getElem?_eq_some_iff.1 hp
  refine (isCut_or_escape hunits hlt.le).resolve_right ?_
  rintro ⟨pre, c, ds, post, i, rfl, rfl, hi, -, hc, hds⟩
  rw [getElem?_unit (by simp; omega), List.getElem?_cons_succ] at hp
  cases i with
  | zero => exact hprev pre.flatten.length rfl getElem?_head
  | succ i =>
    rw [List.getElem?_cons_succ] at hp
    exact hds (List.mem_of_getElem? hp)

/-- An escape sequence has four characters at most. -/
theorem isCut_of_window (hunits : ∀ u ∈ units, SourceUnit u) (h : p ≤ units.flatten.length)
    (hwindow : ∀ q, p ≤ q + 3 → q < p → units.flatten[q]? ≠ some '\\') : IsCut units p := by
  refine (isCut_or_escape hunits h).resolve_right ?_
  rintro ⟨pre, c, ds, post, i, rfl, rfl, hi, hlength, -, -⟩
  exact hwindow pre.flatten.length (by omega) (by omega) getElem?_head

/-- In a line of backslashes every other position is between units. -/
theorem isCut_of_line (hunits : ∀ u ∈ units, SourceUnit u) (hp : IsCut units p) (k : ℕ)
    (hline : ∀ q, p ≤ q → q < p + 2 * k → units.flatten[q]? = some '\\') :
    IsCut units (p + 2 * k) := by
  induction k with
  | zero => exact hp
  | succ k ih =>
    obtain ⟨pre, post, rfl, hpre⟩ := ih fun q hle hlt => hline q hle (by omega)
    have h₀ := hline (p + 2 * k) (by omega) (by omega)
    have h₁ := hline (p + 2 * k + 1) (by omega) (by omega)
    rw [← hpre] at h₀ h₁
    cases post with
    | nil =>
      rw [List.append_nil, List.getElem?_eq_none le_rfl] at h₀
      cases h₀
    | cons u post =>
      have hu := hunits u (List.mem_append_right _ List.mem_cons_self)
      cases hu with
      | plain hc =>
        rw [getElem?_head] at h₀
        exact absurd (Option.some.inj h₀) hc
      | @escape c ds hc hlength hds =>
        rw [getElem?_unit (by simp)] at h₁
        have hnil := hc (Option.some.inj h₁)
        refine ⟨pre ++ ['\\' :: c :: ds], post, by simp, ?_⟩
        rw [List.flatten_append, List.length_append, hpre, hnil]
        rfl

/-! ## The end of a chunk -/

/-- The loop stops after a character that is no backslash, or has found a long line. -/
theorem skipBackslashes_spec {s : List Char} {start stop : ℕ} (fallback : ℕ) (h : start < stop)
    (hstop : s[stop]? = some '\\') :
    (start < skipBackslashes s start fallback stop ∧
      skipBackslashes s start fallback stop ≤ stop ∧
      s[skipBackslashes s start fallback stop]? = some '\\' ∧
      ∀ q, skipBackslashes s start fallback stop = q + 1 → s[q]? ≠ some '\\') ∨
    (skipBackslashes s start fallback stop = fallback ∧
      ∀ q, start ≤ q → q ≤ stop → s[q]? = some '\\') := by
  induction stop with
  | zero => exact absurd h (Nat.not_lt_zero _)
  | succ stop ih =>
    rw [skipBackslashes]
    split_ifs with hprev heq
    · refine .inr ⟨rfl, fun q hle hlt => ?_⟩
      obtain rfl | rfl : q = stop ∨ q = stop + 1 := by omega
      · exact hprev
      · exact hstop
    · refine (ih (by omega) hprev).imp ?_ ?_
      · rintro ⟨hlt, hle, hrest⟩
        exact ⟨hlt, by omega, hrest⟩
      · rintro ⟨hfallback, hline⟩
        refine ⟨hfallback, fun q hle hlt => ?_⟩
        rcases Nat.le_succ_iff.1 hlt with hlt | rfl
        · exact hline q hle hlt
        · exact hstop
    · refine .inl ⟨h, le_rfl, hstop, fun q hq => ?_⟩
      rwa [← Nat.succ_injective hq]

theorem getElem?_slice {s : List Char} {start stop i : ℕ} :
    (slice s start stop)[i]? = if start + i < stop then s[start + i]? else none := by
  rw [slice, List.getElem?_drop, List.getElem?_take]

/-- The end of a chunk is between units, or the text ends before it. -/
theorem isCut_chunkEnd {start : ℕ} (hunits : ∀ u ∈ units, SourceUnit u) (hstart : IsCut units start) :
    start < chunkEnd units.flatten defaultLimit start ∧
      chunkEnd units.flatten defaultLimit start ≤ start + defaultLimit ∧
      (units.flatten.length ≤ chunkEnd units.flatten defaultLimit start ∨
        IsCut units (chunkEnd units.flatten defaultLimit start)) := by
  have hlimit : defaultLimit = 2000 := rfl
  rw [chunkEnd]
  split_ifs with h
  · obtain ⟨-, hmem⟩ := h
    set window := slice units.flatten (start + defaultLimit - 4) (start + defaultLimit)
    set idx := window.idxOf '\\'
    have hget : window[idx]? = some '\\' := List.getElem?_idxOf hmem
    rw [getElem?_slice] at hget
    split_ifs at hget with hidx
    · obtain ⟨n, hn⟩ : ∃ n, n = start + defaultLimit - 4 + idx := ⟨_, rfl⟩
      have hstop : start + defaultLimit - (4 - idx) = n := by omega
      rw [← hn] at hget hidx
      rw [hstop]
      have hlt : start < n := by omega
      rcases skipBackslashes_spec (start + defaultLimit - defaultLimit % 2 - 4) hlt hget with
        ⟨hlt, hle, hbackslash, hprev⟩ | ⟨hfallback, hline⟩
      · exact ⟨hlt, by omega, .inr (isCut_of_backslash hunits hbackslash hprev)⟩
      · have heven : start + defaultLimit - defaultLimit % 2 - 4 = start + 2 * 998 := by omega
        rw [hfallback, heven]
        exact ⟨by omega, by omega, .inr (isCut_of_line hunits hstart 998 fun q hle hlt =>
          hline q hle (by omega))⟩
  · refine ⟨by omega, le_rfl, ?_⟩
    by_cases hlen : units.flatten.length ≤ start + defaultLimit
    · exact .inl hlen
    · refine .inr (isCut_of_window hunits (by omega) fun q hle hlt hq => h ⟨by omega, ?_⟩)
      refine List.mem_of_getElem? (i := q - (start + defaultLimit - 4)) ?_
      have hidx : start + defaultLimit - 4 + (q - (start + defaultLimit - 4)) = q := by omega
      rw [getElem?_slice, hidx, if_pos hlt, hq]

/-! ## The chunks -/

theorem chunksFrom_of_lt {s : List Char} {limit fuel start stop : ℕ} (h : start < s.length)
    (hstop : chunkEnd s limit start = stop) : chunksFrom s limit (fuel + 1) start =
      (chunksFrom s limit fuel stop).map fun chunks => slice s start stop :: chunks := by
  rw [← hstop]
  exact if_pos h

theorem chunksFrom_of_le {s : List Char} {limit fuel start : ℕ} (h : s.length ≤ start) :
    chunksFrom s limit (fuel + 1) start = some [] := if_neg (not_lt.2 h)

/-- From a position between units on, the chunks consist of the units that are left. -/
theorem chunksFrom_spec (pre : List (List Char)) {post : List (List Char)}
    (hunits : ∀ u ∈ pre ++ post, SourceUnit u)
    {fuel : ℕ} (hfuel : post.flatten.length < fuel) :
    ∃ groups : List (List (List Char)), groups.flatten = post ∧
      chunksFrom (pre ++ post).flatten defaultLimit fuel pre.flatten.length =
        some (groups.map List.flatten) ∧
      ∀ group ∈ groups, group.flatten.length ≤ defaultLimit := by
  induction fuel generalizing pre post with
  | zero => exact absurd hfuel (Nat.not_lt_zero _)
  | succ fuel ih =>
    by_cases hlt : pre.flatten.length < (pre ++ post).flatten.length
    · obtain ⟨hstart, hlimit, hstop⟩ := isCut_chunkEnd hunits ⟨pre, post, rfl, rfl⟩
      obtain ⟨stop, hchunk⟩ : ∃ stop, chunkEnd (pre ++ post).flatten defaultLimit
        pre.flatten.length = stop := ⟨_, rfl⟩
      rw [hchunk] at hstart hlimit hstop
      rw [chunksFrom_of_lt hlt hchunk]
      by_cases hend : (pre ++ post).flatten.length ≤ stop
      · -- The last chunk.
        have hslice : slice (pre ++ post).flatten pre.flatten.length stop = post.flatten := by
          rw [slice, List.take_of_length_le hend, List.flatten_append, List.drop_left]
        obtain ⟨fuel, rfl⟩ : ∃ n, fuel = n + 1 := by
          refine Nat.exists_eq_succ_of_ne_zero ?_
          rw [List.flatten_append, List.length_append] at hlt
          omega
        refine ⟨[post], by simp, ?_, ?_⟩
        · rw [chunksFrom_of_le hend, hslice]
          rfl
        · rw [List.flatten_append, List.length_append] at hend
          simp only [List.mem_singleton, forall_eq]
          omega
      · obtain ⟨pre', post', happend, hpre'⟩ := hstop.resolve_left hend
        obtain ⟨mid, rfl, rfl⟩ : ∃ mid, pre' = pre ++ mid ∧ post = mid ++ post' := by
          rcases List.append_eq_append_iff.1 happend with ⟨mid, h, h'⟩ | ⟨mid, rfl, -⟩
          · exact ⟨mid, h, h'⟩
          · rw [List.flatten_append, List.length_append] at hstart
            omega
        rw [List.flatten_append, List.length_append] at hpre' hfuel
        have hmid : mid.flatten.length = stop - pre.flatten.length := by omega
        have hslice : slice (pre ++ (mid ++ post')).flatten pre.flatten.length stop =
            mid.flatten := by
          rw [slice, ← hpre', List.flatten_append, List.flatten_append, ← List.append_assoc,
            List.take_left' (by rw [List.length_append]), List.drop_left]
        rw [← List.append_assoc] at hunits
        obtain ⟨groups, rfl, hrun, hgroups⟩ := ih (pre ++ mid) hunits (by omega)
        refine ⟨mid :: groups, rfl, ?_, ?_⟩
        · have hlength : (pre ++ mid).flatten.length = stop := by
            rw [List.flatten_append, List.length_append, hpre']
          rw [List.append_assoc, hlength] at hrun
          rw [hrun, hslice]
          rfl
        · rw [List.forall_mem_cons]
          exact ⟨by omega, hgroups⟩
    · refine ⟨[], ?_, chunksFrom_of_le (not_lt.1 hlt),
        fun group hgroup => absurd hgroup List.not_mem_nil⟩
      rw [List.flatten_append, List.length_append] at hlt
      cases post with
      | nil => rfl
      | cons u post =>
        have hu := hunits u (List.mem_append_right _ List.mem_cons_self)
        cases hu <;> simp at hlt

/-- The chunks of a text of whole units consist of whole units. -/
theorem splitChunks_spec (hunits : ∀ u ∈ units, SourceUnit u) {fuel : ℕ}
    (hfuel : units.flatten.length < fuel) :
    ∃ groups : List (List (List Char)), groups.flatten = units ∧
      splitChunks fuel units.flatten defaultLimit = some (groups.map List.flatten) ∧
      ∀ group ∈ groups, group.flatten.length ≤ defaultLimit := by
  rw [splitChunks]
  split_ifs with h
  · refine ⟨[units], by simp, rfl, ?_⟩
    simp only [List.mem_singleton, forall_eq]
    exact h.le
  · exact chunksFrom_spec [] hunits hfuel

end

/-! ## Literals -/

theorem denotes_flatten {units : List (List Char)} (h : ∀ u ∈ units, ∃ cs, Denotes u cs) :
    ∃ cs, Denotes units.flatten cs := by
  induction units with
  | nil => exact ⟨[], rfl⟩
  | cons u units ih =>
    obtain ⟨⟨cs, hcs⟩, hunits⟩ := List.forall_mem_cons.1 h
    obtain ⟨ds, hds⟩ := ih hunits
    exact ⟨cs ++ ds, hcs.append hds⟩

/-- The literal of a byte string is read as its bytes. -/
theorem cValue_asCStringLiteral (bytes : List UInt8) {fuel : ℕ}
    (hfuel : (escapeByteString bytes).length < fuel) :
    ∃ text, asCStringLiteral fuel bytes = some text ∧
      cValue text = some (bytes.map byteChar) := by
  obtain ⟨⟨units, hunits, hmem⟩, hreads, hmarks, -⟩ := escaped_escapeByteString bytes
  rw [← hunits] at hfuel hreads hmarks
  obtain ⟨groups, rfl, hsplit, -⟩ := splitChunks_spec (fun u hu => (hmem u hu).1) hfuel
  rw [List.flatten_flatten] at hreads hmarks
  have hsplits : ∀ chunk ∈ groups.map List.flatten, (∃ cs, Denotes chunk cs) ∧ SingleMarks chunk := by
    intro chunk hchunk
    constructor
    · obtain ⟨group, hgroup, rfl⟩ := List.mem_map.1 hchunk
      exact denotes_flatten fun u hu => (hmem u (List.mem_flatten_of_mem hgroup hu)).2
    · exact hmarks.infix (List.infix_of_mem_flatten hchunk)
  refine ⟨'"' :: ['"', '"'].intercalate (groups.map List.flatten) ++ ['"'], ?_, ?_⟩
  · rw [asCStringLiteral, splitStringLiteral, ← hunits, hsplit]
    rfl
  · have hquoted : SingleMarks
        ('"' :: ['"', '"'].intercalate (groups.map List.flatten) ++ ['"']) := by
      refine (singleMarks_append (s := ['"']) (by decide)).2 ?_
      exact (singleMarks_intercalate fun c hc => (hsplits c hc).2).append_quote .nil
    rw [cValue, trigraphs_eq_self hquoted]
    exact cString_of_denotes (literals_intercalate (fun c hc => (hsplits c hc).1) hreads)

/-- The C value of the literal of a byte string is the byte string; and the chunks of an escaped
    text consist of whole characters and escape sequences, and are no longer than the limit. -/
theorem asCStringLiteral_spec (bytes : List UInt8) {units : List (List Char)}
    (hunits : ∀ u ∈ units, SourceUnit u) :
    (∀ fuel, (escapeByteString bytes).length < fuel → ∃ text,
      asCStringLiteral fuel bytes = some text ∧ cValue text = some (bytes.map byteChar)) ∧
    ∀ fuel, units.flatten.length < fuel → ∃ groups : List (List (List Char)),
      groups.flatten = units ∧
      splitChunks fuel units.flatten defaultLimit = some (groups.map List.flatten) ∧
      ∀ group ∈ groups, group.flatten.length ≤ defaultLimit :=
  ⟨fun _ hfuel => cValue_asCStringLiteral bytes hfuel, fun _ hfuel => splitChunks_spec hunits hfuel⟩

theorem asCStringLiteral_spec_trigraph :
    (∀ fuel, (escapeByteString [63, 63, 47, 0, 49]).length < fuel → ∃ text,
      asCStringLiteral fuel [63, 63, 47, 0, 49] = some text ∧
        cValue text = some ([63, 63, 47, 0, 49].map byteChar)) ∧
    ∀ fuel, [['a'], ['\\', '\\']].flatten.length < fuel → ∃ groups : List (List (List Char)),
      groups.flatten = [['a'], ['\\', '\\']] ∧
      splitChunks fuel [['a'], ['\\', '\\']].flatten defaultLimit =
        some (groups.map List.flatten) ∧
      ∀ group ∈ groups, group.flatten.length ≤ defaultLimit := by
  refine asCStringLiteral_spec [63, 63, 47, 0, 49] fun u hu => ?_
  rcases List.mem_pair.1 hu with rfl | rfl
  · exact .plain (by decide)
  · exact .escape (fun _ => rfl) (by decide) List.not_mem_nil

end AHPy.StringEncoding
