import AHPy.NumberTable.Spellings

/-!
# The text of the large integers

The large integers are written to the base 32, with an escape sequence for NUL between them.
The text is split into several literals, but never inside an escape sequence.

* `pyLongFromString_toBase32`: the digits of an integer are read up to the next NUL;
* `Escaped.splits`: a text may be split where no escape sequence is open;
* `cString_largeText`: the string that the compiler reads.
-/

namespace AHPy.NumberTable

/-! ## Digits -/

/-- The digit characters of the base 32. -/
def base32Digit (v : ℕ) : Char := "0123456789abcdefghijklmnopqrstuv".toList.getD v '0'

theorem digitValue_base32Digit {v : ℕ} (hv : v < 32) : digitValue 32 (base32Digit v) = some v := by
  interval_cases v <;> rfl

theorem base32Loop_of_pos {n : ℕ} (hn : n ≠ 0) :
    base32Loop n = base32Digit (n % 32) :: base32Loop (n / 32) := by
  rw [base32Loop, if_neg hn, base32Digit, Nat.shiftRight_eq_div_pow,
    show n &&& 31 = n % 32 from Nat.and_two_pow_sub_one_eq_mod n 5]

theorem base32Loop_zero : base32Loop 0 = [] := by
  rw [base32Loop, if_pos rfl]

/-- The digits of a natural number. -/
def base32Text (n : ℕ) : List Char := if n = 0 then ['0'] else (base32Loop n).reverse

theorem digits_base32Text (n : ℕ) : digits 32 (base32Text n) = some n ∧ '_' ∉ base32Text n := by
  refine digits_of_steps (by decide) (fun v hv => digitValue_base32Digit hv) (fun n hn => ?_)
    (fun n hn => ?_) n
  · rw [base32Text]
    split
    next hzero => rw [hzero]; rfl
    next hpos =>
      rw [base32Loop_of_pos hpos, Nat.mod_eq_of_lt hn, Nat.div_eq_of_lt hn, base32Loop_zero]
      rfl
  · have hdiv : n / 32 ≠ 0 := by omega
    rw [base32Text, if_neg (by omega), base32Text, if_neg hdiv, base32Loop_of_pos (by omega),
      List.reverse_cons]

theorem toBase32_eq (number : ℤ) : toBase32 number =
    if number < 0 then '-' :: base32Text number.natAbs else base32Text number.natAbs := by
  rw [toBase32, base32Text]
  by_cases hzero : number.natAbs = 0
  · rw [hzero, base32Loop_zero, if_pos rfl, if_pos rfl, if_neg (by omega)]
  · have hne : base32Loop number.natAbs ≠ [] := by
      rw [base32Loop_of_pos hzero]
      exact List.cons_ne_nil _ _
    rw [if_neg hne, if_neg hzero]
    split
    next => rw [List.reverse_append]; rfl
    next => rfl

/-- The characters of the texts. -/
def IsBase32Char (c : Char) : Prop := c = '-' ∨ (digitValue 32 c).isSome

instance (c : Char) : Decidable (IsBase32Char c) := inferInstanceAs (Decidable (_ ∨ _))

theorem isBase32Char_of_mem {number : ℤ} {c : Char} (hc : c ∈ toBase32 number) :
    IsBase32Char c := by
  obtain ⟨hdigits, hunder⟩ := digits_base32Text number.natAbs
  have hall := (isSome_of_digits hunder hdigits).2
  rw [toBase32_eq] at hc
  split at hc
  next => exact (List.mem_cons.1 hc).imp id (hall c)
  next => exact .inr (hall c hc)

theorem IsBase32Char.ne {c d : Char} (h : IsBase32Char c) (hd : ¬ IsBase32Char d) : c ≠ d := by
  rintro rfl
  exact hd h

/-- An integer is read from its digits, up to the next NUL. -/
theorem pyLongFromString_toBase32 (number : ℤ) (rest : List Char) :
    pyLongFromString (toBase32 number ++ nul :: rest) = some (number, nul :: rest) := by
  have hchars : ∀ c ∈ toBase32 number, decide (c ≠ nul) = true := fun c hc =>
    decide_eq_true ((isBase32Char_of_mem hc).ne (by decide))
  have hspan : (toBase32 number ++ nul :: rest).span (· ≠ nul) =
      (toBase32 number, nul :: rest) := by
    rw [List.span_eq_takeWhile_dropWhile, List.takeWhile_append_of_pos hchars,
      List.dropWhile_append_of_pos hchars]
    simp
  obtain ⟨hdigits, hunder⟩ := digits_base32Text number.natAbs
  have hhead : (base32Text number.natAbs).head? ≠ some '-' ∧
      (base32Text number.natAbs).head? ≠ some '+' := by
    have hall := (isSome_of_digits hunder hdigits).2
    constructor
    · intro hhead
      exact absurd (hall _ (List.mem_of_head? hhead)) (by decide)
    · intro hhead
      exact absurd (hall _ (List.mem_of_head? hhead)) (by decide)
  rw [pyLongFromString, hspan]
  dsimp only
  rw [if_neg (List.cons_ne_nil _ _), toBase32_eq]
  by_cases hneg : number < 0
  · have hsign : splitSign ('-' :: base32Text number.natAbs) =
        (true, base32Text number.natAbs) := rfl
    rw [if_pos hneg, hsign, hdigits]
    simp only [Option.map_some, if_true, Option.some.injEq, Prod.mk.injEq, and_true]
    omega
  · rw [if_neg hneg, splitSign_of_head hhead.1 hhead.2, hdigits]
    simp only [Option.map_some, Bool.false_eq_true, if_false, Option.some.injEq, Prod.mk.injEq,
      and_true]
    omega

/-! ## Escape sequences -/

/-- A text inside a literal, and what it stands for. -/
inductive Escaped : List Char → List Char → Prop
  | nil : Escaped [] []
  | char {c : Char} {s t : List Char} (hquote : c ≠ '"') (hslash : c ≠ '\\') (hnewline : c ≠ '\n')
      (h : Escaped s t) : Escaped (c :: s) (c :: t)
  | nul {s t : List Char} (h : Escaped s t) : Escaped ('\\' :: '0' :: '0' :: '0' :: s) (nul :: t)

theorem Escaped.literals_eq {s t : List Char} (h : Escaped s t) :
    literals .inside s = some (t, .inside) := by
  induction h with
  | nil => rfl
  | char hquote hslash hnewline _ ih =>
    simp only [literals, literalStep, insideStep, if_neg hquote, if_neg hslash, if_neg hnewline,
      Option.bind_eq_bind, Option.bind_some, ih]
    rfl
  | nul _ ih =>
    have hslash : literalStep .inside '\\' = some ([], .escaped) := rfl
    have hfirst : literalStep .escaped '0' = some ([], .octal 0 1) := rfl
    have hsecond : literalStep (.octal 0 1) '0' = some ([], .octal 0 2) := rfl
    have hthird : literalStep (.octal 0 2) '0' = some ([NumberTable.nul], .inside) := rfl
    simp only [literals, hslash, hfirst, hsecond, hthird, Option.bind_eq_bind, Option.bind_some, ih]
    rfl

theorem Escaped.append {s t s' t' : List Char} (h : Escaped s t) (h' : Escaped s' t') :
    Escaped (s ++ s') (t ++ t') := by
  induction h with
  | nil => exact h'
  | char hquote hslash hnewline _ ih => exact .char hquote hslash hnewline ih
  | nul _ ih => exact .nul ih

theorem escaped_of_chars {cs : List Char} (h : ∀ c ∈ cs, IsBase32Char c) : Escaped cs cs := by
  induction cs with
  | nil => exact .nil
  | cons c cs ih =>
    obtain ⟨hc, hcs⟩ := List.forall_mem_cons.1 h
    exact .char (hc.ne (by decide)) (hc.ne (by decide)) (hc.ne (by decide)) (ih hcs)

/-- A text may be split at a position. -/
def Splits (s t : List Char) (k : ℕ) : Prop :=
  ∃ t₁ t₂, t = t₁ ++ t₂ ∧ Escaped (s.take k) t₁ ∧ Escaped (s.drop k) t₂

theorem splits_zero {s t : List Char} (h : Escaped s t) : Splits s t 0 :=
  ⟨[], t, rfl, .nil, h⟩

theorem Splits.char {c : Char} {s t : List Char} {k : ℕ} (hquote : c ≠ '"') (hslash : c ≠ '\\')
    (hnewline : c ≠ '\n') (h : Splits s t k) : Splits (c :: s) (c :: t) (k + 1) := by
  obtain ⟨t₁, t₂, rfl, h₁, h₂⟩ := h
  exact ⟨c :: t₁, t₂, rfl, .char hquote hslash hnewline h₁, h₂⟩

theorem Splits.nul {s t : List Char} {k : ℕ} (h : Splits s t k) :
    Splits ('\\' :: '0' :: '0' :: '0' :: s) (nul :: t) (k + 4) := by
  obtain ⟨t₁, t₂, rfl, h₁, h₂⟩ := h
  exact ⟨NumberTable.nul :: t₁, t₂, rfl, .nul h₁, h₂⟩

/-- No escape sequence is open three characters after the last backslash. -/
theorem Escaped.splits {s t : List Char} (h : Escaped s t) {k : ℕ}
    (hk : ∀ j < k, k ≤ j + 3 → s[j]? ≠ some '\\') : Splits s t k := by
  induction h generalizing k with
  | nil => exact ⟨[], [], rfl, by rw [List.take_nil]; exact .nil, by rw [List.drop_nil]; exact .nil⟩
  | char hquote hslash hnewline h ih =>
    cases k with
    | zero => exact splits_zero (.char hquote hslash hnewline h)
    | succ k =>
      exact (ih fun j hj hle => hk (j + 1) (by omega) (by omega)).char hquote hslash hnewline
  | nul h ih =>
    by_cases hzero : k = 0
    · subst hzero
      exact splits_zero (.nul h)
    · have hfour : 4 ≤ k := by
        by_contra hlt
        exact hk 0 (by omega) (by omega) rfl
      obtain ⟨k, rfl⟩ := Nat.exists_eq_add_of_le' hfour
      exact (ih fun j hj hle => hk (j + 4) (by omega) (by omega)).nul

/-- A backslash starts an escape sequence. -/
theorem Escaped.splits_backslash {s t : List Char} (h : Escaped s t) {k : ℕ}
    (hk : s[k]? = some '\\') : Splits s t k ∧ s[k + 1]? = some '0' := by
  induction h generalizing k with
  | nil => cases hk
  | char hquote hslash hnewline h ih =>
    cases k with
    | zero => exact absurd (Option.some.inj hk) hslash
    | succ k =>
      obtain ⟨hsplits, hnext⟩ := ih (k := k) hk
      exact ⟨hsplits.char hquote hslash hnewline, hnext⟩
  | nul h ih =>
    rcases k with _ | _ | _ | _ | k
    · exact ⟨splits_zero (.nul h), rfl⟩
    · cases hk
    · cases hk
    · cases hk
    · obtain ⟨hsplits, hnext⟩ := ih (k := k) hk
      exact ⟨hsplits.nul, hnext⟩

/-! ## Chunks -/

/-- A text from a position on is split at the end of a chunk. -/
def SplitsAt (s t : List Char) (start stop : ℕ) : Prop :=
  start < stop ∧ ∃ t₁ t₂, t = t₁ ++ t₂ ∧ Escaped (slice s start stop) t₁ ∧ Escaped (s.drop stop) t₂

theorem Splits.splitsAt {s t : List Char} {start k : ℕ} (h : Splits (s.drop start) t k)
    (hk : 0 < k) : SplitsAt s t start (start + k) := by
  obtain ⟨t₁, t₂, heq, h₁, h₂⟩ := h
  refine ⟨by omega, t₁, t₂, heq, ?_, ?_⟩
  · rwa [slice, Nat.add_sub_cancel_left]
  · rwa [List.drop_drop] at h₂

theorem skipBackslashes_of_ne {s : List Char} {start stop : ℕ} (hstop : 0 < stop)
    (h : s[stop - 1]? ≠ some '\\') : skipBackslashes s start stop = stop := by
  cases stop with
  | zero => cases hstop
  | succ stop =>
    rw [Nat.add_sub_cancel] at h
    rw [skipBackslashes, if_neg h]

/-- No chunk ends inside an escape sequence. -/
theorem chunkEnd_spec {s t : List Char} {start : ℕ} (h : Escaped (s.drop start) t) :
    SplitsAt s t start (chunkEnd s start) := by
  have hget : ∀ j, (s.drop start)[j]? = s[start + j]? := fun j => List.getElem?_drop
  rw [chunkEnd]
  have hwindow : ∀ j, (slice s (start + splitLimit - 4) (start + splitLimit))[j]? =
      if j < 4 then s[start + (1996 + j)]? else none := by
    intro j
    rw [slice, List.getElem?_take]
    have hfour : start + splitLimit - (start + splitLimit - 4) = 4 := by
      rw [splitLimit]
      omega
    have hpos : start + splitLimit - 4 + j = start + (1996 + j) := by
      rw [splitLimit]
      omega
    rw [hfour, List.getElem?_drop, hpos]
  split
  next hslash =>
    -- The chunk ends before the first backslash among its last characters.
    set window := slice s (start + splitLimit - 4) (start + splitLimit) with hw
    obtain ⟨-, hmem⟩ := hslash
    have hidx : window[window.idxOf '\\']? = some '\\' := List.getElem?_idxOf hmem
    rw [hwindow] at hidx
    split_ifs at hidx with hlt
    have hstop : start + splitLimit - (4 - window.idxOf '\\') =
        start + (1996 + window.idxOf '\\') := by
      rw [splitLimit]
      omega
    rw [hstop]
    rw [← hget] at hidx
    obtain ⟨hsplits, -⟩ := h.splits_backslash hidx
    rw [skipBackslashes_of_ne (by omega)]
    · exact hsplits.splitsAt (by omega)
    · intro hbefore
      have hpred : start + (1996 + window.idxOf '\\') - 1 =
          start + (1995 + window.idxOf '\\') := by omega
      rw [hpred, ← hget] at hbefore
      have hnext := (h.splits_backslash hbefore).2
      rw [Nat.add_right_comm, hidx] at hnext
      cases hnext
  next hslash =>
    by_cases hlen : start + splitLimit - 4 < s.length
    · rw [not_and] at hslash
      have hnone := hslash hlen
      refine Splits.splitsAt (h.splits fun j hj hle hchar => hnone ?_) (by decide)
      rw [hget] at hchar
      refine List.mem_of_getElem? (i := j - 1996) ?_
      rw [splitLimit] at hj hle
      have hpos : start + (1996 + (j - 1996)) = start + j := by omega
      rw [hwindow, if_pos (by omega), hpos, hchar]
    · have hdrop : s.drop (start + splitLimit) = [] := List.drop_eq_nil_of_le (by omega)
      refine ⟨by rw [splitLimit]; omega, t, [], (List.append_nil t).symm, ?_, ?_⟩
      · rw [slice, Nat.add_sub_cancel_left, List.take_of_length_le]
        · exact h
        · rw [List.length_drop]
          omega
      · rw [hdrop]
        exact .nil

/-- The chunks of a text, and what they stand for. -/
theorem chunks_spec {s t : List Char} (fuel : ℕ) {start : ℕ} (h : Escaped (s.drop start) t)
    (hfuel : s.length - start < fuel) :
    ∃ cs ts, chunks s fuel start = some cs ∧ List.Forall₂ Escaped cs ts ∧ ts.flatten = t := by
  induction fuel generalizing start t with
  | zero => cases hfuel
  | succ fuel ih =>
    rw [chunks]
    split
    next =>
      obtain ⟨hlt, t₁, t₂, rfl, h₁, h₂⟩ := chunkEnd_spec h
      obtain ⟨cs, ts, heq, hall, hflatten⟩ := ih h₂ (by omega)
      refine ⟨_, t₁ :: ts, by rw [heq]; rfl, .cons h₁ hall, by rw [List.flatten_cons, hflatten]⟩
    next hge =>
      rw [List.drop_eq_nil_of_le (Nat.le_of_not_lt hge)] at h
      cases h
      exact ⟨[], [], rfl, .nil, rfl⟩

/-- Adjacent literals are one string. -/
theorem literals_intercalate {cs ts : List (List Char)} (h : List.Forall₂ Escaped cs ts) :
    literals .inside (List.intercalate ['"', '"'] cs) = some (ts.flatten, .inside) := by
  induction h with
  | nil => rfl
  | @cons c t cs ts hc hall ih =>
    cases cs with
    | nil =>
      cases hall
      rw [List.intercalate_singleton, List.flatten_singleton]
      exact hc.literals_eq
    | cons c' cs =>
      have hjoin : literals .inside (['"', '"'] ++ List.intercalate ['"', '"'] (c' :: cs)) =
          some (ts.flatten, .inside) := by
        have hquotes : literals .inside ['"', '"'] = some ([], .inside) := rfl
        rw [literals_append hquotes, ih]
        rfl
      rw [List.intercalate_cons_cons, List.append_assoc, literals_append hc.literals_eq, hjoin,
        List.flatten_cons]
      rfl

theorem literals_splitStringLiteral {s t : List Char} (h : Escaped s t) :
    ∃ text, splitStringLiteral s = some text ∧ literals .inside text = some (t, .inside) := by
  rw [splitStringLiteral]
  split
  next => exact ⟨s, rfl, h.literals_eq⟩
  next =>
    obtain ⟨cs, ts, heq, hall, rfl⟩ := 
      @chunks_spec s t (s.length + 1) 0 h (by omega)
    exact ⟨_, by rw [heq]; rfl, literals_intercalate hall⟩

/-- The memory that the string of some integers takes, with the NUL at its end. -/
def memory (numbers : List ℤ) : List Char := numbers.flatMap fun number => toBase32 number ++ [nul]

theorem escaped_intercalate (numbers : List ℤ) (hne : numbers ≠ []) :
    ∃ t, Escaped (List.intercalate "\\000".toList (numbers.map toBase32)) t ∧
      t ++ [nul] = memory numbers := by
  have hchars : ∀ number, Escaped (toBase32 number) (toBase32 number) := fun number =>
    escaped_of_chars fun c hc => isBase32Char_of_mem hc
  induction numbers with
  | nil => exact absurd rfl hne
  | cons number numbers ih =>
    cases numbers with
    | nil =>
      refine ⟨toBase32 number, ?_, by rw [memory, List.flatMap_singleton]⟩
      rw [List.map_singleton, List.intercalate_singleton]
      exact hchars number
    | cons number' numbers =>
      obtain ⟨t, ht, hmemory⟩ := ih (List.cons_ne_nil _ _)
      refine ⟨toBase32 number ++ nul :: t, ?_, ?_⟩
      · rw [List.map_cons, List.map_cons, List.intercalate_cons_cons, List.append_assoc]
        rw [List.map_cons] at ht
        exact (hchars number).append (.nul ht)
      · rw [memory, List.flatMap_cons, ← memory, ← hmemory]
        simp

/-- The string that the compiler reads. -/
theorem cString_largeText {numbers : List ℤ} (hne : numbers ≠ []) :
    ∃ text s, largeText numbers = some text ∧ cString text = some s ∧
      s ++ [nul] = memory numbers := by
  obtain ⟨t, ht, hmemory⟩ := escaped_intercalate numbers hne
  obtain ⟨text, heq, hliterals⟩ := literals_splitStringLiteral ht
  refine ⟨['"'] ++ (text ++ ['"']), t, by rw [largeText, heq]; rfl, ?_, hmemory⟩
  have hopen : literals .outside ['"'] = some ([], .inside) := rfl
  have hclose : literals .inside ['"'] = some ([], .outside) := rfl
  have hall : literals .outside (['"'] ++ (text ++ ['"'])) = some (t, .outside) := by
    rw [literals_append hopen, literals_append hliterals, hclose]
    simp
  rw [cString, hall]
  rfl

end AHPy.NumberTable
