import AHPy.NumberTable.Generation

/-!
# Spellings of numbers

The spellings of the constants are what the scanner leaves of the literals, or what Python
writes for a number: they have no underscores and no plus sign in front.

* `strToNumber_eq`: the spelling of an integer has the value that Python reads;
* `cDouble_getConstantCResultCode`: so has the initialiser for a float.
-/

namespace AHPy.NumberTable

/-! ## Integers -/

/-- A spelling of an integer. -/
structure IntSpelling (text : List Char) : Prop where
  accepted : (pyInt text).isSome
  no_underscore : '_' ∉ text
  no_plus : text.head? ≠ some '+'

/-- The characters of the spellings after the sign. -/
def IsIntChar (c : Char) : Prop := IsHexDigit c ∨ c ∈ ['x', 'X', 'o', 'O']

instance (c : Char) : Decidable (IsIntChar c) := inferInstanceAs (Decidable (_ ∨ _))

/-- A spelling without its sign. -/
structure IsMagnitude (cs : List Char) : Prop where
  accepted : (unsignedInt cs).isSome
  no_underscore : '_' ∉ cs
  chars : ∀ c ∈ cs, IsIntChar c
  digit : ∃ d ds, cs = d :: ds ∧ d.isDigit

theorem isDigit_of_decimal {c : Char} (h : (digitValue 10 c).isSome) : c.isDigit := by
  by_contra hc
  simp only [digitValue, hc, if_false] at h
  split_ifs at h <;> first | omega | cases h

theorem prefixedDigits_eq {base : ℕ} {cs : List Char} (hcs : '_' ∉ cs) :
    prefixedDigits base cs = digits base cs := by
  rw [prefixedDigits.eq_def]
  split
  next => exact absurd List.mem_cons_self hcs
  next => rfl

theorem decimalDigits_spec {cs : List Char} {n : ℕ} (h : decimalDigits cs = some n) :
    digits 10 cs = some n ∧ (cs.head? ≠ some '0' ∨ n = 0) := by
  obtain ⟨h, hn⟩ := Option.filter_eq_some_iff.1 h
  exact ⟨h, (of_decide_eq_true hn).1⟩

theorem chars_of_prefixed {base : ℕ} {letter : Char} {cs : List Char} (hbase : base ≤ 16)
    (hletter : IsIntChar letter) (hcs : '_' ∉ '0' :: letter :: cs)
    (h : (prefixedDigits base cs).isSome) : ∀ c ∈ '0' :: letter :: cs, IsIntChar c := by
  have hds : '_' ∉ cs := fun hmem => hcs (by simp [hmem])
  rw [prefixedDigits_eq hds] at h
  obtain ⟨n, hn⟩ := Option.isSome_iff_exists.1 h
  refine List.forall_mem_cons.2 ⟨by decide, List.forall_mem_cons.2 ⟨hletter, ?_⟩⟩
  exact fun c hc => .inl (isHexDigit_of_digits hbase hds hn c hc)

theorem isMagnitude_of_isSome {cs : List Char} (h : (unsignedInt cs).isSome) (hcs : '_' ∉ cs) :
    IsMagnitude cs := by
  have hspec := h
  rw [unsignedInt.eq_def] at hspec
  refine ⟨h, hcs, ?_, ?_⟩
  · split at hspec
    iterate 6 exact chars_of_prefixed (by decide) (by decide) hcs hspec
    obtain ⟨n, hn⟩ := Option.isSome_iff_exists.1 hspec
    exact fun c hc => .inl (isHexDigit_of_digits (by decide) hcs (decimalDigits_spec hn).1 c hc)
  · split at hspec
    iterate 6 exact ⟨_, _, rfl, by decide⟩
    obtain ⟨n, hn⟩ := Option.isSome_iff_exists.1 hspec
    obtain ⟨hne, hall⟩ := isSome_of_digits hcs (decimalDigits_spec hn).1
    obtain ⟨d, ds, rfl⟩ := List.exists_cons_of_ne_nil hne
    exact ⟨d, ds, rfl, isDigit_of_decimal (hall d List.mem_cons_self)⟩

theorem IsIntChar.ne_sign {c : Char} (h : IsIntChar c) : c ≠ '-' ∧ c ≠ '+' := by
  constructor <;> rintro rfl <;> revert h <;> decide

theorem IsMagnitude.head_ne {cs : List Char} (h : IsMagnitude cs) :
    cs.head? ≠ some '-' ∧ cs.head? ≠ some '+' := by
  obtain ⟨d, ds, rfl, hd⟩ := h.digit
  obtain ⟨hminus, hplus⟩ := (h.chars d List.mem_cons_self).ne_sign
  simp [hminus, hplus]

theorem IsMagnitude.pyInt_eq {cs : List Char} (h : IsMagnitude cs) :
    pyInt cs = (unsignedInt cs).map (↑) := by
  rw [AHPy.pyInt_eq, splitSign_of_head h.head_ne.1 h.head_ne.2]
  rfl

/-- A spelling is a magnitude, maybe after a minus sign. -/
theorem IntSpelling.exists_magnitude {text : List Char} (h : IntSpelling text) :
    ∃ cs, IsMagnitude cs ∧ (text = cs ∨ text = '-' :: cs) := by
  by_cases hminus : text.head? = some '-'
  · obtain ⟨cs, rfl⟩ : ∃ cs, text = '-' :: cs := List.head?_eq_some_iff.1 hminus
    have haccepted := h.accepted
    rw [pyInt_eq, Option.isSome_map] at haccepted
    exact ⟨cs, isMagnitude_of_isSome haccepted
      fun hmem => h.no_underscore (List.mem_cons_of_mem _ hmem), .inr rfl⟩
  · have haccepted := h.accepted
    rw [pyInt_eq, splitSign_of_head hminus h.no_plus, Option.isSome_map] at haccepted
    exact ⟨text, isMagnitude_of_isSome haccepted h.no_underscore, .inl rfl⟩

/-! ### Their values -/

theorem baseDigits_eq {base : ℕ} {letter : Char} {cs : List Char}
    (hletter : ∀ c ∈ cs, c.toLower ≠ letter) : baseDigits base letter cs = digits base cs := by
  rw [baseDigits.eq_def]
  split
  next c ds => rw [if_neg (hletter c (by simp))]
  next => rfl

/-- The characters after a prefix are the digits of the base. -/
theorem pyIntBase_eq {base : ℕ} {letter : Char} {cs : List Char} (hbase : base ≤ 16)
    (hletter : digitValue base letter = none) (hcs : '_' ∉ cs) (h : (digits base cs).isSome) :
    pyIntBase base letter cs = (digits base cs).map (↑) := by
  obtain ⟨n, hn⟩ := Option.isSome_iff_exists.1 h
  obtain ⟨hne, hall⟩ := isSome_of_digits hcs hn
  obtain ⟨d, ds, rfl⟩ := List.exists_cons_of_ne_nil hne
  obtain ⟨hminus, hplus⟩ :=
    not_isHexDigit_sign (isSome_digitValue_of_le hbase (hall d List.mem_cons_self))
  have hlower : ∀ c ∈ d :: ds, c.toLower ≠ letter := by
    rintro c hc rfl
    have hsome := hall c hc
    rw [← digitValue_toLower, hletter] at hsome
    cases hsome
  rw [pyIntBase, splitSign_of_head (by simpa using hminus) (by simpa using hplus)]
  dsimp only
  rw [baseDigits_eq hlower]
  rfl

theorem stripPy2LongSuffix_eq {cs : List Char} (h : ∀ c ∈ cs, IsIntChar c) :
    stripPy2LongSuffix cs = cs := by
  have hne : ∀ c, ¬ IsIntChar c → cs.getLast? ≠ some c := by
    intro c hc hlast
    exact hc (h c (List.mem_of_getLast? hlast))
  rw [stripPy2LongSuffix, if_neg]
  rintro (hl | hl)
  · exact hne 'l' (by decide) hl
  · exact hne 'L' (by decide) hl

/-- Zeros are zeros in any base. -/
theorem digitsFrom_zeros {cs : List Char} {n : ℕ} (hcs : '_' ∉ cs)
    (h : digitsFrom 10 n cs = some 0) : n = 0 ∧ digitsFrom 8 0 cs = some 0 := by
  induction cs generalizing n with
  | nil =>
    rw [digitsFrom, Option.some.injEq] at h
    exact ⟨h, rfl⟩
  | cons c cs ih =>
    obtain ⟨hc, hcs⟩ := List.ne_and_not_mem_of_not_mem_cons hcs
    rw [digitsFrom_cons (Ne.symm hc)] at h ⊢
    obtain ⟨v, hv, h⟩ := Option.bind_eq_some_iff.1 h
    obtain ⟨hzero, hrest⟩ := ih hcs h
    obtain ⟨hn, rfl⟩ : n = 0 ∧ v = 0 := by omega
    exact ⟨hn, by rw [digitValue_of_lt hv (by decide), Option.bind_some, hrest]⟩

theorem digits_zeros {cs : List Char} (hcs : '_' ∉ cs) (h : digits 10 cs = some 0) :
    digits 8 cs = some 0 := by
  cases cs with
  | nil => cases h
  | cons c cs =>
    obtain ⟨v, hv, h⟩ := Option.bind_eq_some_iff.1 h
    obtain ⟨rfl, hrest⟩ := digitsFrom_zeros (fun hmem => hcs (List.mem_cons_of_mem c hmem)) h
    rw [digits, digitValue_of_lt hv (by decide), Option.bind_some, hrest]

/-- After the sign, `str_to_number` reads what Python does. -/
theorem IsMagnitude.toNumber_eq {cs : List Char} (h : IsMagnitude cs) :
    magnitudeToNumber cs = (unsignedInt cs).map (↑) := by
  have hprefixed : ∀ {base : ℕ} {letter p : Char} {ds : List Char}, base ≤ 16 →
      digitValue base letter = none → cs = '0' :: p :: ds →
      unsignedInt cs = prefixedDigits base ds →
      pyIntBase base letter ds = (unsignedInt cs).map (↑) := by
    rintro base letter p ds hbase hletter rfl hint
    have hds : '_' ∉ ds := fun hmem => h.no_underscore (by simp [hmem])
    have hsome := h.accepted
    rw [hint, prefixedDigits_eq hds] at hsome
    rw [hint, prefixedDigits_eq hds]
    exact pyIntBase_eq hbase hletter hds hsome
  rw [magnitudeToNumber.eq_def]
  split
  next c ds =>
    rw [stripPy2LongSuffix_eq h.chars]
    split_ifs with hx ho hb
    · rcases hx with rfl | rfl
      · exact hprefixed (by decide) (by decide) rfl rfl
      · exact hprefixed (by decide) (by decide) rfl rfl
    · rcases ho with rfl | rfl
      · exact hprefixed (by decide) (by decide) rfl rfl
      · exact hprefixed (by decide) (by decide) rfl rfl
    · rcases hb with rfl | rfl
      · exact hprefixed (by decide) (by decide) rfl rfl
      · exact hprefixed (by decide) (by decide) rfl rfl
    · -- A decimal number that starts with a zero is zero, which is octal for the compiler.
      have hint : unsignedInt ('0' :: c :: ds) = decimalDigits ('0' :: c :: ds) := by
        rw [unsignedInt.eq_def]
        split <;> simp_all
      obtain ⟨n, hn⟩ := Option.isSome_iff_exists.1 h.accepted
      rw [hint] at hn
      obtain ⟨hdigits, hhead | rfl⟩ := decimalDigits_spec hn
      · exact absurd rfl hhead
      · rw [hint, hn]
        have hoctal := digits_zeros h.no_underscore hdigits
        rw [pyIntBase, splitSign_of_head h.head_ne.1 h.head_ne.2]
        dsimp only
        rw [baseDigits_eq, hoctal]
        · rfl
        · rintro d hd hlower
          have hdigit := (isSome_of_digits h.no_underscore hoctal).2 d hd
          rw [← digitValue_toLower, hlower] at hdigit
          revert hdigit
          decide
  next => exact h.pyInt_eq

/-- The spelling of an integer has the value that Python reads. -/
theorem strToNumber_eq {text : List Char} (h : IntSpelling text) :
    strToNumber text = pyInt text := by
  obtain ⟨cs, hcs, rfl | rfl⟩ := h.exists_magnitude
  · rw [strToNumber, if_neg hcs.head_ne.1, hcs.toNumber_eq, hcs.pyInt_eq]
  · rw [strToNumber, if_pos (List.head?_cons), List.tail_cons, hcs.toNumber_eq, pyInt_eq,
      Option.map_map]
    rfl

theorem head?_toDigits {n : ℕ} (hn : n ≠ 0) : (Nat.toDigits 10 n).head? ≠ some '0' := by
  induction n using Nat.strongRecOn with
  | ind n ih =>
    by_cases h : n < 10
    · rw [Nat.toDigits_of_lt_base h]
      interval_cases n
      · exact absurd rfl hn
      all_goals decide
    · rw [Nat.toDigits_of_base_le (by decide) (by omega), List.head?_append]
      have hrest := ih (n / 10) (by omega) (by omega)
      obtain ⟨c, cs, hcs⟩ :=
        List.exists_cons_of_ne_nil (Nat.toDigits_ne_nil (n := n / 10) (b := 10))
      rw [hcs] at hrest ⊢
      exact hrest

/-! ## Floats -/

variable {f : FloatFormat}

/-- A spelling of a float. That of an integer is not one. -/
structure FloatSpelling (f : FloatFormat) (text : List Char) : Prop where
  accepted : (pyFloat f text).isSome
  no_underscore : '_' ∉ text
  no_plus : text.head? ≠ some '+'
  not_int : ∃ c ∈ text, c ≠ '-' ∧ c.isDigit = false

theorem neg_round (q : {q : ℚ // 0 ≤ q}) : (f.round false q).neg = f.round true q := by
  simp only [FloatFormat.round]
  split <;> rfl

/-- A spelling with a finite value is a decimal number, maybe after a minus sign. -/
theorem decimal_of_finite {text : List Char} {x : FloatValue f} (h : pyFloat f text = some x)
    (hx : x.isFinite = true) :
    (decimal (splitSign text).2).map (fun d => f.round (splitSign text).1 d.value) = some x := by
  simp only [pyFloat] at h
  split_ifs at h
  · rw [← Option.some.inj h] at hx
    cases hx
  · rw [← Option.some.inj h] at hx
    cases hx
  · exact h

theorem unsignedCFloating_eq {cs : List Char} (hunder : '_' ∉ cs)
    (hdigit : ∃ c ∈ cs, c.isDigit = false) :
    unsignedCFloating f cs = (decimal cs).map fun d => f.round false d.value := by
  obtain ⟨c, hc, hdigit⟩ := hdigit
  rw [unsignedCFloating, if_neg]
  rintro (hmem | hall)
  · exact hunder hmem
  · rw [hall c hc] at hdigit
    cases hdigit

/-- The compiler reads a finite float as Python does. -/
theorem FloatSpelling.cFloating_eq {text : List Char} {x : FloatValue f}
    (hs : FloatSpelling f text) (h : pyFloat f text = some x) (hx : x.isFinite = true) :
    cFloating f text = some x := by
  have hdecimal := decimal_of_finite h hx
  obtain ⟨c, hc, hminus, hdigit⟩ := hs.not_int
  by_cases hsign : text.head? = some '-'
  · obtain ⟨cs, rfl⟩ : ∃ cs, text = '-' :: cs := List.head?_eq_some_iff.1 hsign
    have hmem : c ∈ cs := (List.mem_cons.1 hc).resolve_left hminus
    rw [cFloating, unsignedCFloating_eq (fun h => hs.no_underscore (List.mem_cons_of_mem _ h))
      ⟨c, hmem, hdigit⟩, Option.map_map, ← hdecimal]
    exact congrArg (Option.map · _) (funext fun d => neg_round d.value)
  · rw [splitSign_of_head hsign hs.no_plus] at hdecimal
    rw [cFloating.eq_def]
    split
    next => exact absurd rfl hsign
    next => rw [unsignedCFloating_eq hs.no_underscore ⟨c, hc, hdigit⟩, hdecimal]

/-- The initialiser for a float has the value that Python reads. -/
theorem cDouble_getConstantCResultCode {text : List Char} (hs : FloatSpelling f text) :
    (getConstantCResultCode f text).bind (cDouble f) = pyFloat f text := by
  obtain ⟨x, hx⟩ := Option.isSome_iff_exists.1 hs.accepted
  rw [getConstantCResultCode, hx, Option.map_some, Option.bind_some]
  cases x with
  | nan => rfl
  | inf negative => cases negative <;> rfl
  | finite negative q =>
    have hne : ∀ code : List Char, '_' ∈ code → text ≠ code := by
      rintro code hmem rfl
      exact hs.no_underscore hmem
    simp only [cDouble]
    rw [if_neg (hne _ (by decide)), if_neg (hne _ (by decide)), if_neg (hne _ (by decide))]
    exact hs.cFloating_eq hx rfl

end AHPy.NumberTable
