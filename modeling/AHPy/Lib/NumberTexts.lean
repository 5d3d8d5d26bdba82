import AHPy.Lib.FloatFormat

/-!
# Texts of numbers

What the built-in functions of Python read from the text of a number, which is a
list of characters without blanks around it.

* `pyInt`: `int(text, 0)`, in the base of the prefix;
* `pyFloat`: `float(text)`, the value of a format that is nearest to the decimal
  number (`Decimal`).
-/

namespace AHPy

/-- The value of a digit, if it is one in the base. -/
def digitValue (base : ℕ) (c : Char) : Option ℕ :=
  let v :=
    if c.isDigit then c.toNat - '0'.toNat
    else if c.isAlpha then c.toLower.toNat - 'a'.toNat + 10 else base
  if v < base then some v else none

/-- The digits after the first one; two may have an underscore between them. -/
def digitsFrom (base : ℕ) : ℕ → List Char → Option ℕ
  | n, [] => some n
  | n, '_' :: c :: cs => (digitValue base c).bind fun v => digitsFrom base (n * base + v) cs
  | n, c :: cs => (digitValue base c).bind fun v => digitsFrom base (n * base + v) cs

def digits (base : ℕ) : List Char → Option ℕ
  | [] => none
  | c :: cs => (digitValue base c).bind fun v => digitsFrom base v cs

/-- The sign of a text, and the rest. -/
def splitSign : List Char → Bool × List Char
  | '-' :: cs => (true, cs)
  | '+' :: cs => (false, cs)
  | cs => (false, cs)

/-! ## Integers -/

/-- The digits after a prefix, which may start with an underscore. -/
def prefixedDigits (base : ℕ) : List Char → Option ℕ
  | '_' :: cs => digits base cs
  | cs => digits base cs

/-- The decimal texts that are converted have at most 4300 digits. -/
def maxStrDigits : ℕ := 4300

/-- Decimal digits, with a zero in front only if all of them are zeros. -/
def decimalDigits (cs : List Char) : Option ℕ :=
  (digits 10 cs).filter fun n =>
    (cs.head? ≠ some '0' ∨ n = 0) ∧ cs.countP Char.isDigit ≤ maxStrDigits

def unsignedInt : List Char → Option ℕ
  | '0' :: 'x' :: cs | '0' :: 'X' :: cs => prefixedDigits 16 cs
  | '0' :: 'o' :: cs | '0' :: 'O' :: cs => prefixedDigits 8 cs
  | '0' :: 'b' :: cs | '0' :: 'B' :: cs => prefixedDigits 2 cs
  | cs => decimalDigits cs

/-- `int(text, 0)`; there is none where it raises a `ValueError`. -/
def pyInt (text : List Char) : Option ℤ :=
  let (negative, cs) := splitSign text
  (unsignedInt cs).map fun n => if negative then -n else n

/-! ## Floating-point numbers -/

/-- The number `mantissa * 10 ^ exponent`. -/
structure Decimal where
  mantissa : ℕ
  exponent : ℤ

def Decimal.value (d : Decimal) : {q : ℚ // 0 ≤ q} :=
  ⟨d.mantissa * 10 ^ d.exponent, by positivity⟩

/-- The exponent that ends a text. -/
def decimalExponent : List Char → Option ℤ
  | [] => some 0
  | c :: cs =>
    if c.toLower = 'e' then
      let (negative, cs) := splitSign cs
      (digits 10 cs).map fun n => if negative then -n else n
    else none

/-- The fraction and the exponent after the digits of a whole part. -/
def decimalFraction (whole : List Char) : List Char → Option Decimal
  | '.' :: cs =>
    let (fraction, cs) := cs.span fun c => c.isDigit ∨ c = '_'
    if whole = [] ∧ fraction = [] then none
    else do
      let w ← if whole = [] then some 0 else digits 10 whole
      let f ← if fraction = [] then some 0 else digits 10 fraction
      let places := fraction.countP Char.isDigit
      let exponent ← decimalExponent cs
      return ⟨w * 10 ^ places + f, exponent - places⟩
  | cs => do
    let w ← digits 10 whole
    let exponent ← decimalExponent cs
    return ⟨w, exponent⟩

def decimal (cs : List Char) : Option Decimal :=
  let (whole, cs) := cs.span fun c => c.isDigit ∨ c = '_'
  decimalFraction whole cs

/-- `float(text)`; there is none where it raises a `ValueError`. -/
def pyFloat (f : FloatFormat) (text : List Char) : Option (FloatValue f) :=
  let (negative, cs) := splitSign text
  let name := cs.map Char.toLower
  if name = ['i', 'n', 'f'] ∨ name = ['i', 'n', 'f', 'i', 'n', 'i', 't', 'y'] then
    some (.inf negative)
  else if name = ['n', 'a', 'n'] then some .nan
  else (decimal cs).map fun d => f.round negative d.value

/-! ## Characters -/

/-- A digit of a base up to sixteen. -/
def IsHexDigit (c : Char) : Prop := (digitValue 16 c).isSome

instance (c : Char) : Decidable (IsHexDigit c) := inferInstanceAs (Decidable (_ = _))

variable {base n m : ℕ} {c : Char} {cs : List Char}

theorem isSome_digitValue_of_le {base' : ℕ} (hle : base ≤ base')
    (h : (digitValue base c).isSome) : (digitValue base' c).isSome := by
  simp only [digitValue] at h ⊢
  split_ifs at h ⊢ <;> simp_all <;> omega

/-- A digit has the same value in each base that has it. -/
theorem digitValue_of_lt {base' v : ℕ} (h : digitValue base c = some v) (hv : v < base') :
    digitValue base' c = some v := by
  simp only [digitValue] at h ⊢
  split_ifs at h ⊢ <;> simp_all <;> omega

theorem isDigit_eq_false_of_isAlpha (h : c.isAlpha = true) : c.isDigit = false := by
  simp only [Char.isAlpha, Char.isUpper, Char.isLower, Char.isDigit] at *
  grind

/-- The digits of a base may be small letters or capitals. -/
theorem digitValue_toLower (c : Char) : digitValue base c.toLower = digitValue base c := by
  by_cases hupper : c.isUpper = true
  · have halpha : c.isAlpha = true := by rw [Char.isAlpha, hupper, Bool.true_or]
    have hdigit := isDigit_eq_false_of_isAlpha (c := c.toLower)
      (by rw [Char.isAlpha_toLower_eq_isAlpha, halpha])
    simp [digitValue, halpha, hdigit, isDigit_eq_false_of_isAlpha halpha]
  · rw [Char.toLower_eq_of_not_isUpper hupper]

theorem digitsFrom_cons (hc : c ≠ '_') :
    digitsFrom base n (c :: cs) =
      (digitValue base c).bind fun v => digitsFrom base (n * base + v) cs := by
  rw [digitsFrom.eq_def]
  split
  next h => cases h
  next h => exact absurd (List.cons.inj h).1 hc
  next h => rw [(List.cons.inj h).1, (List.cons.inj h).2]

/-- Without underscores, all of the characters are digits. -/
theorem isSome_of_digitsFrom (hcs : '_' ∉ cs) (h : digitsFrom base n cs = some m) :
    n ≤ m ∧ ∀ c ∈ cs, (digitValue base c).isSome := by
  induction cs generalizing n with
  | nil =>
    rw [digitsFrom, Option.some.injEq] at h
    exact ⟨h.le, fun c hc => absurd hc List.not_mem_nil⟩
  | cons c cs ih =>
    obtain ⟨hc, hcs⟩ := List.ne_and_not_mem_of_not_mem_cons hcs
    rw [digitsFrom_cons (Ne.symm hc)] at h
    obtain ⟨v, hv, h⟩ := Option.bind_eq_some_iff.1 h
    obtain ⟨hle, hall⟩ := ih hcs h
    have hbase : v < base := by
      simp only [digitValue] at hv
      split_ifs at hv <;> simp_all
    refine ⟨?_, List.forall_mem_cons.2 ⟨by rw [hv]; rfl, hall⟩⟩
    calc n ≤ n * base := Nat.le_mul_of_pos_right n (by omega)
      _ ≤ n * base + v := Nat.le_add_right _ _
      _ ≤ m := hle

theorem isSome_of_digits (hcs : '_' ∉ cs) (h : digits base cs = some n) :
    cs ≠ [] ∧ ∀ c ∈ cs, (digitValue base c).isSome := by
  cases cs with
  | nil => cases h
  | cons c cs =>
    obtain ⟨v, hv, h⟩ := Option.bind_eq_some_iff.1 h
    have hall := (isSome_of_digitsFrom (fun hmem => hcs (List.mem_cons_of_mem c hmem)) h).2
    exact ⟨List.cons_ne_nil c cs, List.forall_mem_cons.2 ⟨by rw [hv]; rfl, hall⟩⟩

theorem isHexDigit_of_digits (hbase : base ≤ 16) (hcs : '_' ∉ cs) (h : digits base cs = some n) :
    ∀ c ∈ cs, IsHexDigit c := by
  intro c hc
  exact isSome_digitValue_of_le hbase ((isSome_of_digits hcs h).2 c hc)

/-- A text without a sign. -/
theorem splitSign_of_head (hminus : cs.head? ≠ some '-') (hplus : cs.head? ≠ some '+') :
    splitSign cs = (false, cs) := by
  rw [splitSign.eq_def]
  split
  · simp at hminus
  · simp at hplus
  · rfl

theorem not_isHexDigit_sign (hc : IsHexDigit c) : c ≠ '-' ∧ c ≠ '+' := by
  constructor <;> rintro rfl <;> revert hc <;> decide

theorem pyInt_eq (text : List Char) :
    pyInt text = (unsignedInt (splitSign text).2).map fun (n : ℕ) =>
      if (splitSign text).1 then -(n : ℤ) else n := by
  rcases hsplit : splitSign text with ⟨negative, cs⟩
  simp only [pyInt, hsplit]
  cases unsignedInt cs <;> rfl

/-! ## Texts that are written digit by digit -/

theorem digitsFrom_concat {v : ℕ} (hcs : '_' ∉ cs) (hc : c ≠ '_')
    (h : digitsFrom base n cs = some m) (hv : digitValue base c = some v) :
    digitsFrom base n (cs ++ [c]) = some (m * base + v) := by
  induction cs generalizing n with
  | nil =>
    obtain rfl := Option.some.inj h
    rw [List.nil_append, digitsFrom_cons hc, hv]
    rfl
  | cons d cs ih =>
    obtain ⟨hd, hcs⟩ := List.ne_and_not_mem_of_not_mem_cons hcs
    rw [digitsFrom_cons (Ne.symm hd)] at h
    obtain ⟨w, hw, h⟩ := Option.bind_eq_some_iff.1 h
    rw [List.cons_append, digitsFrom_cons (Ne.symm hd), hw, Option.bind_some, ih hcs h]

theorem digits_concat {v : ℕ} (hcs : '_' ∉ cs) (hc : c ≠ '_') (h : digits base cs = some m)
    (hv : digitValue base c = some v) : digits base (cs ++ [c]) = some (m * base + v) := by
  cases cs with
  | nil => cases h
  | cons d cs =>
    obtain ⟨w, hw, h⟩ := Option.bind_eq_some_iff.1 h
    rw [List.cons_append, digits, hw, Option.bind_some,
      digitsFrom_concat (fun hmem => hcs (List.mem_cons_of_mem d hmem)) hc h hv]

theorem ne_underscore_of_digitValue {v : ℕ} (h : digitValue base c = some v) : c ≠ '_' := by
  rintro rfl
  have hdigit : '_'.isDigit = false := by decide
  have halpha : '_'.isAlpha = false := by decide
  simp [digitValue, hdigit, halpha] at h

/-- The texts of numbers with one digit more for each power of the base. -/
theorem digits_of_steps {char : ℕ → Char} {text : ℕ → List Char} (hbase : 1 < base)
    (hchar : ∀ v < base, digitValue base (char v) = some v)
    (hlt : ∀ n < base, text n = [char n])
    (hle : ∀ n, base ≤ n → text n = text (n / base) ++ [char (n % base)]) (n : ℕ) :
    digits base (text n) = some n ∧ '_' ∉ text n := by
  induction n using Nat.strongRecOn with
  | ind n ih =>
    by_cases h : n < base
    · have hne := ne_underscore_of_digitValue (hchar n h)
      rw [hlt n h, digits, hchar n h]
      exact ⟨rfl, by simpa using Ne.symm hne⟩
    · have hmod : n % base < base := Nat.mod_lt n (by omega)
      have hne := ne_underscore_of_digitValue (hchar _ hmod)
      obtain ⟨hdigits, hunder⟩ := ih (n / base) (Nat.div_lt_self (by omega) hbase)
      rw [hle n (by omega), digits_concat hunder hne hdigits (hchar _ hmod)]
      exact ⟨by rw [Nat.div_add_mod'], by simp [hunder, Ne.symm hne]⟩

theorem digits_toDigits (hbase : 1 < base) (hle : base ≤ 16) (n : ℕ) :
    digits base (Nat.toDigits base n) = some n ∧ '_' ∉ Nat.toDigits base n := by
  refine digits_of_steps hbase (fun v hv => ?_) (fun n hn => Nat.toDigits_of_lt_base hn)
    (fun n hn => Nat.toDigits_of_base_le hbase hn) n
  have hv' : v < 16 := by omega
  have h16 : digitValue 16 (Nat.digitChar v) = some v := by
    interval_cases v <;> rfl
  exact digitValue_of_lt h16 hv

end AHPy
