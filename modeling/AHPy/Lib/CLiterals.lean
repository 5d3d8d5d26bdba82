import AHPy.Lib.NumberTexts
import AHPy.Lib.Substitutions

/-!
# Literals of C

What a C compiler reads from the text of a constant.

* `cInteger`: a decimal or octal constant with a suffix, maybe after a minus sign;
* `cFloating`: a decimal floating constant, maybe after a minus sign;
* `cString`: adjacent string literals, whose escape sequences end with each literal
  (`literals_append`, `literals_intercalate`);
* `trigraphs`: the replacement of trigraphs, which comes before all of it.
-/

namespace AHPy

/-! ## Numbers -/

/-- A constant has the first signed type that has its value, `long long` at most. -/
def unsignedCInteger (cs : List Char) : Option ℕ :=
  let (ds, suffix) := cs.span Char.isDigit
  if suffix = [] ∨ suffix = ['L'] ∨ suffix = ['L', 'L'] then
    (digits (if ds.head? = some '0' then 8 else 10) ds).filter (· < 2 ^ 63)
  else none

def cInteger : List Char → Option ℤ
  | '-' :: cs => (unsignedCInteger cs).map fun (n : ℕ) => -(n : ℤ)
  | cs => (unsignedCInteger cs).map fun (n : ℕ) => (n : ℤ)

/-- The digits of a floating constant are not all of it, and not separated. -/
def unsignedCFloating (f : FloatFormat) (cs : List Char) : Option (FloatValue f) :=
  if '_' ∈ cs ∨ ∀ c ∈ cs, c.isDigit = true then none
  else (decimal cs).map fun d => f.round false d.value

def cFloating (f : FloatFormat) : List Char → Option (FloatValue f)
  | '-' :: cs => (unsignedCFloating f cs).map FloatValue.neg
  | cs => unsignedCFloating f cs

/-! ## Strings -/

/-- Where the compiler is between two characters. -/
inductive LiteralState where
  | outside
  | inside
  | escaped
  | octal (value digits : ℕ)
  deriving DecidableEq

/-- The characters with an escape sequence of one character. -/
def simpleEscape : Char → Option Char
  | 'n' => some '\n'
  | 'r' => some '\r'
  | 't' => some '\t'
  | '\\' => some '\\'
  | '"' => some '"'
  | '\'' => some '\''
  | '?' => some '?'
  | _ => none

/-- A character of a literal, after a character that the compiler has read. -/
def insideStep (c : Char) : Option (List Char × LiteralState) :=
  if c = '"' then some ([], .outside)
  else if c = '\\' then some ([], .escaped)
  else if c = '\n' then none
  else some ([c], .inside)

def literalStep : LiteralState → Char → Option (List Char × LiteralState)
  | .outside, c => if c = '"' then some ([], .inside) else none
  | .inside, c => insideStep c
  | .escaped, c =>
    match digitValue 8 c with
    | some v => some ([], .octal v 1)
    | none => (simpleEscape c).map fun d => ([d], .inside)
  | .octal value count, c =>
    match digitValue 8 c with
    | some v =>
      -- An octal escape sequence has three digits at most.
      if count < 2 then some ([], .octal (value * 8 + v) (count + 1))
      else some ([Char.ofNat (value * 8 + v)], .inside)
    | none => (insideStep c).map fun (cs, state) => (Char.ofNat value :: cs, state)

/-- The characters that a text stands for, and where it ends. -/
def literals (state : LiteralState) : List Char → Option (List Char × LiteralState)
  | [] => some ([], state)
  | c :: cs => do
    let (ds, state) ← literalStep state c
    let (ds', state) ← literals state cs
    some (ds ++ ds', state)

/-- The value of adjacent string literals, without the NUL at its end. -/
def cString (text : List Char) : Option (List Char) :=
  (literals .outside text).bind fun (cs, state) => if state = .outside then some cs else none

theorem literals_append {state state' : LiteralState} {s t cs : List Char}
    (h : literals state s = some (cs, state')) :
    literals state (s ++ t) = (literals state' t).map fun p => (cs ++ p.1, p.2) := by
  induction s generalizing state cs with
  | nil =>
    obtain ⟨rfl, rfl⟩ := Prod.mk.inj (Option.some.inj h)
    simp
  | cons c s ih =>
    obtain ⟨⟨ds, state₁⟩, hstep, h⟩ := Option.bind_eq_some_iff.1 h
    obtain ⟨⟨ds', state₂⟩, hrest, h⟩ := Option.bind_eq_some_iff.1 h
    obtain ⟨rfl, rfl⟩ := Prod.mk.inj (Option.some.inj h)
    simp only [List.cons_append, literals, hstep, ih hrest, Option.bind_eq_bind, Option.bind_some]
    cases literals state₂ t <;> simp

/-- A part of a literal that is read as `cs`. -/
def Denotes (s cs : List Char) : Prop := literals .inside s = some (cs, .inside)

theorem Denotes.append {s t cs ds : List Char} (h : Denotes s cs) (h' : Denotes t ds) :
    Denotes (s ++ t) (cs ++ ds) := by
  rw [Denotes, literals_append h, h']
  rfl

theorem Denotes.of_append {s t cs ds : List Char} (h : Denotes s cs) (h' : Denotes (s ++ t) ds) :
    ∃ ds', Denotes t ds' ∧ ds = cs ++ ds' := by
  rw [Denotes, literals_append h] at h'
  obtain ⟨p, hp, heq⟩ := Option.map_eq_some_iff.1 h'
  obtain ⟨heq, hstate⟩ := Prod.mk.inj heq
  refine ⟨p.1, ?_, heq.symm⟩
  rw [Denotes, hp, ← hstate]

/-- A literal may end, and another one begin, wherever no escape sequence has begun. -/
theorem literals_intercalate {chunks : List (List Char)} {cs : List Char}
    (hchunks : ∀ chunk ∈ chunks, ∃ ds, Denotes chunk ds) (h : Denotes chunks.flatten cs) :
    Denotes (['"', '"'].intercalate chunks) cs := by
  induction chunks generalizing cs with
  | nil => exact h
  | cons chunk chunks ih =>
    obtain ⟨ds, hds⟩ := hchunks chunk List.mem_cons_self
    obtain ⟨ds', hds', rfl⟩ := hds.of_append h
    have hrest := ih (fun c hc => hchunks c (List.mem_cons_of_mem chunk hc)) hds'
    cases chunks with
    | nil => simpa using h
    | cons chunk' chunks =>
      have hquotes : Denotes ['"', '"'] [] := rfl
      rw [List.intercalate_cons_cons, List.append_assoc]
      exact hds.append (hquotes.append hrest)

/-- The character that the text between two quotes stands for. -/
theorem cString_of_denotes {s cs : List Char} (h : Denotes s cs) :
    cString ('"' :: s ++ ['"']) = some cs := by
  have hopen : literals .outside ['"'] = some ([], .inside) := by decide
  have hclose : literals .inside ['"'] = some ([], .outside) := by decide
  have hread : literals .outside (['"'] ++ (s ++ ['"'])) = some (cs, .outside) := by
    rw [literals_append hopen, literals_append h, hclose]
    simp
  rw [cString, List.cons_append, ← List.singleton_append, hread]
  rfl

/-! ## Trigraphs -/

/-- What the third character of a trigraph stands for. -/
def trigraphCharacter : Char → Option Char
  | '=' => some '#'
  | '/' => some '\\'
  | '\'' => some '^'
  | '(' => some '['
  | ')' => some ']'
  | '!' => some '|'
  | '<' => some '{'
  | '>' => some '}'
  | '-' => some '~'
  | _ => none

def trigraph : Pattern Char Char where
  find s := if s.take 2 = ['?', '?'] then
    (s[2]?.bind trigraphCharacter).map fun c => (c, 3) else none
  pos h := by
    split_ifs at h
    obtain ⟨c, -, hc⟩ := Option.map_eq_some_iff.1 h
    rw [← (Prod.mk.inj hc).2]
    exact Nat.succ_pos 2

def trigraphs (text : List Char) : List Char := trigraph.sub (fun c => [c]) text

/-- No question mark comes after another. -/
def SingleMarks (s : List Char) : Prop := s.IsChain fun a b => a = '?' → b ≠ '?'

theorem trigraphs_eq_self {s : List Char} (h : SingleMarks s) : trigraphs s = s := by
  refine Pattern.sub_eq_self _ fun t ht => if_neg fun htake => ?_
  have hstart : ['?', '?'] <+: t := htake ▸ t.take_prefix 2
  have hchain := h.infix (hstart.isInfix.trans ht.isInfix)
  rw [List.isChain_cons_cons] at hchain
  exact hchain.1 rfl rfl

theorem singleMarks_append {s t : List Char} (hs : '?' ∉ s) :
    SingleMarks (s ++ t) ↔ SingleMarks t := by
  induction s with
  | nil => rfl
  | cons c s ih =>
    rw [List.mem_cons, not_or] at hs
    rw [← ih hs.2, SingleMarks, List.cons_append, List.isChain_cons]
    exact and_iff_right fun b _ hc => absurd hc.symm hs.1

theorem SingleMarks.append_quote {s t : List Char} (hs : SingleMarks s) (ht : SingleMarks t) :
    SingleMarks (s ++ '"' :: t) := by
  have hquote : SingleMarks ('"' :: t) := (singleMarks_append (s := ['"']) (by decide)).2 ht
  refine List.isChain_append.2 ⟨hs, hquote, fun a _ b hb _ => ?_⟩
  rw [List.head?_cons, Option.mem_some_iff] at hb
  rw [← hb]
  decide

theorem singleMarks_intercalate {chunks : List (List Char)}
    (h : ∀ chunk ∈ chunks, SingleMarks chunk) : SingleMarks (['"', '"'].intercalate chunks) := by
  induction chunks with
  | nil => exact .nil
  | cons chunk chunks ih =>
    have hrest := ih fun c hc => h c (List.mem_cons_of_mem chunk hc)
    have hchunk := h chunk List.mem_cons_self
    cases chunks with
    | nil => simpa using hchunk
    | cons chunk' chunks =>
      rw [List.intercalate_cons_cons, List.append_assoc]
      exact hchunk.append_quote ((singleMarks_append (s := ['"']) (by decide)).2 hrest)

example : cString ['"', 'a', '\\', '0', '0', '0', '"', '"', '1', '"'] =
    some ['a', Char.ofNat 0, '1'] := by decide

end AHPy
