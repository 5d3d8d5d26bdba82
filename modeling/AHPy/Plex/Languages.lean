import AHPy.Plex.Regexps

/-!
# The languages of regular expressions

What the regular expressions of `AHPy.Plex.Regexps` mean, as sets of sequences of
symbols.

* `RE.language`: the language that an RE denotes, of characters and of the special
  symbols that are asked for;
* `decorations`: a sequence with an `EOL` before newlines, and a `BOL` at the
  beginnings of lines, as a scanner delivers it;
* `RE.accepts`: the sequences that the states of an RE accept, which is decided by
  `nullable` and `match_nl` alone;
* `RE.Proper.mem_accepts_iff`: where a `BOL` only comes at the beginning of a line, these
  are the decorations of the language.
-/

namespace AHPy.Plex

open Computability

/-! ## What an RE denotes -/

/-- The code of a letter in the other case; other codes are their own. -/
def otherCase (code : Int) : Int :=
  if 97 ≤ code ∧ code ≤ 122 then code - 32 else if 65 ≤ code ∧ code ≤ 90 then code + 32 else code

/-- The character is in a range, or its other case is where case does not matter. -/
def InClass (code1 code2 : Int) (nocase : Bool) (c : CodePoint) : Prop :=
  (code1 ≤ c.val ∧ c.val < code2) ∨
    nocase = true ∧ code1 ≤ otherCase c.val ∧ otherCase c.val < code2

/-- The characters of a range. -/
def chars (code1 code2 : Int) (nocase : Bool) : Language Symbol :=
  {w | ∃ c, InClass code1 code2 nocase c ∧ w = [.char c]}

/-- The symbol of a special event, if it has one. -/
def Special.symbol : Special → Option Symbol
  | .epsilon => none
  | .bol => some .bol
  | .eol => some .eol
  | .eof => some .eof

/-- A symbol, or nothing, if it is allowed; else nothing. -/
def opt (allowed : Bool) (a : Symbol) : Language Symbol :=
  {w | w = [] ∨ allowed = true ∧ w = [a]}

namespace RE

mutual

/-- The language that an RE denotes. -/
def language (nocase : Bool) : RE → Language Symbol
  | .rawCodeRange code1 code2 => chars code1 code2 nocase
  | .rawNewline => {[.char nl]}
  | .specialSymbol sym => {sym.symbol.toList}
  | .seq reList => seqLanguage nocase reList
  | .alt reList => altLanguage nocase reList
  | .rep1 re => re.language nocase * (re.language nocase)∗
  | .switchCase re nocase => re.language nocase

def seqLanguage (nocase : Bool) : List RE → Language Symbol
  | [] => 1
  | re :: reList => re.language nocase * seqLanguage nocase reList

def altLanguage (nocase : Bool) : List RE → Language Symbol
  | [] => 0
  | re :: reList => re.language nocase + altLanguage nocase reList

end

mutual

/-- What the states of an RE accept: a `BOL` is optional before characters and `EOL`s
    where `nullable` and `match_nl` allow the beginning of a line, and an `EOL` before
    newlines. -/
def accepts (matchBol nocase : Bool) : RE → Language Symbol
  | .rawCodeRange code1 code2 => opt matchBol .bol * chars code1 code2 nocase
  | .rawNewline => opt matchBol .bol * (opt true .eol * {[.char nl]})
  | .specialSymbol sym => opt (matchBol && sym = .eol) .bol * {sym.symbol.toList}
  | .seq reList => acceptsSeq matchBol nocase reList
  | .alt reList =>
    acceptsEach matchBol nocase true reList +
      opt matchBol .bol * acceptsEach false nocase false reList
  | .rep1 re =>
    re.accepts (matchBol || re.matchNl) nocase * (re.accepts (matchBol || re.matchNl) nocase)∗
  | .switchCase re nocase => re.accepts matchBol nocase

def acceptsSeq (matchBol nocase : Bool) : List RE → Language Symbol
  | [] => 1
  | re :: reList => re.accepts matchBol nocase *
      acceptsSeq (re.matchNl || (matchBol && re.nullable)) nocase reList

/-- The alternatives that are nullable, or those that are not. -/
def acceptsEach (matchBol nocase nullableOnes : Bool) : List RE → Language Symbol
  | [] => 0
  | re :: reList => (if re.nullable = nullableOnes then re.accepts matchBol nocase else 0) +
      acceptsEach matchBol nocase nullableOnes reList

end

/-- The regular expressions of the constructors: ranges are without the newline, and
    special symbols are `BOL`, `EOL` or `EOF`. -/
inductive Proper : RE → Prop
  | rawCodeRange {code1 code2 : Int} (h₁ : TransitionMap.InRange code1)
      (h₂ : TransitionMap.InRange code2) (hnl : ¬(code1 ≤ nlCode ∧ nlCode < code2)) :
      Proper (.rawCodeRange code1 code2)
  | rawNewline : Proper .rawNewline
  | specialSymbol {sym : Special} (h : sym ≠ .epsilon) : Proper (.specialSymbol sym)
  | seq {reList : List RE} (h : ∀ re ∈ reList, Proper re) : Proper (.seq reList)
  | alt {reList : List RE} (h : ∀ re ∈ reList, Proper re) : Proper (.alt reList)
  | rep1 {re : RE} (h : Proper re) : Proper (.rep1 re)
  | switchCase {re : RE} (h : Proper re) (nocase : Bool) : Proper (.switchCase re nocase)

/-- The language of a range of characters. -/
theorem mem_language_codeRange {code1 code2 : Int} {w : List Symbol} :
    w ∈ (codeRange code1 code2).language false ↔
      ∃ c : CodePoint, (code1 ≤ c.val ∧ c.val < code2) ∧ w = [.char c] := by
  have hchars : ∀ a b, w ∈ chars a b false ↔
      ∃ c : CodePoint, (a ≤ c.val ∧ c.val < b) ∧ w = [.char c] := by
    intro a b
    refine exists_congr fun c => and_congr_left fun _ => or_iff_left fun h => ?_
    exact Bool.false_ne_true h.1
  rw [codeRange]
  split
  next h =>
    have hnl : nlCode = 10 := rfl
    rw [language, altLanguage, altLanguage, altLanguage, altLanguage, language, language, language,
      add_zero, Language.mem_add, Language.mem_add, hchars, hchars]
    constructor
    · rintro (⟨c, hc, hw⟩ | rfl | ⟨c, hc, hw⟩)
      · exact ⟨c, by omega, hw⟩
      · exact ⟨nl, by rwa [show ((nl.val : Nat) : Int) = nlCode from rfl], rfl⟩
      · exact ⟨c, by omega, hw⟩
    · rintro ⟨c, hc, rfl⟩
      rcases lt_trichotomy (c.val : Int) nlCode with hlt | heq | hgt
      · exact .inl ⟨c, ⟨hc.1, hlt⟩, rfl⟩
      · obtain rfl : c = nl := Fin.ext (show c.val = 10 by omega)
        exact .inr (.inl rfl)
      · exact .inr (.inr ⟨c, by omega, rfl⟩)
  next h =>
    rw [language]
    exact hchars code1 code2

end RE

/-! ## Decorations -/

/-- The symbol is a character or an `EOL`. -/
def Symbol.isText : Symbol → Bool
  | .bol => false
  | .eol => true
  | .eof => false
  | .char _ => true

/-- The symbol is the newline. -/
def Symbol.isNl (a : Symbol) : Bool := a = .char nl

/-- A sequence with a `BOL` before characters and `EOL`s at the beginnings of lines, and
    an `EOL` before newlines, each optional. The sequence starts at the beginning of a
    line if `lineStart`. -/
def decorations (lineStart : Bool) : List Symbol → Language Symbol
  | [] => 1
  | a :: v => opt (lineStart && a.isText) .bol * opt a.isNl .eol * {[a]} * decorations a.isNl v

/-- A sequence with any `BOL`s, and an optional `EOL` before newlines. -/
def looseDecorations : List Symbol → Language Symbol
  | [] => 1
  | a :: v => ({[.bol]} : Language Symbol)∗ * opt a.isNl .eol * {[a]} * looseDecorations v

/-- A `BOL` only comes at the beginning of a line, and no `BOL` and no `EOF` after it. -/
def Possible (lineStart : Bool) : List Symbol → Prop
  | [] => True
  | a :: w => (a = .bol → lineStart = true ∧ ∀ b ∈ w.head?, b.isText = true) ∧ Possible a.isNl w

/-- Whether the beginning of a line is after a sequence. -/
def lineStartAfter (lineStart : Bool) : List Symbol → Bool
  | [] => lineStart
  | a :: v => lineStartAfter a.isNl v

/-! ### What is before a symbol -/

theorem nil_mem_opt (allowed : Bool) (a : Symbol) : [] ∈ opt allowed a := .inl rfl

theorem opt_false (a : Symbol) : opt false a = 1 := by
  ext w
  rw [Language.mem_one]
  exact or_iff_left fun h => Bool.false_ne_true h.1

theorem mem_opt_of_imp {allowed allowed' : Bool} {a : Symbol} {w : List Symbol}
    (h : allowed = true → allowed' = true) (hw : w ∈ opt allowed a) : w ∈ opt allowed' a :=
  hw.imp_right (And.imp_left h)

theorem mem_opt_of_and {allowed allowed' : Bool} {a : Symbol} {w : List Symbol}
    (hw : w ∈ opt (allowed && allowed') a) : w ∈ opt allowed a := by
  refine mem_opt_of_imp (fun h => ?_) hw
  rw [Bool.and_eq_true] at h
  exact h.1

theorem decorations_append (lineStart : Bool) (v v' : List Symbol) :
    decorations lineStart (v ++ v') =
      decorations lineStart v * decorations (lineStartAfter lineStart v) v' := by
  induction v generalizing lineStart with
  | nil => exact (one_mul _).symm
  | cons a v ih =>
    rw [List.cons_append, decorations, decorations, lineStartAfter, ih, ← mul_assoc]

theorem lineStartAfter_append (lineStart : Bool) (v v' : List Symbol) :
    lineStartAfter lineStart (v ++ v') = lineStartAfter (lineStartAfter lineStart v) v' := by
  induction v generalizing lineStart with
  | nil => rfl
  | cons a v ih => exact ih a.isNl

theorem looseDecorations_append (v v' : List Symbol) :
    looseDecorations (v ++ v') = looseDecorations v * looseDecorations v' := by
  induction v with
  | nil => exact (one_mul _).symm
  | cons a v ih => rw [List.cons_append, looseDecorations, looseDecorations, ih, ← mul_assoc]

theorem decorations_mono {lineStart lineStart' : Bool} (h : lineStart = true → lineStart' = true)
    {v w : List Symbol} (hw : w ∈ decorations lineStart v) : w ∈ decorations lineStart' v := by
  rcases v with _ | ⟨a, v⟩
  · exact hw
  · simp only [decorations, Language.mem_mul] at hw ⊢
    obtain ⟨_, ⟨_, ⟨b, hb, e, he, rfl⟩, x, hx, rfl⟩, y, hy, rfl⟩ := hw
    refine ⟨_, ⟨_, ⟨b, mem_opt_of_imp ?_ hb, e, he, rfl⟩, x, hx, rfl⟩, y, hy, rfl⟩
    simp only [Bool.and_eq_true]
    exact And.imp_left h

/-! ## Attributes -/

namespace RE

theorem mem_altLanguage {nocase : Bool} {reList : List RE} {v : List Symbol} :
    v ∈ altLanguage nocase reList ↔ ∃ re ∈ reList, v ∈ re.language nocase := by
  induction reList with
  | nil => simp [altLanguage]
  | cons re reList ih => rw [altLanguage, Language.mem_add, ih, List.exists_mem_cons_iff]

theorem mem_acceptsEach {matchBol nocase nullableOnes : Bool} {reList : List RE}
    {w : List Symbol} : w ∈ acceptsEach matchBol nocase nullableOnes reList ↔
      ∃ re ∈ reList, re.nullable = nullableOnes ∧ w ∈ re.accepts matchBol nocase := by
  induction reList with
  | nil => simp [acceptsEach]
  | cons re reList ih =>
    rw [acceptsEach, Language.mem_add, ih, List.exists_mem_cons_iff]
    refine or_congr ?_ Iff.rfl
    split
    next h => simp [h]
    next h => simp [h]

theorem anyNullable_of_mem {reList : List RE} {re : RE} (h : re ∈ reList)
    (hn : re.nullable = true) : anyNullable reList = true := by
  induction reList with
  | nil => exact absurd h List.not_mem_nil
  | cons re' reList ih =>
    rw [anyNullable, Bool.or_eq_true]
    rcases List.mem_cons.1 h with rfl | h
    exacts [.inl hn, .inr (ih h)]

theorem anyMatchNl_of_mem {reList : List RE} {re : RE} (h : re ∈ reList)
    (hn : re.matchNl = true) : anyMatchNl reList = true := by
  induction reList with
  | nil => exact absurd h List.not_mem_nil
  | cons re' reList ih =>
    rw [anyMatchNl, Bool.or_eq_true]
    rcases List.mem_cons.1 h with rfl | h
    exacts [.inl hn, .inr (ih h)]

/-- No character of a range without the newline is the newline. -/
theorem not_inClass_nl {code1 code2 : Int} {nocase : Bool} (h : ¬(code1 ≤ nlCode ∧ nlCode < code2)) :
    ¬InClass code1 code2 nocase nl := by
  have hval : ((nl.val : Nat) : Int) = 10 := rfl
  have hother : otherCase ((nl.val : Nat) : Int) = 10 := rfl
  rintro (hc | ⟨-, hc⟩)
  · rw [hval] at hc
    exact h hc
  · rw [hother] at hc
    exact h hc

/-- `nullable` and `match_nl` tell what can be after a sequence of the language. -/
def Attributes (nullable matchNl : Bool) (L : Language Symbol) : Prop :=
  ∀ v ∈ L, (v = [] → nullable = true) ∧
    ∀ lineStart, lineStartAfter lineStart v = true → matchNl = true ∨ lineStart = true ∧ nullable = true

namespace Attributes

variable {nullable nullable' matchNl matchNl' : Bool} {L L' : Language Symbol}

theorem mono (h : Attributes nullable matchNl L) (hn : nullable = true → nullable' = true)
    (hm : matchNl = true → matchNl' = true) : Attributes nullable' matchNl' L := fun v hv =>
  ⟨fun hnil => hn ((h v hv).1 hnil), fun lineStart hline =>
    ((h v hv).2 lineStart hline).imp hm (And.imp_right hn)⟩

theorem singleton {a : Symbol} (h : a.isNl = true → matchNl = true) :
    Attributes false matchNl {[a]} := by
  rintro v rfl
  exact ⟨fun hv => absurd hv (List.cons_ne_nil _ _), fun _ hline => .inl (h hline)⟩

theorem one : Attributes true false 1 := by
  rintro v rfl
  exact ⟨fun _ => rfl, fun _ hline => .inr ⟨hline, rfl⟩⟩

theorem mul (h : Attributes nullable matchNl L) (h' : Attributes nullable' matchNl' L') :
    Attributes (nullable && nullable') (matchNl' || (nullable' && matchNl)) (L * L') := by
  rintro _ ⟨v, hv, v', hv', rfl⟩
  obtain ⟨hnil, hline⟩ := h v hv
  obtain ⟨hnil', hline'⟩ := h' v' hv'
  simp only [Bool.and_eq_true, Bool.or_eq_true]
  refine ⟨fun happ => ?_, fun lineStart happ => ?_⟩
  · obtain ⟨h₁, h₂⟩ := List.append_eq_nil_iff.1 happ
    exact ⟨hnil h₁, hnil' h₂⟩
  · rw [lineStartAfter_append] at happ
    rcases hline' _ happ with hm | ⟨hmiddle, hn⟩
    · exact .inl (.inl hm)
    · rcases hline _ hmiddle with hm | ⟨hstart, hn'⟩
      · exact .inl (.inr ⟨hn, hm⟩)
      · exact .inr ⟨hstart, hn', hn⟩

theorem kstar (h : Attributes nullable matchNl L) : Attributes true matchNl L∗ := by
  intro v hv
  refine ⟨fun _ => rfl, fun lineStart hline => ?_⟩
  obtain ⟨l, rfl, hl⟩ := Language.mem_kstar.1 hv
  clear hv
  induction l generalizing lineStart with
  | nil => exact .inr ⟨hline, rfl⟩
  | cons u l ih =>
    obtain ⟨hu, hl⟩ := List.forall_mem_cons.1 hl
    rw [List.flatten_cons, lineStartAfter_append] at hline
    rcases ih _ hl hline with hm | ⟨hmiddle, -⟩
    · exact .inl hm
    · exact ((h u hu).2 lineStart hmiddle).imp_right (And.imp_right fun _ => rfl)

end Attributes

theorem Proper.attributes {re : RE} (h : re.Proper) (nocase : Bool) :
    Attributes re.nullable re.matchNl (re.language nocase) := by
  induction h generalizing nocase with
  | rawCodeRange h₁ h₂ hnl =>
    rintro v ⟨c, hc, rfl⟩
    refine Attributes.singleton (fun hline => ?_) _ rfl
    have hcnl : c = nl := by simpa [Symbol.isNl] using hline
    exact absurd (hcnl ▸ hc) (not_inClass_nl hnl)
  | rawNewline => exact .singleton fun _ => rfl
  | @specialSymbol sym hsym =>
    rcases sym with _ | _ | _ | _
    · exact absurd rfl hsym
    all_goals exact .singleton (by decide)
  | @seq reList hall ih =>
    rw [language]
    induction reList with
    | nil => exact .one
    | cons re reList ihList =>
      have hre := ih re List.mem_cons_self nocase
      have hrest := ihList (fun re' hre' => hall re' (.tail re hre'))
        fun re' hre' => ih re' (.tail re hre')
      exact hre.mul hrest
  | @alt reList _ ih =>
    intro v hv
    obtain ⟨re, hre, hv⟩ := mem_altLanguage.1 hv
    exact ((ih re hre nocase).mono (anyNullable_of_mem hre) (anyMatchNl_of_mem hre)) v hv
  | @rep1 re _ ih =>
    simpa [language, nullable, matchNl] using (ih nocase).mul (ih nocase).kstar
  | switchCase _ nocase' ih => exact ih nocase'

/-! ## Decorations are accepted -/

/-- Every decoration of a sequence of `L` is in `L'`. -/
def Covers (lineStart : Bool) (L L' : Language Symbol) : Prop :=
  ∀ v ∈ L, ∀ w ∈ decorations lineStart v, w ∈ L'

namespace Covers

variable {lineStart matchBol : Bool} {L L' M M' : Language Symbol}

theorem singleton {a : Symbol} (h : ∀ w ∈ opt (lineStart && a.isText) .bol * opt a.isNl .eol * {[a]},
    w ∈ L') : Covers lineStart {[a]} L' := by
  rintro v rfl w hw
  rw [decorations, decorations, mul_one] at hw
  exact h w hw

theorem mono {lineStart' : Bool} (h : Covers lineStart' L L')
    (hl : lineStart = true → lineStart' = true) : Covers lineStart L L' :=
  fun v hv w hw => h v hv w (decorations_mono hl hw)

theorem mul {nullable matchNl : Bool} (ha : Attributes nullable matchNl L)
    (h : Covers lineStart L L') (h' : Covers (matchNl || (lineStart && nullable)) M M') :
    Covers lineStart (L * M) (L' * M') := by
  rintro _ ⟨v, hv, v', hv', rfl⟩ w hw
  rw [decorations_append] at hw
  obtain ⟨x, hx, y, hy, rfl⟩ := hw
  refine ⟨x, h v hv x hx, y, h' v' hv' y (decorations_mono (fun hline => ?_) hy), rfl⟩
  simpa using (ha v hv).2 lineStart hline

theorem kstar {nullable matchNl : Bool} (ha : Attributes nullable matchNl L)
    (hm : matchNl = true → lineStart = true) (h : Covers lineStart L L') :
    Covers lineStart L∗ L'∗ := by
  intro v hv
  obtain ⟨l, rfl, hl⟩ := Language.mem_kstar.1 hv
  clear hv
  induction l with
  | nil =>
    rintro w rfl
    exact Language.nil_mem_kstar L'
  | cons u l ih =>
    obtain ⟨hu, hl⟩ := List.forall_mem_cons.1 hl
    intro w hw
    rw [List.flatten_cons, decorations_append] at hw
    obtain ⟨x, hx, y, hy, rfl⟩ := hw
    have hrest := ih hl y (decorations_mono (fun hline => ?_) hy)
    · rw [← Language.one_add_self_mul_kstar_eq_kstar]
      exact .inr ⟨x, h u hu x hx, y, hrest, rfl⟩
    · exact ((ha u hu).2 lineStart hline).elim hm And.left

/-- The first symbol of a sequence may have its `BOL` before the others. -/
theorem of_false {nullable matchNl : Bool} (ha : Attributes nullable matchNl L)
    (hn : nullable = false) (h : Covers false L L') :
    Covers lineStart L (opt lineStart .bol * L') := by
  intro v hv w hw
  rcases v with _ | ⟨a, v⟩
  · exact absurd ((ha [] hv).1 rfl) (by rw [hn]; decide)
  · rw [decorations, mul_assoc, mul_assoc] at hw
    obtain ⟨b, hb, x, hx, rfl⟩ := hw
    refine ⟨b, mem_opt_of_and hb, x, h (a :: v) hv x ?_, rfl⟩
    rw [decorations, mul_assoc, mul_assoc]
    exact ⟨[], nil_mem_opt _ _, x, hx, rfl⟩

end Covers

theorem Proper.covers {re : RE} (h : re.Proper) (matchBol nocase : Bool) :
    Covers matchBol (re.language nocase) (re.accepts matchBol nocase) := by
  induction h generalizing matchBol nocase with
  | rawCodeRange h₁ h₂ hnl =>
    rintro v ⟨c, hc, rfl⟩
    refine Covers.singleton (fun w hw => ?_) _ rfl
    have hcnl : (Symbol.char c).isNl = false := by
      rw [Symbol.isNl, decide_eq_false_iff_not]
      rintro heq
      exact not_inClass_nl hnl (Symbol.char.inj heq ▸ hc)
    rw [hcnl, opt_false, mul_one] at hw
    obtain ⟨b, hb, x, hx, rfl⟩ := hw
    exact ⟨b, mem_opt_of_and hb, x, ⟨c, hc, hx⟩, rfl⟩
  | rawNewline =>
    refine Covers.singleton fun w hw => ?_
    rw [show (Symbol.char nl).isText = true from rfl, Bool.and_true, mul_assoc] at hw
    exact hw
  | @specialSymbol sym hsym =>
    rcases sym with _ | _ | _ | _
    · exact absurd rfl hsym
    all_goals
      refine Covers.singleton fun w hw => ?_
      rw [show Symbol.isNl _ = false from rfl, opt_false, mul_one] at hw
      exact hw
  | @seq reList hall ih =>
    rw [language, accepts]
    induction reList generalizing matchBol with
    | nil =>
      rintro v rfl w hw
      exact hw
    | cons re reList ihList =>
      have hre := ih re List.mem_cons_self matchBol nocase
      have hrest := ihList (fun re' hre' => hall re' (.tail re hre'))
        (fun re' hre' => ih re' (.tail re hre')) (re.matchNl || (matchBol && re.nullable))
      exact Covers.mul ((hall re List.mem_cons_self).attributes nocase) hre hrest
  | @alt reList hall ih =>
    intro v hv w hw
    obtain ⟨re, hre, hv⟩ := mem_altLanguage.1 hv
    rw [accepts, Language.mem_add]
    rcases hn : re.nullable with _ | _
    · right
      have hfalse := Covers.of_false ((hall re hre).attributes nocase) hn
        (ih re hre false nocase) v hv w hw
      obtain ⟨b, hb, x, hx, rfl⟩ := hfalse
      exact ⟨b, hb, x, mem_acceptsEach.2 ⟨re, hre, hn, hx⟩, rfl⟩
    · left
      exact mem_acceptsEach.2 ⟨re, hre, hn, ih re hre matchBol nocase v hv w hw⟩
  | @rep1 re hre ih =>
    have ha := hre.attributes nocase
    have hbody := ih (matchBol || re.matchNl) nocase
    have hrest := hbody.kstar ha fun hm => by rw [hm, Bool.or_true]
    refine Covers.mul ha (hbody.mono fun hb => by rw [hb, Bool.true_or]) (hrest.mono fun hb => ?_)
    rw [Bool.or_eq_true, Bool.and_eq_true] at hb
    rw [Bool.or_eq_true]
    exact hb.symm.imp_left And.left
  | switchCase _ nocase' ih => exact ih matchBol nocase'

/-! ## What is accepted is a decoration -/

/-- Every sequence of `L'` is a loose decoration of one of `L`. -/
def CoveredBy (L' L : Language Symbol) : Prop := ∀ w ∈ L', ∃ v ∈ L, w ∈ looseDecorations v

namespace CoveredBy

variable {L L' M M' : Language Symbol}

theorem mul (h : CoveredBy L' L) (h' : CoveredBy M' M) : CoveredBy (L' * M') (L * M) := by
  rintro _ ⟨x, hx, y, hy, rfl⟩
  obtain ⟨v, hv, hxv⟩ := h x hx
  obtain ⟨v', hv', hyv⟩ := h' y hy
  refine ⟨v ++ v', ⟨v, hv, v', hv', rfl⟩, ?_⟩
  rw [looseDecorations_append]
  exact ⟨x, hxv, y, hyv, rfl⟩

theorem kstar (h : CoveredBy L' L) : CoveredBy L'∗ L∗ := by
  intro w hw
  obtain ⟨l, rfl, hl⟩ := Language.mem_kstar.1 hw
  clear hw
  induction l with
  | nil => exact ⟨[], Language.nil_mem_kstar L, rfl⟩
  | cons x l ih =>
    obtain ⟨hx, hl⟩ := List.forall_mem_cons.1 hl
    have hrest : CoveredBy {l.flatten} L∗ := by
      rintro _ rfl
      exact ih hl
    obtain ⟨v, hv, hw⟩ := h.mul hrest _ ⟨x, hx, l.flatten, rfl, rfl⟩
    refine ⟨v, ?_, hw⟩
    rw [← Language.one_add_self_mul_kstar_eq_kstar]
    exact .inr hv

/-- One more `BOL` before a sequence that is not empty. -/
theorem opt_mul {allowed : Bool} (h : CoveredBy L' L) (hnil : [] ∉ L) :
    CoveredBy (opt allowed .bol * L') L := by
  rintro _ ⟨b, hb, x, hx, rfl⟩
  obtain ⟨v, hv, hxv⟩ := h x hx
  refine ⟨v, hv, ?_⟩
  rcases hb with rfl | ⟨-, rfl⟩
  · exact hxv
  · rcases v with _ | ⟨a, v⟩
    · exact absurd hv hnil
    · rw [looseDecorations, mul_assoc, mul_assoc] at hxv ⊢
      obtain ⟨k, hk, y, hy, rfl⟩ := hxv
      refine ⟨.bol :: k, ?_, y, hy, rfl⟩
      rw [← Language.one_add_self_mul_kstar_eq_kstar]
      exact .inr ⟨[.bol], rfl, k, hk, rfl⟩

/-- The symbols themselves, with the `EOL` of a newline. -/
theorem singleton (a : Symbol) : CoveredBy (opt a.isNl .eol * {[a]}) {[a]} := by
  rintro w hw
  refine ⟨[a], rfl, ?_⟩
  rw [looseDecorations, looseDecorations, mul_one, mul_assoc]
  exact ⟨[], Language.nil_mem_kstar _, w, hw, rfl⟩

theorem self (a : Symbol) : CoveredBy {[a]} {[a]} := by
  rintro w rfl
  exact singleton a _ ⟨[], nil_mem_opt _ _, [a], rfl, rfl⟩

end CoveredBy

theorem Proper.coveredBy {re : RE} (h : re.Proper) (matchBol nocase : Bool) :
    CoveredBy (re.accepts matchBol nocase) (re.language nocase) := by
  induction h generalizing matchBol nocase with
  | rawCodeRange h₁ h₂ hnl =>
    refine CoveredBy.opt_mul ?_ ?_
    · rintro w ⟨c, hc, rfl⟩
      obtain ⟨v, rfl, hw⟩ := CoveredBy.self (.char c) _ rfl
      exact ⟨_, ⟨c, hc, rfl⟩, hw⟩
    · rintro ⟨c, -, hnil⟩
      exact absurd hnil.symm (List.cons_ne_nil _ _)
  | rawNewline =>
    exact CoveredBy.opt_mul (CoveredBy.singleton (.char nl)) fun hnil =>
      absurd (show [] = _ from hnil).symm (List.cons_ne_nil _ _)
  | @specialSymbol sym hsym =>
    rcases sym with _ | _ | _ | _
    · exact absurd rfl hsym
    all_goals
      exact CoveredBy.opt_mul (CoveredBy.self _) fun hnil =>
        absurd (show [] = _ from hnil).symm (List.cons_ne_nil _ _)
  | @seq reList hall ih =>
    rw [language, accepts]
    clear hall
    induction reList generalizing matchBol with
    | nil =>
      rintro w rfl
      exact ⟨[], rfl, rfl⟩
    | cons re reList ihList =>
      have hre := ih re List.mem_cons_self matchBol nocase
      exact hre.mul (ihList (fun re' hre' => ih re' (.tail re hre'))
        (re.matchNl || (matchBol && re.nullable)))
  | @alt reList hall ih =>
    intro w hw
    have hmem : ∀ re ∈ reList, ∀ v ∈ re.language nocase, v ∈ (RE.alt reList).language nocase :=
      fun re hre v hv => mem_altLanguage.2 ⟨re, hre, hv⟩
    rcases hw with hw | ⟨b, hb, x, hx, rfl⟩
    · obtain ⟨re, hre, -, hw⟩ := mem_acceptsEach.1 hw
      obtain ⟨v, hv, hwv⟩ := ih re hre matchBol nocase w hw
      exact ⟨v, hmem re hre v hv, hwv⟩
    · obtain ⟨re, hre, hn, hx⟩ := mem_acceptsEach.1 hx
      have hnil : [] ∉ re.language nocase := fun hnil => by
        have := ((hall re hre).attributes nocase [] hnil).1 rfl
        rw [hn] at this
        exact Bool.false_ne_true this
      obtain ⟨v, hv, hwv⟩ := (ih re hre false nocase).opt_mul hnil _ ⟨b, hb, x, hx, rfl⟩
      exact ⟨v, hmem re hre v hv, hwv⟩
  | @rep1 re hre ih =>
    exact (ih (matchBol || re.matchNl) nocase).mul (ih (matchBol || re.matchNl) nocase).kstar
  | switchCase _ nocase' ih => exact ih matchBol nocase'

end RE

/-! ## Sequences of a scanner -/

theorem Possible.of_opt_eol {lineStart : Bool} {a : Symbol} {e y : List Symbol}
    (h : Possible lineStart (e ++ a :: y)) (he : e ∈ opt a.isNl .eol) : Possible a.isNl y := by
  rcases he with rfl | ⟨-, rfl⟩
  · exact h.2
  · exact h.2.2

/-- Where a `BOL` only comes at the beginning of a line, nothing is loose. -/
theorem Possible.mem_decorations {lineStart : Bool} {v w : List Symbol}
    (h : Possible lineStart w) (hw : w ∈ looseDecorations v) : w ∈ decorations lineStart v := by
  induction v generalizing lineStart w with
  | nil => exact hw
  | cons a v ih =>
    rw [looseDecorations] at hw
    obtain ⟨_, ⟨_, ⟨k, hk, e, he, rfl⟩, x, rfl, rfl⟩, y, hy, rfl⟩ := hw
    have happ : k ++ e ++ [a] ++ y = k ++ (e ++ a :: y) := by simp
    change Possible lineStart (k ++ e ++ [a] ++ y) at h
    rw [happ] at h
    rw [decorations]
    suffices hk : k ∈ opt (lineStart && a.isText) .bol ∧ Possible a.isNl y from
      ⟨_, ⟨_, ⟨k, hk.1, e, he, rfl⟩, [a], rfl, rfl⟩, y, ih hk.2 hy, rfl⟩
    obtain ⟨l, rfl, hl⟩ := Language.mem_kstar.1 hk
    rcases l with _ | ⟨b, l⟩
    · exact ⟨nil_mem_opt _ _, h.of_opt_eol he⟩
    · obtain ⟨hb, hrest'⟩ := List.forall_mem_cons.1 hl
      obtain rfl : b = [.bol] := hb
      obtain ⟨hbol, hrest⟩ := h
      obtain ⟨hstart, hhead⟩ := hbol rfl
      -- After the `BOL` comes no other one.
      rcases l with _ | ⟨b, l⟩
      · refine ⟨.inr ⟨?_, rfl⟩, Possible.of_opt_eol (e := e) hrest he⟩
        rw [hstart, Bool.true_and]
        rcases he with rfl | ⟨hnl, rfl⟩
        · exact hhead a rfl
        · rw [Symbol.isNl, decide_eq_true_iff] at hnl
          rw [hnl]
          rfl
      · obtain rfl : b = [.bol] := (List.forall_mem_cons.1 hrest').1
        exact absurd (hhead .bol rfl) Bool.false_ne_true

/-- Where a `BOL` only comes at the beginning of a line, an RE accepts the decorations of
    its language. -/
theorem RE.Proper.mem_accepts_iff {re : RE} (h : re.Proper) {matchBol : Bool} (nocase : Bool)
    {w : List Symbol} (hw : Possible matchBol w) :
    w ∈ re.accepts matchBol nocase ↔ ∃ v ∈ re.language nocase, w ∈ decorations matchBol v := by
  constructor
  · intro hacc
    obtain ⟨v, hv, hwv⟩ := h.coveredBy matchBol nocase w hacc
    exact ⟨v, hv, hw.mem_decorations hwv⟩
  · rintro ⟨v, hv, hwv⟩
    exact h.covers matchBol nocase v hv w hwv

end AHPy.Plex
