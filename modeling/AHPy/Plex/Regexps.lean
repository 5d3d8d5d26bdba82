import AHPy.Plex.Machines

/-!
# Regular expressions

A model of `Cython.Plex.Regexps` and of the constructor of `Cython.Plex.Lexicons`:
the regular expressions (`RE`) with the machines that they build, the constructors
that token definitions use (`Pattern`), and the NFA of a lexicon.
-/

namespace AHPy.Plex

variable {A : Type}

/-- The classes of regular expressions. -/
inductive RE where
  | rawCodeRange (code1 code2 : Int)
  | rawNewline
  | specialSymbol (sym : Special)
  | seq (reList : List RE)
  | alt (reList : List RE)
  | rep1 (re : RE)
  | switchCase (re : RE) (nocase : Bool)

def nlCode : Int := 10

namespace RE

mutual

/-- Whether an RE can match 0 input symbols. -/
def nullable : RE → Bool
  | .rawCodeRange _ _ => false
  | .rawNewline => false
  | .specialSymbol _ => false
  | .seq reList => allNullable reList
  | .alt reList => anyNullable reList
  | .rep1 re => re.nullable
  | .switchCase re _ => re.nullable

def allNullable : List RE → Bool
  | [] => true
  | re :: reList => re.nullable && allNullable reList

def anyNullable : List RE → Bool
  | [] => false
  | re :: reList => re.nullable || anyNullable reList

end

mutual

/-- Whether an RE can match a string ending with a newline. -/
def matchNl : RE → Bool
  | .rawCodeRange _ _ => false
  | .rawNewline => true
  | .specialSymbol _ => false
  | .seq reList => seqMatchNl reList
  | .alt reList => anyMatchNl reList
  | .rep1 re => re.matchNl
  | .switchCase re _ => re.matchNl

/-- The loop from the last RE to the first, up to one that is not nullable. -/
def seqMatchNl : List RE → Bool
  | [] => false
  | re :: reList => seqMatchNl reList || (allNullable reList && re.matchNl)

def anyMatchNl : List RE → Bool
  | [] => false
  | re :: reList => re.matchNl || anyMatchNl reList

end

end RE

/-- The upper case letters of the lower case letters of a range. -/
def uppercaseRange (code1 code2 : Int) : Option (Int × Int) :=
  let code3 := max code1 97
  let code4 := min code2 (122 + 1)
  if code3 < code4 then
    let d := 65 - 97
    some (code3 + d, code4 + d)
  else none

/-- The lower case letters of the upper case letters of a range. -/
def lowercaseRange (code1 code2 : Int) : Option (Int × Int) :=
  let code3 := max code1 65
  let code4 := min code2 (90 + 1)
  if code3 < code4 then
    let d := 97 - 65
    some (code3 + d, code4 + d)
  else none

namespace Machine

/-- A new state that is reachable from `initialState` on `sym` or epsilon. -/
def buildOpt (m : Machine A) (initialState : Nat) (sym : Special) : Nat × Machine A :=
  let (s, m) := m.newState
  (s, (m.linkTo initialState s).addTransition initialState (.special sym) s)

/-- A new state for the beginning of a line, if that is to be matched. -/
def buildBol (m : Machine A) (initialState : Nat) (matchBol : Bool) : Nat × Machine A :=
  if matchBol then m.buildOpt initialState .bol else (initialState, m)

/-- The transition for a range, if there is one. -/
def addRange (m : Machine A) (initialState finalState : Nat) : Option (Int × Int) → Machine A
  | none => m
  | some range => m.addTransition initialState (.range range.1 range.2) finalState

end Machine

namespace RE

mutual

/-- The states and transitions of an RE, from `initialState` to `finalState`. -/
def buildMachine (initialState finalState : Nat) (matchBol nocase : Bool) :
    RE → Machine A → Machine A
  | .rawCodeRange code1 code2, m =>
    let (initialState, m) := m.buildBol initialState matchBol
    let m := m.addTransition initialState (.range code1 code2) finalState
    if nocase then
      (m.addRange initialState finalState (uppercaseRange code1 code2)).addRange
        initialState finalState (lowercaseRange code1 code2)
    else m
  | .rawNewline, m =>
    let (initialState, m) := m.buildBol initialState matchBol
    let (s, m) := m.buildOpt initialState .eol
    m.addTransition s (.range nlCode (nlCode + 1)) finalState
  | .specialSymbol sym, m =>
    let (initialState, m) := m.buildBol initialState (matchBol && sym = .eol)
    m.addTransition initialState (.special sym) finalState
  | .seq reList, m => buildSeq initialState finalState matchBol nocase reList m
  | .alt reList, m =>
    let m := buildEach initialState finalState matchBol nocase true reList m
    if reList.any fun re => !re.nullable then
      let (initialState, m) := m.buildBol initialState matchBol
      buildEach initialState finalState false nocase false reList m
    else m
  | .rep1 re, m =>
    let (s1, m) := m.newState
    let (s2, m) := m.newState
    let m := m.linkTo initialState s1
    let m := buildMachine s1 s2 (matchBol || re.matchNl) nocase re m
    (m.linkTo s2 s1).linkTo s2 finalState
  | .switchCase re nocase, m => buildMachine initialState finalState matchBol nocase re m

/-- The REs of a sequence, one after the other. -/
def buildSeq (initialState finalState : Nat) (matchBol nocase : Bool) :
    List RE → Machine A → Machine A
  | [], m => m.linkTo initialState finalState
  | [re], m => buildMachine initialState finalState matchBol nocase re m
  | re :: reList, m =>
    let (s2, m) := m.newState
    let m := buildMachine initialState s2 matchBol nocase re m
    buildSeq s2 finalState (re.matchNl || (matchBol && re.nullable)) nocase reList m

/-- The alternatives that are nullable, or those that are not. -/
def buildEach (initialState finalState : Nat) (matchBol nocase nullableOnes : Bool) :
    List RE → Machine A → Machine A
  | [], m => m
  | re :: reList, m =>
    buildEach initialState finalState matchBol nocase nullableOnes reList
      (if re.nullable = nullableOnes then
        buildMachine initialState finalState matchBol nocase re m
      else m)

end

end RE

/-! ## Constructors -/

/-- The characters with codes from `code1` to before `code2`, newlines apart. -/
def codeRange (code1 code2 : Int) : RE :=
  if code1 ≤ nlCode ∧ nlCode < code2 then
    .alt [.rawCodeRange code1 nlCode, .rawNewline, .rawCodeRange (nlCode + 1) code2]
  else .rawCodeRange code1 code2

/-- The pairs of a list of codes. -/
def pairs : List Int → List (Int × Int)
  | code1 :: code2 :: codes => (code1, code2) :: pairs codes
  | _ => []

def codeRanges (codeList : List Int) : RE :=
  .alt ((pairs codeList).map fun range => codeRange range.1 range.2)

/-- The loop of `charsToRanges`, in a range from `code1` to before `code2`: a
    character that is next, or one again, makes it one longer. -/
def extendRange (code1 code2 : Int) : List Int → List Int
  | [] => [code1, code2]
  | code :: charList =>
    if code2 ≥ code then extendRange code1 (code2 + 1) charList
    else code1 :: code2 :: extendRange code (code + 1) charList

/-- The pairs of codes that cover the characters of a string. -/
def charsToRanges (s : List CodePoint) : List Int :=
  match (s.map fun c => (c.val : Int)).insertionSort (· ≤ ·) with
  | [] => []
  | code :: charList => extendRange code (code + 1) charList

/-- The string of an `Any` or `AnyBut`. It is no string of two billion characters,
    with which a range might come up to the sentinel. -/
structure CharSet where
  chars : List CodePoint
  length_lt : 0x10FFFF + (chars.length : Int) < maxint

/-- The regular expressions of token definitions, by their constructors. -/
inductive Pattern where
  | char (c : CodePoint)
  | bol
  | eol
  | eof
  | str (s : List CodePoint)
  | strs (ss : List (List CodePoint))
  | any (s : CharSet)
  | anyBut (s : CharSet)
  | range (c1 c2 : CodePoint)
  /-- `Range(s)`, with the string as its pairs of characters. -/
  | ranges (s : List (CodePoint × CodePoint))
  | seq (reList : List Pattern)
  | alt (reList : List Pattern)
  | rep1 (re : Pattern)
  | opt (re : Pattern)
  | rep (re : Pattern)
  | noCase (re : Pattern)
  | case (re : Pattern)

namespace Pattern

/-- `Char(c)`, for a character. -/
def ofChar (c : CodePoint) : RE := codeRange c.val (c.val + 1)

/-- `Empty`. -/
def empty : RE := .seq []

/-- `Str1(s)`. -/
def str1 (s : List CodePoint) : RE := .seq (s.map ofChar)

/-- `Range(c1, c2)`. -/
def ofRange (c1 c2 : CodePoint) : RE := codeRange c1.val (c2.val + 1)

mutual

def toRE : Pattern → RE
  | .char c => ofChar c
  | .bol => .specialSymbol .bol
  | .eol => .specialSymbol .eol
  | .eof => .specialSymbol .eof
  | .str s => str1 s
  | .strs ss => .alt (ss.map str1)
  | .any s => codeRanges (charsToRanges s.chars)
  | .anyBut s => codeRanges (-maxint :: charsToRanges s.chars ++ [maxint])
  | .range c1 c2 => ofRange c1 c2
  | .ranges s => .alt (s.map fun range => ofRange range.1 range.2)
  | .seq reList => .seq (toREs reList)
  | .alt reList => .alt (toREs reList)
  | .rep1 re => .rep1 re.toRE
  | .opt re => .alt [re.toRE, empty]
  | .rep re => .alt [.rep1 re.toRE, empty]
  | .noCase re => .switchCase re.toRE true
  | .case re => .switchCase re.toRE false

def toREs : List Pattern → List RE
  | [] => []
  | re :: reList => re.toRE :: toREs reList

end

end Pattern

/-! ## Lexicons -/

/-- A token definition. -/
structure Token (A : Type) where
  pattern : Pattern
  action : A

/-- A token definition of the default state, or a state with its own. -/
inductive Specification (A : Type) where
  | token (token : Token A)
  | state (name : String) (tokens : List (Token A))

namespace Lexicon

def addTokenToMachine (m : Machine A) (initialState : Nat) (token : Token A) (tokenNumber : Nat) :
    Machine A :=
  let (finalState, m) := m.newState
  let m := token.pattern.toRE.buildMachine initialState finalState true false m
  m.setAction finalState token.action (-tokenNumber)

/-- The tokens of a state, numbered from `tokenNumber` on. -/
def addTokens (initialState : Nat) : List (Token A) → Nat → Machine A → Machine A × Nat
  | [], tokenNumber, m => (m, tokenNumber)
  | token :: tokens, tokenNumber, m =>
    addTokens initialState tokens (tokenNumber + 1)
      (addTokenToMachine m initialState token tokenNumber)

def addSpecifications (defaultInitialState : Nat) :
    List (Specification A) → Nat → Machine A → Machine A
  | [], _, m => m
  | .token token :: specifications, tokenNumber, m =>
    addSpecifications defaultInitialState specifications (tokenNumber + 1)
      (addTokenToMachine m defaultInitialState token tokenNumber)
  | .state name tokens :: specifications, tokenNumber, m =>
    let (userInitialState, m) := m.newInitialState name
    let (m, tokenNumber) := addTokens userInitialState tokens tokenNumber m
    addSpecifications defaultInitialState specifications tokenNumber m

/-- The NFA of a lexicon. -/
def nfa (specifications : List (Specification A)) : Machine A :=
  let (defaultInitialState, m) := Machine.new.newInitialState ""
  addSpecifications defaultInitialState specifications 1 m

end Lexicon

end AHPy.Plex
