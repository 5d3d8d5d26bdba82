import Mathlib

/-!
# The scanner

The parser reads tokens one at a time, looks at the next one, and puts tokens back. A block of
`tentatively_scan` holds the errors that are reported in it and, if there are any, puts back
the tokens that `next` has logged.

* `Lexer`: the automaton and the actions of the lexicon, from any state of theirs;
* `Scanner.next`, `Scanner.peek`, `Scanner.putBack`: the operations of the parser;
* `tentativelyScan`, `run`: blocks, and what a parser does in them;
* `deliver`: what the scanner delivers from then on, and the errors that it reports.
-/

namespace AHPy.Scanning

/-- A symbol and its text. -/
structure Token where
  sy : String
  systring : String

variable {L Pos : Type}

/-- A token of the queue, with its position. -/
structure Item (Pos : Type) where
  token : Token
  pos : Pos

structure Err (Pos : Type) where
  pos : Pos
  message : String

/-! ## The lexer -/

/-- What the scan of a token and its action do: the tokens that are produced, the errors that
    are reported, and one that is raised. -/
structure Scan (L Pos : Type) where
  produced : List (Item Pos)
  reports : List (Err Pos)
  raised : Option (Err Pos)
  next : L

/-- The automaton with the actions of the lexicon, and their state. A scan that neither
    produces a token nor raises an error gets on in the text. -/
structure Lexer (L Pos : Type) where
  scan : L → Scan L Pos
  remaining : L → ℕ
  progress : ∀ l, (scan l).produced = [] → (scan l).raised = none →
    remaining (scan l).next < remaining l

/-! ## Keywords -/

/-- The symbol of the names. -/
def ident : String := "IDENT"

/-- The keywords. -/
abbrev Keywords := {keywords : List String // ident ∉ keywords}

/-- `keywords.pop(name, None)` -/
def Keywords.pop (keywords : Keywords) (name : String) : Keywords :=
  ⟨keywords.1.filter (· ≠ name), fun h => keywords.2 (List.mem_of_mem_filter h)⟩

/-- What the treatment of keywords depends on. -/
structure Context where
  /-- `print_function in future_directives` -/
  printFunction : Bool
  /-- `language_level >= 3` -/
  level3 : Bool

/-- The symbol of a token, which is a name or a keyword, and the keywords that are left. -/
def convert (ctx : Context) (keywords : Keywords) (token : Token) : Token × Keywords :=
  if token.sy = ident ∧ token.systring ∈ keywords.1 then
    if token.systring = "print" ∧ ctx.printFunction then (token, keywords.pop "print")
    else if token.systring = "exec" ∧ ctx.level3 then (token, keywords.pop "exec")
    else (⟨token.systring, token.systring⟩, keywords)
  else (token, keywords)

/-! ## The scanner -/

/-- `PyrexScanner` -/
structure Scanner (L Pos : Type) where
  lexer : L
  queue : List (Item Pos)
  /-- `sy` and `systring` -/
  current : Token
  /-- `last_token_position_tuple` -/
  position : Pos
  keywords : Keywords
  putBackOnFailure : Option (List (Item Pos))

/-- What an operation leaves: the errors that it reported, and whether it raised one. -/
structure Outcome (L Pos : Type) where
  scanner : Scanner L Pos
  errors : List (Err Pos)
  raised : Bool

/-- The operations after one that raised no error. -/
def Outcome.andThen (o : Outcome L Pos) (rest : Scanner L Pos → Outcome L Pos) :
    Outcome L Pos :=
  if o.raised then o
  else
    let o' := rest o.scanner
    ⟨o'.scanner, o.errors ++ o'.errors, o'.raised⟩

/-- `PyrexScanner.error` -/
def errorsOf (current : Token) (e : Err Pos) : List (Err Pos) :=
  if current.sy = "INDENT" then [⟨e.pos, "Possible inconsistent indentation"⟩, e] else [e]

variable (x : Lexer L Pos) (ctx : Context)

/-- `Scanner.read`; there is no token if an error is raised. -/
def Scanner.read (s : Scanner L Pos) : Option Token × List (Err Pos) × Scanner L Pos :=
  match s.queue with
  | item :: queue => (some item.token, [], { s with queue := queue, position := item.pos })
  | [] =>
    let r := x.scan s.lexer
    let reports := r.reports.flatMap (errorsOf s.current)
    match _hr : r.raised with
    | some e =>
      (none, reports ++ errorsOf s.current e, { s with lexer := r.next, queue := r.produced })
    | none =>
      match _hp : r.produced with
      | item :: queue =>
        (some item.token, reports,
          { s with lexer := r.next, queue := queue, position := item.pos })
      | [] =>
        let (token, errors, s) := Scanner.read { s with lexer := r.next }
        (token, reports ++ errors, s)
termination_by x.remaining s.lexer
decreasing_by exact x.progress s.lexer _hp _hr

/-- `PyrexScanner.next` -/
def Scanner.next (s : Scanner L Pos) : Outcome L Pos :=
  match s.read x with
  | (none, errors, s) => ⟨s, errors, true⟩
  | (some token, errors, s) =>
    let (token, keywords) := convert ctx s.keywords token
    ⟨{ s with
        current := token
        keywords := keywords
        putBackOnFailure := s.putBackOnFailure.map (· ++ [⟨token, s.position⟩]) },
      errors, false⟩

/-- `Scanner.unread` -/
def Scanner.unread (s : Scanner L Pos) (item : Item Pos) : Scanner L Pos :=
  { s with queue := item :: s.queue }

/-- `PyrexScanner.peek` -/
def Scanner.peek (s : Scanner L Pos) : Outcome L Pos :=
  let o := s.next x ctx
  if o.raised then o
  else
    ⟨{ o.scanner.unread ⟨o.scanner.current, o.scanner.position⟩ with
        current := s.current
        position := s.position }, o.errors, false⟩

/-- `PyrexScanner.put_back` -/
def Scanner.putBack (s : Scanner L Pos) (item : Item Pos) : Scanner L Pos :=
  { s.unread ⟨s.current, s.position⟩ with current := item.token, position := item.pos }

/-! ## Blocks -/

/-- What a parser does from some place on, up to the end of a block. -/
inductive Body (Pos : Type) where
  | done
  | next (rest : Body Pos)
  | peek (rest : Body Pos)
  | putBack (item : Item Pos) (rest : Body Pos)
  | error (e : Err Pos) (fatal : Bool) (rest : Body Pos)
  | block (inner rest : Body Pos)

/-- The tokens of the log are put back, and what came before them. -/
def Scanner.rollback (s : Scanner L Pos) (log : List (Item Pos)) (initial : Item Pos) :
    Scanner L Pos :=
  if log = [] then s else (log.dropLast.reverse.foldl Scanner.putBack s).putBack initial

/-- The state in which a block starts. -/
def Scanner.enter (s : Scanner L Pos) : Scanner L Pos := { s with putBackOnFailure := some [] }

/-- The end of a block that started in the state `s`. Its errors are not reported. -/
def Scanner.leave (s : Scanner L Pos) (o : Outcome L Pos) : Scanner L Pos :=
  let log := o.scanner.putBackOnFailure.getD []
  if o.errors ≠ [] then
    { o.scanner.rollback log ⟨s.current, s.position⟩ with putBackOnFailure := s.putBackOnFailure }
  else { o.scanner with putBackOnFailure := s.putBackOnFailure.map (· ++ log) }

/-- The operations of a parser; a block is one of `tentatively_scan`. -/
def run : Body Pos → Scanner L Pos → Outcome L Pos
  | .done, s => ⟨s, [], false⟩
  | .next rest, s => (s.next x ctx).andThen (run rest)
  | .peek rest, s => (s.peek x ctx).andThen (run rest)
  | .putBack item rest, s => run rest (s.putBack item)
  | .error e fatal rest, s => Outcome.andThen ⟨s, errorsOf s.current e, fatal⟩ (run rest)
  | .block inner rest, s => run rest (s.leave (run inner s.enter))

/-- `with tentatively_scan(s)` -/
def tentativelyScan (body : Body Pos) (s : Scanner L Pos) : Scanner L Pos :=
  s.leave (run x ctx body s.enter)

/-! ## What is delivered -/

/-- What a call of `next` delivers, and the errors that it reports. -/
structure Event (Pos : Type) where
  item : Option (Item Pos)
  errors : List (Err Pos)

/-- What the next calls of `next` deliver. -/
def deliver : ℕ → Scanner L Pos → List (Event Pos)
  | 0, _ => []
  | n + 1, s =>
    let o := s.next x ctx
    ⟨if o.raised then none else some ⟨o.scanner.current, o.scanner.position⟩, o.errors⟩ ::
      deliver n o.scanner

/-- A block was undone: the current token and what will be delivered are what they were. -/
structure Restored (s s' : Scanner L Pos) : Prop where
  current : s'.current = s.current
  position : s'.position = s.position
  delivers : ∀ n, deliver x ctx n s' = deliver x ctx n s

/-- Each block that ends with errors is undone. -/
def BlocksUndone : Body Pos → Scanner L Pos → Prop
  | .done, _ => True
  | .next rest, s =>
    (s.next x ctx).raised = false → BlocksUndone rest (s.next x ctx).scanner
  | .peek rest, s =>
    (s.peek x ctx).raised = false → BlocksUndone rest (s.peek x ctx).scanner
  | .putBack item rest, s => BlocksUndone rest (s.putBack item)
  | .error _ fatal rest, s => fatal = false → BlocksUndone rest s
  | .block inner rest, s =>
    BlocksUndone inner s.enter ∧
      ((run x ctx inner s.enter).errors ≠ [] → Restored x ctx s (tentativelyScan x ctx inner s)) ∧
      BlocksUndone rest (tentativelyScan x ctx inner s)

end AHPy.Scanning
