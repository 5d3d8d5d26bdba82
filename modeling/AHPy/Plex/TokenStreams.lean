import AHPy.Lib.Outcomes
import AHPy.Plex.LexerGeneration

/-!
# Token streams

The rest of `Cython.Plex.Scanners`: `read` scans tokens and performs their actions,
which put values into a queue, until there is one to return.

* `Scanner.On.nextChar`: a scanner goes from position to position of its text, where the
  chunks of the stream end does not matter (`Scanner.runMachine_same`);
* `round_spec`, `read_spec`: neither does it for an iteration of `read`, or for `read`;
* `tokens_of_chunks`: so what is read depends on the text alone, the scans are consecutive
  slices of it, and each value comes with the place of the first character of its scan.
-/

namespace AHPy.Plex

/-! ## Lines and columns -/

/-- The line and the column after a character. -/
def afterChar (place : Int × Int) (c : CodePoint) : Int × Int :=
  if c = nl then (place.1 + 1, 0) else (place.1, place.2 + 1)

/-- The line and the column after a text. -/
def placeAfter (start : Int × Int) (text : List CodePoint) : Int × Int := text.foldl afterChar start

theorem placeAfter_take_succ (start : Int × Int) {text : List CodePoint} {i : Nat} {c : CodePoint}
    (h : text[i]? = some c) :
    placeAfter start (text.take (i + 1)) = afterChar (placeAfter start (text.take i)) c := by
  rw [placeAfter, List.take_add_one, h, Option.toList_some, List.foldl_append]
  rfl

/-! ## Positions -/

namespace Position

/-- The next position in a text that is there as a whole. -/
def next (text : List CodePoint) (p : Position) : Position :=
  match p.inputState with
  | .char =>
    match text[p.nextPos]? with
    | none => { p with curPos := p.nextPos, curChar := some .eol, inputState := .eof }
    | some c =>
      if c = nl then ⟨p.nextPos, p.curLine, p.curLineStart, some .eol, .newline, p.nextPos + 1⟩
      else ⟨p.nextPos, p.curLine, p.curLineStart, some (.char c), .char, p.nextPos + 1⟩
  | .newline => { p with curChar := some (.char nl), inputState := .bol }
  | .bol => ⟨p.nextPos, p.curLine + 1, p.nextPos, some .bol, .char, p.nextPos⟩
  | .eof => { p with curChar := some .eof, inputState := .done }
  | .done => { p with curChar := none }

/-- What there is between `curPos` and `nextPos`. -/
def Reads (text : List CodePoint) (p : Position) : Prop :=
  match p.inputState with
  | .char => p.nextPos = p.curPos ∨
      ∃ c, c ≠ nl ∧ text[p.curPos]? = some c ∧ p.nextPos = p.curPos + 1
  | .newline | .bol => text[p.curPos]? = some nl ∧ p.nextPos = p.curPos + 1
  | .eof | .done => True

/-- A position whose line and column are those of `curPos`. -/
structure Placed (start : Int × Int) (text : List CodePoint) (p : Position) : Prop where
  place : placeAfter start (text.take p.curPos) = (p.curLine, p.curPos - p.curLineStart)
  reads : p.Reads text

variable {start : Int × Int} {text : List CodePoint} {p : Position}

theorem Placed.next (h : p.Placed start text) : (p.next text).Placed start text := by
  have hplace := h.place
  have hreads := h.reads
  rw [Reads] at hreads
  rw [Position.next]
  rcases hi : p.inputState with _ | _ | _ | _ | _ <;> rw [hi] at hreads
  · -- The place of `nextPos`: the character before it is no newline.
    have hnext : placeAfter start (text.take p.nextPos) =
        (p.curLine, p.nextPos - p.curLineStart) := by
      rcases hreads with hn | ⟨c, hc, hget, hn⟩
      · rw [hn, hplace]
      · rw [hn, placeAfter_take_succ start hget, hplace, afterChar, if_neg hc, Nat.cast_succ,
          sub_add_eq_add_sub]
    rcases hget : text[p.nextPos]? with _ | c
    · exact ⟨hnext, trivial⟩
    · simp only
      by_cases hc : c = nl
      · rw [if_pos hc]
        exact ⟨hnext, hc ▸ hget, rfl⟩
      · rw [if_neg hc]
        exact ⟨hnext, .inr ⟨c, hc, hget, rfl⟩⟩
  · exact ⟨hplace, hreads⟩
  · obtain ⟨hget, hn⟩ := hreads
    refine ⟨?_, .inl rfl⟩
    show placeAfter start (text.take p.nextPos) = (p.curLine + 1, (p.nextPos : Int) - p.nextPos)
    rw [hn, placeAfter_take_succ start hget, hplace, afterChar, if_pos rfl, sub_self]
  · exact ⟨hplace, trivial⟩
  · exact ⟨hplace, trivial⟩

end Position

/-! ## Scanners of a text -/

namespace Scanner

variable {A : Type} {start : Int × Int} {text : List CodePoint} {s s' : Scanner}

/-- A scanner that has a text to read, some of it in the buffer, some in the stream. -/
structure On (start : Int × Int) (text : List CodePoint) (s : Scanner) : Prop where
  ok : s.Ok
  rest : s.textFrom s.startPos = text.drop s.startPos
  placed : s.position.Placed start text

theorem On.textFrom (h : On start text s) {pos : Nat} (hlo : s.startPos ≤ pos)
    (hhi : pos ≤ s.bufEnd) : s.textFrom pos = text.drop pos := by
  have hbuf := h.ok.bufStartPos_le
  have hend : pos ≤ s.bufStartPos + s.buffer.length := hhi
  have hdrop : (s.textFrom s.startPos).drop (pos - s.startPos) = s.textFrom pos := by
    rw [Scanner.textFrom, Scanner.textFrom, List.drop_append_of_le_length, List.drop_drop]
    · congr 2
      omega
    · rw [List.length_drop]
      omega
  rw [← hdrop, h.rest, List.drop_drop, Nat.add_sub_of_le hlo]

/-- What stays `On` a text when the scanner reads. -/
theorem On.of_frame (h : On start text s) (hf : Frame s s') (hok : s'.Ok)
    (hp : s'.position.Placed start text) : On start text s' := by
  refine ⟨hok, ?_, hp⟩
  have hend : s.startPos ≤ s.bufEnd :=
    (h.ok.startPos_le.trans h.ok.curPos_le).trans h.ok.nextPos_le
  rw [hf.startPos, hf.textFrom _ le_rfl hend, h.rest]

theorem On.nextChar_position (h : On start text s) (hs : s.nextChar = some s') :
    s'.position = s.position.next text := by
  rw [Scanner.nextChar] at hs
  rw [Position.next]
  rcases hi : s.position.inputState with _ | _ | _ | _ | _ <;> rw [hi] at hs
  · have hstart : s.startPos ≤ s.position.nextPos := h.ok.startPos_le.trans h.ok.curPos_le
    have hget : text[s.position.nextPos]? = (s.textFrom s.position.nextPos).head? := by
      rw [h.textFrom hstart h.ok.nextPos_le, List.head?_drop]
    rcases readChar_spec (s := { s with position.curPos := s.position.nextPos })
      h.ok.bufStartPos_le hstart h.ok.nextPos_le with
      ⟨htext, s₁, hr, -, hp⟩ | ⟨c, rest, s₁, htext, hr, -, hp, -, -⟩
    · have htext : s.textFrom s.position.nextPos = [] := htext
      rw [htext] at hget
      simp only [hr, Option.bind_eq_bind, Option.bind_some, Option.pure_def,
        Option.some.injEq] at hs
      rw [hget, ← hs, hp]
      rfl
    · have htext : s.textFrom s.position.nextPos = c :: rest := htext
      rw [htext] at hget
      simp only [hr, Option.bind_eq_bind, Option.bind_some, Option.pure_def] at hs
      rw [hget]
      by_cases hc : c = nl
      · rw [if_pos hc, Option.some.injEq] at hs
        rw [← hs, hp, List.head?_cons]
        exact (if_pos hc).symm
      · rw [if_neg hc, Option.some.injEq] at hs
        rw [← hs]
        simp only [hp, hi, List.head?_cons, if_neg hc]
  · rw [← Option.some.inj hs]
  · rw [← Option.some.inj hs]
  · rw [← Option.some.inj hs]
  · rw [← Option.some.inj hs]
    simp only [hi]

/-- Reading a symbol goes to the next position of the text. -/
theorem On.nextChar (h : On start text s) {a : Symbol} (ha : s.position.curChar = some a) :
    ∃ s', s.nextChar = some s' ∧ On start text s' ∧ Frame s s' ∧
      s'.position = s.position.next text ∧ s.remaining = a :: s'.remaining := by
  obtain ⟨s', hs, hok, hf, hrem⟩ := nextChar_spec h.ok ha
  have hp := h.nextChar_position hs
  exact ⟨s', hs, h.of_frame hf hok (hp ▸ h.placed.next), hf, hp, hrem⟩

/-- The text of the token that is scanned. -/
def tokenText (s : Scanner) : List CodePoint :=
  (s.buffer.take (s.position.curPos - s.bufStartPos)).drop (s.startPos - s.bufStartPos)

/-- It is the slice of the text from the start of the token on. -/
theorem On.take_append_tokenText (h : On start text s) :
    text.take s.startPos ++ s.tokenText = text.take s.position.curPos := by
  have hbuf := h.ok.bufStartPos_le
  have hstart := h.ok.startPos_le
  have hend : s.position.curPos ≤ s.bufStartPos + s.buffer.length :=
    h.ok.curPos_le.trans h.ok.nextPos_le
  have hslice : s.tokenText = (text.drop s.startPos).take (s.position.curPos - s.startPos) := by
    rw [tokenText, List.drop_take, ← h.rest, Scanner.textFrom, List.take_append_of_le_length]
    · congr 1
      omega
    · rw [List.length_drop]
      omega
  rw [hslice, ← List.take_add, Nat.add_sub_of_le hstart]

/-! ### Scanners of the same text -/

/-- Two scanners at one place of a text, whatever they hold in their buffers. -/
structure Same (start : Int × Int) (text : List CodePoint) (s s' : Scanner) : Prop where
  left : On start text s
  right : On start text s'
  position : s'.position = s.position
  startPos : s'.startPos = s.startPos

/-- A saved position is one of the text. -/
def Kept (start : Int × Int) (text : List CodePoint) (backup : Option (A × Position))
    (s : Scanner) : Prop :=
  ∀ b ∈ backup, On start text { s with position := b.2 }

theorem Kept.of_frame {backup : Option (A × Position)} (h : Kept start text backup s)
    (hf : Frame s s') : Kept start text backup s' := by
  intro b hb
  have hon := h b hb
  have hf' : Frame { s with position := b.2 } s' :=
    ⟨hf.startPos, hf.bufStartPos_le, hf.bufEnd_le, hf.textFrom⟩
  exact hon.of_frame ⟨hf.startPos, hf.bufStartPos_le, hf.bufEnd_le, hf.textFrom⟩
    (hf'.restore hon.ok).1 hon.placed

/-- Saving where the scanner is. -/
theorem Kept.save {backup : Option (A × Position)} (h : Kept start text backup s)
    (hs : On start text s) (action : Option A) :
    Kept start text ((action.map fun action => (action, s.position)).or backup) s := by
  rcases action with _ | action
  · exact h
  · rintro b hb
    obtain rfl := Option.some.inj hb
    exact hs

theorem backUp_same {backup : Option (A × Position)} (h : Same start text s s')
    (hb : Kept start text backup s) (hb' : Kept start text backup s') :
    (backUp backup s').1 = (backUp backup s).1 ∧
      Same start text (backUp backup s).2 (backUp backup s').2 ∧
      (backUp backup s).2.startPos = s.startPos := by
  rcases backup with _ | b
  · exact ⟨rfl, h, rfl⟩
  · exact ⟨rfl, ⟨hb b rfl, hb' b rfl, rfl, h.startPos⟩, rfl⟩

theorem runLoop_same {m : FastMachine A} (hend : ∀ t, (m.state t).lookup none = none)
    {fuel fuel' t : Nat} {backup : Option (A × Position)} (h : Same start text s s')
    (hb : Kept start text backup s) (hb' : Kept start text backup s')
    (hfuel : s.remaining.length < fuel) (hfuel' : s'.remaining.length < fuel') :
    ∃ r e e', runLoop m fuel t backup s = some (r, e) ∧ runLoop m fuel' t backup s' = some (r, e') ∧
      Same start text e e' ∧ e.startPos = s.startPos := by
  induction fuel generalizing fuel' t backup s s' with
  | zero => exact absurd hfuel (Nat.not_lt_zero _)
  | succ fuel ih =>
    rcases fuel' with _ | fuel'
    · exact absurd hfuel' (Nat.not_lt_zero _)
    have hk := hb.save h.left (m.state t).action
    have hk' := hb'.save h.right (m.state t).action
    rw [h.position] at hk'
    rw [runLoop, runLoop, h.position]
    rcases hl : (m.state t).lookup s.position.curChar with _ | t'
    · obtain ⟨hr, hsame, hs⟩ := backUp_same h hk hk'
      exact ⟨_, _, (backUp _ s').2, rfl, congrArg some (Prod.ext hr rfl), hsame, hs⟩
    · rcases hc : s.position.curChar with _ | a
      · rw [hc, hend t] at hl
        exact absurd hl (Option.some_ne_none t').symm
      · obtain ⟨s₁, hs, hon, hf, hp, hrem⟩ := h.left.nextChar hc
        obtain ⟨s₁', hs', hon', hf', hp', hrem'⟩ := h.right.nextChar (h.position ▸ hc)
        rw [hrem, List.length_cons] at hfuel
        rw [hrem', List.length_cons] at hfuel'
        have hsame : Same start text s₁ s₁' :=
          ⟨hon, hon', by rw [hp, hp', h.position], by rw [hf.startPos, hf'.startPos, h.startPos]⟩
        obtain ⟨r, e, e', hrun, hrun', he, hstart⟩ := ih (t := t') hsame (hk.of_frame hf)
          (hk'.of_frame hf') (Nat.lt_of_succ_lt_succ hfuel) (Nat.lt_of_succ_lt_succ hfuel')
        refine ⟨r, e, e', ?_, ?_, he, hstart.trans hf.startPos⟩
        · simp only [hs, Option.bind_eq_bind, Option.bind_some]
          exact hrun
        · simp only [hs', Option.bind_eq_bind, Option.bind_some]
          exact hrun'

theorem On.beginToken (h : On start text s) : On start text s.beginToken :=
  ⟨h.ok.beginToken, h.textFrom h.ok.startPos_le (h.ok.curPos_le.trans h.ok.nextPos_le), h.placed⟩

/-- From one position of a text, a machine runs to one result and to one position. -/
theorem runMachine_same {m : FastMachine A} (hend : ∀ t, (m.state t).lookup none = none) (t : Nat)
    (h : On start text s) (h' : On start text s') (hp : s'.position = s.position) :
    ∃ r e e', s.runMachine m t = some (r, e) ∧ s'.runMachine m t = some (r, e') ∧
      Same start text e e' ∧ e.startPos = s.position.curPos :=
  runLoop_same hend ⟨h.beginToken, h'.beginToken, hp, congrArg Position.curPos hp⟩
    (fun _ hb => absurd hb (Option.not_mem_none _))
    (fun _ hb => absurd hb (Option.not_mem_none _))
    (Nat.lt_succ_of_le s.beginToken.length_remaining_le)
    (Nat.lt_succ_of_le s'.beginToken.length_remaining_le)

/-- A new scanner is at the start of what its stream returns. -/
theorem on_new (stream : List { data : List CodePoint // data ≠ [] })
    (initialPos : Option (Int × Int)) :
    On (initialPos.getD (1, 0)) (stream.map Subtype.val).flatten (new stream initialPos) := by
  refine ⟨ok_new stream initialPos, rfl, ?_, .inl rfl⟩
  rcases initialPos with _ | ⟨line, column⟩
  · rfl
  · show (line, column) = (line, 0 - -column)
    rw [sub_neg_eq_add, zero_add]

end Scanner

/-! ## Actions -/

/-- The name of a scanner, a line and a column. -/
abbrev Location := String × Int × Int

/-- A value, or a text as a value. -/
abbrev Value (V : Type) := V ⊕ List CodePoint

structure Entry (V : Type) where
  value : Option (Value V)
  text : List CodePoint
  location : Location

/-- What a scanner shows to the functions of actions: all but its buffer. `user` is what
    they keep there. -/
structure TokenStream (V σ : Type) where
  name : String
  text : List CodePoint
  currentScannerPosition : Location
  lastTokenPosition : Location
  stateName : String
  initialState : Nat
  queue : List (Entry V)
  user : σ

/-- What the function of an action asks for. -/
inductive Effect (V : Type) where
  | produce (value : Option (Value V)) (text : Option (List CodePoint))
  | begin (stateName : String)

/-- What the function of an action does before it returns or raises. -/
structure Performed (V σ E : Type) where
  effects : List (Effect V)
  user : σ
  result : Except E (Option (Value V))

/-- The actions. A `Method` is the `Call` of a method. -/
inductive Action (V σ E : Type) where
  | ret (value : Option (Value V))
  | call (function : TokenStream V σ → List CodePoint → Performed V σ E)
  | begin (stateName : String)
  | ignore
  | text

/-- What reading may raise. (`fuel` is no error of the source, whose loop goes on.) -/
inductive ScanError (E : Type) where
  | unrecognizedInput (position : Location) (stateName : String)
  | keyError (stateName : String)
  | raised (error : E)
  | fuel

/-- A lexicon with its machine. -/
structure LexiconMachine (A : Type) where
  specifications : List (Specification A)
  machine : FastMachine A
  nfaToDfa_eq : nfaToDfa (Lexicon.nfa specifications) = .ok machine

theorem LexiconMachine.lookup_end {A : Type} (L : LexiconMachine A) (t : Nat) :
    (L.machine.state t).lookup none = none := by
  obtain ⟨sets, hs⟩ := nfaToDfa_spec (Lexicon.nfa_mapOk L.specifications) L.nfaToDfa_eq
  exact hs.lookup_end t

abbrev TokenM (V σ E : Type) := EStateM (ScanError E) (TokenStream V σ)

variable {V σ E : Type} (L : LexiconMachine (Action V σ E))

def getInitialState (stateName : String) : TokenM V σ E Nat :=
  match L.machine.initialStates.get? stateName with
  | some initialState => pure initialState
  | none => throw (.keyError stateName)

def begin (stateName : String) : TokenM V σ E Unit := do
  let initialState ← getInitialState L stateName
  modify fun t => { t with initialState := initialState, stateName := stateName }

/-- A value for the queue, with the text of the scan unless there is another. -/
def produce (value : Option (Value V)) (text : Option (List CodePoint)) : TokenM V σ E Unit :=
  modify fun t =>
    { t with queue := t.queue ++ [⟨value, text.getD t.text, t.currentScannerPosition⟩] }

def runEffect : Effect V → TokenM V σ E Unit
  | .produce value text => produce value text
  | .begin stateName => begin L stateName

def perform (text : List CodePoint) : Action V σ E → TokenM V σ E (Option (Value V))
  | .ret value => pure value
  | .call function => do
    let performed := function (← get) text
    performed.effects.forM (runEffect L)
    modify fun t => { t with user := performed.user }
    match performed.result with
    | .ok value => pure value
    | .error e => throw (.raised e)
  | .begin stateName => do
    begin L stateName
    return none
  | .ignore => pure none
  | .text => pure (some (.inr text))

/-- What `read` does with the action of a scan. -/
def react : Option (Action V σ E) → TokenM V σ E Unit
  | none => produce none none
  | some action => do
    let value ← perform L (← get).text action
    if value.isSome then produce value none else pure ()

/-- The queue gets longer, by values located at the current scan. -/
def Enqueues (t t' : TokenStream V σ) : Prop :=
  t'.name = t.name ∧ t'.text = t.text ∧ t'.currentScannerPosition = t.currentScannerPosition ∧
    ∃ entries, t'.queue = t.queue ++ entries ∧ ∀ e ∈ entries, e.location = t.currentScannerPosition

/-- What leaves the queue alone. -/
theorem enqueues_of_queue_eq {t t' : TokenStream V σ} (hname : t'.name = t.name)
    (htext : t'.text = t.text) (hpos : t'.currentScannerPosition = t.currentScannerPosition)
    (hqueue : t'.queue = t.queue) : Enqueues t t' :=
  ⟨hname, htext, hpos, [], by rw [hqueue, List.append_nil], fun _ he => absurd he List.not_mem_nil⟩

instance : Std.Refl (@Enqueues V σ) := ⟨fun _ => enqueues_of_queue_eq rfl rfl rfl rfl⟩

instance : IsTrans (TokenStream V σ) Enqueues where
  trans := by
    rintro t t' t'' ⟨hn, ht, hp, entries, hq, he⟩ ⟨hn', ht', hp', entries', hq', he'⟩
    refine ⟨hn'.trans hn, ht'.trans ht, hp'.trans hp, entries ++ entries', ?_, fun e hmem => ?_⟩
    · rw [hq', hq, List.append_assoc]
    · rcases List.mem_append.1 hmem with hmem | hmem
      · exact he e hmem
      · exact (he' e hmem).trans hp

theorem produce_keeps (value : Option (Value V)) (text : Option (List CodePoint)) :
    Keeps Enqueues (produce value text : TokenM V σ E Unit) :=
  fun _ => ⟨rfl, rfl, rfl, [_], rfl, fun _ he => List.mem_singleton.1 he ▸ rfl⟩

theorem begin_keeps (stateName : String) : Keeps Enqueues (begin L stateName) := by
  refine .bind ?_ fun _ _ => enqueues_of_queue_eq rfl rfl rfl rfl
  rw [getInitialState]
  split
  · exact .pure _
  · exact .throw _

theorem effects_keep (effects : List (Effect V)) :
    Keeps Enqueues (effects.forM (runEffect L)) := by
  induction effects with
  | nil => exact .pure _
  | cons effect effects ih =>
    refine .bind ?_ fun _ => ih
    rcases effect with ⟨value, text⟩ | stateName
    · exact produce_keeps value text
    · exact begin_keeps L stateName

theorem perform_keeps (text : List CodePoint) (action : Action V σ E) :
    Keeps Enqueues (perform L text action) := by
  rcases action with value | function | stateName | _ | _
  · exact .pure _
  · refine .bind .get fun t => .bind (effects_keep L _) fun _ => .bind ?_ fun _ => ?_
    · exact fun _ => enqueues_of_queue_eq rfl rfl rfl rfl
    · split
      · exact .pure _
      · exact .throw _
  · exact .bind (begin_keeps L stateName) fun _ => .pure _
  · exact .pure _
  · exact .pure _

theorem react_keeps (action : Option (Action V σ E)) : Keeps Enqueues (react L action) := by
  rcases action with _ | action
  · exact produce_keeps none none
  · exact .bind .get fun t => .bind (perform_keeps L t.text action) fun value =>
      .ite (produce_keeps value none) (.pure _)

/-! ## Reading -/

/-- A scanner with its tokens. -/
structure TokenScanner (V σ : Type) where
  stream : TokenStream V σ
  scanner : Scanner

/-- Where the scanner is. -/
def TokenScanner.location (ts : TokenScanner V σ) : Location :=
  (ts.stream.name, ts.scanner.position.curLine,
    ts.scanner.position.curPos - ts.scanner.position.curLineStart)

/-- The text and the action of the next token; there is none at the end of the file.
    (`cur_char` is never `None`.) -/
def scanAToken (ts : TokenScanner V σ) : Except (ScanError E)
    ((List CodePoint × Option (Action V σ E)) × TokenScanner V σ) :=
  let stream := { ts.stream with currentScannerPosition := ts.location }
  match ts.scanner.runMachine L.machine stream.initialState with
  | none => .error .fuel
  | some (some action, s) => .ok ((s.tokenText, some action), ⟨stream, s⟩)
  | some (none, s) =>
    if s.position.curPos = s.startPos ∧ s.position.curChar = some .eof then
      .ok (([], none), ⟨stream, s⟩)
    else .error (.unrecognizedInput stream.lastTokenPosition stream.stateName)

/-- An iteration of the loop of `read`. -/
def round (ts : TokenScanner V σ) : Except (ScanError E) (TokenScanner V σ) := do
  let (scanned, ts) ← scanAToken L ts
  match react L scanned.2 { ts.stream with text := scanned.1 } with
  | .ok _ stream => return ⟨stream, ts.scanner⟩
  | .error e _ => throw e

/-- `read`, with as many iterations as there is fuel. -/
def read : Nat → TokenScanner V σ → Except (ScanError E) (Entry V × TokenScanner V σ)
  | 0, _ => .error .fuel
  | fuel + 1, ts =>
    match ts.stream.queue with
    | [] => do
      let ts ← round L ts
      read fuel ts
    | e :: queue =>
      .ok (e, { ts with stream.queue := queue, stream.lastTokenPosition := e.location })

/-- What `count` calls of `read` return, and the error that stops them, if there is one. -/
def results (fuel : Nat) : Nat → TokenScanner V σ → List (Entry V) × Option (ScanError E)
  | 0, _ => ([], none)
  | count + 1, ts =>
    match read L fuel ts with
    | .error e => ([], some e)
    | .ok (e, ts) => (e :: (results fuel count ts).1, (results fuel count ts).2)

/-- A scan, with what its action put into the queue. -/
structure Scanned (V : Type) where
  location : Location
  text : List CodePoint
  entries : List (Entry V)

def TokenScanner.scanned (ts : TokenScanner V σ) : Scanned V :=
  ⟨ts.stream.currentScannerPosition, ts.stream.text, ts.stream.queue⟩

/-- The scans of a call of `read`. -/
def scansOfRead : Nat → TokenScanner V σ → List (Scanned V)
  | 0, _ => []
  | fuel + 1, ts =>
    match ts.stream.queue, round L ts with
    | [], .ok ts => ts.scanned :: scansOfRead fuel ts
    | _, _ => []

/-- The scans of `count` calls. -/
def scans (fuel : Nat) : Nat → TokenScanner V σ → List (Scanned V)
  | 0, _ => []
  | count + 1, ts =>
    scansOfRead L fuel ts ++
      match read L fuel ts with
      | .error _ => []
      | .ok (_, ts) => scans fuel count ts

/-- The scans are the slices of a text from behind `before` on, with the place of their
    first characters. -/
def Slices (name : String) (start : Int × Int) (text : List CodePoint) :
    List CodePoint → List (Scanned V) → Prop
  | before, [] => before <+: text
  | before, scan :: log => scan.location = (name, placeAfter start before) ∧
      (∀ e ∈ scan.entries, e.location = scan.location) ∧
      Slices name start text (before ++ scan.text) log

/-- What is read of a text. -/
def TokenScanner.before (text : List CodePoint) (ts : TokenScanner V σ) : List CodePoint :=
  text.take ts.scanner.position.curPos

/-- Two scanners with the same tokens at one place of a text. -/
structure SameTokens (start : Int × Int) (text : List CodePoint) (ts ts' : TokenScanner V σ) :
    Prop where
  stream : ts'.stream = ts.stream
  left : ts.scanner.On start text
  right : ts'.scanner.On start text
  position : ts'.scanner.position = ts.scanner.position

variable {start : Int × Int} {text : List CodePoint} {ts ts' : TokenScanner V σ}

theorem SameTokens.location (h : SameTokens start text ts ts') :
    ts'.location = ts.location ∧
      ts.location = (ts.stream.name, placeAfter start (ts.before text)) := by
  rw [TokenScanner.location, TokenScanner.location, h.stream, h.position, TokenScanner.before,
    h.left.placed.place]
  exact ⟨rfl, rfl⟩

theorem scanAToken_spec (h : SameTokens start text ts ts') :
    (∃ e, scanAToken L ts = .error e ∧ scanAToken L ts' = .error e) ∨
    ∃ r u u', scanAToken L ts = .ok (r, u) ∧ scanAToken L ts' = .ok (r, u') ∧
      SameTokens start text u u' ∧ ts.before text ++ r.1 = u.before text ∧
      u.stream = { ts.stream with currentScannerPosition := ts.location } := by
  obtain ⟨r, e, e', hrun, hrun', hsame, hstart⟩ := Scanner.runMachine_same L.lookup_end
    ts.stream.initialState h.left h.right h.position
  have hslice := hsame.left.take_append_tokenText
  rw [hstart] at hslice
  have htext : e'.tokenText = e.tokenText := by
    have hslice' := hsame.right.take_append_tokenText
    rw [hsame.startPos, hstart, hsame.position, ← hslice] at hslice'
    exact List.append_cancel_left hslice'
  have htokens (stream : TokenStream V σ) : SameTokens start text ⟨stream, e⟩ ⟨stream, e'⟩ :=
    ⟨rfl, hsame.left, hsame.right, hsame.position⟩
  simp only [scanAToken, h.stream, h.location.1, hrun, hrun']
  rcases r with _ | action
  · simp only [hsame.position, hsame.startPos]
    by_cases heof : e.position.curPos = e.startPos ∧ e.position.curChar = some .eof
    · simp only [if_pos heof]
      refine .inr ⟨_, _, _, rfl, rfl, htokens _, ?_, rfl⟩
      rw [List.append_nil, TokenScanner.before, TokenScanner.before, heof.1, hstart]
    · simp only [if_neg heof]
      exact .inl ⟨_, rfl, rfl⟩
  · simp only [htext]
    exact .inr ⟨_, _, _, rfl, rfl, htokens _, hslice, rfl⟩

theorem round_spec (h : SameTokens start text ts ts') :
    (∃ e, round L ts = .error e ∧ round L ts' = .error e) ∨
    ∃ u u', round L ts = .ok u ∧ round L ts' = .ok u' ∧ SameTokens start text u u' ∧
      ts.before text ++ u.stream.text = u.before text ∧
      Enqueues { ts.stream with currentScannerPosition := ts.location, text := u.stream.text }
        u.stream := by
  rw [round, round]
  rcases scanAToken_spec L h with ⟨e, hs, hs'⟩ | ⟨r, u, u', hs, hs', hsame, htext, hstream⟩
  · rw [hs, hs']
    exact .inl ⟨e, rfl, rfl⟩
  · have hkeeps := react_keeps L r.2 { u.stream with text := r.1 }
    simp only [hs, hs', bind, Except.bind, hsame.stream]
    rcases hr : react L r.2 { u.stream with text := r.1 } with ⟨value, stream⟩ | ⟨e, stream⟩
    · rw [hr, finalState_ok] at hkeeps
      have hu : stream.text = r.1 := hkeeps.2.1
      refine .inr ⟨_, _, rfl, rfl, ⟨rfl, hsame.left, hsame.right, hsame.position⟩, ?_, ?_⟩
      · rw [hu]
        exact htext
      · rw [hstream] at hkeeps
        rw [hu]
        exact hkeeps
    · exact .inl ⟨e, rfl, rfl⟩

/-- A call of `read` returns the first of the values that there are, after its scans. -/
theorem read_spec (h : SameTokens start text ts ts') (fuel : Nat) :
    (∃ e, read L fuel ts = .error e ∧ read L fuel ts' = .error e ∧
      Slices ts.stream.name start text (ts.before text) (scansOfRead L fuel ts)) ∨
    ∃ e u u', read L fuel ts = .ok (e, u) ∧ read L fuel ts' = .ok (e, u') ∧
      SameTokens start text u u' ∧
      (∀ log, Slices u.stream.name start text (u.before text) log →
        Slices ts.stream.name start text (ts.before text) (scansOfRead L fuel ts ++ log)) ∧
      e :: u.stream.queue =
        ts.stream.queue ++ (scansOfRead L fuel ts).flatMap Scanned.entries := by
  induction fuel generalizing ts ts' with
  | zero => exact .inl ⟨_, rfl, rfl, List.take_prefix _ _⟩
  | succ fuel ih =>
    rw [read, read, scansOfRead, h.stream]
    rcases hq : ts.stream.queue with _ | ⟨e, queue⟩
    · simp only
      rcases round_spec L h with ⟨e, hr, hr'⟩ | ⟨u, u', hr, hr', hsame, htext, hext⟩
      · rw [hr, hr']
        exact .inl ⟨e, rfl, rfl, List.take_prefix _ _⟩
      · obtain ⟨hname, -, hpos, entries, hqueue, hentries⟩ := hext
        rw [hq, List.nil_append] at hqueue
        have hname : u.stream.name = ts.stream.name := hname
        -- The scan of this iteration comes first.
        have hcons (log : List (Scanned V)) (hlog : Slices u.stream.name start text
            (u.before text) log) : Slices ts.stream.name start text (ts.before text)
              (u.scanned :: log) := by
          refine ⟨hpos.trans h.location.2, fun e he => ?_, ?_⟩
          · exact (hentries e (hqueue ▸ he)).trans hpos.symm
          · rw [← hname]
            exact htext.symm ▸ hlog
        simp only [hr, hr', bind, Except.bind]
        rcases ih hsame with ⟨e, hread, hread', hlog⟩ |
          ⟨e, v, v', hread, hread', hsame', hlog, heq⟩
        · exact .inl ⟨e, hread, hread', hcons _ hlog⟩
        · exact .inr ⟨e, v, v', hread, hread', hsame', fun log hl => hcons _ (hlog log hl), heq⟩
    · exact .inr ⟨e, _, _, rfl, rfl, ⟨rfl, h.left, h.right, h.position⟩, fun _ hlog => hlog,
        (List.append_nil _).symm⟩

theorem results_spec (h : SameTokens start text ts ts') (fuel count : Nat) :
    results L fuel count ts' = results L fuel count ts ∧
      Slices ts.stream.name start text (ts.before text) (scans L fuel count ts) ∧
      (results L fuel count ts).1 <+:
        ts.stream.queue ++ (scans L fuel count ts).flatMap Scanned.entries := by
  induction count generalizing ts ts' with
  | zero => exact ⟨rfl, List.take_prefix _ _, List.nil_prefix⟩
  | succ count ih =>
    rw [results, results, scans]
    rcases read_spec L h fuel with ⟨e, hread, hread', hlog⟩ |
      ⟨e, u, u', hread, hread', hsame, hlog, heq⟩
    · simp only [hread, hread', List.append_nil]
      exact ⟨trivial, hlog, List.nil_prefix⟩
    · obtain ⟨hres, hslices, hprefix⟩ := ih hsame
      simp only [hread, hread', hres, List.flatMap_append]
      refine ⟨trivial, hlog _ hslices, ?_⟩
      rw [← List.append_assoc, ← heq]
      exact List.cons_prefix_cons.2 ⟨rfl, hprefix⟩

/-! ## Chunks -/

/-- A text as what the calls of `stream.read` return. -/
def Chunks (text : List CodePoint) : Type :=
  { stream : List { data : List CodePoint // data ≠ [] } //
    (stream.map Subtype.val).flatten = text }

/-- What a new scanner reads does not depend on the chunks of a text. Its scans are
    consecutive slices of the text, and what it returns comes from them, in their order,
    each value with the place of the first character of its scan. -/
theorem tokens_of_chunks (stream : TokenStream V σ) (initialPos : Option (Int × Int))
    (chunks chunks' : Chunks text) (fuel count : Nat) :
    results L fuel count ⟨stream, .new chunks'.val initialPos⟩ =
        results L fuel count ⟨stream, .new chunks.val initialPos⟩ ∧
      Slices stream.name (initialPos.getD (1, 0)) text []
        (scans L fuel count ⟨stream, .new chunks.val initialPos⟩) ∧
      (results L fuel count ⟨stream, .new chunks.val initialPos⟩).1 <+: stream.queue ++
        (scans L fuel count ⟨stream, .new chunks.val initialPos⟩).flatMap Scanned.entries := by
  have hon (chunks : Chunks text) :
      (Scanner.new chunks.val initialPos).On (initialPos.getD (1, 0)) text := by
    have h := Scanner.on_new chunks.val initialPos
    rwa [chunks.property] at h
  have hsame : SameTokens (initialPos.getD (1, 0)) text
      (⟨stream, .new chunks.val initialPos⟩ : TokenScanner V σ)
      ⟨stream, .new chunks'.val initialPos⟩ := ⟨rfl, hon chunks, hon chunks', rfl⟩
  exact results_spec L hsame fuel count

end AHPy.Plex
