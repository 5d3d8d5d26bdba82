import AHPy.Plex.Transitions

/-!
# Machines
-/

/-!
## Machines

A model of `Cython.Plex.Machines`: the NFA (`Machine`), whose states (`Node`) have
transition maps, and the DFA (`FastMachine`), whose states are dictionaries from
symbols. A state is its index in the list of the states of its machine.

`Machine.automaton` is what an NFA means: an automaton over the symbols that a
scanner reads.
-/

namespace AHPy.Plex

/-- The characters of Python, surrogates included. -/
abbrev CodePoint := Fin 0x110000

/-- What a scanner reads. -/
inductive Symbol where
  | bol
  | eol
  | eof
  | char (c : CodePoint)
  deriving DecidableEq

def lowestPriority : Int := -maxint

variable {A : Type}

/-- A state of an NFA. -/
structure Node (A : Type) where
  transitions : TransitionMap
  actionPriority : Int
  action : Option A

namespace Node

def new : Node A := ⟨.new, lowestPriority, none⟩

/-- Of two actions, the one with the highest priority stays. -/
def setAction (n : Node A) (action : A) (priority : Int) : Node A :=
  if priority > n.actionPriority then { n with action := some action, actionPriority := priority }
  else n

end Node

/-- An NFA. -/
structure Machine (A : Type) where
  states : List (Node A)
  initialStates : OrderedDict String Nat

namespace Machine

def new : Machine A := ⟨[], .empty⟩

/-- The state at an index. -/
def node (m : Machine A) (s : Nat) : Node A := m.states[s]?.getD .new

/-- A new state. -/
def newState (m : Machine A) : Nat × Machine A :=
  (m.states.length, { m with states := m.states ++ [.new] })

def newInitialState (m : Machine A) (name : String) : Nat × Machine A :=
  let (state, m) := m.newState
  (state, { m with initialStates := m.initialStates.set name state })

/-- `state` changed by `f`. -/
def modifyNode (m : Machine A) (state : Nat) (f : Node A → Node A) : Machine A :=
  { m with states := m.states.modify state f }

def addTransition (m : Machine A) (state : Nat) (event : Event) (newState : Nat) : Machine A :=
  m.modifyNode state fun n => { n with transitions := n.transitions.add event newState }

/-- An epsilon move. -/
def linkTo (m : Machine A) (state newState : Nat) : Machine A :=
  m.addTransition state (.special .epsilon) newState

def setAction (m : Machine A) (state : Nat) (action : A) (priority : Int) : Machine A :=
  m.modifyNode state fun n => n.setAction action priority

/-! ## The meaning of an NFA -/

/-- The targets of the transitions of a state on a symbol, or of its epsilon moves. -/
def targets (m : Machine A) (s : Nat) : Option Symbol → StateSet
  | none => (m.node s).transitions.getEpsilon
  | some .bol => (m.node s).transitions.getSpecial .bol
  | some .eol => (m.node s).transitions.getSpecial .eol
  | some .eof => (m.node s).transitions.getSpecial .eof
  | some (.char c) => TransitionMap.statesOf (m.node s).transitions.map c.val

/-- The automaton of an NFA, which starts in the initial states and accepts in the
    states that have an action. -/
def automaton (m : Machine A) : εNFA Symbol Nat where
  step s a := ↑(m.targets s a)
  start := {s | ∃ name, m.initialStates.get? name = some s}
  accept := {s | (m.node s).action.isSome}

/-- `action` is that of the highest-priority pattern of those that accept the
    symbols `w`, from an initial state. -/
def Accepts (m : Machine A) (initial : Nat) (w : List Symbol) (action : A) : Prop :=
  ∃ s ∈ m.automaton.evalFrom {initial} w, (m.node s).action = some action ∧
    ∀ s' ∈ m.automaton.evalFrom {initial} w, (m.node s').action.isSome →
      (m.node s').actionPriority ≤ (m.node s).actionPriority

/-! ### Nodes after an operation -/

theorem node_of_length_le {m : Machine A} {s : Nat} (h : m.states.length ≤ s) :
    m.node s = .new := by
  rw [node, List.getElem?_eq_none h, Option.getD_none]

@[simp] theorem node_newState (m : Machine A) (s : Nat) : m.newState.2.node s = m.node s := by
  rcases Nat.lt_trichotomy s m.states.length with h | rfl | h
  · rw [node, newState, List.getElem?_append_left h, node]
  · rw [node_of_length_le le_rfl]
    simp [node, newState]
  · rw [node_of_length_le h.le, node_of_length_le]
    simpa [newState] using h

theorem node_modifyNode (m : Machine A) (state : Nat) (f : Node A → Node A) (s : Nat) :
    (m.modifyNode state f).node s =
      if s = state ∧ s < m.states.length then f (m.node s) else m.node s := by
  rw [node, modifyNode, List.getElem?_modify, node]
  by_cases hs : s < m.states.length
  · rw [List.getElem?_eq_getElem hs]
    by_cases h : state = s
    · simp [h, hs]
    · simp [h, Ne.symm h]
  · rw [List.getElem?_eq_none (not_lt.1 hs)]
    simp [hs]

end Machine

/-! ## Fast machines -/

/-- The keys of a state of a DFA: the special events, `'else'` and the characters. -/
inductive Key where
  | special (sym : Special)
  | else
  | char (c : CodePoint)
  deriving DecidableEq

/-- The key of what a scanner has read, which is `''` when there is nothing more. -/
def keyOf : Option Symbol → Key
  | none => .special .epsilon
  | some .bol => .special .bol
  | some .eol => .special .eol
  | some .eof => .special .eof
  | some (.char c) => .char c

/-- A state of a DFA: a dictionary, in which `None` is a value. -/
structure FastState (A : Type) where
  transitions : OrderedDict Key (Option Nat)
  action : Option A

structure FastMachine (A : Type) where
  initialStates : OrderedDict String Nat
  states : List (FastState A)

/-- What constructing a DFA may raise: `ValueError` for the character of a code
    that no character has. (`fuel` is no error of the source: see
    `nfaToDfa_ne_fuel`.) -/
inductive DfaError where
  | chr (code : Int)
  | fuel

/-- The character of a code. -/
def chr (code : Int) : Except DfaError CodePoint :=
  if h : 0 ≤ code ∧ code < 0x110000 then .ok ⟨code.toNat, by omega⟩ else .error (.chr code)

namespace FastState

/-- The state without transitions, from the template. -/
def new (action : Option A) : FastState A where
  transitions := (((((OrderedDict.empty.set (.special .epsilon) none).set (.special .bol) none).set
    (.special .eol) none).set (.special .eof) none).set .else none)
  action := action

def set (s : FastState A) (k : Key) (newState : Nat) : FastState A :=
  { s with transitions := s.transitions.set k (some newState) }

/-- The transitions for the characters with the codes of a list. -/
def setChars (newState : Nat) : List Int → FastState A → Except DfaError (FastState A)
  | [], s => .ok s
  | code :: codes, s => do
    let c ← chr code
    setChars newState codes (s.set (.char c) newState)

/-- The state that a scanner goes to, if it is not blocked: `'else'` stands for the
    symbols that are no keys. -/
def lookup (s : FastState A) (c : Option Symbol) : Option Nat :=
  match s.transitions.get? (keyOf c) with
  | some newState => newState
  | none => if c.isSome then (s.transitions.get? .else).getD none else none

/-- `range(code0, code1)`. -/
def codeRange (code0 code1 : Int) : List Int :=
  (List.range (code1 - code0).toNat).map fun (i : Nat) => code0 + i

/-- The transitions for an event: `'else'` stands for the codes of the first
    range, and for those of the last one, which is left out. -/
def addTransitions (s : FastState A) (event : Event) (newState : Nat) :
    Except DfaError (FastState A) :=
  match event with
  | .range code0 code1 =>
    if code0 = -maxint then .ok (s.set .else newState)
    else if code1 ≠ maxint then setChars newState (codeRange code0 code1) s
    else .ok s
  | .special sym => .ok (s.set (.special sym) newState)

end FastState

namespace FastMachine

def new : FastMachine A := ⟨.empty, []⟩

def newState (m : FastMachine A) (action : Option A) : Nat × FastMachine A :=
  (m.states.length, { m with states := m.states ++ [.new action] })

def makeInitialState (m : FastMachine A) (name : String) (state : Nat) : FastMachine A :=
  { m with initialStates := m.initialStates.set name state }

/-- The state at an index. -/
def state (m : FastMachine A) (i : Nat) : FastState A := m.states[i]?.getD (.new none)

def addTransitions (m : FastMachine A) (i : Nat) (event : Event) (newState : Nat) :
    Except DfaError (FastMachine A) := do
  let s ← (m.state i).addTransitions event newState
  return { m with states := m.states.set i s }

end FastMachine

/-!
## Converting an NFA to a DFA

A model of `Cython.Plex.DFA`. The states of the DFA correspond to sets of states of
the NFA (`StateMap`): those that the states of the initial states' closures lead to.
The order in which Python iterates over a set only changes the numbers of the new
states; here it is that of the indices (`sorted`).

Where the source recurses or loops without a bound, `fuel` does, and running out of
it is an error of its own: `nfaToDfa` gives as much as there are states and sets of
states.
-/

/-- The states of a set, in the order of their indices. -/
def sorted (s : StateSet) : List Nat := (List.range (s.sup id + 1)).filter (· ∈ s)

@[simp] theorem mem_sorted {s : StateSet} {x : Nat} : x ∈ sorted s ↔ x ∈ s := by
  rw [sorted, List.mem_filter, List.mem_range, decide_eq_true_iff, and_iff_right_iff_imp]
  exact fun h => Nat.lt_succ_of_le (Finset.le_sup (f := id) h)

/-- All targets of a map. -/
def TransitionMap.allTargets (m : TransitionMap) : StateSet :=
  (m.map.map Prod.snd).foldr (· ∪ ·) ∅ ∪ (m.special.entries.map Prod.snd).foldr (· ∪ ·) ∅

namespace Machine

/-- The states that an NFA mentions. -/
def mentioned (m : Machine A) : StateSet :=
  (m.initialStates.entries.map Prod.snd).toFinset ∪
    (m.states.map fun n => n.transitions.allTargets).foldr (· ∪ ·) ∅

/-- `state` and the states reachable from it by epsilon moves added to `stateSet`. -/
def addToEpsilonClosure (m : Machine A) : Nat → StateSet → Nat → Except DfaError StateSet
  | 0, _, _ => .error .fuel
  | fuel + 1, stateSet, state =>
    if state ∈ stateSet then .ok stateSet
    else (sorted (m.node state).transitions.getEpsilon).foldlM (m.addToEpsilonClosure fuel)
      (insert state stateSet)

/-- The states reachable by epsilon moves. (The source keeps them in the node, in a
    set that nothing changes.) -/
def epsilonClosure (m : Machine A) (state : Nat) : Except DfaError StateSet :=
  m.addToEpsilonClosure (m.mentioned.card + 2) ∅ state

/-- The union of the epsilon closures of the states of a set. -/
def setEpsilonClosure (m : Machine A) (stateSet : StateSet) : Except DfaError StateSet :=
  (sorted stateSet).foldlM (fun result state1 => do
    let closure ← m.epsilonClosure state1
    return result ∪ closure) ∅

def highestPriorityAction (m : Machine A) (stateSet : StateSet) : Option A :=
  ((sorted stateSet).foldl (fun (best : Option A × Int) state =>
    if (m.node state).actionPriority > best.2 then
      ((m.node state).action, (m.node state).actionPriority)
    else best) (none, lowestPriority)).1

end Machine

/-- The correspondence between sets of states of the NFA and states of the DFA. A
    set is its own key: the sorted tuple that the source makes of it is unique. -/
structure StateMap (A : Type) where
  newMachine : FastMachine A
  oldToNewDict : OrderedDict StateSet Nat
  newToOldDict : OrderedDict Nat StateSet

namespace StateMap

def new : StateMap A := ⟨.new, .empty, .empty⟩

/-- The state that corresponds to a set, made if it is new. -/
def oldToNew (nfa : Machine A) (map : StateMap A) (oldStateSet : StateSet) : Nat × StateMap A :=
  match map.oldToNewDict.get? oldStateSet with
  | some newState => (newState, map)
  | none =>
    let (newState, machine) := map.newMachine.newState (nfa.highestPriorityAction oldStateSet)
    (newState, ⟨machine, map.oldToNewDict.set oldStateSet newState,
      map.newToOldDict.set newState oldStateSet⟩)

def newToOld (map : StateMap A) (newState : Nat) : StateSet :=
  (map.newToOldDict.get? newState).getD ∅

/-- A transition of the NFA added to a map, with the closure of its targets. -/
def collect (nfa : Machine A) (transitions : TransitionMap) (e : Event × StateSet) :
    Except DfaError TransitionMap :=
  if e.1 ≠ .special .epsilon ∧ e.2 ≠ ∅ then do
    let closure ← nfa.setEpsilonClosure e.2
    return transitions.addSet e.1 closure
  else return transitions

/-- The map of the transitions out of the states of a set. -/
def transitionsOf (nfa : Machine A) (oldStates : StateSet) : Except DfaError TransitionMap :=
  (sorted oldStates).foldlM (fun transitions oldState =>
    (nfa.node oldState).transitions.iteritems.foldlM (collect nfa) transitions) .new

/-- One transition of a new state. -/
def addTransition (nfa : Machine A) (newState : Nat) (map : StateMap A)
    (e : Event × StateSet) : Except DfaError (StateMap A) := do
  let r := map.oldToNew nfa e.2
  let machine ← r.2.newMachine.addTransitions newState e.1 r.1
  return { r.2 with newMachine := machine }

/-- The transitions of a new state. -/
def convertState (nfa : Machine A) (map : StateMap A) (newState : Nat) :
    Except DfaError (StateMap A) := do
  let transitions ← transitionsOf nfa (map.newToOld newState)
  transitions.iteritems.foldlM (addTransition nfa newState) map

/-- The loop over the new states, from `newState` on, which adds to their list. -/
def convertStates (nfa : Machine A) : Nat → Nat → StateMap A → Except DfaError (StateMap A)
  | 0, _, _ => .error .fuel
  | fuel + 1, newState, map =>
    if newState < map.newMachine.states.length then do
      let map ← map.convertState nfa newState
      convertStates nfa fuel (newState + 1) map
    else .ok map

/-- The new states of the initial states. -/
def seed (nfa : Machine A) (map : StateMap A) (e : String × Nat) : Except DfaError (StateMap A) := do
  let closure ← nfa.epsilonClosure e.2
  let r := map.oldToNew nfa closure
  return { r.2 with newMachine := r.2.newMachine.makeInitialState e.1 r.1 }

end StateMap

/-- An equivalent machine that is deterministic. -/
def nfaToDfa (nfa : Machine A) : Except DfaError (FastMachine A) := do
  let map ← nfa.initialStates.entries.foldlM (StateMap.seed nfa) .new
  let map ← map.convertStates nfa (2 ^ nfa.mentioned.card + 1) 0
  return map.newMachine

/-!
## Scanners

A model of `Cython.Plex.Scanners`, as far as running the machine goes
(`Scanner.runMachine`, the inlined one of the source). A scanner has read a part of
its stream into a buffer, from the start of the current token on, and turns its
characters into symbols: a newline is an `EOL`, the newline and a `BOL`; after the
last character come an `EOL` and the `EOF`.
-/

/-- What is next: a character (1), the newline after its `EOL` (2), the `BOL` after a
    newline (3), the `EOF` after the last `EOL` (4), or nothing (5). -/
inductive InputState where
  | char
  | newline
  | bol
  | eof
  | done

/-- The part of a scanner that is saved for backing up. `curChar` is the symbol to
    read, if there is one (`''` if not). -/
structure Position where
  curPos : Nat
  curLine : Int
  curLineStart : Int
  curChar : Option Symbol
  inputState : InputState
  nextPos : Nat

/-- A scanner. The `stream` is what its `read` returns: data, until there is no more. -/
structure Scanner where
  position : Position
  buffer : List CodePoint
  bufStartPos : Nat
  startPos : Nat
  stream : List { data : List CodePoint // data ≠ [] }

def nl : CodePoint := 10

namespace Scanner

/-- A new scanner, with the line and the column of an initial position. -/
def new (stream : List { data : List CodePoint // data ≠ [] }) (initialPos : Option (Int × Int)) :
    Scanner where
  position := ⟨0, (initialPos.map Prod.fst).getD 1, (initialPos.map fun p => -p.2).getD 0,
    some .bol, .char, 0⟩
  buffer := []
  bufStartPos := 0
  startPos := 0
  stream := stream

/-- `read_char`: the character at `nextPos`, from the buffer or from new data, if
    there is one. The result is `none` on an `IndexError`. -/
def readChar (s : Scanner) : Option (Option CodePoint × Scanner) :=
  let bufIndex := s.position.nextPos - s.bufStartPos
  if bufIndex < s.buffer.length then do
    let c ← s.buffer[bufIndex]?
    return (some c, { s with position.nextPos := s.position.nextPos + 1 })
  else
    let discard := s.startPos - s.bufStartPos
    let bufStartPos := s.bufStartPos + discard
    let bufIndex := bufIndex - discard
    match s.stream with
    | [] => some (none, { s with buffer := s.buffer.drop discard, bufStartPos := bufStartPos })
    | data :: stream => do
      let buffer := s.buffer.drop discard ++ data.val
      let c ← buffer[bufIndex]?
      return (some c, { s with
        position.nextPos := s.position.nextPos + 1
        buffer := buffer
        bufStartPos := bufStartPos
        stream := stream })

/-- `next_char`: the next symbol. -/
def nextChar (s : Scanner) : Option Scanner :=
  match s.position.inputState with
  | .char => do
    let (c, s) ← { s with position.curPos := s.position.nextPos }.readChar
    match c with
    | none => return { s with position.curChar := some .eol, position.inputState := .eof }
    | some c =>
      if c = nl then
        return { s with position.curChar := some .eol, position.inputState := .newline }
      else return { s with position.curChar := some (.char c) }
  | .newline =>
    some { s with position.curChar := some (.char nl), position.inputState := .bol }
  | .bol => some { s with position := ⟨s.position.nextPos, s.position.curLine + 1,
      s.position.nextPos, some .bol, .char, s.position.nextPos⟩ }
  | .eof => some { s with position.curChar := some .eof, position.inputState := .done }
  | .done => some { s with position.curChar := none }

/-- `back_up`: the saved action, at its position, if there is one. -/
def backUp : Option (A × Position) → Scanner → Option A × Scanner
  | none, s => (none, s)
  | some (action, position), s => (some action, { s with position := position })

/-- The loop of `run_machine`: the actions on the way are saved with the positions,
    and the last one is backed up to when the machine is blocked. -/
def runLoop (m : FastMachine A) : Nat → Nat → Option (A × Position) → Scanner →
    Option (Option A × Scanner)
  | 0, _, _, _ => none
  | fuel + 1, state, backup, s =>
    let backup := ((m.state state).action.map fun action => (action, s.position)).or backup
    match (m.state state).lookup s.position.curChar with
    | some newState => do
      let s ← s.nextChar
      runLoop m fuel newState backup s
    | none => some (backUp backup s)

/-- The number of characters that are not read yet. -/
def unread (s : Scanner) : Nat :=
  s.buffer.length + (s.stream.map fun data => data.val.length).sum

/-- `run_machine` from an initial state, at the start of a token. There are at most
    three symbols for a character, and five more. -/
def runMachine (m : FastMachine A) (initialState : Nat) (s : Scanner) :
    Option (Option A × Scanner) :=
  runLoop m (3 * s.unread + 6) initialState none { s with startPos := s.position.curPos }

end Scanner

end AHPy.Plex
