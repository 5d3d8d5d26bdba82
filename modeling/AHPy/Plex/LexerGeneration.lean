import AHPy.Plex.LexiconNfa

/-!
# Lexer generation

Scanning with the machine of a lexicon finds the longest prefix of the symbols to
come that a pattern accepts, with the action of the highest-priority one.

* `Scanner.remaining`: the symbols that a scanner is going to read;
* `nextChar_spec`: reading a symbol, whatever the buffer holds;
* `runMachine_spec`: running a machine is finding the longest match of its states;
* `lexicon_scans_iff`: for a lexicon this is the longest match of the NFA, if and
  only if there is a machine: no state that is reachable has a wide range. A wide
  range comes from a character that is twice in an `Any` or `AnyBut`, which makes
  the range that it is in longer by one (`Lexicon.any_repeated_last`).
-/

namespace AHPy.Plex

variable {A : Type}

namespace Scanner

/-! ## Symbols -/

/-- The symbols of characters, up to the end. -/
def lineSymbols : List CodePoint → List Symbol
  | [] => [.eol, .eof]
  | c :: text =>
    if c = nl then .eol :: .char nl :: .bol :: lineSymbols text else .char c :: lineSymbols text

/-- The symbols after the current one. -/
def symbolsAfter (text : List CodePoint) : InputState → List Symbol
  | .char => lineSymbols text
  | .newline => .char nl :: .bol :: lineSymbols text
  | .bol => .bol :: lineSymbols text
  | .eof => [.eof]
  | .done => []

/-- The characters from a position on, in the buffer and in the stream. -/
def textFrom (s : Scanner) (pos : Nat) : List CodePoint :=
  s.buffer.drop (pos - s.bufStartPos) ++ (s.stream.map Subtype.val).flatten

/-- The symbols that are not read yet. -/
def remaining (s : Scanner) : List Symbol :=
  match s.position.curChar with
  | none => []
  | some a => a :: symbolsAfter (s.textFrom s.position.nextPos) s.position.inputState

theorem length_lineSymbols_le (text : List CodePoint) :
    (lineSymbols text).length ≤ 3 * text.length + 2 := by
  induction text with
  | nil => exact le_rfl
  | cons c text ih =>
    rw [lineSymbols]
    split <;> simp only [List.length_cons] <;> omega

theorem length_remaining_le (s : Scanner) : s.remaining.length ≤ 3 * s.unread + 5 := by
  have htext : (s.textFrom s.position.nextPos).length ≤ s.unread := by
    rw [textFrom, List.length_append, List.length_drop, List.length_flatten, List.map_map, unread]
    have heq : (s.stream.map (List.length ∘ Subtype.val)).sum =
        (s.stream.map fun data => data.val.length).sum := rfl
    omega
  have hline := length_lineSymbols_le (s.textFrom s.position.nextPos)
  rw [remaining]
  rcases s.position.curChar with _ | a
  · exact Nat.zero_le _
  · rcases s.position.inputState with _ | _ | _ | _ | _ <;>
      simp only [symbolsAfter, List.length_cons, List.length_nil] <;> omega

/-! ## Buffers -/

/-- The position after what is in the buffer. -/
def bufEnd (s : Scanner) : Nat := s.bufStartPos + s.buffer.length

/-- A scanner whose buffer holds the current token, as far as it is read. -/
structure Ok (s : Scanner) : Prop where
  bufStartPos_le : s.bufStartPos ≤ s.startPos
  startPos_le : s.startPos ≤ s.position.curPos
  curPos_le : s.position.curPos ≤ s.position.nextPos
  nextPos_le : s.position.nextPos ≤ s.bufEnd

theorem ok_new (stream : List { data : List CodePoint // data ≠ [] })
    (initialPos : Option (Int × Int)) : (new stream initialPos).Ok :=
  ⟨le_rfl, le_rfl, le_rfl, le_rfl⟩

/-- What reading does to the buffer: the text from the start of the token on stays. -/
structure Frame (s s' : Scanner) : Prop where
  startPos : s'.startPos = s.startPos
  bufStartPos_le : s'.bufStartPos ≤ s.startPos
  bufEnd_le : s.bufEnd ≤ s'.bufEnd
  textFrom : ∀ pos, s.startPos ≤ pos → pos ≤ s.bufEnd → s'.textFrom pos = s.textFrom pos

theorem Ok.frame_refl {s : Scanner} (h : s.Ok) (position : Position) :
    Frame s { s with position := position } :=
  ⟨rfl, h.bufStartPos_le, le_rfl, fun _ _ _ => rfl⟩

theorem Frame.trans {s s' s'' : Scanner} (h : Frame s s') (h' : Frame s' s'') : Frame s s'' where
  startPos := h'.startPos.trans h.startPos
  bufStartPos_le := h.startPos ▸ h'.bufStartPos_le
  bufEnd_le := h.bufEnd_le.trans h'.bufEnd_le
  textFrom := fun pos hlo hhi =>
    (h'.textFrom pos (h.startPos.symm ▸ hlo) (hhi.trans h.bufEnd_le)).trans (h.textFrom pos hlo hhi)

/-- A position of before is one of after. -/
theorem Frame.restore {s s' : Scanner} (h : Frame s s') (hs : s.Ok) :
    ({ s' with position := s.position } : Scanner).Ok ∧
      ({ s' with position := s.position } : Scanner).remaining = s.remaining := by
  have hstart : s.startPos ≤ s.position.nextPos := hs.startPos_le.trans hs.curPos_le
  refine ⟨⟨h.startPos.symm ▸ h.bufStartPos_le, h.startPos.symm ▸ hs.startPos_le, hs.curPos_le,
    hs.nextPos_le.trans h.bufEnd_le⟩, ?_⟩
  have htext : ({ s' with position := s.position } : Scanner).textFrom s.position.nextPos =
      s.textFrom s.position.nextPos := h.textFrom _ hstart hs.nextPos_le
  rw [remaining, remaining, htext]

/-- Reading a character takes it from the text. -/
theorem readChar_spec {s : Scanner} (hbuf : s.bufStartPos ≤ s.startPos)
    (hstart : s.startPos ≤ s.position.nextPos) (hend : s.position.nextPos ≤ s.bufEnd) :
    (s.textFrom s.position.nextPos = [] ∧ ∃ s', s.readChar = some (none, s') ∧ Frame s s' ∧
      s'.position = s.position) ∨
    ∃ c text s', s.textFrom s.position.nextPos = c :: text ∧ s.readChar = some (some c, s') ∧
      Frame s s' ∧ s'.position = { s.position with nextPos := s.position.nextPos + 1 } ∧
      s'.textFrom s'.position.nextPos = text ∧ s'.position.nextPos ≤ s'.bufEnd := by
  rw [bufEnd] at hend
  rw [readChar]
  by_cases hlt : s.position.nextPos - s.bufStartPos < s.buffer.length
  · right
    have htext : s.textFrom s.position.nextPos =
        s.buffer[s.position.nextPos - s.bufStartPos] :: s.textFrom (s.position.nextPos + 1) := by
      rw [textFrom, textFrom, List.drop_eq_getElem_cons hlt, List.cons_append,
        Nat.sub_add_comm (hbuf.trans hstart)]
    refine ⟨_, _, { s with position.nextPos := s.position.nextPos + 1 }, htext, ?_,
      ⟨rfl, hbuf, le_rfl, fun _ _ _ => rfl⟩, rfl, rfl, ?_⟩
    · simp only [if_pos hlt, List.getElem?_eq_getElem hlt]
      rfl
    · show s.position.nextPos + 1 ≤ s.bufStartPos + s.buffer.length
      omega
  · -- All of the buffer is read.
    have hpos : s.position.nextPos = s.bufStartPos + s.buffer.length := by omega
    have hlength : s.position.nextPos - s.bufStartPos = s.buffer.length := by omega
    have htext : s.textFrom s.position.nextPos = (s.stream.map Subtype.val).flatten := by
      rw [textFrom, hlength, List.drop_length, List.nil_append]
    have hdiscard : s.bufStartPos + (s.startPos - s.bufStartPos) = s.startPos := by omega
    simp only [if_neg hlt]
    rw [htext]
    rcases hstream : s.stream with _ | ⟨data, stream⟩
    · left
      refine ⟨rfl, _, rfl, ⟨rfl, hdiscard.le, ?_, fun pos hlo hhi => ?_⟩, rfl⟩
      · show s.bufEnd ≤ s.bufStartPos + (s.startPos - s.bufStartPos) + _
        rw [List.length_drop, bufEnd]
        omega
      · show ((s.buffer.drop (s.startPos - s.bufStartPos)).drop
          (pos - (s.bufStartPos + (s.startPos - s.bufStartPos)))) ++ _ = s.buffer.drop _ ++ _
        rw [List.drop_drop, hdiscard, hstream]
        congr 2
        omega
    · right
      obtain ⟨data, hdata⟩ := data
      rcases data with _ | ⟨c, data⟩
      · exact absurd rfl hdata
      have hdrop : (s.buffer.drop (s.startPos - s.bufStartPos)).length =
          s.position.nextPos - s.startPos := by
        rw [List.length_drop]
        omega
      have hindex : s.position.nextPos - s.bufStartPos - (s.startPos - s.bufStartPos) =
          (s.buffer.drop (s.startPos - s.bufStartPos)).length := by omega
      refine ⟨c, data ++ (stream.map Subtype.val).flatten,
        { s with
          position.nextPos := s.position.nextPos + 1
          buffer := s.buffer.drop (s.startPos - s.bufStartPos) ++ c :: data
          bufStartPos := s.bufStartPos + (s.startPos - s.bufStartPos)
          stream := stream }, rfl, ?_,
        ⟨rfl, hdiscard.le, ?_, fun pos hlo hhi => ?_⟩, rfl, ?_, ?_⟩
      · simp only [hindex, List.getElem?_append_right le_rfl, Nat.sub_self]
        rfl
      · show s.bufEnd ≤ s.bufStartPos + (s.startPos - s.bufStartPos) + _
        rw [List.length_append, hdrop, bufEnd]
        omega
      · rw [bufEnd] at hhi
        show ((s.buffer.drop (s.startPos - s.bufStartPos) ++ c :: data).drop
          (pos - (s.bufStartPos + (s.startPos - s.bufStartPos)))) ++ _ = s.buffer.drop _ ++ _
        rw [hdiscard, List.drop_append_of_le_length (by omega), List.drop_drop, hstream,
          List.append_assoc]
        congr 2
        omega
      · show ((s.buffer.drop (s.startPos - s.bufStartPos) ++ c :: data).drop
          (s.position.nextPos + 1 - (s.bufStartPos + (s.startPos - s.bufStartPos)))) ++ _ = _
        rw [hdiscard, List.drop_append, hdrop, List.drop_eq_nil_of_le (by omega),
          show s.position.nextPos + 1 - s.startPos - (s.position.nextPos - s.startPos) = 1 by omega]
        rfl
      · show s.position.nextPos + 1 ≤ s.bufStartPos + (s.startPos - s.bufStartPos) + _
        rw [List.length_append, hdrop, List.length_cons]
        omega

/-- Reading a symbol takes it from the symbols to come. -/
theorem nextChar_spec {s : Scanner} (h : s.Ok) {a : Symbol} (ha : s.position.curChar = some a) :
    ∃ s', s.nextChar = some s' ∧ s'.Ok ∧ Frame s s' ∧ s.remaining = a :: s'.remaining := by
  -- A step that does not read from the buffer.
  have move : ∀ position : Position, position.nextPos = s.position.nextPos →
      s.position.curPos ≤ position.curPos → position.curPos ≤ position.nextPos →
      ({ s with position := position } : Scanner).Ok := fun position hn hc hle =>
    ⟨h.bufStartPos_le, h.startPos_le.trans hc, hle, hn ▸ h.nextPos_le⟩
  rw [nextChar]
  rcases hi : s.position.inputState with _ | _ | _ | _ | _
  · -- The next character.
    have hs : s.startPos ≤ s.position.nextPos := h.startPos_le.trans h.curPos_le
    have hrem : s.remaining = a :: lineSymbols (s.textFrom s.position.nextPos) := by
      rw [remaining, ha, hi]
      rfl
    rcases readChar_spec (s := { s with position.curPos := s.position.nextPos })
      h.bufStartPos_le hs h.nextPos_le with
      ⟨htext, s', hr, hf, hp⟩ | ⟨c, text, s', htext, hr, hf, hp, htext', hend⟩
    · have htext : s.textFrom s.position.nextPos = [] := htext
      simp only [hr, Option.bind_eq_bind, Option.bind_some]
      refine ⟨_, rfl, ⟨hf.startPos.symm ▸ hf.bufStartPos_le, ?_, ?_, ?_⟩, ⟨hf.startPos,
        hf.bufStartPos_le, hf.bufEnd_le, hf.textFrom⟩, ?_⟩
      · show s'.startPos ≤ s'.position.curPos
        rw [hf.startPos, hp]
        exact hs
      · show s'.position.curPos ≤ s'.position.nextPos
        rw [hp]
      · show s'.position.nextPos ≤ s'.bufEnd
        rw [hp]
        exact h.nextPos_le.trans hf.bufEnd_le
      · rw [hrem, htext]
        rfl
    · have htext : s.textFrom s.position.nextPos = c :: text := htext
      have hok : ∀ curChar inputState, ({ s' with
          position.curChar := curChar, position.inputState := inputState } : Scanner).Ok := by
        intro curChar inputState
        refine ⟨hf.startPos.symm ▸ hf.bufStartPos_le, ?_, ?_, hend⟩
        · show s'.startPos ≤ s'.position.curPos
          rw [hf.startPos, hp]
          exact hs
        · show s'.position.curPos ≤ s'.position.nextPos
          rw [hp]
          exact Nat.le_succ _
      have hframe : ∀ position, Frame s { s' with position := position } := fun position =>
        ⟨hf.startPos, hf.bufStartPos_le, hf.bufEnd_le, hf.textFrom⟩
      simp only [hr, Option.bind_eq_bind, Option.bind_some]
      by_cases hc : c = nl
      · rw [if_pos hc]
        refine ⟨_, rfl, hok _ _, hframe _, ?_⟩
        rw [hrem, htext, lineSymbols, if_pos hc]
        show _ = a :: .eol :: .char nl :: .bol :: lineSymbols (s'.textFrom s'.position.nextPos)
        rw [htext']
      · rw [if_neg hc]
        refine ⟨_, rfl, hok _ s'.position.inputState, hframe _, ?_⟩
        have hstate : s'.position.inputState = .char := by
          rw [hp]
          exact hi
        rw [hrem, htext, lineSymbols, if_neg hc]
        show _ = a :: .char c :: symbolsAfter (s'.textFrom s'.position.nextPos)
          s'.position.inputState
        rw [htext', hstate]
        rfl
  · refine ⟨_, rfl, move _ rfl le_rfl h.curPos_le, h.frame_refl _, ?_⟩
    rw [remaining, ha, hi]
    rfl
  · refine ⟨_, rfl, move _ rfl h.curPos_le le_rfl, h.frame_refl _, ?_⟩
    rw [remaining, ha, hi]
    rfl
  · refine ⟨_, rfl, move _ rfl le_rfl h.curPos_le, h.frame_refl _, ?_⟩
    rw [remaining, ha, hi]
    rfl
  · refine ⟨_, rfl, move _ rfl le_rfl h.curPos_le, h.frame_refl _, ?_⟩
    rw [remaining, ha, hi]
    rfl

/-! ## Running a machine -/

/-- `k` symbols further. -/
def advance : Nat → Scanner → Option Scanner
  | 0, s => some s
  | k + 1, s => s.nextChar.bind (advance k)

/-- What is saved on the way from `s` to `sEnd`: the action of the longest match, with
    the position at its end. -/
def Saves (s sEnd : Scanner) (best : Option (A × Nat)) (saved : Option (A × Position)) : Prop :=
  best = none ∧ saved = none ∨ ∃ a k sk, best = some (a, k) ∧ saved = some (a, sk.position) ∧
    advance k s = some sk ∧ sk.Ok ∧ Frame sk sEnd ∧ sk.remaining = s.remaining.drop k

/-- The action of a state is saved where the scanner is. -/
theorem Ok.saves_here {s sEnd : Scanner} (h : s.Ok) (hf : Frame s sEnd) (m : FastMachine A)
    (t : Nat) : Saves s sEnd (here (fun t => (m.state t).action) t)
      ((m.state t).action.map fun action => (action, s.position)) := by
  rw [here]
  rcases (m.state t).action with _ | action
  · exact .inl ⟨rfl, rfl⟩
  · exact .inr ⟨action, 0, s, rfl, rfl, rfl, h, hf, rfl⟩

theorem Saves.step {s s' sEnd : Scanner} {a : Symbol} {best : Option (A × Nat)}
    {saved : Option (A × Position)} (h : Saves s' sEnd best saved) (hs : s.nextChar = some s')
    (hrem : s.remaining = a :: s'.remaining) {best' : Option (A × Nat)}
    {saved' : Option (A × Position)} (h' : Saves s sEnd best' saved') :
    Saves s sEnd ((best.map fun r => (r.1, r.2 + 1)).or best') (saved.or saved') := by
  rcases h with ⟨rfl, rfl⟩ | ⟨b, k, sk, rfl, rfl, hadv, hok, hf, hk⟩
  · exact h'
  · refine .inr ⟨b, k + 1, sk, rfl, rfl, ?_, hok, hf, ?_⟩
    · rw [advance, hs]
      exact hadv
    · rw [hk, hrem, List.drop_succ_cons]

/-- The loop saves the longest match, and backs up to it when it is blocked. -/
theorem runLoop_spec {m : FastMachine A} (hend : ∀ t, (m.state t).lookup none = none)
    {fuel t : Nat} {backup : Option (A × Position)} {s : Scanner} (h : s.Ok)
    (hfuel : s.remaining.length < fuel) :
    ∃ sEnd saved, runLoop m fuel t backup s = some (backUp (saved.or backup) sEnd) ∧ sEnd.Ok ∧
      Frame s sEnd ∧ Saves s sEnd
        (munch m.step (fun t => (m.state t).action) t s.remaining) saved := by
  induction fuel generalizing t backup s with
  | zero => exact absurd hfuel (Nat.not_lt_zero _)
  | succ fuel ih =>
    rw [runLoop]
    rcases hc : s.position.curChar with _ | a
    · -- There is no symbol.
      have hrem : s.remaining = [] := by rw [remaining, hc]
      rw [hrem, hend t]
      exact ⟨s, _, rfl, h, h.frame_refl _, h.saves_here (h.frame_refl _) m t⟩
    · obtain ⟨s', hs', hok', hf', hrem⟩ := nextChar_spec h hc
      rw [hrem, munch, FastMachine.step]
      rcases hl : (m.state t).lookup (some a) with _ | t'
      · exact ⟨s, _, rfl, h, h.frame_refl _, h.saves_here (h.frame_refl _) m t⟩
      · rw [hrem, List.length_cons] at hfuel
        obtain ⟨sEnd, saved, hrun, hok, hf, hsaves⟩ := ih (t := t') hok' (Nat.lt_of_succ_lt_succ hfuel)
        refine ⟨sEnd, saved.or ((m.state t).action.map fun action => (action, s.position)), ?_,
          hok, hf'.trans hf, ?_⟩
        · simp only [hs', Option.bind_eq_bind, Option.bind_some]
          rw [hrun, Option.or_assoc]
        · rw [Option.bind_some]
          exact hsaves.step hs' hrem (h.saves_here (hf'.trans hf) m t)

/-- A scanner after a run: at the end of the match, if there is one. -/
structure Matched (s : Scanner) (best : Option (A × Nat)) (r : Option A) (s' : Scanner) :
    Prop where
  action : r = best.map Prod.fst
  /-- It stops after as many symbols as are matched. -/
  position : ∀ a k, best = some (a, k) → ∃ sk, advance k s = some sk ∧
    s'.position = sk.position ∧ s'.remaining = s.remaining.drop k
  ok : s'.Ok

/-- The start of a token. -/
def beginToken (s : Scanner) : Scanner := { s with startPos := s.position.curPos }

theorem Ok.beginToken {s : Scanner} (h : s.Ok) : s.beginToken.Ok :=
  ⟨h.bufStartPos_le.trans h.startPos_le, le_rfl, h.curPos_le, h.nextPos_le⟩

/-- Running a machine never fails, and finds the longest match of its states. -/
theorem runMachine_spec {m : FastMachine A} (hend : ∀ t, (m.state t).lookup none = none) (t : Nat)
    {s : Scanner} (h : s.Ok) : ∃ r s', s.runMachine m t = some (r, s') ∧
      Matched s.beginToken (munch m.step (fun t => (m.state t).action) t s.remaining) r s' := by
  have hfuel : s.beginToken.remaining.length < 3 * s.unread + 6 :=
    Nat.lt_succ_of_le s.beginToken.length_remaining_le
  obtain ⟨sEnd, saved, hrun, hok, hf, hsaves⟩ :=
    @runLoop_spec _ m hend _ t none _ h.beginToken hfuel
  rw [Option.or_none] at hrun
  refine ⟨_, _, hrun, ?_⟩
  rcases hsaves with ⟨hbest, rfl⟩ | ⟨a, k, sk, hbest, rfl, hadv, hokk, hfk, hk⟩
  · have hbest : munch m.step (fun t => (m.state t).action) t s.remaining = none := hbest
    rw [hbest]
    exact ⟨rfl, fun a k hk => absurd hk (Option.some_ne_none _).symm, hok⟩
  · have hbest : munch m.step (fun t => (m.state t).action) t s.remaining = some (a, k) := hbest
    obtain ⟨hok', hrem⟩ := hfk.restore hokk
    rw [hbest]
    refine ⟨rfl, fun a' k' heq => ?_, hok'⟩
    obtain ⟨rfl, rfl⟩ := Prod.ext_iff.1 (Option.some.inj heq)
    exact ⟨sk, hadv, rfl, hrem.trans hk⟩

end Scanner

/-! ## Lexicons -/

/-- With the machine of a lexicon, a scanner finds the longest prefix of the symbols
    to come that the NFA accepts, wherever it is. -/
def Scans (specifications : List (Specification A)) : Prop :=
  ∃ m, nfaToDfa (Lexicon.nfa specifications) = .ok m ∧
    ∀ name q, (Lexicon.nfa specifications).initialStates.get? name = some q →
      ∃ t, m.initialStates.get? name = some t ∧ ∀ s : Scanner, s.Ok →
        ∃ r s' best, s.runMachine m t = some (r, s') ∧
          LongestMatch ((Lexicon.nfa specifications).Accepts q) s.remaining best ∧
          Scanner.Matched s.beginToken best r s'

theorem Simulates.lookup_end {nfa : Machine A} {m : FastMachine A} {sets : List StateSet}
    (h : Simulates nfa m sets) (t : Nat) :
    (m.state t).lookup none = none := by
  rcases Nat.lt_or_ge t sets.length with hlt | hge
  · exact (h.converted t _ (List.getElem?_eq_getElem hlt)).lookup_end
  · rw [FastMachine.state_of_length_le (h.length ▸ hge)]
    rfl

theorem scans_of_isOk (specifications : List (Specification A))
    (h : ∃ m, nfaToDfa (Lexicon.nfa specifications) = .ok m) : Scans specifications := by
  obtain ⟨m, hok⟩ := h
  obtain ⟨sets, hs⟩ := nfaToDfa_spec (Lexicon.nfa_mapOk specifications) hok
  refine ⟨m, hok, fun name q hq => ?_⟩
  have hmem := OrderedDict.get?_eq_some_iff.1 hq
  rcases hs.seeded name with ⟨q', t, S, hm, ht, hS, heq⟩ | ⟨-, hnot⟩
  · obtain rfl := OrderedDict.eq_of_mem_entries hm hmem
    refine ⟨t, ht, fun s hs' => ?_⟩
    obtain ⟨r, s', hrun, hmatched⟩ := Scanner.runMachine_spec hs.lookup_end t hs'
    have hacc := hs.accepts (Lexicon.nfa_actionsOk specifications) hS heq
    exact ⟨r, s', _, hrun, (munch_spec t s.remaining).congr (fun w => (hacc w).1)
      (fun w => (hacc w).2), hmatched⟩
  · exact absurd hmem (hnot q)

/-- `nfaToDfa` terminates for every NFA, and with the machine of a lexicon scanners
    find the longest matches, if and only if no state that is reachable has a range
    with a bound behind the characters. -/
theorem lexicon_scans_iff (specifications : List (Specification A)) :
    (∀ nfa : Machine A, nfaToDfa nfa ≠ .error .fuel) ∧
      (Scans specifications ↔ ∀ s, Reachable (Lexicon.nfa specifications) s →
        ¬StateMap.Wide ((Lexicon.nfa specifications).node s).transitions) := by
  refine ⟨nfaToDfa_ne_fuel, ?_⟩
  rw [← nfaToDfa_isOk_iff (Lexicon.nfa_mapOk specifications)]
  exact ⟨fun ⟨m, hok, _⟩ => ⟨m, hok⟩, scans_of_isOk specifications⟩

/-- An `Any` of the last character, twice. -/
theorem Lexicon.any_repeated_last : ¬Scans [Specification.token
    (⟨.any ⟨[0x10FFFF, 0x10FFFF], by decide⟩, ()⟩ : Token Unit)] := by
  rintro ⟨m, hok, -⟩
  have herror : (nfaToDfa (Lexicon.nfa [Specification.token
    (⟨.any ⟨[0x10FFFF, 0x10FFFF], by decide⟩, ()⟩ : Token Unit)])).toBool = false := by decide
  rw [hok] at herror
  exact Bool.noConfusion herror

end AHPy.Plex
