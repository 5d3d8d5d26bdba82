import AHPy.Plex.SubsetConstruction

/-!
# The conversion of an NFA

The loop of `nfaToDfa` over the new states.

* `Represents`: the states of the new machine stand for a list of distinct sets;
* `convertState_spec`: what one round of the loop makes of a state;
* `nfaToDfa_ne_fuel`: the loop terminates, for every NFA.
-/

namespace AHPy.Plex

variable {A : Type}

/-! ## The transitions of a new state -/

/-- The keys that the transitions for an event are for. -/
def Writes : Event → Key → Prop
  | .range a b, k =>
    if a = -maxint then k = .else
    else b ≠ maxint ∧ ∃ c : CodePoint, k = .char c ∧ a ≤ c.val ∧ (c.val : Int) < b
  | .special sym, k => k = .special sym

theorem chr_eq_ok {code : Int} (h : 0 ≤ code ∧ code < 0x110000) :
    ∃ c : CodePoint, chr code = .ok c ∧ (c.val : Int) = code :=
  ⟨⟨code.toNat, by omega⟩, dif_pos h, by simp [h.1]⟩

theorem chr_eq_error {code : Int} (h : ¬(0 ≤ code ∧ code < 0x110000)) :
    chr code = .error (.chr code) := dif_neg h

namespace FastState

theorem mem_codeRange {code0 code1 code : Int} :
    code ∈ codeRange code0 code1 ↔ code0 ≤ code ∧ code < code1 := by
  rw [codeRange, List.mem_map]
  constructor
  · rintro ⟨i, hi, rfl⟩
    rw [List.mem_range] at hi
    omega
  · intro h
    exact ⟨(code - code0).toNat, List.mem_range.2 (by omega), by omega⟩

theorem setChars_eq_ok {newState : Nat} {codes : List Int}
    (h : ∀ code ∈ codes, 0 ≤ code ∧ code < 0x110000) (s : FastState A) :
    ∃ s', setChars newState codes s = .ok s' := by
  induction codes generalizing s with
  | nil => exact ⟨s, rfl⟩
  | cons code codes ih =>
    obtain ⟨c, hc, -⟩ := chr_eq_ok (h code List.mem_cons_self)
    rw [setChars, hc]
    exact ih (fun code hcode => h code (List.mem_cons_of_mem _ hcode)) _

theorem of_setChars_eq_ok {newState : Nat} {codes : List Int} {s s' : FastState A}
    (h : setChars newState codes s = .ok s') :
    (∀ code ∈ codes, 0 ≤ code ∧ code < 0x110000) ∧ s'.action = s.action ∧
      ∀ k, s'.transitions.get? k =
        if ∃ c : CodePoint, k = .char c ∧ (c.val : Int) ∈ codes then some (some newState)
        else s.transitions.get? k := by
  induction codes generalizing s with
  | nil =>
    obtain rfl : s = s' := Except.ok.inj h
    exact ⟨by simp, rfl, fun k => by simp⟩
  | cons code codes ih =>
    rw [setChars] at h
    by_cases hcode : 0 ≤ code ∧ code < 0x110000
    · obtain ⟨c, hc, rfl⟩ := chr_eq_ok hcode
      rw [hc] at h
      obtain ⟨hcodes, haction, hget⟩ := ih h
      refine ⟨List.forall_mem_cons.2 ⟨hcode, hcodes⟩, haction, fun k => ?_⟩
      rw [hget k]
      by_cases hk : ∃ c : CodePoint, k = .char c ∧ (c.val : Int) ∈ codes
      · obtain ⟨d, hd, hm⟩ := hk
        rw [if_pos ⟨d, hd, hm⟩, if_pos ⟨d, hd, List.mem_cons_of_mem _ hm⟩]
      · rw [if_neg hk]
        by_cases hkc : k = .char c
        · rw [if_pos ⟨c, hkc, List.mem_cons_self⟩, hkc]
          exact OrderedDict.get?_set_self _ _ _
        · rw [if_neg]
          · exact OrderedDict.get?_set_of_ne _ hkc _
          · rintro ⟨d, hd, hm⟩
            rcases List.mem_cons.1 hm with heq | hm
            · exact hkc (hd.trans (congrArg Key.char (Fin.ext (by omega))))
            · exact hk ⟨d, hd, hm⟩
    · rw [chr_eq_error hcode] at h
      exact absurd (show Except.error _ = Except.ok s' from h) (by simp)

theorem addTransitions_eq_ok {event : Event} (h : ∀ a b, event = .range a b → StateMap.RangeOk a b)
    (s : FastState A) (newState : Nat) : ∃ s', s.addTransitions event newState = .ok s' := by
  rcases event with ⟨a, b⟩ | sym
  · rw [addTransitions]
    by_cases ha : a = -maxint
    · rw [if_pos ha]
      exact ⟨_, rfl⟩
    rw [if_neg ha]
    by_cases hb : b = maxint
    · rw [if_neg (not_not.2 hb)]
      exact ⟨_, rfl⟩
    rw [if_pos hb]
    refine setChars_eq_ok (fun code hcode => ?_) s
    rw [mem_codeRange] at hcode
    have := ((h a b rfl).resolve_left ha).resolve_left hb
    omega
  · exact ⟨_, rfl⟩

theorem of_addTransitions_eq_ok {event : Event} {s s' : FastState A} {newState : Nat}
    (h : s.addTransitions event newState = .ok s') :
    (∀ a b, event = .range a b → a < b → StateMap.RangeOk a b) ∧ s'.action = s.action ∧
      ∀ k, (Writes event k → s'.transitions.get? k = some (some newState)) ∧
        (¬Writes event k → s'.transitions.get? k = s.transitions.get? k) := by
  -- One key is set.
  have set : ∀ k₀, s.set k₀ newState = s' → s'.action = s.action ∧
      ∀ k, (k = k₀ → s'.transitions.get? k = some (some newState)) ∧
        (¬k = k₀ → s'.transitions.get? k = s.transitions.get? k) := by
    rintro k₀ rfl
    refine ⟨rfl, fun k => ⟨?_, fun hk => OrderedDict.get?_set_of_ne _ hk _⟩⟩
    rintro rfl
    exact OrderedDict.get?_set_self _ _ _
  rcases event with ⟨a, b⟩ | sym
  · rw [addTransitions] at h
    by_cases ha : a = -maxint
    · rw [if_pos ha] at h
      refine ⟨fun a' b' heq _ => ?_, ?_⟩
      · obtain ⟨rfl, rfl⟩ := Event.range.inj heq
        exact .inl ha
      · simpa only [Writes, if_pos ha] using set _ (Except.ok.inj h)
    rw [if_neg ha] at h
    by_cases hb : b = maxint
    · rw [if_neg (not_not.2 hb)] at h
      obtain rfl := Except.ok.inj h
      refine ⟨fun a' b' heq _ => ?_, rfl, fun k => ?_⟩
      · obtain ⟨rfl, rfl⟩ := Event.range.inj heq
        exact .inr (.inl hb)
      · simp [Writes, ha, hb]
    rw [if_pos hb] at h
    obtain ⟨hcodes, haction, hget⟩ := of_setChars_eq_ok h
    refine ⟨fun a' b' heq hlt => ?_, haction, fun k => ?_⟩
    · obtain ⟨rfl, rfl⟩ := Event.range.inj heq
      have h₀ := hcodes a (mem_codeRange.2 ⟨le_rfl, hlt⟩)
      have h₁ := hcodes (b - 1) (mem_codeRange.2 (by omega))
      exact .inr (.inr (by omega))
    · have hiff : (∃ c : CodePoint, k = .char c ∧ (c.val : Int) ∈ codeRange a b) ↔
          Writes (.range a b) k := by
        simp only [Writes, if_neg ha, mem_codeRange, ne_eq, hb, not_false_eq_true, true_and]
      rw [hget k]
      exact ⟨fun hw => if_pos (hiff.2 hw), fun hw => if_neg fun hex => hw (hiff.1 hex)⟩
  · exact ⟨fun a b heq => absurd heq (by simp), set _ (Except.ok.inj h)⟩

end FastState

/-! ## The states of the new machine -/

theorem FastMachine.state_of_length_le {m : FastMachine A} {i : Nat} (h : m.states.length ≤ i) :
    m.state i = .new none := by
  rw [state, List.getElem?_eq_none h, Option.getD_none]

namespace StateMap

open TransitionMap

variable {nfa : Machine A} {P : StateSet → Prop}

/-- The states of the new machine stand for the sets of a list, in its order. -/
structure Represents (nfa : Machine A) (P : StateSet → Prop) (map : StateMap A)
    (sets : List StateSet) : Prop where
  nodup : sets.Nodup
  length : map.newMachine.states.length = sets.length
  oldToNew : ∀ S q, map.oldToNewDict.get? S = some q ↔ sets[q]? = some S
  newToOld : ∀ q, map.newToOldDict.get? q = sets[q]?
  action : ∀ q S, sets[q]? = some S →
    (map.newMachine.state q).action = nfa.highestPriorityAction S
  forall_mem : ∀ S ∈ sets, P S

/-- What may change while a state `i` is made: new states are added, and the
    transitions of `i`. -/
structure Extends (i : Nat) (map : StateMap A) (sets : List StateSet) (map' : StateMap A)
    (sets' : List StateSet) : Prop where
  grows : sets <+: sets'
  frame : ∀ j < sets.length, j ≠ i → map'.newMachine.state j = map.newMachine.state j
  fresh : ∀ j, sets.length ≤ j → j ≠ i →
    (map'.newMachine.state j).transitions = (FastState.new none : FastState A).transitions
  initialStates : map'.newMachine.initialStates = map.newMachine.initialStates

theorem Represents.extends_self {map : StateMap A} {sets : List StateSet}
    (h : Represents nfa P map sets) (i : Nat) : Extends i map sets map sets where
  grows := List.prefix_rfl
  frame := fun _ _ _ => rfl
  fresh := fun j hj _ => by rw [FastMachine.state_of_length_le (h.length.trans_le hj)]
  initialStates := rfl

theorem Extends.trans {i : Nat} {map map' map'' : StateMap A} {sets sets' sets'' : List StateSet}
    (h : Extends i map sets map' sets') (h' : Extends i map' sets' map'' sets'') :
    Extends i map sets map'' sets'' where
  grows := h.grows.trans h'.grows
  frame := fun j hj hne =>
    (h'.frame j (hj.trans_le h.grows.length_le) hne).trans (h.frame j hj hne)
  fresh := by
    intro j hj hne
    rcases Nat.lt_or_ge j sets'.length with hlt | hge
    · rw [h'.frame j hlt hne]
      exact h.fresh j hj hne
    · exact h'.fresh j hge hne
  initialStates := h'.initialStates.trans h.initialStates

theorem represents_new (nfa : Machine A) (P : StateSet → Prop) : Represents nfa P .new [] where
  nodup := List.nodup_nil
  length := rfl
  oldToNew := by simp [StateMap.new]
  newToOld := by simp [StateMap.new]
  action := by simp
  forall_mem := by simp

/-- A set has a state, which is made if it has none. -/
theorem oldToNew_spec {map : StateMap A} {sets : List StateSet} (h : Represents nfa P map sets)
    {S : StateSet} (hS : P S) :
    ∃ sets', Represents nfa P (map.oldToNew nfa S).2 sets' ∧
      (∀ i, Extends i map sets (map.oldToNew nfa S).2 sets') ∧
      sets'[(map.oldToNew nfa S).1]? = some S ∧
      ∀ i < sets.length, (map.oldToNew nfa S).2.newMachine.state i = map.newMachine.state i := by
  rcases hget : map.oldToNewDict.get? S with _ | q
  · have hnot : S ∉ sets := by
      intro hm
      obtain ⟨q, hq, rfl⟩ := List.mem_iff_getElem.1 hm
      rw [(h.oldToNew _ q).2 (List.getElem?_eq_getElem hq)] at hget
      exact Option.some_ne_none _ hget
    -- The states before the new one stay.
    have hold : ∀ j < sets.length, (map.newMachine.newState (nfa.highestPriorityAction S)).2.state j =
        map.newMachine.state j := by
      intro j hj
      rw [FastMachine.state, FastMachine.newState, List.getElem?_append_left (h.length ▸ hj),
        FastMachine.state]
    have hnew : (map.newMachine.newState (nfa.highestPriorityAction S)).2.state sets.length =
        .new (nfa.highestPriorityAction S) := by
      rw [FastMachine.state, FastMachine.newState, ← h.length]
      simp
    have hget' : ∀ q, (sets ++ [S])[q]? = if q = sets.length then some S else sets[q]? := by
      intro q
      rcases Nat.lt_trichotomy q sets.length with hlt | rfl | hlt
      · rw [List.getElem?_append_left hlt, if_neg hlt.ne]
      · simp
      · rw [if_neg hlt.ne', List.getElem?_eq_none hlt.le, List.getElem?_eq_none (by simpa using hlt)]
    have hmk : map.oldToNew nfa S = (sets.length,
        ⟨(map.newMachine.newState (nfa.highestPriorityAction S)).2,
          map.oldToNewDict.set S sets.length, map.newToOldDict.set sets.length S⟩) := by
      rw [StateMap.oldToNew, hget, ← h.length]
      rfl
    rw [hmk]
    refine ⟨sets ++ [S], ⟨?_, ?_, fun S' q => ?_, fun q => ?_, fun q S' hq => ?_, ?_⟩,
      fun i => ⟨List.prefix_append _ _, fun j hj _ => hold j hj, fun j hj hne => ?_, rfl⟩, ?_, hold⟩
    · exact List.nodup_append.2 ⟨h.nodup, List.nodup_singleton S, by
        intro S' hS' S'' hS'' heq
        exact hnot (List.mem_singleton.1 hS'' ▸ heq ▸ hS')⟩
    · simp [FastMachine.newState, h.length]
    · rw [hget', OrderedDict.get?_set]
      by_cases hS' : S' = S
      · subst hS'
        rw [if_pos rfl]
        by_cases hq : q = sets.length
        · simp [hq]
        · rw [if_neg hq]
          constructor
          · exact fun heq => absurd (Option.some.inj heq).symm hq
          · exact fun heq => absurd (List.mem_of_getElem? heq) hnot
      · rw [if_neg hS', h.oldToNew]
        by_cases hq : q = sets.length
        · rw [if_pos hq, hq, List.getElem?_eq_none le_rfl]
          simp [Ne.symm hS']
        · rw [if_neg hq]
    · rw [hget', OrderedDict.get?_set, h.newToOld]
    · rw [hget'] at hq
      by_cases hlt : q = sets.length
      · rw [if_pos hlt] at hq
        obtain rfl := Option.some.inj hq
        rw [hlt, hnew]
        rfl
      · rw [if_neg hlt] at hq
        obtain ⟨hlt, -⟩ := List.getElem?_eq_some_iff.1 hq
        rw [hold q hlt]
        exact h.action q S' hq
    · intro S' hS'
      rcases List.mem_append.1 hS' with hS' | hS'
      · exact h.forall_mem S' hS'
      · exact List.mem_singleton.1 hS' ▸ hS
    · rcases hj.lt_or_eq with hlt | rfl
      · rw [FastMachine.state_of_length_le]
        simpa [FastMachine.newState, h.length] using hlt
      · rw [hnew]
        rfl
    · rw [hget', if_pos rfl]
  · have hmk : map.oldToNew nfa S = (q, map) := by rw [StateMap.oldToNew, hget]
    rw [hmk]
    exact ⟨sets, h, h.extends_self, (h.oldToNew S q).1 hget, fun _ _ => rfl⟩

theorem addTransition_spec {map map' : StateMap A} {sets : List StateSet}
    (h : Represents nfa P map sets) {i : Nat} (hi : i < sets.length) {e : Event × StateSet}
    (he : P e.2) (hok : addTransition nfa i map e = .ok map') :
    ∃ sets' q, Represents nfa P map' sets' ∧ Extends i map sets map' sets' ∧
      sets'[q]? = some e.2 ∧ (∀ a b, e.1 = .range a b → a < b → RangeOk a b) ∧
      ∀ k, (Writes e.1 k → (map'.newMachine.state i).transitions.get? k = some (some q)) ∧
        (¬Writes e.1 k → (map'.newMachine.state i).transitions.get? k =
          (map.newMachine.state i).transitions.get? k) := by
  obtain ⟨sets', hr, hxs, hq, hstate⟩ := oldToNew_spec h he
  have hx := hxs i
  rw [addTransition, FastMachine.addTransitions] at hok
  generalize map.oldToNew nfa e.2 = r at hr hx hq hstate hok
  rcases hs : (r.2.newMachine.state i).addTransitions e.1 r.1 with err | s
  · rw [hs] at hok
    exact absurd (show Except.error err = Except.ok map' from hok) (by simp)
  rw [hs] at hok
  obtain rfl : ({ r.2 with newMachine :=
      { r.2.newMachine with states := r.2.newMachine.states.set i s } } : StateMap A) = map' :=
    Except.ok.inj hok
  obtain ⟨hrange, haction, hwrites⟩ := FastState.of_addTransitions_eq_ok hs
  have hlt : i < r.2.newMachine.states.length := by
    rw [hr.length]
    exact hi.trans_le hx.grows.length_le
  have hself : ({ r.2.newMachine with states := r.2.newMachine.states.set i s } :
      FastMachine A).state i = s := by
    simp [FastMachine.state, hlt]
  have hother : ∀ j ≠ i, ({ r.2.newMachine with states := r.2.newMachine.states.set i s } :
      FastMachine A).state j = r.2.newMachine.state j := by
    intro j hj
    simp [FastMachine.state, Ne.symm hj]
  refine ⟨sets', r.1, ⟨hr.nodup, ?_, hr.oldToNew, hr.newToOld, fun q S hqS => ?_, hr.forall_mem⟩,
    ⟨hx.grows, fun j hj hne => ?_, fun j hj hne => ?_, hx.initialStates⟩, hq, hrange, fun k => ?_⟩
  · rw [List.length_set, hr.length]
  · by_cases hqi : q = i
    · rw [hqi, hself, haction]
      exact hr.action i S (hqi ▸ hqS)
    · rw [hother q hqi]
      exact hr.action q S hqS
  · rw [hother j hne]
    exact hx.frame j hj hne
  · rw [hother j hne]
    exact hx.fresh j hj hne
  · rw [hself, ← hstate i hi]
    exact hwrites k

theorem addTransition_eq_ok {i : Nat} {e : Event × StateSet}
    (h : ∀ a b, e.1 = .range a b → RangeOk a b) (map : StateMap A) :
    ∃ map', addTransition nfa i map e = .ok map' := by
  obtain ⟨s, hs⟩ := FastState.addTransitions_eq_ok h
    ((map.oldToNew nfa e.2).2.newMachine.state i) (map.oldToNew nfa e.2).1
  rw [addTransition, FastMachine.addTransitions, hs]
  exact ⟨_, rfl⟩

/-! ## One round of the loop -/

/-- The set that the transitions for a key lead to. -/
def setOf (t : TransitionMap) : Key → StateSet
  | .special sym => t.getSpecial sym
  | .else => statesOf t.map (-maxint)
  | .char c => statesOf t.map c.val

theorem eq_setOf {t : TransitionMap} (h : Sorted t.map) {e : Event × StateSet}
    (he : e ∈ t.iteritems) {k : Key} (hk : Writes e.1 k) : e.2 = setOf t k := by
  obtain ⟨event, T⟩ := e
  rcases event with ⟨a, b⟩ | sym
  · have hi := h.interval (mem_iteritems_range.1 he).1
    rw [Writes] at hk
    by_cases ha : a = -maxint
    · rw [if_pos ha] at hk
      rw [hk, setOf]
      exact (hi.statesOf _ ha.le (ha ▸ hi.lt)).symm
    · rw [if_neg ha] at hk
      obtain ⟨-, c, rfl, hle, hlt⟩ := hk
      exact (hi.statesOf _ hle hlt).symm
  · obtain rfl : k = .special sym := hk
    exact (mem_iteritems_special.1 he).1.symm

section NotWritten

variable {t : TransitionMap}

theorem setOf_special_eq_empty {sym : Special}
    (hn : ∀ e ∈ t.iteritems, ¬Writes e.1 (.special sym)) : setOf t (.special sym) = ∅ := by
  by_contra hne
  exact hn (.special sym, t.getSpecial sym) (mem_iteritems_special.2 ⟨rfl, hne⟩) rfl

theorem setOf_else_eq_empty (h : Sorted t.map) (hn : ∀ e ∈ t.iteritems, ¬Writes e.1 .else) :
    setOf t .else = ∅ := by
  by_contra hne
  obtain ⟨a, b, hm, ha, hb⟩ := h.exists_interval le_rfl (by decide : -maxint < maxint)
  have hr := (inRange_of_mem_codes h (.inl (h.interval hm).start_mem)).1
  refine hn _ (mem_iteritems_range.2 ⟨hm, .inl hne⟩) ?_
  rw [Writes, if_pos (le_antisymm ha hr)]

/-- A character without a transition of its own has those of `'else'`. -/
theorem setOf_char_eq_else (h : Sorted t.map)
    (hb : statesOf t.map (-maxint) = statesOf t.map (maxint - 1)) {c : CodePoint}
    (hn : ∀ e ∈ t.iteritems, ¬Writes e.1 (.char c)) : setOf t (.char c) = setOf t .else := by
  have hlo := neg_maxint_le_codePoint c
  have hhi := codePoint_lt_maxint c
  obtain ⟨a, b, hm, hac, hcb⟩ := h.exists_interval hlo hhi
  have hi := h.interval hm
  simp only [setOf]
  by_cases ha : a = -maxint
  · exact (hi.statesOf (-maxint) ha.le (ha ▸ hi.lt)).symm
  by_cases hmax : b = maxint
  · rw [hb]
    exact (hi.statesOf (maxint - 1) (by omega) (by omega)).symm
  -- A range in between is iterated over, unless it and the first have no targets.
  have hskip : ¬(statesOf t.map c.val ≠ ∅ ∨ t.elseSet) := by
    intro hitem
    refine hn _ (mem_iteritems_range.2 ⟨hm, hitem⟩) ?_
    rw [Writes, if_neg ha]
    exact ⟨hmax, c, rfl, hac, hcb⟩
  rw [not_or, not_not, elseSet_eq_true_iff h, not_not] at hskip
  rw [hskip.1, hskip.2]

end NotWritten

/-- What a state of the new machine is like when its round is over. -/
structure Converted (nfa : Machine A) (sets : List StateSet) (m : FastMachine A) (i : Nat)
    (S : StateSet) : Prop where
  lookup_some : ∀ a q, (m.state i).lookup (some a) = some q →
    ∃ S', sets[q]? = some S' ∧ (S' : Set Nat) = nfa.automaton.stepSet ↑S a
  lookup_none : ∀ a, (m.state i).lookup (some a) = none → nfa.automaton.stepSet ↑S a = ∅
  lookup_end : (m.state i).lookup none = none
  not_wide : ∀ s ∈ S, ¬Wide (nfa.node s).transitions
  targets : ∀ s ∈ S, ∀ e ∈ (nfa.node s).transitions.iteritems, e.1 ≠ .special .epsilon →
    e.2 ≠ ∅ → ∃ S' ∈ sets, e.2 ⊆ S'

/-- The keys of a state after the transitions of a map. -/
structure Written (t : TransitionMap) (sets : List StateSet) (done : List (Event × StateSet))
    (s : FastState A) : Prop where
  pos : ∀ e ∈ done, ∀ k, Writes e.1 k →
    ∃ q, s.transitions.get? k = some (some q) ∧ sets[q]? = some (setOf t k)
  neg : ∀ k, (∀ e ∈ done, ¬Writes e.1 k) →
    s.transitions.get? k = (FastState.new none : FastState A).transitions.get? k
  mem : ∀ e ∈ done, e.2 ∈ sets
  rangeOk : ∀ e ∈ done, ∀ a b, e.1 = .range a b → a < b → RangeOk a b

theorem getElem?_of_prefix {sets sets' : List StateSet} (h : sets <+: sets') {q : Nat}
    {S : StateSet} (hq : sets[q]? = some S) : sets'[q]? = some S := by
  obtain ⟨rest, rfl⟩ := h
  obtain ⟨hlt, -⟩ := List.getElem?_eq_some_iff.1 hq
  rw [List.getElem?_append_left hlt, hq]

theorem Written.step {t : TransitionMap} {sets sets' : List StateSet}
    {done : List (Event × StateSet)} {s s' : FastState A} (h : Written t sets done s)
    (hsub : sets <+: sets') (ht : Sorted t.map) {e : Event × StateSet} (he : e ∈ t.iteritems)
    {q : Nat} (hq : sets'[q]? = some e.2) (hrange : ∀ a b, e.1 = .range a b → a < b → RangeOk a b)
    (hwrites : ∀ k, (Writes e.1 k → s'.transitions.get? k = some (some q)) ∧
      (¬Writes e.1 k → s'.transitions.get? k = s.transitions.get? k)) :
    Written t sets' (done ++ [e]) s' := by
  have hmem : ∀ {e'}, e' ∈ done ++ [e] → e' ∈ done ∨ e' = e := by
    intro e' he'
    simpa using he'
  refine ⟨fun e' he' k hk => ?_, fun k hk => ?_, fun e' he' => ?_, fun e' he' => ?_⟩
  · by_cases hke : Writes e.1 k
    · exact ⟨q, (hwrites k).1 hke, by rw [hq, eq_setOf ht he hke]⟩
    · rcases hmem he' with he' | rfl
      · obtain ⟨q', hg, hs⟩ := h.pos e' he' k hk
        exact ⟨q', ((hwrites k).2 hke).trans hg, getElem?_of_prefix hsub hs⟩
      · exact absurd hk hke
  · rw [(hwrites k).2 (hk e (by simp))]
    exact h.neg k fun e' he' => hk e' (List.mem_append_left _ he')
  · rcases hmem he' with he' | rfl
    · exact hsub.subset (h.mem e' he')
    · exact List.mem_of_getElem? hq
  · rcases hmem he' with he' | rfl
    · exact h.rangeOk e' he'
    · exact hrange

/-- The keys of the template. -/
theorem get?_template (k : Key) : (FastState.new none : FastState A).transitions.get? k =
    if ∃ c, k = .char c then none else some none := by
  rcases k with sym | _ | c
  · rw [if_neg (by simp)]
    rcases sym with _ | _ | _ | _ <;> rfl
  · rw [if_neg (by simp)]
    rfl
  · rw [if_pos ⟨c, rfl⟩]
    simp [FastState.new, OrderedDict.get?_set]

/-- The states that a written state goes to are those of the map. -/
theorem Written.get?_special {t : TransitionMap} {sets : List StateSet} {s : FastState A}
    (h : Written t sets t.iteritems s) (sym : Special) :
    (∃ q, s.transitions.get? (.special sym) = some (some q) ∧
        sets[q]? = some (t.getSpecial sym)) ∨
      s.transitions.get? (.special sym) = some none ∧ t.getSpecial sym = ∅ := by
  by_cases hk : ∃ e ∈ t.iteritems, Writes e.1 (.special sym)
  · obtain ⟨e, he, hk⟩ := hk
    exact .inl (h.pos e he _ hk)
  · have hn : ∀ e ∈ t.iteritems, ¬Writes e.1 (.special sym) := fun e he hw => hk ⟨e, he, hw⟩
    rw [h.neg _ hn, get?_template, if_neg (by simp)]
    exact .inr ⟨rfl, setOf_special_eq_empty hn⟩

theorem Written.lookup {t : TransitionMap} {sets : List StateSet} {s : FastState A}
    (h : Written t sets t.iteritems s) (ht : Sorted t.map)
    (hb : statesOf t.map (-maxint) = statesOf t.map (maxint - 1)) (a : Symbol) :
    (∃ q, s.lookup (some a) = some q ∧ sets[q]? = some (targetsOf t a)) ∨
      s.lookup (some a) = none ∧ targetsOf t a = ∅ := by
  have special : ∀ sym, keyOf (some a) = .special sym →
      (∃ q, s.lookup (some a) = some q ∧ sets[q]? = some (t.getSpecial sym)) ∨
        s.lookup (some a) = none ∧ t.getSpecial sym = ∅ := by
    intro sym hsym
    rw [FastState.lookup, hsym]
    rcases h.get?_special sym with ⟨q, hg, hq⟩ | ⟨hg, hq⟩
    · exact .inl ⟨q, by rw [hg], hq⟩
    · exact .inr ⟨by rw [hg], hq⟩
  rcases a with _ | _ | _ | c
  · exact special .bol rfl
  · exact special .eol rfl
  · exact special .eof rfl
  rw [FastState.lookup, keyOf]
  by_cases hk : ∃ e ∈ t.iteritems, Writes e.1 (.char c)
  · obtain ⟨e, he, hk⟩ := hk
    obtain ⟨q, hg, hq⟩ := h.pos e he _ hk
    exact .inl ⟨q, by rw [hg], hq⟩
  have hn : ∀ e ∈ t.iteritems, ¬Writes e.1 (.char c) := fun e he hw => hk ⟨e, he, hw⟩
  have heq : targetsOf t (.char c) = setOf t .else := setOf_char_eq_else ht hb hn
  rw [h.neg _ hn, get?_template, if_pos ⟨c, rfl⟩, heq]
  by_cases hk : ∃ e ∈ t.iteritems, Writes e.1 .else
  · obtain ⟨e, he, hk⟩ := hk
    obtain ⟨q, hg, hq⟩ := h.pos e he _ hk
    exact .inl ⟨q, by rw [hg]; rfl, hq⟩
  · have hn : ∀ e ∈ t.iteritems, ¬Writes e.1 .else := fun e he hw => hk ⟨e, he, hw⟩
    have helse : s.transitions.get? .else = some none := by
      rw [h.neg _ hn, get?_template, if_neg (by simp)]
    rw [helse]
    exact .inr ⟨rfl, setOf_else_eq_empty ht hn⟩

theorem Written.converted {t : TransitionMap} {sets : List StateSet} {m : FastMachine A} {i : Nat}
    {S : StateSet} (h : Written t sets t.iteritems (m.state i))
    (ht : Collected nfa (items nfa S) t) (hnodes : ∀ s ∈ S, MapOk (nfa.node s).transitions) :
    Converted nfa sets m i S := by
  have hb := ht.balanced hnodes
  have hstep := ht.targetsOf_eq fun s hs => (hnodes s hs).sorted
  have hrange : ∀ a b T, (Event.range a b, T) ∈ t.iteritems → RangeOk a b := fun a b T hm =>
    h.rangeOk _ hm a b rfl (ht.sorted.interval (mem_iteritems_range.1 hm).1).lt
  refine ⟨fun a q hq => ?_, fun a hq => ?_, ?_, fun s hs => ht.not_wide hnodes hrange hs,
    fun s hs e he hsym hne => ?_⟩
  · rcases h.lookup ht.sorted hb a with ⟨q', hq', hs⟩ | ⟨hq', -⟩
    · obtain rfl : q' = q := Option.some.inj (hq'.symm.trans hq)
      exact ⟨_, hs, hstep a⟩
    · exact absurd (hq.symm.trans hq') (Option.some_ne_none q)
  · rcases h.lookup ht.sorted hb a with ⟨q', hq', -⟩ | ⟨-, hs⟩
    · exact absurd (hq'.symm.trans hq) (Option.some_ne_none q')
    · rw [← hstep a, hs, Finset.coe_empty]
  · -- There are no epsilon moves in the map of a set.
    have hn : ∀ e ∈ t.iteritems, ¬Writes e.1 (.special .epsilon) := by
      rintro ⟨event, T⟩ he hw
      rcases event with ⟨a, b⟩ | sym
      · rw [Writes] at hw
        split at hw <;> simp at hw
      · obtain rfl := Key.special.inj hw
        obtain ⟨hT, hne⟩ := mem_iteritems_special.1 he
        obtain ⟨x, hx⟩ := Finset.nonempty_iff_ne_empty.2 (hT.symm ▸ hne)
        exact ((ht.mem_special .epsilon x).1 hx).1 rfl
    rw [FastState.lookup, keyOf, h.neg _ hn, get?_template, if_neg (by simp)]
  · obtain ⟨event, T⟩ := e
    obtain ⟨x, hx⟩ := Finset.nonempty_iff_ne_empty.2 hne
    rcases event with ⟨a, b⟩ | sym
    · have hi := (hnodes s hs).sorted.interval (mem_iteritems_range.1 he).1
      have hr := inRange_of_mem_codes (hnodes s hs).sorted (.inl hi.start_mem)
      have hlt := (hnodes s hs).sorted.lt a hi.start_mem
      obtain ⟨a', b', hm, -, -⟩ := ht.sorted.exists_interval hr.1 hlt
      have hsub : ∀ x ∈ T, x ∈ statesOf t.map a := fun x hx => (ht.mem_statesOf a hr.1 hlt x).2
        ⟨a, b, T, mem_items.2 ⟨s, hs, he⟩, le_rfl, hi.lt, nfa.automaton.subset_εClosure _ hx⟩
      exact ⟨_, h.mem _ (mem_iteritems_range.2
        ⟨hm, .inl (Finset.ne_empty_of_mem (hsub x hx))⟩), hsub⟩
    · have hsub : ∀ x ∈ T, x ∈ t.getSpecial sym := fun x hx => (ht.mem_special sym x).2
        ⟨fun heq => hsym (congrArg _ heq), T, mem_items.2 ⟨s, hs, he⟩,
          nfa.automaton.subset_εClosure _ hx⟩
      exact ⟨_, h.mem _ (mem_iteritems_special.2
        ⟨rfl, Finset.ne_empty_of_mem (hsub x hx)⟩), hsub⟩

/-- A round of the loop that succeeds converts its state. -/
theorem convertState_spec {map map' : StateMap A} {sets : List StateSet}
    (h : Represents nfa P map sets) {i : Nat} {S : StateSet} (hS : sets[i]? = some S)
    (hfresh : (map.newMachine.state i).transitions =
      (FastState.new none : FastState A).transitions)
    (hnodes : ∀ s ∈ S, MapOk (nfa.node s).transitions)
    (hP : ∀ t, Collected nfa (items nfa S) t → ∀ e ∈ t.iteritems, P e.2)
    (hok : convertState nfa map i = .ok map') :
    ∃ sets', Represents nfa P map' sets' ∧ Extends i map sets map' sets' ∧
      Converted nfa sets' map'.newMachine i S := by
  obtain ⟨hi, -⟩ := List.getElem?_eq_some_iff.1 hS
  obtain ⟨t, ht, hcollected⟩ := transitionsOf_spec fun s hs => (hnodes s hs).sorted
  have hold : map.newToOld i = S := by rw [newToOld, h.newToOld, hS, Option.getD_some]
  rw [convertState, hold, ht] at hok
  obtain ⟨sets', hr, hx, hw⟩ := foldlM_keeps (l := t.iteritems) (d := [])
    (I := fun done map' => ∃ sets', Represents nfa P map' sets' ∧ Extends i map sets map' sets' ∧
      Written t sets' done (map'.newMachine.state i))
    (by
      rintro e he done map₁ map₂ ⟨sets₁, hr₁, hx₁, hw₁⟩ hstep
      obtain ⟨sets₂, q, hr₂, hx₂, hq, hrange, hwrites⟩ :=
        addTransition_spec hr₁ (hi.trans_le hx₁.grows.length_le) (hP t hcollected e he) hstep
      exact ⟨sets₂, hr₂, hx₁.trans hx₂,
        hw₁.step hx₂.grows hcollected.sorted he hq hrange hwrites⟩)
    ⟨sets, h, h.extends_self i, by simp, fun k _ => by rw [hfresh], by simp, by simp⟩ hok
  exact ⟨sets', hr, hx, hw.converted hcollected hnodes⟩

/-- A round of the loop succeeds if no state of its set is wide. -/
theorem convertState_eq_ok {map : StateMap A} {i : Nat}
    (hnodes : ∀ s ∈ map.newToOld i, MapOk (nfa.node s).transitions)
    (hn : ∀ s ∈ map.newToOld i, ¬Wide (nfa.node s).transitions) :
    ∃ map', convertState nfa map i = .ok map' := by
  obtain ⟨t, ht, hcollected⟩ := transitionsOf_spec fun s hs => (hnodes s hs).sorted
  rw [convertState, ht]
  obtain ⟨map', hok, -⟩ := foldlM_ok (f := addTransition nfa i) (l := t.iteritems) (d := [])
    (I := fun _ _ => True) (fun e he _ map' _ => by
      obtain ⟨event, T⟩ := e
      obtain ⟨map'', hok⟩ := @addTransition_eq_ok _ nfa i (event, T)
        (fun a b hab => hcollected.rangeOk hnodes hn (T := T) (hab ▸ he)) map'
      exact ⟨map'', hok, trivial⟩) (b := map) trivial
  exact ⟨map', hok⟩

/-! ## Termination -/

theorem setChars_ne_fuel {newState : Nat} {codes : List Int} (s : FastState A) :
    FastState.setChars newState codes s ≠ .error .fuel := by
  induction codes generalizing s with
  | nil => exact fun h => absurd (show Except.ok s = Except.error _ from h) (by simp)
  | cons code codes ih =>
    rw [FastState.setChars]
    by_cases hcode : 0 ≤ code ∧ code < 0x110000
    · obtain ⟨c, hc, -⟩ := chr_eq_ok hcode
      rw [hc]
      exact ih _
    · rw [chr_eq_error hcode]
      exact fun h => absurd (show Except.error (DfaError.chr code) = Except.error _ from h) (by simp)

theorem addTransitions_ne_fuel (s : FastState A) (event : Event) (newState : Nat) :
    s.addTransitions event newState ≠ .error .fuel := by
  rcases event with ⟨a, b⟩ | sym
  · rw [FastState.addTransitions]
    split
    · simp
    · split
      · exact setChars_ne_fuel s
      · simp
  · simp [FastState.addTransitions]

theorem addTransition_ne_fuel (i : Nat) (map : StateMap A) (e : Event × StateSet) :
    addTransition nfa i map e ≠ .error .fuel := by
  rw [addTransition, FastMachine.addTransitions]
  rcases hs : ((map.oldToNew nfa e.2).2.newMachine.state i).addTransitions e.1
    (map.oldToNew nfa e.2).1 with err | s
  · intro h
    obtain rfl : err = .fuel := Except.error.inj h
    exact addTransitions_ne_fuel _ _ _ hs
  · exact fun h => absurd (show Except.ok _ = Except.error _ from h) (by simp)

/-- Whatever the transitions of an NFA, a round of the loop ends, and its new sets
    are of states that the NFA mentions. -/
theorem convertState_mentioned {map : StateMap A} {sets : List StateSet}
    (h : Represents nfa (· ⊆ nfa.mentioned) map sets) {i : Nat} (hi : i < sets.length) :
    convertState nfa map i ≠ .error .fuel ∧ ∀ map', convertState nfa map i = .ok map' →
      ∃ sets', Represents nfa (· ⊆ nfa.mentioned) map' sets' ∧ sets.length ≤ sets'.length := by
  obtain ⟨t, ht, hwithin⟩ := transitionsOf_within nfa (map.newToOld i)
  rw [convertState, ht]
  refine ⟨fun hf => ?_, fun map' hok => ?_⟩
  · obtain ⟨e, -, map', he⟩ := exists_of_foldlM_error hf
    exact addTransition_ne_fuel i map' e he
  · exact foldlM_keeps (l := t.iteritems) (d := [])
      (I := fun _ map' => ∃ sets', Represents nfa (· ⊆ nfa.mentioned) map' sets' ∧
        sets.length ≤ sets'.length)
      (by
        rintro e he done map₁ map₂ ⟨sets₁, hr₁, hle⟩ hstep
        obtain ⟨sets₂, q, hr₂, hx₂, -⟩ :=
          addTransition_spec hr₁ (hi.trans_le hle) (hwithin.iteritems he) hstep
        exact ⟨sets₂, hr₂, hle.trans hx₂.grows.length_le⟩)
      ⟨sets, h, le_rfl⟩ hok

theorem Represents.length_le {map : StateMap A} {sets : List StateSet}
    (h : Represents nfa (· ⊆ nfa.mentioned) map sets) :
    sets.length ≤ 2 ^ nfa.mentioned.card := by
  rw [← List.toFinset_card_of_nodup h.nodup, ← Finset.card_powerset]
  refine Finset.card_le_card fun S hS => ?_
  exact Finset.mem_powerset.2 (h.forall_mem S (List.mem_toFinset.1 hS))

theorem convertStates_ne_fuel {fuel : Nat} {map : StateMap A} {sets : List StateSet} {i : Nat}
    (h : Represents nfa (· ⊆ nfa.mentioned) map sets) (hi : i ≤ sets.length)
    (hfuel : 2 ^ nfa.mentioned.card < fuel + i) : convertStates nfa fuel i map ≠ .error .fuel := by
  induction fuel generalizing i map sets with
  | zero =>
    have := h.length_le
    omega
  | succ fuel ih =>
    rw [convertStates]
    by_cases hlt : i < map.newMachine.states.length
    · rw [if_pos hlt]
      rw [h.length] at hlt
      obtain ⟨hne, hok⟩ := convertState_mentioned h hlt
      rcases hr : convertState nfa map i with err | map'
      · exact fun hf => hne (hr.trans hf)
      · obtain ⟨sets', hr', hle⟩ := hok map' hr
        exact ih hr' (by omega) (by omega)
    · rw [if_neg hlt]
      simp

end StateMap

end AHPy.Plex
