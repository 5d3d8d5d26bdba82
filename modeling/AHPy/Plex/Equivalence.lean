import AHPy.Lib.LongestMatch
import AHPy.Plex.Conversion

/-!
# The converted machine

What the machine of `nfaToDfa` has to do with the NFA.

* `nfaToDfa_ne_fuel`: `nfaToDfa` terminates, for every NFA;
* `nfaToDfa_spec`: the states of a machine that it returns stand for sets that the
  symbols lead to (`Simulates`), if the transition maps of the NFA are in order;
* `nfaToDfa_isOk_iff`: it returns a machine unless a state with a wide range is
  reachable, by any transitions;
* `run_spec`: after a run over symbols, the state stands for the states of the
  automaton.
-/

namespace AHPy.Plex

variable {A : Type} {nfa : Machine A}

open StateMap TransitionMap

/-! ## Initial states -/

/-- The new states of the initial states, for those of a list. -/
def Seeded (nfa : Machine A) (sets : List StateSet) (m : FastMachine A)
    (done : List (String × Nat)) : Prop :=
  ∀ name, (∃ q t S, (name, q) ∈ done ∧ m.initialStates.get? name = some t ∧
      sets[t]? = some S ∧ (S : Set Nat) = nfa.automaton.εClosure {q}) ∨
    m.initialStates.get? name = none ∧ ∀ q, (name, q) ∉ done

theorem seed_spec {P : StateSet → Prop} {map : StateMap A} {sets : List StateSet}
    {done : List (String × Nat)} (h : Represents nfa P map sets)
    (hfresh : ∀ j, (map.newMachine.state j).transitions =
      (FastState.new none : FastState A).transitions)
    (hdone : Seeded nfa sets map.newMachine done) {e : String × Nat}
    (hP : ∀ S : StateSet, (S : Set Nat) = nfa.automaton.εClosure {e.2} → P S) :
    ∃ map' sets', seed nfa map e = .ok map' ∧ Represents nfa P map' sets' ∧
      (∀ j, (map'.newMachine.state j).transitions =
        (FastState.new none : FastState A).transitions) ∧
      Seeded nfa sets' map'.newMachine (done ++ [e]) := by
  obtain ⟨S, hS, heq⟩ := nfa.epsilonClosure_spec e.2
  obtain ⟨sets', hr, hx, hq, -⟩ := oldToNew_spec h (hP S heq)
  rw [seed, hS]
  generalize hr₁ : map.oldToNew nfa S = r at hr hx hq
  refine ⟨{ r.2 with newMachine := r.2.newMachine.makeInitialState e.1 r.1 }, sets', ?_,
    ⟨hr.nodup, hr.length, hr.oldToNew, hr.newToOld, hr.action, hr.forall_mem⟩, fun j => ?_,
    fun name => ?_⟩
  · rw [← hr₁]
    rfl
  · rcases Nat.lt_or_ge j sets.length with hlt | hge
    · exact (congrArg FastState.transitions ((hx (j + 1)).frame j hlt (by omega))).trans (hfresh j)
    · exact (hx (j + 1)).fresh j hge (by omega)
  · have hinitial := (hx 0).initialStates
    have hget : ∀ name', (r.2.newMachine.makeInitialState e.1 r.1).initialStates.get? name' =
        if name' = e.1 then some r.1 else map.newMachine.initialStates.get? name' := by
      intro name'
      rw [FastMachine.makeInitialState, OrderedDict.get?_set, hinitial]
    simp only [hget]
    by_cases hname : name = e.1
    · subst hname
      exact .inl ⟨e.2, r.1, S, by simp, if_pos rfl, hq, heq⟩
    · rw [if_neg hname]
      rcases hdone name with ⟨q, t, S', hm, ht, hS', hc⟩ | ⟨ht, hm⟩
      · exact .inl ⟨q, t, S', List.mem_append_left _ hm, ht,
          getElem?_of_prefix (hx 0).grows hS', hc⟩
      · refine .inr ⟨ht, fun q hq => ?_⟩
        rcases List.mem_append.1 hq with hq | hq
        · exact hm q hq
        · exact hname (congrArg Prod.fst (List.mem_singleton.1 hq))

/-- The loop over the initial states. -/
theorem seeds_spec (P : StateSet → Prop)
    (hP : ∀ name q, nfa.initialStates.get? name = some q →
      ∀ S : StateSet, (S : Set Nat) = nfa.automaton.εClosure {q} → P S) :
    ∃ map sets, nfa.initialStates.entries.foldlM (seed nfa) .new = .ok map ∧
      Represents nfa P map sets ∧ (∀ j, (map.newMachine.state j).transitions =
        (FastState.new none : FastState A).transitions) ∧
      Seeded nfa sets map.newMachine nfa.initialStates.entries := by
  obtain ⟨map, hok, sets, hr, hfresh, hseeded⟩ := foldlM_ok
    (l := nfa.initialStates.entries) (d := []) (f := seed nfa) (b := .new)
    (I := fun done map => ∃ sets, Represents nfa P map sets ∧
      (∀ j, (map.newMachine.state j).transitions =
        (FastState.new none : FastState A).transitions) ∧ Seeded nfa sets map.newMachine done)
    (by
      rintro ⟨name, q⟩ he done map ⟨sets, hr, hfresh, hseeded⟩
      obtain ⟨map', sets', hok, h'⟩ := seed_spec hr hfresh hseeded (e := (name, q))
        (hP name q (OrderedDict.get?_eq_some_iff.2 he))
      exact ⟨map', hok, sets', h'⟩)
    ⟨[], represents_new nfa P, fun j => by rw [FastMachine.state_of_length_le (Nat.zero_le j)],
      fun name => .inr ⟨rfl, fun q => List.not_mem_nil⟩⟩
  exact ⟨map, sets, hok, hr, hfresh, hseeded⟩

theorem nfaToDfa_eq {map : StateMap A}
    (h : nfa.initialStates.entries.foldlM (seed nfa) .new = .ok map) :
    nfaToDfa nfa =
      (convertStates nfa (2 ^ nfa.mentioned.card + 1) 0 map).map (·.newMachine) := by
  rw [nfaToDfa, h]
  show Except.bind (convertStates nfa _ 0 map) _ = _
  rcases convertStates nfa (2 ^ nfa.mentioned.card + 1) 0 map with _ | _ <;> rfl

/-- `nfaToDfa` terminates, whatever the transition maps of the NFA are like. -/
theorem nfaToDfa_ne_fuel (nfa : Machine A) : nfaToDfa nfa ≠ .error .fuel := by
  obtain ⟨map, sets, hok, hr, -⟩ := @seeds_spec _ nfa (· ⊆ nfa.mentioned)
    fun name q hq S hS => by
      refine @Machine.closure_subset_mentioned _ _ {q} _ (fun x hx => ?_) (by simpa using hS)
      rw [Finset.mem_singleton.1 hx]
      exact Finset.mem_union_left _ (List.mem_toFinset.2
        (List.mem_map_of_mem (OrderedDict.get?_eq_some_iff.1 hq)))
  have hne := @convertStates_ne_fuel _ _ (2 ^ nfa.mentioned.card + 1) _ _ _ hr (Nat.zero_le _)
    (by omega)
  rw [nfaToDfa_eq hok]
  rcases hc : convertStates nfa (2 ^ nfa.mentioned.card + 1) 0 map with err | map'
  · rw [hc] at hne
    exact fun h => hne (congrArg _ (Except.error.inj h))
  · simp [Except.map]

/-! ## Reachable states -/

/-- A transition of the NFA leads from a state to another. -/
def Leads (nfa : Machine A) (s t : Nat) : Prop :=
  ∃ e ∈ (nfa.node s).transitions.iteritems, t ∈ e.2

/-- The states that transitions lead to from an initial state. -/
def Reachable (nfa : Machine A) (s : Nat) : Prop :=
  ∃ name q, nfa.initialStates.get? name = some q ∧ Relation.ReflTransGen (Leads nfa) q s

/-- What the sets of the new states are like: closed, and of reachable states. -/
structure SetOk (nfa : Machine A) (S : StateSet) : Prop where
  reachable : ∀ s ∈ S, Reachable nfa s
  closed : ∀ s ∈ S, ∀ t ∈ (nfa.node s).transitions.getEpsilon, t ∈ S

theorem Reachable.epsilon {s t : Nat} (h : Reachable nfa s)
    (ht : t ∈ (nfa.node s).transitions.getEpsilon) : Reachable nfa t := by
  obtain ⟨name, q, hq, hr⟩ := h
  exact ⟨name, q, hq, hr.tail
    ⟨_, mem_iteritems_special.2 ⟨rfl, Finset.ne_empty_of_mem ht⟩, ht⟩⟩

theorem Reachable.closure {T : Set Nat} (h : ∀ s ∈ T, Reachable nfa s) :
    ∀ s ∈ nfa.automaton.εClosure T, Reachable nfa s := by
  intro s hs
  induction hs with
  | base s hs => exact h s hs
  | step s t ht _ ih => exact ih.epsilon ht

theorem setOk_closure {S : StateSet} {T : Set Nat} (hS : (S : Set Nat) = nfa.automaton.εClosure T)
    (h : ∀ s ∈ T, Reachable nfa s) : SetOk nfa S where
  reachable := fun s hs => Reachable.closure h s (hS ▸ Finset.mem_coe.2 hs)
  closed := by
    intro s hs t ht
    rw [← Finset.mem_coe, hS] at hs ⊢
    exact εNFA.εClosure.step s t ht hs

/-- The sets that a set leads to are as it is. -/
theorem SetOk.iteritems {S : StateSet} (h : SetOk nfa S) {t : TransitionMap}
    (ht : Collected nfa (items nfa S) t) {e : Event × StateSet} (he : e ∈ t.iteritems) :
    SetOk nfa e.2 := by
  have hreach : ∀ s ∈ S, ∀ e' ∈ (nfa.node s).transitions.iteritems,
      ∀ x ∈ nfa.automaton.εClosure (e'.2 : Set Nat), Reachable nfa x := by
    intro s hs e' he' x hx
    refine Reachable.closure (fun y hy => ?_) x hx
    obtain ⟨name, q, hq, hr⟩ := h.reachable s hs
    exact ⟨name, q, hq, hr.tail ⟨e', he', hy⟩⟩
  obtain ⟨event, T⟩ := e
  rcases event with ⟨a, b⟩ | sym
  · have hi := ht.sorted.interval (mem_iteritems_range.1 he).1
    have hr := inRange_of_mem_codes ht.sorted (.inl hi.start_mem)
    have hmem := ht.mem_statesOf a hr.1 (ht.sorted.lt a hi.start_mem)
    rw [hi.statesOf a le_rfl hi.lt] at hmem
    refine ⟨fun x hx => ?_, fun x hx y hy => ?_⟩
    · obtain ⟨a', b', T', hm, -, -, hx⟩ := (hmem x).1 hx
      obtain ⟨s, hs, hm⟩ := mem_items.1 hm
      exact hreach s hs _ hm x hx
    · obtain ⟨a', b', T', hm, ha, hb, hx⟩ := (hmem x).1 hx
      exact (hmem y).2 ⟨a', b', T', hm, ha, hb, εNFA.εClosure.step x y hy hx⟩
  · have hmem := ht.mem_special sym
    rw [(mem_iteritems_special.1 he).1] at hmem
    refine ⟨fun x hx => ?_, fun x hx y hy => ?_⟩
    · obtain ⟨-, T', hm, hx⟩ := (hmem x).1 hx
      obtain ⟨s, hs, hm⟩ := mem_items.1 hm
      exact hreach s hs _ hm x hx
    · obtain ⟨hsym, T', hm, hx⟩ := (hmem x).1 hx
      exact (hmem y).2 ⟨hsym, T', hm, εNFA.εClosure.step x y hy hx⟩

/-! ## The loop -/

theorem StateMap.Converted.mono {sets sets' : List StateSet} {m m' : FastMachine A} {i : Nat}
    {S : StateSet} (h : Converted nfa sets m i S) (hsets : sets <+: sets') (hm : m'.state i = m.state i) :
    Converted nfa sets' m' i S where
  lookup_some := by
    intro a q hq
    rw [hm] at hq
    obtain ⟨S', hS', heq⟩ := h.lookup_some a q hq
    exact ⟨S', getElem?_of_prefix hsets hS', heq⟩
  lookup_none := fun a hq => h.lookup_none a (hm ▸ hq)
  lookup_end := hm ▸ h.lookup_end
  not_wide := h.not_wide
  targets := by
    intro s hs e he hsym hne
    obtain ⟨S', hS', hsub⟩ := h.targets s hs e he hsym hne
    exact ⟨S', hsets.subset hS', hsub⟩

/-- The states before the current one are converted, the others are new. -/
structure LoopInv (nfa : Machine A) (i : Nat) (map : StateMap A) (sets : List StateSet) : Prop where
  represents : Represents nfa (SetOk nfa) map sets
  converted : ∀ j < i, ∀ S, sets[j]? = some S → Converted nfa sets map.newMachine j S
  fresh : ∀ j, i ≤ j → (map.newMachine.state j).transitions =
    (FastState.new none : FastState A).transitions

theorem LoopInv.step {i : Nat} {map map' : StateMap A} {sets : List StateSet}
    (h : LoopInv nfa i map sets) (hi : i < sets.length)
    (hnodes : ∀ s, MapOk (nfa.node s).transitions) (hok : convertState nfa map i = .ok map') :
    ∃ sets', LoopInv nfa (i + 1) map' sets' ∧ sets <+: sets' ∧
      map'.newMachine.initialStates = map.newMachine.initialStates := by
  have hS : sets[i]? = some sets[i] := List.getElem?_eq_getElem hi
  have hset := h.represents.forall_mem _ (List.getElem_mem hi)
  obtain ⟨sets', hr, hx, hc⟩ := convertState_spec h.represents hS (h.fresh i le_rfl)
    (fun s _ => hnodes s) (fun t ht e he => hset.iteritems ht he) hok
  refine ⟨sets', ⟨hr, fun j hj S hjS => ?_, fun j hj => ?_⟩, hx.grows, hx.initialStates⟩
  · rcases Nat.lt_succ_iff_lt_or_eq.1 hj with hlt | rfl
    · have hjlt : j < sets.length := hlt.trans hi
      have hold := getElem?_of_prefix hx.grows (List.getElem?_eq_getElem hjlt)
      obtain rfl : sets[j] = S := Option.some.inj (hold.symm.trans hjS)
      exact (h.converted j hlt _ (List.getElem?_eq_getElem hjlt)).mono hx.grows
        (hx.frame j hjlt hlt.ne)
    · have hold := getElem?_of_prefix hx.grows hS
      obtain rfl : sets[j] = S := Option.some.inj (hold.symm.trans hjS)
      exact hc
  · rcases Nat.lt_or_ge j sets.length with hlt | hge
    · rw [hx.frame j hlt (by omega)]
      exact h.fresh j (by omega)
    · exact hx.fresh j hge (by omega)

/-- The states of the new machine stand for sets of states of the NFA, which the
    symbols lead to. -/
structure Simulates (nfa : Machine A) (m : FastMachine A) (sets : List StateSet) : Prop where
  length : m.states.length = sets.length
  seeded : Seeded nfa sets m nfa.initialStates.entries
  converted : ∀ i S, sets[i]? = some S → Converted nfa sets m i S
  action : ∀ i S, sets[i]? = some S → (m.state i).action = nfa.highestPriorityAction S
  setOk : ∀ S ∈ sets, SetOk nfa S

theorem convertStates_spec (hnodes : ∀ s, MapOk (nfa.node s).transitions) {fuel i : Nat}
    {map map' : StateMap A} {sets : List StateSet} (h : LoopInv nfa i map sets)
    (hi : i ≤ sets.length) (hok : convertStates nfa fuel i map = .ok map') :
    ∃ sets', LoopInv nfa sets'.length map' sets' ∧ sets <+: sets' ∧
      map'.newMachine.initialStates = map.newMachine.initialStates := by
  induction fuel generalizing i map sets with
  | zero => exact absurd hok (by simp [convertStates])
  | succ fuel ih =>
    rw [convertStates] at hok
    by_cases hlt : i < map.newMachine.states.length
    · rw [if_pos hlt] at hok
      rw [h.represents.length] at hlt
      rcases hr : convertState nfa map i with err | map₁
      · rw [hr] at hok
        exact absurd (show Except.error err = Except.ok map' from hok) (by simp)
      · rw [hr] at hok
        obtain ⟨sets₁, h₁, hsub, hinitial⟩ := h.step hlt hnodes hr
        obtain ⟨sets', h', hsub', hinitial'⟩ := ih h₁ (hlt.trans_le hsub.length_le) hok
        exact ⟨sets', h', hsub.trans hsub', hinitial'.trans hinitial⟩
    · rw [if_neg hlt] at hok
      obtain rfl := Except.ok.inj hok
      rw [h.represents.length] at hlt
      obtain rfl : i = sets.length := by omega
      exact ⟨sets, h, List.prefix_rfl, rfl⟩

theorem convertStates_isOk (hnodes : ∀ s, MapOk (nfa.node s).transitions)
    (hn : ∀ s, Reachable nfa s → ¬Wide (nfa.node s).transitions) {fuel i : Nat}
    {map : StateMap A} {sets : List StateSet} (h : LoopInv nfa i map sets) (hi : i ≤ sets.length) :
    convertStates nfa fuel i map = .error .fuel ∨
      ∃ map', convertStates nfa fuel i map = .ok map' := by
  induction fuel generalizing i map sets with
  | zero => exact .inl rfl
  | succ fuel ih =>
    rw [convertStates]
    by_cases hlt : i < map.newMachine.states.length
    · rw [if_pos hlt]
      rw [h.represents.length] at hlt
      have hold : map.newToOld i = sets[i] := by
        rw [newToOld, h.represents.newToOld, List.getElem?_eq_getElem hlt, Option.getD_some]
      have hset := h.represents.forall_mem _ (List.getElem_mem hlt)
      obtain ⟨map₁, hr⟩ := @convertState_eq_ok _ _ map i (fun s _ => hnodes s)
        fun s hs => hn s (hset.reachable s (hold ▸ hs))
      rw [hr]
      obtain ⟨sets₁, h₁, hsub, -⟩ := h.step hlt hnodes hr
      exact ih h₁ (hlt.trans_le hsub.length_le)
    · rw [if_neg hlt]
      exact .inr ⟨map, rfl⟩

theorem exists_seeds (nfa : Machine A) :
    ∃ map sets, nfa.initialStates.entries.foldlM (seed nfa) .new = .ok map ∧
      LoopInv nfa 0 map sets ∧ Seeded nfa sets map.newMachine nfa.initialStates.entries := by
  obtain ⟨map, sets, hok, hr, hfresh, hseeded⟩ := @seeds_spec _ nfa (SetOk nfa)
    fun name q hq S hS => setOk_closure hS fun s hs => by
      rw [Set.mem_singleton_iff.1 hs]
      exact ⟨name, q, hq, .refl⟩
  exact ⟨map, sets, hok, ⟨hr, fun j hj => absurd hj (Nat.not_lt_zero j), fun j _ => hfresh j⟩,
    hseeded⟩

theorem nfaToDfa_spec (hnodes : ∀ s, MapOk (nfa.node s).transitions) {m : FastMachine A}
    (hok : nfaToDfa nfa = .ok m) : ∃ sets, Simulates nfa m sets := by
  obtain ⟨map, sets, hseeds, h, hseeded⟩ := exists_seeds nfa
  rw [nfaToDfa_eq hseeds] at hok
  rcases hc : convertStates nfa (2 ^ nfa.mentioned.card + 1) 0 map with err | map'
  · rw [hc] at hok
    exact absurd (show Except.error err = Except.ok m from hok) (by simp)
  rw [hc] at hok
  obtain rfl : map'.newMachine = m := Except.ok.inj hok
  obtain ⟨sets', h', hsub, hinitial⟩ := convertStates_spec hnodes h (Nat.zero_le _) hc
  refine ⟨sets', h'.represents.length, fun name => ?_, fun i S hS => ?_, h'.represents.action,
    h'.represents.forall_mem⟩
  · rw [hinitial]
    rcases hseeded name with ⟨q, t, S, hm, ht, hS, heq⟩ | hnone
    · exact .inl ⟨q, t, S, hm, ht, getElem?_of_prefix hsub hS, heq⟩
    · exact .inr hnone
  · exact h'.converted i (List.getElem?_eq_some_iff.1 hS).1 S hS

/-- `nfaToDfa` returns a machine unless a state with a wide range is reachable. -/
theorem nfaToDfa_isOk_iff (hnodes : ∀ s, MapOk (nfa.node s).transitions) :
    (∃ m, nfaToDfa nfa = .ok m) ↔ ∀ s, Reachable nfa s → ¬Wide (nfa.node s).transitions := by
  constructor
  · rintro ⟨m, hok⟩ s ⟨name, q, hq, hr⟩
    obtain ⟨sets, h⟩ := nfaToDfa_spec hnodes hok
    -- A reachable state is in one of the sets.
    have hmem : ∃ S ∈ sets, s ∈ S := by
      induction hr with
      | refl =>
        rcases h.seeded name with ⟨q', t, S, hm, -, hS, heq⟩ | ⟨-, hnot⟩
        · obtain rfl := OrderedDict.eq_of_mem_entries hm (OrderedDict.get?_eq_some_iff.1 hq)
          refine ⟨S, List.mem_of_getElem? hS, ?_⟩
          rw [← Finset.mem_coe, heq]
          exact nfa.automaton.subset_εClosure _ rfl
        · exact absurd (OrderedDict.get?_eq_some_iff.1 hq) (hnot q)
      | tail _ hl ih =>
        obtain ⟨S, hS, hs⟩ := ih
        obtain ⟨e, he, ht⟩ := hl
        by_cases hsym : e.1 = .special .epsilon
        · obtain ⟨event, T⟩ := e
          obtain rfl : event = .special .epsilon := hsym
          exact ⟨S, hS, (h.setOk S hS).closed _ hs _ (by
            rw [getEpsilon, (mem_iteritems_special.1 he).1]
            exact ht)⟩
        · obtain ⟨i, hi⟩ := List.mem_iff_getElem?.1 hS
          obtain ⟨S', hS', hsub⟩ := (h.converted i S hi).targets _ hs e he hsym
            (Finset.ne_empty_of_mem ht)
          exact ⟨S', hS', hsub ht⟩
    obtain ⟨S, hS, hs⟩ := hmem
    obtain ⟨i, hi⟩ := List.mem_iff_getElem?.1 hS
    exact (h.converted i S hi).not_wide s hs
  · intro hn
    obtain ⟨map, sets, hseeds, h, -⟩ := exists_seeds nfa
    have hne := nfaToDfa_ne_fuel nfa
    rw [nfaToDfa_eq hseeds] at hne ⊢
    rcases convertStates_isOk hnodes hn h (Nat.zero_le _) with hc | ⟨map', hc⟩
    · rw [hc] at hne
      exact absurd rfl hne
    · rw [hc]
      exact ⟨map'.newMachine, rfl⟩

/-! ## Runs -/

/-- The state that a scanner goes to on a symbol. -/
def FastMachine.step (m : FastMachine A) (t : Nat) (a : Symbol) : Option Nat :=
  (m.state t).lookup (some a)

theorem foldl_stepSet_empty (w : List Symbol) : w.foldl nfa.automaton.stepSet ∅ = ∅ := by
  induction w with
  | nil => rfl
  | cons a w ih => rw [List.foldl_cons, εNFA.stepSet_empty, ih]

/-- A run leads to the state that stands for those of the automaton, and blocks
    only where there are none. -/
theorem Simulates.run_spec {m : FastMachine A} {sets : List StateSet} (h : Simulates nfa m sets)
    {t : Nat} {S : StateSet} (ht : sets[t]? = some S) (w : List Symbol) :
    (∃ t' S', w.foldlM m.step t = some t' ∧ sets[t']? = some S' ∧
      (S' : Set Nat) = w.foldl nfa.automaton.stepSet ↑S) ∨
    w.foldlM m.step t = none ∧ w.foldl nfa.automaton.stepSet (S : Set Nat) = ∅ := by
  induction w generalizing t S with
  | nil => exact .inl ⟨t, S, rfl, ht, rfl⟩
  | cons a w ih =>
    have hc := h.converted t S ht
    rw [List.foldlM_cons, List.foldl_cons]
    rcases hl : m.step t a with _ | t'
    · right
      rw [hc.lookup_none a hl, foldl_stepSet_empty]
      exact ⟨rfl, rfl⟩
    · obtain ⟨S', hS', heq⟩ := hc.lookup_some a t' hl
      rw [← heq]
      exact ih hS'

/-! ### Actions -/

/-- A state has an action if it has a priority, as the states of an NFA do. -/
def ActionsOk (nfa : Machine A) : Prop :=
  ∀ s, (nfa.node s).action.isSome ↔ lowestPriority < (nfa.node s).actionPriority

/-- What the loop over the states of a set has found. -/
def BestOf (nfa : Machine A) (done : List Nat) (best : Option A × Int) : Prop :=
  best = (none, lowestPriority) ∧ (∀ s ∈ done, (nfa.node s).actionPriority ≤ lowestPriority) ∨
    ∃ s ∈ done, best = ((nfa.node s).action, (nfa.node s).actionPriority) ∧
      lowestPriority < (nfa.node s).actionPriority ∧
      ∀ s' ∈ done, (nfa.node s').actionPriority ≤ (nfa.node s).actionPriority

theorem bestOf_foldl (l : List Nat) {done : List Nat} {best : Option A × Int}
    (h : BestOf nfa done best) :
    BestOf nfa (done ++ l) (l.foldl (fun best s =>
      if (nfa.node s).actionPriority > best.2 then
        ((nfa.node s).action, (nfa.node s).actionPriority)
      else best) best) := by
  induction l generalizing done best with
  | nil => rwa [List.append_nil]
  | cons s l ih =>
    rw [List.foldl_cons, List.append_cons]
    refine ih ?_
    split
    next hlt =>
      refine .inr ⟨s, by simp, rfl, ?_, fun s' hs' => ?_⟩
      · rcases h with ⟨rfl, -⟩ | ⟨s₀, -, rfl, hlow, -⟩
        · exact hlt
        · exact hlow.trans hlt
      · rcases List.mem_append.1 hs' with hs' | hs'
        · rcases h with ⟨rfl, hle⟩ | ⟨s₀, -, rfl, -, hle⟩
          · exact (hle s' hs').trans hlt.le
          · exact (hle s' hs').trans hlt.le
        · rw [List.mem_singleton.1 hs']
    next hge =>
      rcases h with ⟨rfl, hle⟩ | ⟨s₀, hs₀, rfl, hlow, hle⟩
      · refine .inl ⟨rfl, fun s' hs' => ?_⟩
        rcases List.mem_append.1 hs' with hs' | hs'
        · exact hle s' hs'
        · rw [List.mem_singleton.1 hs']
          exact not_lt.1 hge
      · refine .inr ⟨s₀, List.mem_append_left _ hs₀, rfl, hlow, fun s' hs' => ?_⟩
        rcases List.mem_append.1 hs' with hs' | hs'
        · exact hle s' hs'
        · rw [List.mem_singleton.1 hs']
          exact not_lt.1 hge

theorem highestPriorityAction_eq_some {S : StateSet} {a : A}
    (h : nfa.highestPriorityAction S = some a) : ∃ s ∈ S, (nfa.node s).action = some a ∧
      ∀ s' ∈ S, (nfa.node s').actionPriority ≤ (nfa.node s).actionPriority := by
  have hbest := bestOf_foldl (sorted S)
    (show BestOf nfa [] (none, lowestPriority) from .inl ⟨rfl, by simp⟩)
  rw [Machine.highestPriorityAction] at h
  rcases hbest with ⟨heq, -⟩ | ⟨s, hs, heq, -, hle⟩
  · rw [heq] at h
    exact absurd h.symm (Option.some_ne_none a)
  · rw [heq] at h
    exact ⟨s, mem_sorted.1 hs, h, fun s' hs' => hle s' (mem_sorted.2 hs')⟩

theorem highestPriorityAction_eq_none (ha : ActionsOk nfa) {S : StateSet}
    (h : nfa.highestPriorityAction S = none) : ∀ s ∈ S, (nfa.node s).action = none := by
  have hbest := bestOf_foldl (sorted S)
    (show BestOf nfa [] (none, lowestPriority) from .inl ⟨rfl, by simp⟩)
  rw [Machine.highestPriorityAction] at h
  rcases hbest with ⟨-, hle⟩ | ⟨s, hs, heq, hlow, -⟩
  · intro s hs
    rw [← Option.not_isSome_iff_eq_none, ha s]
    exact not_lt.2 (hle s (mem_sorted.2 hs))
  · rw [heq] at h
    have hnone : (nfa.node s).action = none := h
    exact absurd ((ha s).2 hlow) (by rw [hnone]; simp)

/-- The words that the machine accepts from an initial state, with an action, are
    those that the NFA accepts. -/
theorem Simulates.accepts {m : FastMachine A} {sets : List StateSet} (h : Simulates nfa m sets)
    (ha : ActionsOk nfa) {t q : Nat} {S : StateSet} (ht : sets[t]? = some S)
    (hS : (S : Set Nat) = nfa.automaton.εClosure {q}) (w : List Symbol) :
    (∀ a, Reads m.step (fun t => (m.state t).action) t w a → nfa.Accepts q w a) ∧
      ∀ a, nfa.Accepts q w a → ∃ a', Reads m.step (fun t => (m.state t).action) t w a' := by
  have heval : w.foldl nfa.automaton.stepSet ↑S = nfa.automaton.evalFrom {q} w := by
    rw [hS]
    rfl
  rcases h.run_spec ht w with ⟨t', S', hrun, hS', heq⟩ | ⟨hrun, hempty⟩
  · rw [heval] at heq
    have hmem : ∀ s, s ∈ nfa.automaton.evalFrom {q} w ↔ s ∈ S' := fun s => by
      rw [← heq, Finset.mem_coe]
    have haction := h.action t' S' hS'
    refine ⟨fun a hr => ?_, fun a hacc => ?_⟩
    · obtain ⟨t'', hrun', haction'⟩ := hr
      obtain rfl := Option.some.inj (hrun.symm.trans hrun')
      obtain ⟨s, hs, hsa, hle⟩ := highestPriorityAction_eq_some (haction.symm.trans haction')
      exact ⟨s, (hmem s).2 hs, hsa, fun s' hs' _ => hle s' ((hmem s').1 hs')⟩
    · obtain ⟨s, hs, hsa, -⟩ := hacc
      rcases hb : nfa.highestPriorityAction S' with _ | a'
      · have hnone := highestPriorityAction_eq_none ha hb s ((hmem s).1 hs)
        exact absurd (hsa.symm.trans hnone) (Option.some_ne_none a)
      · exact ⟨a', t', hrun, haction.trans hb⟩
  · rw [heval] at hempty
    refine ⟨fun a ⟨t', hrun', _⟩ => absurd (hrun'.symm.trans hrun) (Option.some_ne_none t'),
      fun a ⟨s, hs, _⟩ => ?_⟩
    rw [hempty] at hs
    exact absurd hs (Set.notMem_empty s)

end AHPy.Plex
