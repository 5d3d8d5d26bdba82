import AHPy.Lib.Lists
import AHPy.Plex.Machines

/-!
# The subset construction

What `nfaToDfa` returns, for an NFA whose transition maps are as their comment says.

* `epsilonClosure_spec`, `setEpsilonClosure_spec`: the closures are those of the
  automaton;
* `transitionsOf_spec`: the map of a set of states has the transitions of all of
  them, closed (`Collected`);
* `Collected.targetsOf_eq`: on a symbol it leads where the automaton does.
-/

namespace AHPy.Plex

variable {A : Type}

/-! ## Epsilon closures -/

namespace Machine

variable {m : Machine A} {U : StateSet}

theorem εClosure_subset {S T : Set Nat} (h : S ⊆ m.automaton.εClosure T) :
    m.automaton.εClosure S ⊆ m.automaton.εClosure T := by
  intro x hx
  induction hx with
  | base s hs => exact h hs
  | step s t ht _ ih => exact εNFA.εClosure.step s t ht ih

/-- What a depth-first visit of some states adds to a set: them and what they
    reach by epsilon moves. -/
structure Visited (m : Machine A) (stateSet : StateSet) (roots : Set Nat) (r : StateSet) :
    Prop where
  subset : stateSet ⊆ r
  mem : ∀ x ∈ roots, x ∈ r
  closed : ∀ x ∈ r, x ∉ stateSet → (m.node x).transitions.getEpsilon ⊆ r
  reached : ∀ x ∈ r, x ∈ stateSet ∨ x ∈ m.automaton.εClosure roots

theorem foldlM_visited {visit : StateSet → Nat → Except DfaError StateSet}
    {l : List Nat} {stateSet : StateSet} (hvisit : ∀ x ∈ l, ∀ set, stateSet ⊆ set →
      ∃ r, visit set x = .ok r ∧ m.Visited set {x} r) :
    ∃ r, l.foldlM visit stateSet = .ok r ∧ m.Visited stateSet {x | x ∈ l} r := by
  induction l generalizing stateSet with
  | nil =>
    exact ⟨stateSet, rfl, subset_rfl, fun x hx => absurd hx List.not_mem_nil,
      fun x hx hn => absurd hx hn, fun x hx => .inl hx⟩
  | cons x l ih =>
    obtain ⟨r₁, h₁, hv₁⟩ := hvisit x List.mem_cons_self stateSet subset_rfl
    obtain ⟨r, h, hv⟩ := ih fun y hy set hset =>
      hvisit y (List.mem_cons_of_mem x hy) set (hv₁.subset.trans hset)
    refine ⟨r, ?_, hv₁.subset.trans hv.subset, fun y hy => ?_, fun y hy hn => ?_, fun y hy => ?_⟩
    · rw [List.foldlM_cons, h₁]
      exact h
    · rcases List.mem_cons.1 hy with rfl | hy
      · exact hv.subset (hv₁.mem y rfl)
      · exact hv.mem y hy
    · by_cases hr : y ∈ r₁
      · exact (hv₁.closed y hr hn).trans hv.subset
      · exact hv.closed y hy hr
    · rcases hv.reached y hy with hr | hr
      · refine (hv₁.reached y hr).imp_right fun hc => ?_
        exact (εNFA.mem_εClosure_iff_exists _).2 ⟨x, List.mem_cons_self, hc⟩
      · obtain ⟨z, hz, hc⟩ := (εNFA.mem_εClosure_iff_exists _).1 hr
        exact .inr ((εNFA.mem_εClosure_iff_exists _).2 ⟨z, List.mem_cons_of_mem x hz, hc⟩)

/-- With fuel for the states that are not yet in the set, a visit does not run out
    of it. -/
theorem addToEpsilonClosure_spec (hU : ∀ s ∈ U, (m.node s).transitions.getEpsilon ⊆ U)
    {fuel : Nat} {stateSet : StateSet} {s : Nat} (hs : s ∈ U)
    (hfuel : (U \ stateSet).card < fuel) :
    ∃ r, m.addToEpsilonClosure fuel stateSet s = .ok r ∧ m.Visited stateSet {s} r := by
  induction fuel generalizing stateSet s with
  | zero => exact absurd hfuel (Nat.not_lt_zero _)
  | succ fuel ih =>
    rw [addToEpsilonClosure]
    by_cases hmem : s ∈ stateSet
    · rw [if_pos hmem]
      exact ⟨stateSet, rfl, subset_rfl, fun x hx => Set.mem_singleton_iff.1 hx ▸ hmem,
        fun x hx hn => absurd hx hn, fun x hx => .inl hx⟩
    rw [if_neg hmem]
    have hlt : (U \ insert s stateSet).card < fuel := by
      refine (Finset.card_lt_card ?_).trans_le (Nat.le_of_lt_succ hfuel)
      refine Finset.ssubset_iff_of_subset (Finset.sdiff_subset_sdiff subset_rfl
        (Finset.subset_insert s stateSet)) |>.2 ⟨s, Finset.mem_sdiff.2 ⟨hs, hmem⟩, ?_⟩
      simp
    obtain ⟨r, hr, hv⟩ := m.foldlM_visited fun x hx set hset =>
      ih (hU s hs (mem_sorted.1 hx)) ((Finset.card_le_card
        (Finset.sdiff_subset_sdiff subset_rfl hset)).trans_lt hlt)
    have hsr : s ∈ r := hv.subset (Finset.mem_insert_self s stateSet)
    refine ⟨r, hr, (Finset.subset_insert s stateSet).trans hv.subset,
      fun x hx => Set.mem_singleton_iff.1 hx ▸ hsr, fun x hx hn => ?_, fun x hx => ?_⟩
    · by_cases hxs : x = s
      · exact hxs ▸ fun y hy => hv.mem y (mem_sorted.2 hy)
      · exact hv.closed x hx (by simp [hxs, hn])
    · have hbase : s ∈ m.automaton.εClosure {s} := m.automaton.subset_εClosure {s} rfl
      rcases hv.reached x hx with hx | hx
      · rcases Finset.mem_insert.1 hx with rfl | hx
        · exact .inr hbase
        · exact .inl hx
      · exact .inr (εClosure_subset
          (fun y hy => εNFA.εClosure.step s y (mem_sorted.1 hy) hbase) hx)

/-- The states that are reachable by epsilon moves. -/
theorem epsilonClosure_of_within (hU : ∀ s ∈ U, (m.node s).transitions.getEpsilon ⊆ U)
    (hcard : U.card < m.mentioned.card + 2) {s : Nat} (hs : s ∈ U) :
    ∃ r, m.epsilonClosure s = .ok r ∧ (r : Set Nat) = m.automaton.εClosure {s} := by
  obtain ⟨r, hr, hv⟩ := addToEpsilonClosure_spec hU hs
    (show (U \ ∅).card < _ by rwa [Finset.sdiff_empty])
  refine ⟨r, hr, Set.Subset.antisymm (fun x hx => ?_) fun x hx => ?_⟩
  · exact (hv.reached x hx).resolve_left (Finset.notMem_empty x)
  · induction hx with
    | base x hx => exact hv.mem x hx
    | step x y hy _ ih => exact hv.closed x ih (Finset.notMem_empty x) hy

theorem mem_foldr_union {l : List StateSet} {x : Nat} :
    x ∈ l.foldr (· ∪ ·) ∅ ↔ ∃ s ∈ l, x ∈ s := by
  induction l with
  | nil => simp
  | cons s l ih => simp [ih]

theorem within_allTargets (t : TransitionMap) : t.Within t.allTargets where
  map := fun e he x hx => Finset.mem_union_left _
    (mem_foldr_union.2 ⟨e.2, List.mem_map_of_mem he, hx⟩)
  special := by
    intro sym x hx
    rw [TransitionMap.getSpecial] at hx
    rcases h : t.special.get? sym with _ | s
    · rw [h] at hx
      exact absurd hx (Finset.notMem_empty x)
    · rw [h] at hx
      exact Finset.mem_union_right _ (mem_foldr_union.2
        ⟨s, List.mem_map_of_mem (OrderedDict.get?_eq_some_iff.1 h), hx⟩)

theorem within_mentioned (m : Machine A) (s : Nat) :
    (m.node s).transitions.Within m.mentioned := by
  rcases Nat.lt_or_ge s m.states.length with hs | hs
  · have hsub : (m.node s).transitions.allTargets ⊆ m.mentioned := by
      intro x hx
      refine Finset.mem_union_right _ (mem_foldr_union.2 ⟨_, List.mem_map_of_mem
        (List.getElem_mem hs), ?_⟩)
      rwa [node, List.getElem?_eq_getElem hs, Option.getD_some] at hx
    have h := within_allTargets (m.node s).transitions
    exact ⟨fun e he => (h.map e he).trans hsub, fun sym => (h.special sym).trans hsub⟩
  · rw [node_of_length_le hs]
    exact TransitionMap.within_new _

theorem epsilonClosure_spec (m : Machine A) (s : Nat) :
    ∃ r, m.epsilonClosure s = .ok r ∧ (r : Set Nat) = m.automaton.εClosure {s} := by
  refine epsilonClosure_of_within (fun t _ => ?_)
    ((Finset.card_insert_le s m.mentioned).trans_lt (Nat.lt_succ_self _))
    (Finset.mem_insert_self s m.mentioned)
  exact ((m.within_mentioned t).special .epsilon).trans (Finset.subset_insert s m.mentioned)

theorem setEpsilonClosure_spec (m : Machine A) (stateSet : StateSet) :
    ∃ r, m.setEpsilonClosure stateSet = .ok r ∧ (r : Set Nat) = m.automaton.εClosure ↑stateSet := by
  obtain ⟨r, hr, hI⟩ := foldlM_ok
    (f := fun result state1 => do
      let closure ← m.epsilonClosure state1
      return result ∪ closure)
    (I := fun done (r : StateSet) => ∀ x, x ∈ r ↔ ∃ s ∈ done, x ∈ m.automaton.εClosure {s})
    (l := sorted stateSet) (d := []) (b := ∅) (fun s _ done r hI => by
      obtain ⟨c, hc, heq⟩ := m.epsilonClosure_spec s
      refine ⟨r ∪ c, by rw [hc]; rfl, fun x => ?_⟩
      rw [Finset.mem_union, hI, ← Finset.mem_coe (s := c), heq]
      simp [or_and_right, exists_or])
    (fun x => by simp)
  refine ⟨r, hr, Set.ext fun x => ?_⟩
  rw [Finset.mem_coe, hI, εNFA.mem_εClosure_iff_exists]
  simp

/-- A set that epsilon moves do not leave is its own closure. -/
theorem εClosure_subset_of_closed {S V : Set Nat} (h : S ⊆ V)
    (hV : ∀ s ∈ V, ∀ t ∈ (m.node s).transitions.getEpsilon, t ∈ V) :
    m.automaton.εClosure S ⊆ V := by
  intro x hx
  induction hx with
  | base s hs => exact h hs
  | step s t ht _ ih => exact hV s ih t ht

theorem closure_subset_mentioned {stateSet r : StateSet} (h : stateSet ⊆ m.mentioned)
    (hr : (r : Set Nat) = m.automaton.εClosure ↑stateSet) : r ⊆ m.mentioned := by
  rw [← Finset.coe_subset, hr]
  exact εClosure_subset_of_closed (Finset.coe_subset.2 h) fun s _ =>
    fun t ht => (m.within_mentioned s).special .epsilon ht

end Machine

/-! ## The transitions of a set of states -/

namespace StateMap

open TransitionMap

variable {nfa : Machine A}

/-- All transitions of the states of a set. -/
def items (nfa : Machine A) (oldStates : StateSet) : List (Event × StateSet) :=
  (sorted oldStates).flatMap fun s => (nfa.node s).transitions.iteritems

theorem mem_items {oldStates : StateSet} {e : Event × StateSet} :
    e ∈ items nfa oldStates ↔ ∃ s ∈ oldStates, e ∈ (nfa.node s).transitions.iteritems := by
  simp [items]

theorem transitionsOf_eq (nfa : Machine A) (oldStates : StateSet) :
    transitionsOf nfa oldStates = (items nfa oldStates).foldlM (collect nfa) .new :=
  (foldlM_flatMap (fun s => (nfa.node s).transitions.iteritems) (sorted oldStates)
    TransitionMap.new).symm

theorem transitionsOf_within (nfa : Machine A) (oldStates : StateSet) :
    ∃ t, transitionsOf nfa oldStates = .ok t ∧ t.Within nfa.mentioned := by
  rw [transitionsOf_eq]
  refine foldlM_ok (I := fun _ (t : TransitionMap) => t.Within nfa.mentioned) (d := [])
    (fun e he _ t ht => ?_) (within_new _)
  obtain ⟨s, -, hm⟩ := mem_items.1 he
  rw [collect]
  by_cases h : e.1 ≠ .special .epsilon ∧ e.2 ≠ ∅
  · obtain ⟨c, hc, heq⟩ := nfa.setEpsilonClosure_spec e.2
    rw [if_pos h, hc]
    exact ⟨_, rfl, ht.addSet
      (Machine.closure_subset_mentioned ((nfa.within_mentioned s).iteritems hm) heq) e.1⟩
  · rw [if_neg h]
    exact ⟨t, rfl, ht⟩

/-- What transitions add up to in a map. -/
structure Collected (nfa : Machine A) (items : List (Event × StateSet)) (t : TransitionMap) :
    Prop where
  sorted : Sorted t.map
  mem_statesOf : ∀ c, -maxint ≤ c → c < maxint → ∀ x, x ∈ statesOf t.map c ↔
    ∃ a b T, (Event.range a b, T) ∈ items ∧ a ≤ c ∧ c < b ∧ x ∈ nfa.automaton.εClosure ↑T
  mem_special : ∀ sym x, x ∈ t.getSpecial sym ↔
    sym ≠ .epsilon ∧ ∃ T, (Event.special sym, T) ∈ items ∧ x ∈ nfa.automaton.εClosure ↑T
  mem_codes : ∀ c, c ∈ codes t.map ↔ c = -maxint ∨
    c ≠ maxint ∧ ∃ a b T, (Event.range a b, T) ∈ items ∧ T ≠ ∅ ∧ (c = a ∨ c = b)

theorem collected_nil (nfa : Machine A) : Collected nfa [] .new where
  sorted := sorted_new
  mem_statesOf := by
    intro c hlo _ x
    simp [TransitionMap.new, statesOf, hlo]
  mem_special := by simp [TransitionMap.new, getSpecial]
  mem_codes := by simp [TransitionMap.new, codes]

/-- A transition to no state, or by an epsilon move, does not count. -/
theorem Collected.skip {done : List (Event × StateSet)} {t : TransitionMap}
    (h : Collected nfa done t) {e : Event × StateSet} (he : e.1 = .special .epsilon ∨ e.2 = ∅) :
    Collected nfa (done ++ [e]) t := by
  have hclosure : ∀ x, e.2 = ∅ → x ∉ nfa.automaton.εClosure (e.2 : Set Nat) := fun x hx => by
    rw [hx, Finset.coe_empty, εNFA.εClosure_empty]
    exact Set.notMem_empty x
  refine ⟨h.sorted, fun c hlo hhi x => ?_, fun sym x => ?_, fun c => ?_⟩
  · rw [h.mem_statesOf c hlo hhi]
    refine ⟨fun ⟨a, b, T, hm, hx⟩ => ⟨a, b, T, List.mem_append_left _ hm, hx⟩, ?_⟩
    rintro ⟨a, b, T, hm, hx⟩
    rcases List.mem_append.1 hm with hm | hm
    · exact ⟨a, b, T, hm, hx⟩
    · obtain rfl := List.mem_singleton.1 hm
      exact absurd hx.2.2 (hclosure x (he.resolve_left (by simp)))
  · rw [h.mem_special]
    refine and_congr_right fun hsym =>
      ⟨fun ⟨T, hm, hx⟩ => ⟨T, List.mem_append_left _ hm, hx⟩, ?_⟩
    rintro ⟨T, hm, hx⟩
    rcases List.mem_append.1 hm with hm | hm
    · exact ⟨T, hm, hx⟩
    · obtain rfl := List.mem_singleton.1 hm
      exact absurd hx (hclosure x (he.resolve_left (by simpa using hsym)))
  · rw [h.mem_codes]
    refine or_congr_right (and_congr_right fun _ =>
      ⟨fun ⟨a, b, T, hm, hx⟩ => ⟨a, b, T, List.mem_append_left _ hm, hx⟩, ?_⟩)
    rintro ⟨a, b, T, hm, hx⟩
    rcases List.mem_append.1 hm with hm | hm
    · exact ⟨a, b, T, hm, hx⟩
    · obtain rfl := List.mem_singleton.1 hm
      exact absurd (he.resolve_left (by simp)) hx.1

theorem exists_range_concat {done : List (Event × StateSet)} {a b : Int} {T : StateSet}
    {P : Int → Int → StateSet → Prop} :
    (∃ a' b' T', (Event.range a' b', T') ∈ done ++ [(.range a b, T)] ∧ P a' b' T') ↔
      (∃ a' b' T', (Event.range a' b', T') ∈ done ∧ P a' b' T') ∨ P a b T := by
  simp only [List.mem_append, List.mem_singleton, Prod.mk.injEq, Event.range.injEq, or_and_right,
    exists_or, and_assoc, exists_and_left, exists_eq_left]

theorem exists_special_concat {done : List (Event × StateSet)} {sym sym' : Special}
    {T : StateSet} {P : StateSet → Prop} :
    (∃ T', (Event.special sym', T') ∈ done ++ [(.special sym, T)] ∧ P T') ↔
      (∃ T', (Event.special sym', T') ∈ done ∧ P T') ∨ sym' = sym ∧ P T := by
  simp only [List.mem_append, List.mem_singleton, Prod.mk.injEq, Event.special.injEq, or_and_right,
    exists_or, and_assoc, exists_and_left, exists_eq_left]

/-- A transition that is added, with the closure of its targets. -/
theorem Collected.addSet {done : List (Event × StateSet)} {t : TransitionMap}
    (h : Collected nfa done t) {event : Event} {T c : StateSet}
    (hrange : ∀ a b, event = .range a b → InRange a ∧ InRange b) (hne : T ≠ ∅)
    (hsym : event ≠ .special .epsilon) (hc : (c : Set Nat) = nfa.automaton.εClosure ↑T) :
    Collected nfa (done ++ [(event, T)]) (t.addSet event c) := by
  have hmem : ∀ x, x ∈ c ↔ x ∈ nfa.automaton.εClosure ↑T := fun x => by rw [← hc, Finset.mem_coe]
  rcases event with ⟨a, b⟩ | sym
  · obtain ⟨ha, hb⟩ := hrange a b rfl
    obtain ⟨hs, hcodes, hstates⟩ := addSet_range h.sorted ha hb c
    refine ⟨hs, fun d hlo hhi x => ?_, fun sym x => ?_, fun d => ?_⟩
    · rw [hstates d hlo hhi, exists_range_concat, ← h.mem_statesOf d hlo hhi]
      by_cases hd : a ≤ d ∧ d < b
      · rw [if_pos hd, Finset.mem_union, hmem, ← and_assoc, and_iff_right hd]
      · rw [if_neg hd]
        exact (or_iff_left fun hx => hd ⟨hx.1, hx.2.1⟩).symm
    · exact (h.mem_special sym x).trans (by simp)
    · rw [hcodes, h.mem_codes, exists_range_concat, and_or_left, or_assoc]
      refine or_congr_right (or_congr_right ⟨?_, ?_⟩)
      · rintro (⟨rfl, hd⟩ | ⟨rfl, hd⟩)
        · exact ⟨hd, hne, .inl rfl⟩
        · exact ⟨hd, hne, .inr rfl⟩
      · rintro ⟨hd, -, rfl | rfl⟩
        · exact .inl ⟨rfl, hd⟩
        · exact .inr ⟨rfl, hd⟩
  · refine ⟨h.sorted, fun d hlo hhi x => ?_, fun sym' x => ?_, fun d => ?_⟩
    · exact (h.mem_statesOf d hlo hhi x).trans (by simp)
    · rw [getSpecial_addSet, exists_special_concat]
      by_cases hd : sym' = sym
      · subst hd
        rw [if_pos rfl, Finset.mem_union, h.mem_special, hmem, and_or_left]
        have hsym' : sym' ≠ .epsilon := fun heq => hsym (congrArg _ heq)
        exact or_congr_right ⟨fun hx => ⟨hsym', rfl, hx⟩, fun hx => hx.2.2⟩
      · rw [if_neg hd, h.mem_special, or_iff_left fun hx => hd hx.1]
    · exact (h.mem_codes d).trans (by simp)

theorem Collected.collect {done : List (Event × StateSet)} {t : TransitionMap}
    (h : Collected nfa done t) {e : Event × StateSet}
    (hrange : ∀ a b, e.1 = .range a b → InRange a ∧ InRange b) :
    ∃ t', collect nfa t e = .ok t' ∧ Collected nfa (done ++ [e]) t' := by
  rw [StateMap.collect]
  by_cases hadd : e.1 ≠ .special .epsilon ∧ e.2 ≠ ∅
  · obtain ⟨c, hc, heq⟩ := nfa.setEpsilonClosure_spec e.2
    rw [if_pos hadd, hc]
    exact ⟨_, rfl, h.addSet hrange hadd.2 hadd.1 heq⟩
  · rw [if_neg hadd]
    rw [not_and_or, not_not, not_not] at hadd
    exact ⟨t, rfl, h.skip hadd⟩

theorem inRange_of_mem_codes {map : List (Int × StateSet)} (h : Sorted map) {c : Int}
    (hc : c ∈ codes map ∨ c = maxint) : InRange c := by
  rcases hc with hc | rfl
  · obtain ⟨e, he, rfl⟩ := List.mem_map.1 hc
    exact ⟨h.neg_maxint_le he, (h.lt _ hc).le⟩
  · exact ⟨by decide, le_rfl⟩

theorem transitionsOf_spec {oldStates : StateSet}
    (h : ∀ s ∈ oldStates, Sorted (nfa.node s).transitions.map) :
    ∃ t, transitionsOf nfa oldStates = .ok t ∧ Collected nfa (items nfa oldStates) t := by
  rw [transitionsOf_eq]
  refine foldlM_ok (d := []) (fun e he done t ht => ht.collect fun a b hab => ?_)
    (collected_nil nfa)
  obtain ⟨s, hs, hm⟩ := mem_items.1 he
  obtain ⟨event, T⟩ := e
  obtain rfl : event = .range a b := hab
  have hi := (h s hs).interval (mem_iteritems_range.1 hm).1
  exact ⟨inRange_of_mem_codes (h s hs) (.inl hi.start_mem), inRange_of_mem_codes (h s hs) hi.end_mem⟩

/-! ### Symbols -/

/-- The ranges of a map that contain a code lead to its states. -/
theorem exists_range_iff {t : TransitionMap} (h : Sorted t.map) {c : Int} (hlo : -maxint ≤ c)
    (hhi : c < maxint) (x : Nat) :
    (∃ a b T, (Event.range a b, T) ∈ t.iteritems ∧ a ≤ c ∧ c < b ∧
        x ∈ nfa.automaton.εClosure ↑T) ↔
      x ∈ nfa.automaton.εClosure ↑(statesOf t.map c) := by
  constructor
  · rintro ⟨a, b, T, hm, ha, hb, hx⟩
    rwa [(h.interval (mem_iteritems_range.1 hm).1).statesOf c ha hb]
  · intro hx
    obtain ⟨a, b, hm, ha, hb⟩ := h.exists_interval hlo hhi
    refine ⟨a, b, _, mem_iteritems_range.2 ⟨hm, .inl ?_⟩, ha, hb, hx⟩
    rintro hempty
    rw [hempty, Finset.coe_empty, εNFA.εClosure_empty] at hx
    exact hx

theorem exists_special_iff {t : TransitionMap} {sym : Special} (x : Nat) :
    (∃ T, (Event.special sym, T) ∈ t.iteritems ∧ x ∈ nfa.automaton.εClosure ↑T) ↔
      x ∈ nfa.automaton.εClosure ↑(t.getSpecial sym) := by
  constructor
  · rintro ⟨T, hm, hx⟩
    rwa [(mem_iteritems_special.1 hm).1]
  · intro hx
    refine ⟨_, mem_iteritems_special.2 ⟨rfl, ?_⟩, hx⟩
    intro hempty
    rw [hempty, Finset.coe_empty, εNFA.εClosure_empty] at hx
    exact hx

/-- The states of a code are those that the states of the set lead to. -/
theorem Collected.mem_statesOf_iff {oldStates : StateSet} {t : TransitionMap}
    (ht : Collected nfa (items nfa oldStates) t)
    (h : ∀ s ∈ oldStates, Sorted (nfa.node s).transitions.map) {c : Int} (hlo : -maxint ≤ c)
    (hhi : c < maxint) (x : Nat) : x ∈ statesOf t.map c ↔
      ∃ s ∈ oldStates, x ∈ nfa.automaton.εClosure ↑(statesOf (nfa.node s).transitions.map c) := by
  rw [ht.mem_statesOf c hlo hhi]
  simp only [mem_items]
  constructor
  · rintro ⟨a, b, T, ⟨s, hs, hm⟩, hx⟩
    exact ⟨s, hs, (exists_range_iff (h s hs) hlo hhi x).1 ⟨a, b, T, hm, hx⟩⟩
  · rintro ⟨s, hs, hx⟩
    obtain ⟨a, b, T, hm, hx⟩ := (exists_range_iff (h s hs) hlo hhi x).2 hx
    exact ⟨a, b, T, ⟨s, hs, hm⟩, hx⟩

theorem Collected.mem_special_iff {oldStates : StateSet} {t : TransitionMap}
    (ht : Collected nfa (items nfa oldStates) t) (sym : Special) (x : Nat) :
    x ∈ t.getSpecial sym ↔ sym ≠ .epsilon ∧
      ∃ s ∈ oldStates, x ∈ nfa.automaton.εClosure ↑((nfa.node s).transitions.getSpecial sym) := by
  rw [ht.mem_special]
  simp only [mem_items]
  refine and_congr_right fun _ => ⟨?_, ?_⟩
  · rintro ⟨T, ⟨s, hs, hm⟩, hx⟩
    exact ⟨s, hs, (exists_special_iff x).1 ⟨T, hm, hx⟩⟩
  · rintro ⟨s, hs, hx⟩
    obtain ⟨T, hm, hx⟩ := (exists_special_iff x).2 hx
    exact ⟨T, ⟨s, hs, hm⟩, hx⟩

/-- The set that a symbol leads to, in a map of transitions. -/
def targetsOf (t : TransitionMap) : Symbol → StateSet
  | .bol => t.getSpecial .bol
  | .eol => t.getSpecial .eol
  | .eof => t.getSpecial .eof
  | .char c => statesOf t.map c.val

theorem codePoint_lt_maxint (c : CodePoint) : (c.val : Int) < maxint := by
  have := c.isLt
  rw [maxint]
  omega

theorem neg_maxint_le_codePoint (c : CodePoint) : -maxint ≤ (c.val : Int) := by
  rw [maxint]
  omega

/-- In the map of a set of states, a symbol leads where it does in the automaton. -/
theorem Collected.targetsOf_eq {oldStates : StateSet} {t : TransitionMap}
    (ht : Collected nfa (items nfa oldStates) t)
    (h : ∀ s ∈ oldStates, Sorted (nfa.node s).transitions.map) (a : Symbol) :
    (targetsOf t a : Set Nat) = nfa.automaton.stepSet ↑oldStates a := by
  ext x
  rw [Finset.mem_coe, εNFA.mem_stepSet_iff]
  rcases a with _ | _ | _ | c
  · exact (ht.mem_special_iff .bol x).trans (and_iff_right (by decide))
  · exact (ht.mem_special_iff .eol x).trans (and_iff_right (by decide))
  · exact (ht.mem_special_iff .eof x).trans (and_iff_right (by decide))
  · exact ht.mem_statesOf_iff h (neg_maxint_le_codePoint c) (codePoint_lt_maxint c) x

/-! ### Wide ranges -/

/-- What the transition maps of an NFA are like: the comment of the source, and
    that codes are not negative and a first range with targets ends within the
    characters. -/
structure MapOk (t : TransitionMap) : Prop where
  sorted : Sorted t.map
  nonneg : ∀ c ∈ codes t.map, c = -maxint ∨ 0 ≤ c
  balanced : statesOf t.map (-maxint) = statesOf t.map (maxint - 1)
  first_end : statesOf t.map (-maxint) ≠ ∅ → ∃ c ∈ codes t.map, c ≠ -maxint ∧ c ≤ 0x110000

/-- A state with a transition on a range with a bound that is no character's code,
    nor the end of the characters, nor a sentinel. -/
def Wide (t : TransitionMap) : Prop :=
  ∃ a b T, (Event.range a b, T) ∈ t.iteritems ∧ T ≠ ∅ ∧
    ∃ c, (c = a ∨ c = b) ∧ 0x110000 < c ∧ c ≠ maxint

/-- A range that `FastMachine.add_transitions` has characters for. -/
def RangeOk (a b : Int) : Prop := a = -maxint ∨ b = maxint ∨ 0 ≤ a ∧ b ≤ 0x110000

variable {oldStates : StateSet} {t : TransitionMap}

/-- The sets at both ends of the codes are the same, as they are in every state. -/
theorem Collected.balanced (ht : Collected nfa (items nfa oldStates) t)
    (h : ∀ s ∈ oldStates, MapOk (nfa.node s).transitions) :
    statesOf t.map (-maxint) = statesOf t.map (maxint - 1) := by
  ext x
  rw [ht.mem_statesOf_iff (fun s hs => (h s hs).sorted) le_rfl (by decide),
    ht.mem_statesOf_iff (fun s hs => (h s hs).sorted) (by decide) (by decide)]
  exact exists_congr fun s => and_congr_right fun hs => by rw [(h s hs).balanced]

theorem Collected.rangeOk (ht : Collected nfa (items nfa oldStates) t)
    (h : ∀ s ∈ oldStates, MapOk (nfa.node s).transitions)
    (hn : ∀ s ∈ oldStates, ¬Wide (nfa.node s).transitions) {a b : Int} {T : StateSet}
    (hm : (Event.range a b, T) ∈ t.iteritems) : RangeOk a b := by
  have hi := ht.sorted.interval (mem_iteritems_range.1 hm).1
  by_cases ha : a = -maxint
  · exact .inl ha
  by_cases hb : b = maxint
  · exact .inr (.inl hb)
  refine .inr (.inr ⟨?_, ?_⟩)
  · obtain ⟨-, a', b', T', hm', -, hab⟩ := ((ht.mem_codes a).1 hi.start_mem).resolve_left ha
    obtain ⟨s, hs, hm'⟩ := mem_items.1 hm'
    have hi' := (h s hs).sorted.interval (mem_iteritems_range.1 hm').1
    rcases hab with rfl | rfl
    · exact ((h s hs).nonneg a hi'.start_mem).resolve_left ha
    · rcases hi'.end_mem with he | he
      · exact ((h s hs).nonneg a he).resolve_left ha
      · rw [he]
        decide
  · have hb' : b ≠ -maxint := by
      have hr := (inRange_of_mem_codes ht.sorted (.inl hi.start_mem)).1
      have hlt := hi.lt
      omega
    obtain ⟨-, a', b', T', hm', hne, hab⟩ :=
      ((ht.mem_codes b).1 (hi.end_mem.resolve_right hb)).resolve_left hb'
    obtain ⟨s, hs, hm'⟩ := mem_items.1 hm'
    by_contra hlt
    exact hn s hs ⟨a', b', T', hm', hne, b, hab, not_le.1 hlt, hb⟩

/-- The bounds of a range with targets are split points of the map of the set. -/
theorem Collected.bounds_mem (ht : Collected nfa (items nfa oldStates) t) {s : Nat}
    (hs : s ∈ oldStates) {a b : Int} {T : StateSet}
    (hm : (Event.range a b, T) ∈ (nfa.node s).transitions.iteritems) (hne : T ≠ ∅) :
    (a ≠ maxint → a ∈ codes t.map) ∧ (b ≠ maxint → b ∈ codes t.map) :=
  ⟨fun ha => (ht.mem_codes a).2 (.inr ⟨ha, a, b, T, mem_items.2 ⟨s, hs, hm⟩, hne, .inl rfl⟩),
    fun hb => (ht.mem_codes b).2 (.inr ⟨hb, a, b, T, mem_items.2 ⟨s, hs, hm⟩, hne, .inr rfl⟩)⟩

/-- The states of a code in a range with targets. -/
theorem Collected.statesOf_ne_empty (ht : Collected nfa (items nfa oldStates) t) {s : Nat}
    (hs : s ∈ oldStates) {a b c : Int} {T : StateSet}
    (hm : (Event.range a b, T) ∈ (nfa.node s).transitions.iteritems) (hne : T ≠ ∅)
    (hlo : -maxint ≤ c) (hhi : c < maxint) (ha : a ≤ c) (hb : c < b) : statesOf t.map c ≠ ∅ := by
  obtain ⟨x, hx⟩ := Finset.nonempty_iff_ne_empty.2 hne
  exact Finset.ne_empty_of_mem ((ht.mem_statesOf c hlo hhi x).2
    ⟨a, b, T, mem_items.2 ⟨s, hs, hm⟩, ha, hb, nfa.automaton.subset_εClosure _ hx⟩)

/-- If every range of the map of a set has characters, no state of the set is wide:
    the split point next to a wide bound would be that of such a range. -/
theorem Collected.not_wide (ht : Collected nfa (items nfa oldStates) t)
    (h : ∀ s ∈ oldStates, MapOk (nfa.node s).transitions)
    (hok : ∀ a b T, (Event.range a b, T) ∈ t.iteritems → RangeOk a b) {s : Nat}
    (hs : s ∈ oldStates) : ¬Wide (nfa.node s).transitions := by
  rintro ⟨a, b, T, hm, hne, c, hc, hlt, hmax⟩
  have hsorted := (h s hs).sorted
  have hi := hsorted.interval (mem_iteritems_range.1 hm).1
  obtain ⟨ha, hb⟩ := ht.bounds_mem hs hm hne
  have hrange := inRange_of_mem_codes hsorted (.inl hi.start_mem)
  have hrange' := inRange_of_mem_codes hsorted hi.end_mem
  have hab := hi.lt
  have hmaxint : maxint = 2147483647 := rfl
  -- A range of the map that starts after the first split point, and ends before a
  -- wide one that it is next to, has no character for its last code.
  have key : ∀ x y, x ∈ codes t.map → x ≠ -maxint → y ∈ codes t.map → 0x110000 < y → x < y →
      (statesOf t.map (y - 1) ≠ ∅ ∨ t.elseSet) → False := by
    intro x y hx hx' hy hwide hxy hitem
    have hyr := inRange_of_mem_codes ht.sorted (.inl hy)
    have hxr := inRange_of_mem_codes ht.sorted (.inl hx)
    have hylt := ht.sorted.lt y hy
    obtain ⟨a', b', hm', ha', hb'⟩ := ht.sorted.exists_interval
      (show -maxint ≤ y - 1 by have := hyr.1; omega) (show y - 1 < maxint by omega)
    have hi' := ht.sorted.interval hm'
    have h₁ := hi'.not_mem x hx
    have h₂ := hi'.not_mem y hy
    have h₃ := hxr.1
    rcases hok a' b' _ (mem_iteritems_range.2 ⟨hm', hitem⟩) with h | h | h <;> omega
  have hfirst : statesOf (nfa.node s).transitions.map (-maxint) ≠ ∅ →
      ∃ b₀ T₀, (Event.range (-maxint) b₀, T₀) ∈ (nfa.node s).transitions.iteritems ∧ T₀ ≠ ∅ ∧
        -maxint < b₀ ∧ b₀ ≤ 0x110000 := by
    intro hne₀
    obtain ⟨c₁, hc₁, hc₁', hle⟩ := (h s hs).first_end hne₀
    obtain ⟨a₀, b₀, hm₀, ha₀, hb₀⟩ := hsorted.exists_interval le_rfl (by decide : -maxint < maxint)
    have hi₀ := hsorted.interval hm₀
    have hr₀ := (inRange_of_mem_codes hsorted (.inl hi₀.start_mem)).1
    have hr₁ := (inRange_of_mem_codes hsorted (.inl hc₁)).1
    obtain rfl : a₀ = -maxint := by omega
    have := hi₀.not_mem c₁ hc₁ (by omega)
    exact ⟨b₀, _, mem_iteritems_range.2 ⟨hm₀, .inl hne₀⟩, hne₀, hb₀, by omega⟩
  by_cases hbmax : b = maxint
  · -- The last range, so that the first one has targets as well.
    subst hbmax
    obtain rfl : c = a := hc.resolve_right hmax
    have hlast : statesOf (nfa.node s).transitions.map (-maxint) = T := by
      rw [(h s hs).balanced]
      exact hi.statesOf _ (by omega) (by omega)
    obtain ⟨b₀, T₀, hm₀, hne₀, hlt₀, hle₀⟩ := hfirst (hlast ▸ hne)
    refine key b₀ c ((ht.bounds_mem hs hm₀ hne₀).2 (by omega)) (by omega) (ha hmax) hlt (by omega)
      (.inr ((elseSet_eq_true_iff ht.sorted).2 ?_))
    exact ht.statesOf_ne_empty hs hm₀ hne₀ le_rfl (by decide) le_rfl hlt₀
  · have hwide : 0x110000 < b := by
      rcases hc with rfl | rfl <;> omega
    have ha' : a ≠ -maxint := by
      rintro rfl
      obtain ⟨c₁, hc₁, hc₁', hle⟩ := (h s hs).first_end
        (by rw [hi.statesOf _ le_rfl hab]; exact hne)
      have hr₁ := (inRange_of_mem_codes hsorted (.inl hc₁)).1
      have := hi.not_mem c₁ hc₁ (by omega)
      omega
    have hrb := hrange'.2
    exact key a b (ha (by omega)) ha' (hb hbmax) hwide hab (.inl (ht.statesOf_ne_empty hs hm hne
      (by have := hrange.1; omega) (by omega) (by omega) (by omega)))

end StateMap

end AHPy.Plex
