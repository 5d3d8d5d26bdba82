import AHPy.Plex.Regexps
import AHPy.Plex.Equivalence

/-!
# The NFA of a lexicon

The NFA of every lexicon is in order (`nfa_good`): the transition maps are as their
comment says, and a state has an action if it has a priority. The sets of the first
and the last range of a map are the same because the ranges of an `AnyBut` leave one
state for one other (`AddsEnds`), and no other range is without bound.
-/

namespace AHPy.Plex

open StateMap TransitionMap

variable {A : Type}

/-! ## Nodes -/

/-- A node apart from the sets of its first and last range. -/
structure NodeOk (n : Node A) : Prop where
  sorted : Sorted n.transitions.map
  nonneg : ∀ c ∈ codes n.transitions.map, c = -maxint ∨ 0 ≤ c
  first_end : statesOf n.transitions.map (-maxint) ≠ ∅ →
    ∃ c ∈ codes n.transitions.map, c ≠ -maxint ∧ c ≤ 0x110000
  action : n.action.isSome ↔ lowestPriority < n.actionPriority
  lowest_le : lowestPriority ≤ n.actionPriority

/-- The set of the first range. -/
def low (n : Node A) : StateSet := statesOf n.transitions.map (-maxint)

/-- The set of the last range. -/
def high (n : Node A) : StateSet := statesOf n.transitions.map (maxint - 1)

theorem nodeOk_new : NodeOk (Node.new : Node A) where
  sorted := sorted_new
  nonneg := by simp [Node.new, TransitionMap.new, codes]
  first_end := by simp [Node.new, TransitionMap.new, statesOf]
  action := by simp [Node.new]
  lowest_le := le_rfl

/-- The ranges that lexicons have transitions for. -/
def EndsIn (code0 code1 : Int) : Prop :=
  code0 = -maxint ∧ 0 ≤ code1 ∧ code1 ≤ 0x110000 ∨
    0 ≤ code0 ∧ code0 < maxint ∧ 0 ≤ code1 ∧ code1 ≤ maxint

theorem NodeOk.addRange {n : Node A} (h : NodeOk n) {code0 code1 : Int} (hr : EndsIn code0 code1)
    (f : Nat) :
    NodeOk { n with transitions := n.transitions.add (.range code0 code1) f } ∧
      low { n with transitions := n.transitions.add (.range code0 code1) f } =
        low n ∪ (if code0 = -maxint then {f} else ∅) ∧
      high { n with transitions := n.transitions.add (.range code0 code1) f } =
        high n ∪ (if code1 = maxint then {f} else ∅) := by
  have hmaxint : maxint = 2147483647 := rfl
  have h₀ : InRange code0 := by
    rcases hr with hr | hr <;> constructor <;> omega
  have h₁ : InRange code1 := by
    rcases hr with hr | hr <;> constructor <;> omega
  obtain ⟨hs, hcodes, hstates⟩ := addSet_range h.sorted h₀ h₁ {f}
  have hlow : statesOf (n.transitions.add (.range code0 code1) f).map (-maxint) =
      low n ∪ (if code0 = -maxint then {f} else ∅) := by
    rw [TransitionMap.add, hstates _ le_rfl (by decide), low]
    by_cases hc : code0 = -maxint
    · rw [if_pos (by rcases hr with hr | hr <;> constructor <;> omega), if_pos hc]
    · rw [if_neg (by rcases hr with hr | hr <;> omega), if_neg hc, Finset.union_empty]
  refine ⟨⟨hs, fun c hc => ?_, fun hne => ?_, h.action, h.lowest_le⟩, hlow, ?_⟩
  · rcases (hcodes c).1 hc with hc | ⟨rfl, -⟩ | ⟨rfl, -⟩
    · exact h.nonneg c hc
    · exact hr.imp And.left And.left
    · exact .inr (by rcases hr with hr | hr <;> omega)
  · by_cases hc : code0 = -maxint
    · have hend : 0 ≤ code1 ∧ code1 ≤ 0x110000 := by rcases hr with hr | hr <;> omega
      exact ⟨code1, (hcodes code1).2 (.inr (.inr ⟨rfl, by omega⟩)), by omega, hend.2⟩
    · rw [hlow, if_neg hc, Finset.union_empty] at hne
      obtain ⟨c, hc, hle⟩ := h.first_end hne
      exact ⟨c, (hcodes c).2 (.inl hc), hle⟩
  · rw [high, high, TransitionMap.add, hstates _ (by decide) (by decide)]
    by_cases hc : code1 = maxint
    · rw [if_pos (by rcases hr with hr | hr <;> constructor <;> omega), if_pos hc]
    · rw [if_neg (by rcases hr with hr | hr <;> omega), if_neg hc, Finset.union_empty]

theorem NodeOk.addSpecial {n : Node A} (h : NodeOk n) (sym : Special) (f : Nat) :
    NodeOk { n with transitions := n.transitions.add (.special sym) f } :=
  ⟨h.sorted, h.nonneg, h.first_end, h.action, h.lowest_le⟩

theorem NodeOk.setAction {n : Node A} (h : NodeOk n) (action : A) (priority : Int) :
    NodeOk (n.setAction action priority) := by
  rw [Node.setAction]
  split
  next hlt =>
    have hpos := h.lowest_le.trans_lt hlt
    exact ⟨h.sorted, h.nonneg, h.first_end, by simp [hpos], hpos.le⟩
  next => exact h

/-! ## Machines -/

/-- All nodes of a machine are in order, except for the sets of the ends. -/
def NodesOk (m : Machine A) : Prop := ∀ s, NodeOk (m.node s)

/-- From `m` to `m'`, the first range of the state `i` leads to `f` as well (`lo`),
    or the last one does (`hi`); nothing else happens at the ends. -/
structure AddsEnds (i f : Nat) (lo hi : Bool) (m m' : Machine A) : Prop where
  length_le : m.states.length ≤ m'.states.length
  nodesOk : NodesOk m'
  low : ∀ s, low (m'.node s) = low (m.node s) ∪ if s = i ∧ lo then {f} else ∅
  high : ∀ s, high (m'.node s) = high (m.node s) ∪ if s = i ∧ hi then {f} else ∅

theorem AddsEnds.trans {i f : Nat} {lo hi lo' hi' : Bool} {m m' m'' : Machine A}
    (h : AddsEnds i f lo hi m m') (h' : AddsEnds i f lo' hi' m' m'') :
    AddsEnds i f (lo || lo') (hi || hi') m m'' where
  length_le := h.length_le.trans h'.length_le
  nodesOk := h'.nodesOk
  low := by
    intro s
    rw [h'.low, h.low]
    by_cases hs : s = i <;> rcases lo with _ | _ <;> rcases lo' with _ | _ <;> simp [hs]
  high := by
    intro s
    rw [h'.high, h.high]
    by_cases hs : s = i <;> rcases hi with _ | _ <;> rcases hi' with _ | _ <;> simp [hs]

theorem NodesOk.refl {m : Machine A} (h : NodesOk m) (i f : Nat) : AddsEnds i f false false m m where
  length_le := le_rfl
  nodesOk := h
  low := by simp
  high := by simp

/-- What happens at no end may be said of any state. -/
theorem AddsEnds.of_false {i f i' f' : Nat} {m m' : Machine A} (h : AddsEnds i f false false m m') :
    AddsEnds i' f' false false m m' where
  length_le := h.length_le
  nodesOk := h.nodesOk
  low := fun s => by simpa using h.low s
  high := fun s => by simpa using h.high s

theorem NodesOk.newState {m : Machine A} (h : NodesOk m) (i f : Nat) :
    AddsEnds i f false false m m.newState.2 where
  length_le := by simp [Machine.newState]
  nodesOk := fun s => by
    rw [Machine.node_newState]
    exact h s
  low := by simp
  high := by simp

theorem NodesOk.addSpecial {m : Machine A} (h : NodesOk m) (i f state : Nat) (sym : Special)
    (newState : Nat) :
    AddsEnds i f false false m (m.addTransition state (.special sym) newState) := by
  have hnode : ∀ s, NodeOk ((m.addTransition state (.special sym) newState).node s) ∧
      low ((m.addTransition state (.special sym) newState).node s) = low (m.node s) ∧
      high ((m.addTransition state (.special sym) newState).node s) = high (m.node s) := by
    intro s
    rw [Machine.addTransition, Machine.node_modifyNode]
    split
    · exact ⟨(h s).addSpecial sym newState, rfl, rfl⟩
    · exact ⟨h s, rfl, rfl⟩
  refine ⟨?_, fun s => (hnode s).1, fun s => ?_, fun s => ?_⟩
  · simp [Machine.addTransition, Machine.modifyNode]
  · simpa using (hnode s).2.1
  · simpa using (hnode s).2.2

theorem NodesOk.addRange {m : Machine A} (h : NodesOk m) {i : Nat} (hi : i < m.states.length)
    (f : Nat) {code0 code1 : Int} (hr : EndsIn code0 code1) :
    AddsEnds i f (code0 = -maxint) (code1 = maxint) m
      (m.addTransition i (.range code0 code1) f) := by
  have hnode : ∀ s, NodeOk ((m.addTransition i (.range code0 code1) f).node s) ∧
      low ((m.addTransition i (.range code0 code1) f).node s) =
        low (m.node s) ∪ (if s = i ∧ code0 = -maxint then {f} else ∅) ∧
      high ((m.addTransition i (.range code0 code1) f).node s) =
        high (m.node s) ∪ (if s = i ∧ code1 = maxint then {f} else ∅) := by
    intro s
    rw [Machine.addTransition, Machine.node_modifyNode]
    by_cases hs : s = i
    · subst hs
      simp only [hi, and_self, if_true, true_and]
      exact (h s).addRange hr f
    · rw [if_neg fun hc => hs hc.1]
      simp [hs, h s]
  refine ⟨?_, fun s => (hnode s).1, fun s => ?_, fun s => ?_⟩
  · simp [Machine.addTransition, Machine.modifyNode]
  · simpa using (hnode s).2.1
  · simpa using (hnode s).2.2

theorem NodesOk.buildOpt {m : Machine A} (h : NodesOk m) (i f state : Nat) (sym : Special) :
    AddsEnds i f false false m (m.buildOpt state sym).2 ∧
      (m.buildOpt state sym).1 < (m.buildOpt state sym).2.states.length := by
  have h₁ := h.newState i f
  have h₂ := h₁.nodesOk.addSpecial i f state .epsilon m.newState.1
  have h₃ := h₂.nodesOk.addSpecial i f state sym m.newState.1
  refine ⟨h₁.trans (h₂.trans h₃), ?_⟩
  refine lt_of_lt_of_le ?_ (h₂.trans h₃).length_le
  simp [Machine.newState, Machine.buildOpt]

theorem NodesOk.buildBol {m : Machine A} (h : NodesOk m) (i f state : Nat) (matchBol : Bool)
    (hs : state < m.states.length) :
    AddsEnds i f false false m (m.buildBol state matchBol).2 ∧
      (m.buildBol state matchBol).1 < (m.buildBol state matchBol).2.states.length := by
  rcases matchBol with _ | _
  · exact ⟨h.refl i f, hs⟩
  · exact h.buildOpt i f state .bol

/-- An NFA in order, in which the first and the last range of every state have the
    same set. -/
structure Good (m : Machine A) : Prop where
  nodesOk : NodesOk m
  balanced : ∀ s, low (m.node s) = high (m.node s)

/-- `m'` is in order and has the states of `m`. -/
structure Grows (m m' : Machine A) : Prop where
  good : Good m'
  length_le : m.states.length ≤ m'.states.length

theorem Grows.trans {m m' m'' : Machine A} (h : Grows m m') (h' : Grows m' m'') : Grows m m'' :=
  ⟨h'.good, h.length_le.trans h'.length_le⟩

theorem Good.refl {m : Machine A} (h : Good m) : Grows m m := ⟨h, le_rfl⟩

/-- With both ends, or none, the first and the last range stay the same. -/
theorem AddsEnds.grows {i f : Nat} {ends : Bool} {m m' : Machine A}
    (h : AddsEnds i f ends ends m m') (hm : Good m) : Grows m m' :=
  ⟨⟨h.nodesOk, fun s => by rw [h.low, h.high, hm.balanced]⟩, h.length_le⟩

theorem good_new : Good (Machine.new : Machine A) where
  nodesOk := fun _ => nodeOk_new
  balanced := fun _ => rfl

theorem Good.newState {m : Machine A} (h : Good m) : Grows m m.newState.2 :=
  (h.nodesOk.newState 0 0).grows h

theorem Good.linkTo {m : Machine A} (h : Good m) (state newState : Nat) :
    Grows m (m.linkTo state newState) :=
  (h.nodesOk.addSpecial 0 0 state .epsilon newState).grows h

theorem Good.buildBol {m : Machine A} (h : Good m) {i : Nat} (hi : i < m.states.length)
    (matchBol : Bool) : Grows m (m.buildBol i matchBol).2 ∧
      (m.buildBol i matchBol).1 < (m.buildBol i matchBol).2.states.length := by
  obtain ⟨hg, hlt⟩ := h.nodesOk.buildBol 0 0 i matchBol hi
  exact ⟨hg.grows h, hlt⟩

/-! ## Ranges of characters -/

section Ranges

variable {m : Machine A} {i f : Nat} {nocase : Bool}

theorem endsIn_of_bounded {code0 code1 : Int} (h₀ : 0 ≤ code0 ∧ code0 < maxint)
    (h₁ : 0 ≤ code1 ∧ code1 < maxint) : EndsIn code0 code1 :=
  .inr ⟨h₀.1, h₀.2, h₁.1, h₁.2.le⟩

/-- A range of letters. -/
theorem NodesOk.addLetters (h : NodesOk m) (hi : i < m.states.length) (f : Nat)
    {range : Option (Int × Int)} (hr : ∀ r ∈ range, (0 ≤ r.1 ∧ r.1 < 256) ∧ 0 ≤ r.2 ∧ r.2 < 256) :
    AddsEnds i f false false m (m.addRange i f range) := by
  rcases range with _ | r
  · exact h.refl i f
  · obtain ⟨h₀, h₁⟩ := hr r rfl
    have hmaxint : maxint = 2147483647 := rfl
    have hends : EndsIn r.1 r.2 := endsIn_of_bounded (by omega) (by omega)
    have hadds := h.addRange hi f hends
    rwa [decide_eq_false (by omega), decide_eq_false (by omega)] at hadds

theorem uppercaseRange_bounded (code1 code2 : Int) : ∀ r ∈ uppercaseRange code1 code2,
    (0 ≤ r.1 ∧ r.1 < 256) ∧ 0 ≤ r.2 ∧ r.2 < 256 := by
  intro r hr
  rw [uppercaseRange] at hr
  by_cases h : max code1 97 < min code2 (122 + 1)
  · obtain rfl := Option.some.inj ((if_pos h).symm.trans hr)
    simp only
    omega
  · exact absurd ((if_neg h).symm.trans hr) (Option.some_ne_none r).symm

theorem lowercaseRange_bounded (code1 code2 : Int) : ∀ r ∈ lowercaseRange code1 code2,
    (0 ≤ r.1 ∧ r.1 < 256) ∧ 0 ≤ r.2 ∧ r.2 < 256 := by
  intro r hr
  rw [lowercaseRange] at hr
  by_cases h : max code1 65 < min code2 (90 + 1)
  · obtain rfl := Option.some.inj ((if_pos h).symm.trans hr)
    simp only
    omega
  · exact absurd ((if_neg h).symm.trans hr) (Option.some_ne_none r).symm

/-- Building a range that starts at `i`. -/
theorem NodesOk.rawCodeRange (h : NodesOk m) (hi : i < m.states.length) (f : Nat)
    {code1 code2 : Int} (hr : EndsIn code1 code2) (nocase : Bool) :
    AddsEnds i f (code1 = -maxint) (code2 = maxint) m
      (RE.buildMachine i f false nocase (.rawCodeRange code1 code2) m) := by
  have h₁ := h.addRange hi f hr
  rw [RE.buildMachine]
  simp only [Machine.buildBol]
  rcases nocase with _ | _
  · exact h₁
  · have hi₁ := hi.trans_le h₁.length_le
    have h₂ := h₁.nodesOk.addLetters hi₁ f (uppercaseRange_bounded code1 code2)
    have h₃ := h₂.nodesOk.addLetters (hi₁.trans_le h₂.length_le) f
      (lowercaseRange_bounded code1 code2)
    simpa using h₁.trans (h₂.trans h₃)

theorem NodesOk.rawNewline (h : NodesOk m) (hi : i < m.states.length) (i' f f' : Nat)
    (matchBol nocase : Bool) :
    AddsEnds i' f' false false m (RE.buildMachine i f matchBol nocase .rawNewline m) := by
  rw [RE.buildMachine]
  obtain ⟨h₁, -⟩ := h.buildBol i' f' i matchBol hi
  obtain ⟨h₂, hlt⟩ := h₁.nodesOk.buildOpt i' f' (m.buildBol i matchBol).1 .eol
  have hends : EndsIn nlCode (nlCode + 1) := endsIn_of_bounded (by decide) (by decide)
  have h₃ := h₂.nodesOk.addRange hlt f hends
  rw [decide_eq_false (by decide), decide_eq_false (by decide)] at h₃
  exact h₁.trans (h₂.trans h₃.of_false)

theorem nullable_codeRange (code1 code2 : Int) : (codeRange code1 code2).nullable = false := by
  rw [codeRange]
  split <;> rfl

/-- The ranges of an `Any` or `AnyBut`. -/
def CodesIn (code1 code2 : Int) : Prop :=
  (code1 = -maxint ∧ (code2 ≤ 0x110000 ∨ code2 = maxint) ∨ 0 ≤ code1 ∧ code1 < maxint) ∧
    0 ≤ code2 ∧ code2 ≤ maxint

theorem NodesOk.codeRange (h : NodesOk m) (hi : i < m.states.length) (f : Nat)
    {code1 code2 : Int} (hr : CodesIn code1 code2) (nocase : Bool) :
    AddsEnds i f (code1 = -maxint) (code2 = maxint) m
      (RE.buildMachine i f false nocase (codeRange code1 code2) m) := by
  have hmaxint : maxint = 2147483647 := rfl
  have hnl : nlCode = 10 := rfl
  rw [Plex.codeRange]
  by_cases hnewline : code1 ≤ nlCode ∧ nlCode < code2
  · rw [if_pos hnewline]
    have hbefore : EndsIn code1 nlCode := by
      rcases hr with ⟨hr | hr, hr'⟩ <;> [left; right] <;> omega
    have hafter : EndsIn (nlCode + 1) code2 := .inr (by obtain ⟨-, hr'⟩ := hr; omega)
    have h₁ := h.rawCodeRange hi f hbefore nocase
    have hi₁ := hi.trans_le h₁.length_le
    have h₂ := h₁.nodesOk.rawNewline hi₁ i f f false nocase
    have h₃ := h₂.nodesOk.rawCodeRange (hi₁.trans_le h₂.length_le) f hafter nocase
    have h' := h₁.trans (h₂.trans h₃)
    rw [decide_eq_false (show ¬nlCode = maxint by omega),
      decide_eq_false (show ¬nlCode + 1 = -maxint by omega)] at h'
    simpa [RE.buildMachine, RE.buildEach, RE.nullable, Machine.buildBol] using h'
  · rw [if_neg hnewline]
    refine h.rawCodeRange hi f ?_ nocase
    rcases hr with ⟨hr | hr, hr'⟩ <;> [left; right] <;> omega

/-- Building ranges, of which those at the ends lead to `f`. -/
theorem NodesOk.buildEach_codeRange (h : NodesOk m) (hi : i < m.states.length) (f : Nat)
    {ranges : List (Int × Int)} (hr : ∀ r ∈ ranges, CodesIn r.1 r.2) (nocase : Bool) :
    AddsEnds i f (ranges.any fun r => r.1 = -maxint) (ranges.any fun r => r.2 = maxint) m
      (RE.buildEach i f false nocase false (ranges.map fun r => Plex.codeRange r.1 r.2) m) := by
  induction ranges generalizing m with
  | nil => exact h.refl i f
  | cons r ranges ih =>
    have h₁ := h.codeRange hi f (hr r List.mem_cons_self) nocase
    have h₂ := ih h₁.nodesOk (hi.trans_le h₁.length_le) fun r' hr' =>
      hr r' (List.mem_cons_of_mem r hr')
    rw [List.map_cons, RE.buildEach, if_pos (nullable_codeRange r.1 r.2), List.any_cons,
      List.any_cons]
    exact h₁.trans h₂

theorem buildEach_codeRange_nullable (i f : Nat) (matchBol nocase : Bool)
    (ranges : List (Int × Int)) (m : Machine A) :
    RE.buildEach i f matchBol nocase true (ranges.map fun r => Plex.codeRange r.1 r.2) m = m := by
  induction ranges with
  | nil => rfl
  | cons r ranges ih =>
    rw [List.map_cons, RE.buildEach, if_neg (by rw [nullable_codeRange]; decide), ih]

/-- An `Any`, `AnyBut` or `Range`: either both ends lead to the final state, or none. -/
theorem Good.codeRanges (h : Good m) (hi : i < m.states.length) (f : Nat)
    {ranges : List (Int × Int)} (hr : ∀ r ∈ ranges, CodesIn r.1 r.2)
    (hends : (ranges.any fun r => r.1 = -maxint) = ranges.any fun r => r.2 = maxint)
    (matchBol nocase : Bool) :
    Grows m (RE.buildMachine i f matchBol nocase
      (.alt (ranges.map fun r => Plex.codeRange r.1 r.2)) m) := by
  rw [RE.buildMachine, buildEach_codeRange_nullable]
  split
  · obtain ⟨h₁, hlt⟩ := h.buildBol hi matchBol
    have h₂ := h₁.good.nodesOk.buildEach_codeRange hlt f hr nocase
    rw [hends] at h₂
    exact h₁.trans (h₂.grows h₁.good)
  · exact h.refl

end Ranges

/-! ## Regular expressions -/

/-- The regular expressions of lexicons: ranges without bound come in pairs only. -/
inductive RE.Ok : RE → Prop
  | rawCodeRange {code1 code2 : Int} (h₀ : 0 ≤ code1 ∧ code1 < maxint)
      (h₁ : 0 ≤ code2 ∧ code2 < maxint) : RE.Ok (.rawCodeRange code1 code2)
  | rawNewline : RE.Ok .rawNewline
  | specialSymbol (sym : Special) : RE.Ok (.specialSymbol sym)
  | codeRanges {ranges : List (Int × Int)} (hr : ∀ r ∈ ranges, CodesIn r.1 r.2)
      (hends : (ranges.any fun r => r.1 = -maxint) = ranges.any fun r => r.2 = maxint) :
      RE.Ok (.alt (ranges.map fun r => codeRange r.1 r.2))
  | seq {reList : List RE} (h : ∀ re ∈ reList, RE.Ok re) : RE.Ok (.seq reList)
  | alt {reList : List RE} (h : ∀ re ∈ reList, RE.Ok re) : RE.Ok (.alt reList)
  | rep1 {re : RE} (h : RE.Ok re) : RE.Ok (.rep1 re)
  | switchCase {re : RE} (h : RE.Ok re) (nocase : Bool) : RE.Ok (.switchCase re nocase)

/-- Building an RE keeps a machine in order. -/
def RE.Builds (A : Type) (re : RE) : Prop :=
  ∀ (i f : Nat) (matchBol nocase : Bool) (m : Machine A), Good m → i < m.states.length →
    Grows m (re.buildMachine i f matchBol nocase m)

theorem RE.buildSeq_grows {reList : List RE} (h : ∀ re ∈ reList, re.Builds A) (i f : Nat)
    (matchBol nocase : Bool) (m : Machine A) (hm : Good m) (hi : i < m.states.length) :
    Grows m (RE.buildSeq i f matchBol nocase reList m) := by
  induction reList generalizing i matchBol m with
  | nil => exact hm.linkTo i f
  | cons re reList ih =>
    rcases reList with _ | ⟨re', reList⟩
    · exact h re List.mem_cons_self i f matchBol nocase m hm hi
    · have h₁ := hm.newState
      have h₂ := h re List.mem_cons_self i m.newState.1 matchBol nocase _ h₁.good
        (hi.trans_le h₁.length_le)
      have hs : m.newState.1 < m.newState.2.states.length := by simp [Machine.newState]
      exact (h₁.trans h₂).trans (ih (fun re hre => h re (List.mem_cons_of_mem _ hre)) _ _ _
        h₂.good (hs.trans_le h₂.length_le))

theorem RE.buildEach_grows {reList : List RE} (h : ∀ re ∈ reList, re.Builds A) (i f : Nat)
    (matchBol nocase nullableOnes : Bool) (m : Machine A) (hm : Good m)
    (hi : i < m.states.length) :
    Grows m (RE.buildEach i f matchBol nocase nullableOnes reList m) := by
  induction reList generalizing m with
  | nil => exact hm.refl
  | cons re reList ih =>
    have hrest := fun re' hre' => h re' (List.mem_cons_of_mem re hre')
    rw [RE.buildEach]
    split
    · have h₁ := h re List.mem_cons_self i f matchBol nocase m hm hi
      exact h₁.trans (ih hrest _ h₁.good (hi.trans_le h₁.length_le))
    · exact ih hrest m hm hi

theorem RE.Ok.builds {re : RE} (h : RE.Ok re) : re.Builds A := by
  induction h with
  | @rawCodeRange code1 code2 h₀ h₁ =>
    intro i f matchBol nocase m hm hi
    obtain ⟨hg, hlt⟩ := hm.buildBol hi matchBol
    have hmaxint : maxint = 2147483647 := rfl
    have hr := hg.good.nodesOk.rawCodeRange hlt f (endsIn_of_bounded h₀ h₁) nocase
    rw [decide_eq_false (show ¬code1 = -maxint by omega),
      decide_eq_false (show ¬code2 = maxint by omega)] at hr
    exact hg.trans (hr.grows hg.good)
  | rawNewline =>
    intro i f matchBol nocase m hm hi
    exact (hm.nodesOk.rawNewline hi 0 f 0 matchBol nocase).grows hm
  | specialSymbol sym =>
    intro i f matchBol nocase m hm hi
    rw [RE.buildMachine]
    obtain ⟨hg, -⟩ := hm.buildBol hi (matchBol && decide (sym = .eol))
    exact hg.trans ((hg.good.nodesOk.addSpecial 0 0 _ sym f).grows hg.good)
  | codeRanges hr hends =>
    intro i f matchBol nocase m hm hi
    exact hm.codeRanges hi f hr hends matchBol nocase
  | seq _ ih =>
    intro i f matchBol nocase m hm hi
    rw [RE.buildMachine]
    exact RE.buildSeq_grows ih i f matchBol nocase m hm hi
  | alt _ ih =>
    intro i f matchBol nocase m hm hi
    rw [RE.buildMachine]
    have h₁ := RE.buildEach_grows ih i f matchBol nocase true m hm hi
    split
    · obtain ⟨h₂, hlt⟩ := h₁.good.buildBol (hi.trans_le h₁.length_le) matchBol
      exact h₁.trans (h₂.trans (RE.buildEach_grows ih _ f false nocase false _ h₂.good hlt))
    · exact h₁
  | @rep1 re _ ih =>
    intro i f matchBol nocase m hm hi
    rw [RE.buildMachine]
    have h₁ := hm.newState
    have h₂ := h₁.good.newState
    have h₃ := h₂.good.linkTo i m.newState.1
    have hs : m.newState.1 < m.newState.2.states.length := by simp [Machine.newState]
    have h₄ := ih m.newState.1 m.newState.2.newState.1 (matchBol || re.matchNl) nocase _ h₃.good
      (hs.trans_le (h₂.length_le.trans h₃.length_le))
    have h₅ := h₄.good.linkTo m.newState.2.newState.1 m.newState.1
    exact (((h₁.trans h₂).trans h₃).trans h₄).trans
      (h₅.trans (h₅.good.linkTo m.newState.2.newState.1 f))
  | switchCase _ nocase ih =>
    intro i f matchBol _ m hm hi
    rw [RE.buildMachine]
    exact ih i f matchBol nocase m hm hi

/-! ### Patterns -/

/-- Pairs of codes, one after the other. -/
def flattenPairs (ranges : List (Int × Int)) : List Int := ranges.flatMap fun r => [r.1, r.2]

theorem pairs_flattenPairs (ranges : List (Int × Int)) : pairs (flattenPairs ranges) = ranges := by
  induction ranges with
  | nil => rfl
  | cons r ranges ih =>
    rw [flattenPairs, List.flatMap_cons, ← flattenPairs]
    exact congrArg _ ih

/-- The ranges between ranges: from `a` to the first, between two, and from the last
    to `z`. -/
theorem pairs_between (ranges : List (Int × Int)) (a z : Int) :
    (∀ p ∈ pairs (a :: flattenPairs ranges ++ [z]), (p.1 = a ∨ ∃ r ∈ ranges, p.1 = r.2) ∧
      (p.2 = z ∨ ∃ r ∈ ranges, p.2 = r.1)) ∧
    (∃ p ∈ pairs (a :: flattenPairs ranges ++ [z]), p.1 = a) ∧
    ∃ p ∈ pairs (a :: flattenPairs ranges ++ [z]), p.2 = z := by
  induction ranges generalizing a with
  | nil => simp [flattenPairs, pairs]
  | cons r ranges ih =>
    obtain ⟨hall, -, hlast⟩ := ih r.2
    have hcons : pairs (a :: flattenPairs (r :: ranges) ++ [z]) =
        (a, r.1) :: pairs (r.2 :: flattenPairs ranges ++ [z]) := rfl
    rw [hcons]
    refine ⟨List.forall_mem_cons.2 ⟨⟨.inl rfl, .inr ⟨r, List.mem_cons_self, rfl⟩⟩,
      fun p hp => ?_⟩, ⟨_, List.mem_cons_self, rfl⟩, ?_⟩
    · obtain ⟨h₁, h₂⟩ := hall p hp
      refine ⟨.inr ?_, h₂.imp_right fun ⟨r', hr', h⟩ => ⟨r', List.mem_cons_of_mem r hr', h⟩⟩
      rcases h₁ with h₁ | ⟨r', hr', h⟩
      · exact ⟨r, List.mem_cons_self, h₁⟩
      · exact ⟨r', List.mem_cons_of_mem r hr', h⟩
    · obtain ⟨p, hp, hz⟩ := hlast
      exact ⟨p, List.mem_cons_of_mem _ hp, hz⟩

/-- Ranges that start at characters, and end at most as far behind as there are
    characters. -/
def Spans (last : Int) (r : Int × Int) : Prop :=
  (0 ≤ r.1 ∧ r.1 ≤ 0x10FFFF) ∧ 0 ≤ r.2 ∧ r.2 ≤ last

theorem extendRange_spans {last code1 code2 : Int} {charList : List Int}
    (h₁ : 0 ≤ code1 ∧ code1 ≤ 0x10FFFF) (h₂ : 0 ≤ code2 ∧ code2 + charList.length ≤ last)
    (hlast : 0x110000 + (charList.length : Int) ≤ last + 1)
    (hchars : ∀ c ∈ charList, 0 ≤ c ∧ c ≤ 0x10FFFF) :
    ∃ ranges, extendRange code1 code2 charList = flattenPairs ranges ∧
      ∀ r ∈ ranges, Spans last r := by
  induction charList generalizing code1 code2 with
  | nil =>
    refine ⟨[(code1, code2)], rfl, fun r hr => ?_⟩
    rw [List.mem_singleton.1 hr]
    exact ⟨h₁, h₂.1, by simpa using h₂.2⟩
  | cons code charList ih =>
    obtain ⟨hcode, hchars⟩ := List.forall_mem_cons.1 hchars
    rw [List.length_cons, Nat.cast_succ] at h₂ hlast
    rw [extendRange]
    by_cases h : code2 ≥ code
    · rw [if_pos h]
      exact ih h₁ (by omega) (by omega) hchars
    · rw [if_neg h]
      obtain ⟨ranges, heq, hr⟩ := ih hcode (show 0 ≤ code + 1 ∧ code + 1 + _ ≤ last by omega) (by omega) hchars
      refine ⟨(code1, code2) :: ranges, ?_, List.forall_mem_cons.2 ⟨⟨h₁, ?_⟩, hr⟩⟩
      · rw [heq]
        rfl
      · simp only
        omega

theorem charsToRanges_spans (s : CharSet) :
    ∃ ranges, charsToRanges s.chars = flattenPairs ranges ∧
      ∀ r ∈ ranges, Spans (maxint - 1) r := by
  have hlength := s.length_lt
  have hmem : ∀ c ∈ (s.chars.map fun c => (c.val : Int)).insertionSort (· ≤ ·),
      0 ≤ c ∧ c ≤ 0x10FFFF := by
    intro c hc
    rw [List.mem_insertionSort] at hc
    obtain ⟨d, -, rfl⟩ := List.mem_map.1 hc
    have := d.isLt
    omega
  have hsorted := List.length_insertionSort (· ≤ ·) (s.chars.map fun c => (c.val : Int))
  rw [List.length_map] at hsorted
  rw [charsToRanges]
  generalize (s.chars.map fun c => (c.val : Int)).insertionSort (· ≤ ·) = l at hmem hsorted
  rcases l with _ | ⟨code, charList⟩
  · exact ⟨[], rfl, by simp⟩
  · obtain ⟨hcode, hchars⟩ := List.forall_mem_cons.1 hmem
    rw [List.length_cons] at hsorted
    exact extendRange_spans hcode (by omega) (by omega) hchars

theorem codeRange_ok {code1 code2 : Int} (h₁ : 0 ≤ code1 ∧ code1 < maxint)
    (h₂ : 0 ≤ code2 ∧ code2 < maxint) : (codeRange code1 code2).Ok := by
  rw [codeRange]
  split
  · refine .alt fun re hre => ?_
    simp only [List.mem_cons, List.not_mem_nil, or_false] at hre
    rcases hre with rfl | rfl | rfl
    · exact .rawCodeRange h₁ (by decide)
    · exact .rawNewline
    · exact .rawCodeRange (by decide) h₂
  · exact .rawCodeRange h₁ h₂

theorem ofRange_ok (c1 c2 : CodePoint) : (Pattern.ofRange c1 c2).Ok := by
  have hmaxint : maxint = 2147483647 := rfl
  have h₁ := c1.isLt
  have h₂ := c2.isLt
  exact codeRange_ok (by omega) (by omega)

theorem str1_ok (s : List CodePoint) : (Pattern.str1 s).Ok := by
  refine .seq (List.forall_mem_map.2 fun c _ => ?_)
  exact ofRange_ok c c

theorem any_ok (s : CharSet) : (Pattern.any s).toRE.Ok := by
  obtain ⟨ranges, heq, hr⟩ := charsToRanges_spans s
  have hmaxint : maxint = 2147483647 := rfl
  rw [Pattern.toRE, heq, codeRanges, pairs_flattenPairs]
  refine .codeRanges (fun r hm => ?_) ?_
  · obtain ⟨h₁, h₂⟩ := hr r hm
    exact ⟨.inr (by omega), by omega⟩
  · rw [List.any_eq_false.2 fun r hm => by
      have := (hr r hm).1
      simp
      omega, List.any_eq_false.2 fun r hm => by
      have := (hr r hm).2
      simp
      omega]

theorem anyBut_ok (s : CharSet) : (Pattern.anyBut s).toRE.Ok := by
  obtain ⟨ranges, heq, hr⟩ := charsToRanges_spans s
  have hmaxint : maxint = 2147483647 := rfl
  obtain ⟨hall, ⟨p, hp, hfirst⟩, ⟨q, hq, hlast⟩⟩ := pairs_between ranges (-maxint) maxint
  rw [Pattern.toRE, heq, codeRanges]
  refine .codeRanges (fun r hm => ?_) ?_
  · obtain ⟨h₁, h₂⟩ := hall r hm
    have hend : r.2 = maxint ∨ 0 ≤ r.2 ∧ r.2 ≤ 0x10FFFF := by
      refine h₂.imp_right ?_
      rintro ⟨r', hr', heq'⟩
      have := (hr r' hr').1
      omega
    refine ⟨?_, by omega⟩
    rcases h₁ with h₁ | ⟨r', hr', heq'⟩
    · exact .inl ⟨h₁, by omega⟩
    · have := (hr r' hr').2
      exact .inr (by omega)
  · rw [List.any_eq_true.2 ⟨p, hp, decide_eq_true hfirst⟩,
      List.any_eq_true.2 ⟨q, hq, decide_eq_true hlast⟩]

theorem empty_ok : Pattern.empty.Ok := .seq fun _ hre => absurd hre List.not_mem_nil

mutual

/-- The regular expressions of all patterns are those of lexicons. -/
theorem Pattern.toRE_ok : ∀ p : Pattern, p.toRE.Ok
  | .char c => ofRange_ok c c
  | .bol => .specialSymbol .bol
  | .eol => .specialSymbol .eol
  | .eof => .specialSymbol .eof
  | .str s => str1_ok s
  | .strs ss => .alt (List.forall_mem_map.2 fun s _ => str1_ok s)
  | .any s => any_ok s
  | .anyBut s => anyBut_ok s
  | .range c1 c2 => ofRange_ok c1 c2
  | .ranges s => .alt (List.forall_mem_map.2 fun r _ => ofRange_ok r.1 r.2)
  | .seq reList => .seq (Pattern.toREs_ok reList)
  | .alt reList => .alt (Pattern.toREs_ok reList)
  | .rep1 re => .rep1 re.toRE_ok
  | .opt re => .alt fun re' hre' => by
    have h := re.toRE_ok
    simp only [List.mem_cons, List.not_mem_nil, or_false] at hre'
    rcases hre' with rfl | rfl
    · exact h
    · exact empty_ok
  | .rep re => .alt fun re' hre' => by
    have h := re.toRE_ok
    simp only [List.mem_cons, List.not_mem_nil, or_false] at hre'
    rcases hre' with rfl | rfl
    · exact .rep1 h
    · exact empty_ok
  | .noCase re => .switchCase re.toRE_ok true
  | .case re => .switchCase re.toRE_ok false

theorem Pattern.toREs_ok : ∀ ps : List Pattern, ∀ re ∈ Pattern.toREs ps, re.Ok
  | [], _, hre => absurd hre List.not_mem_nil
  | p :: ps, re, hre => by
    have hp := p.toRE_ok
    have hps := Pattern.toREs_ok ps
    rw [Pattern.toREs] at hre
    rcases List.mem_cons.1 hre with rfl | hre
    · exact hp
    · exact hps re hre

end

/-! ## Lexicons -/

namespace Lexicon

theorem Good.newInitialState {m : Machine A} (h : Good m) (name : String) :
    Grows m (m.newInitialState name).2 ∧
      (m.newInitialState name).1 < (m.newInitialState name).2.states.length := by
  have h₁ := h.newState
  exact ⟨⟨⟨h₁.good.nodesOk, h₁.good.balanced⟩, h₁.length_le⟩,
    by simp [Machine.newInitialState, Machine.newState]⟩

theorem Good.setAction {m : Machine A} (h : Good m) (state : Nat) (action : A) (priority : Int) :
    Grows m (m.setAction state action priority) := by
  have hnode : ∀ s, NodeOk ((m.setAction state action priority).node s) ∧
      low ((m.setAction state action priority).node s) =
        high ((m.setAction state action priority).node s) := by
    intro s
    rw [Machine.setAction, Machine.node_modifyNode]
    split
    · refine ⟨(h.nodesOk s).setAction action priority, ?_⟩
      rw [Node.setAction]
      split <;> exact h.balanced s
    · exact ⟨h.nodesOk s, h.balanced s⟩
  exact ⟨⟨fun s => (hnode s).1, fun s => (hnode s).2⟩,
    by simp [Machine.setAction, Machine.modifyNode]⟩

theorem addTokenToMachine_grows {m : Machine A} (h : Good m) {i : Nat} (hi : i < m.states.length)
    (token : Token A) (tokenNumber : Nat) :
    Grows m (addTokenToMachine m i token tokenNumber) := by
  have h₁ := h.newState
  have h₂ := token.pattern.toRE_ok.builds i m.newState.1 true false m.newState.2 h₁.good
    (hi.trans_le h₁.length_le)
  exact (h₁.trans h₂).trans (Good.setAction h₂.good _ token.action _)

theorem addTokens_grows {i : Nat} (tokens : List (Token A)) (tokenNumber : Nat) {m : Machine A}
    (h : Good m) (hi : i < m.states.length) : Grows m (addTokens i tokens tokenNumber m).1 := by
  induction tokens generalizing tokenNumber m with
  | nil => exact h.refl
  | cons token tokens ih =>
    have h₁ := addTokenToMachine_grows h hi token tokenNumber
    exact h₁.trans (ih (tokenNumber + 1) h₁.good (hi.trans_le h₁.length_le))

theorem addSpecifications_grows {i : Nat} (specifications : List (Specification A))
    (tokenNumber : Nat) {m : Machine A} (h : Good m) (hi : i < m.states.length) :
    Grows m (addSpecifications i specifications tokenNumber m) := by
  induction specifications generalizing tokenNumber m with
  | nil => exact h.refl
  | cons specification specifications ih =>
    rcases specification with token | ⟨name, tokens⟩
    · have h₁ := addTokenToMachine_grows h hi token tokenNumber
      exact h₁.trans (ih (tokenNumber + 1) h₁.good (hi.trans_le h₁.length_le))
    · obtain ⟨h₁, hlt⟩ := Good.newInitialState h name
      have h₂ := addTokens_grows tokens tokenNumber h₁.good hlt
      exact (h₁.trans h₂).trans (ih _ h₂.good
        (hi.trans_le (h₁.length_le.trans h₂.length_le)))

/-- The NFA of every lexicon is in order. -/
theorem nfa_good (specifications : List (Specification A)) : Good (nfa specifications) := by
  obtain ⟨h, hlt⟩ := Good.newInitialState (good_new (A := A)) ""
  exact (addSpecifications_grows specifications 1 h.good hlt).good

theorem nfa_mapOk (specifications : List (Specification A)) (s : Nat) :
    MapOk ((nfa specifications).node s).transitions :=
  have h := (nfa_good specifications).nodesOk s
  ⟨h.sorted, h.nonneg, (nfa_good specifications).balanced s, h.first_end⟩

theorem nfa_actionsOk (specifications : List (Specification A)) :
    ActionsOk (nfa specifications) :=
  fun s => ((nfa_good specifications).nodesOk s).action

end Lexicon

end AHPy.Plex
