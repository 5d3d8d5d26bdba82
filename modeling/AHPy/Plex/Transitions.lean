import AHPy.Lib.OrderedDict

/-!
# Transition maps

A model of `Cython.Plex.Transitions`. A `TransitionMap` maps events to sets of
states of an NFA. For ranges of character codes it is a list
`[code_0, states_0, code_1, states_1, …, code_n]`, here the list of the pairs
`(code_i, states_i)`; the last code is always `maxint` and is left out.

* `TransitionMap.statesAt`: what the list says about one code, the states of the
  last pair whose code is not larger;
* `addSet_statesAt`: adding a range of codes changes that for the codes of the
  range only;
* `mem_intervals_iff`, `exists_interval`: the intervals that are iterated over
  tile the codes, and on each of them `statesAt` is its set.
-/

namespace AHPy.Plex

/-- The sentinel for codes without bound. -/
def maxint : Int := 2147483647

/-- The special events: `''` (an epsilon move), `'bol'`, `'eol'` and `'eof'`. -/
inductive Special where
  | epsilon
  | bol
  | eol
  | eof
  deriving DecidableEq

/-- What an NFA moves on: the codes from `code0` to before `code1`, or a special
    event. -/
inductive Event where
  | range (code0 code1 : Int)
  | special (sym : Special)
  deriving DecidableEq

/-- A set of states of an NFA, by their indices. -/
abbrev StateSet := Finset Nat

structure TransitionMap where
  /-- The pairs of a code and the states of the codes from it to the next one. -/
  map : List (Int × StateSet)
  special : OrderedDict Special StateSet

namespace TransitionMap

/-- A map without transitions. -/
def new : TransitionMap := ⟨[(-maxint, ∅)], .empty⟩

instance : Inhabited TransitionMap := ⟨new⟩

/-- The code at an index of the list, which is `maxint` at its end. -/
def codeAt (map : List (Int × StateSet)) (i : Nat) : Int := (map[i]?.map Prod.fst).getD maxint

/-- The binary search of `split` between the indices `lo` and `hi`. Each step
    brings them closer, so that `hi - lo` steps are enough. -/
def splitSearch (map : List (Int × StateSet)) (code : Int) : Nat → Nat → Nat → Nat × Nat
  | 0, lo, hi => (lo, hi)
  | steps + 1, lo, hi =>
    if lo + 2 ≤ hi then
      let mid := (lo + hi) / 2
      if code < codeAt map mid then splitSearch map code steps lo mid
      else splitSearch map code steps mid hi
    else (lo, hi)

/-- The index of the split point for `code`, inserted if it is new, with a copy of
    the set before it. -/
def split (map : List (Int × StateSet)) (code : Int) : Nat × List (Int × StateSet) :=
  if code = maxint then (map.length, map)
  else
    let (lo, hi) := splitSearch map code map.length 0 map.length
    if codeAt map lo = code then (lo, map)
    else (hi, map.take hi ++ (code, (map[hi - 1]?.map Prod.snd).getD ∅) :: map.drop hi)

/-- `new_set` added to the sets at the indices from `i` to before `j`. -/
def updateSets (map : List (Int × StateSet)) (i j : Nat) (newSet : StateSet) :
    List (Int × StateSet) :=
  map.mapIdx fun k e => if i ≤ k ∧ k < j then (e.1, e.2 ∪ newSet) else e

/-- The set of a special event. -/
def getSpecial (m : TransitionMap) (sym : Special) : StateSet := (m.special.get? sym).getD ∅

/-- Transitions to the states of `newSet` on `event`. -/
def addSet (m : TransitionMap) (event : Event) (newSet : StateSet) : TransitionMap :=
  match event with
  | .range code0 code1 =>
    let (i, map) := split m.map code0
    let (j, map) := split map code1
    { m with map := updateSets map i j newSet }
  | .special sym => { m with special := m.special.set sym (m.getSpecial sym ∪ newSet) }

/-- A transition to `newState` on `event`. -/
def add (m : TransitionMap) (event : Event) (newState : Nat) : TransitionMap :=
  m.addSet event {newState}

/-- The states of epsilon moves. -/
def getEpsilon (m : TransitionMap) : StateSet := m.getSpecial .epsilon

/-- The ranges of the list, with their sets. -/
def intervals : List (Int × StateSet) → List ((Int × Int) × StateSet)
  | [] => []
  | [e] => [((e.1, maxint), e.2)]
  | e :: e' :: map => ((e.1, e'.1), e.2) :: intervals (e' :: map)

/-- Whether the first set is not empty: then every range is iterated over. -/
def elseSet (m : TransitionMap) : Bool := (m.map.head?.map Prod.snd).getD ∅ ≠ ∅

/-- The transitions that are iterated over: the ranges, without those with an
    empty set unless the first set is not empty, and the special events with a
    set that is not empty. -/
def iteritems (m : TransitionMap) : List (Event × StateSet) :=
  ((intervals m.map).filter fun e => e.2 ≠ ∅ ∨ m.elseSet).map
      (fun e => (.range e.1.1 e.1.2, e.2)) ++
    (m.special.entries.filter fun e => e.2 ≠ ∅).map fun e => (.special e.1, e.2)

/-! ## What a list says about a code -/

/-- The states of a code: those of the last pair whose code is not larger. -/
def statesOf (map : List (Int × StateSet)) (c : Int) : StateSet :=
  ((map.filter fun e => e.1 ≤ c).getLast?.map Prod.snd).getD ∅

def codes (map : List (Int × StateSet)) : List Int := map.map Prod.fst

/-- The codes increase from `-maxint` and stay below `maxint`. -/
structure Sorted (map : List (Int × StateSet)) : Prop where
  increasing : (codes map).Pairwise (· < ·)
  head : (codes map).head? = some (-maxint)
  lt : ∀ c ∈ codes map, c < maxint

variable {map : List (Int × StateSet)}

theorem codeAt_of_lt {i : Nat} (h : i < map.length) : codeAt map i = map[i].1 := by
  rw [codeAt, List.getElem?_eq_getElem h, Option.map_some, Option.getD_some]

theorem codeAt_of_length_le {i : Nat} (h : map.length ≤ i) : codeAt map i = maxint := by
  rw [codeAt, List.getElem?_eq_none h, Option.map_none, Option.getD_none]

namespace Sorted

theorem ne_nil (h : Sorted map) : map ≠ [] := by
  rintro rfl
  exact absurd h.head (by simp [codes])

theorem length_pos (h : Sorted map) : 0 < map.length := List.length_pos_iff.2 h.ne_nil

theorem codeAt_zero (h : Sorted map) : codeAt map 0 = -maxint := by
  rcases map with _ | ⟨e, map⟩
  · exact absurd rfl h.ne_nil
  · simpa [codes, codeAt] using h.head

theorem codeAt_lt_maxint (h : Sorted map) {i : Nat} (hi : i < map.length) :
    codeAt map i < maxint := by
  rw [codeAt_of_lt hi]
  exact h.lt _ (List.mem_map_of_mem (List.getElem_mem hi))

theorem codeAt_lt_codeAt (h : Sorted map) {i j : Nat} (hij : i < j) (hj : j ≤ map.length) :
    codeAt map i < codeAt map j := by
  rcases Nat.lt_or_ge j map.length with hlt | hge
  · rw [codeAt_of_lt (hij.trans hlt), codeAt_of_lt hlt]
    have hp := List.pairwise_iff_getElem.1 h.increasing i j (by simp [codes]; omega)
      (by simp [codes]; omega) hij
    simpa [codes] using hp
  · rw [codeAt_of_length_le hge]
    exact h.codeAt_lt_maxint (by omega)

theorem codeAt_le_codeAt (h : Sorted map) {i j : Nat} (hij : i ≤ j) (hj : j ≤ map.length) :
    codeAt map i ≤ codeAt map j := by
  rcases hij.lt_or_eq with hlt | rfl
  · exact (h.codeAt_lt_codeAt hlt hj).le
  · exact le_rfl

theorem neg_maxint_le (h : Sorted map) {e : Int × StateSet} (he : e ∈ map) : -maxint ≤ e.1 := by
  obtain ⟨i, hi, rfl⟩ := List.mem_iff_getElem.1 he
  rw [← codeAt_of_lt hi, ← h.codeAt_zero]
  exact h.codeAt_le_codeAt (Nat.zero_le i) hi.le

end Sorted

theorem sorted_new : Sorted new.map where
  increasing := List.pairwise_singleton _ _
  head := rfl
  lt := by
    intro c hc
    rw [List.mem_singleton.1 hc]
    decide

/-! ### Split points -/

theorem splitSearch_spec {code : Int} {steps lo hi : Nat} (hsteps : hi ≤ lo + steps + 1)
    (hlt : lo < hi) (hlo : codeAt map lo ≤ code) (hhi : code < codeAt map hi) :
    ∃ i, splitSearch map code steps lo hi = (i, i + 1) ∧ i < hi ∧ codeAt map i ≤ code ∧
      code < codeAt map (i + 1) := by
  induction steps generalizing lo hi with
  | zero =>
    obtain rfl : hi = lo + 1 := by omega
    exact ⟨lo, rfl, hlt, hlo, hhi⟩
  | succ steps ih =>
    rw [splitSearch]
    by_cases hmore : lo + 2 ≤ hi
    · simp only [if_pos hmore]
      by_cases hmid : code < codeAt map ((lo + hi) / 2)
      · rw [if_pos hmid]
        obtain ⟨i, hs, hi', hc⟩ := ih (by omega) (by omega) hlo hmid
        exact ⟨i, hs, by omega, hc⟩
      · rw [if_neg hmid]
        exact ih (by omega) (by omega) (not_lt.1 hmid) hhi
    · rw [if_neg hmore]
      obtain rfl : hi = lo + 1 := by omega
      exact ⟨lo, rfl, hlt, hlo, hhi⟩

/-- What `split` finds or makes: the index of a split point for `code`, in a list
    that says the same as before. -/
structure SplitAt (map : List (Int × StateSet)) (code : Int)
    (r : Nat × List (Int × StateSet)) : Prop where
  sorted : Sorted r.2
  index_le : r.1 ≤ map.length
  length_le : map.length ≤ r.2.length
  codeAt_index : codeAt r.2 r.1 = code
  /-- What is before the index stays. -/
  codeAt_before : ∀ i < r.1, codeAt r.2 i = codeAt map i
  le_codeAt : code ≤ codeAt map r.1
  statesOf_eq : ∀ c, statesOf r.2 c = statesOf map c
  mem_codes : ∀ c, c ∈ codes r.2 ↔ c ∈ codes map ∨ c = code ∧ code ≠ maxint

/-- A pair between those with smaller codes and those with larger ones. -/
theorem statesOf_insert {before after : List (Int × StateSet)} {code : Int} {s : StateSet}
    (hbefore : ∀ e ∈ before, e.1 < code) (hafter : ∀ e ∈ after, code < e.1)
    (hs : before.getLast?.map Prod.snd = some s) (c : Int) :
    statesOf (before ++ (code, s) :: after) c = statesOf (before ++ after) c := by
  rw [statesOf, statesOf, List.filter_append, List.filter_append]
  by_cases hc : code ≤ c
  · have hall : before.filter (fun e => e.1 ≤ c) = before :=
      List.filter_eq_self.2 fun e he => decide_eq_true ((hbefore e he).le.trans hc)
    have hcons : ((code, s) :: after).filter (fun e => e.1 ≤ c) =
        (code, s) :: after.filter fun e => e.1 ≤ c := List.filter_cons_of_pos (decide_eq_true hc)
    rw [hall, hcons]
    generalize after.filter (fun e => decide (e.1 ≤ c)) = rest
    rcases rest with _ | ⟨e, rest⟩
    · rw [List.append_nil, List.getLast?_append, hs]
      rfl
    · rw [List.getLast?_append, List.getLast?_append, List.getLast?_cons_cons]
  · have hnone : after.filter (fun e => e.1 ≤ c) = [] := by
      refine List.filter_eq_nil_iff.2 fun e he => ?_
      have := hafter e he
      simp
      omega
    have hcons : ((code, s) :: after).filter (fun e => e.1 ≤ c) =
        after.filter fun e => e.1 ≤ c := List.filter_cons_of_neg (by simpa using hc)
    rw [hcons, hnone]

theorem split_spec (h : Sorted map) {code : Int} (hlo : -maxint ≤ code) (hhi : code ≤ maxint) :
    SplitAt map code (split map code) := by
  rw [split]
  by_cases hmax : code = maxint
  · rw [if_pos hmax]
    exact ⟨h, le_rfl, le_rfl, (codeAt_of_length_le le_rfl).trans hmax.symm, fun _ _ => rfl,
      hmax ▸ (codeAt_of_length_le le_rfl).ge, fun _ => rfl,
      fun c => (or_iff_left fun hc => hc.2 hmax).symm⟩
  obtain ⟨i, hs, hi, hle, hlt⟩ := splitSearch_spec (Nat.le_succ_of_le (Nat.zero_add _).ge)
    h.length_pos (h.codeAt_zero.trans_le hlo)
    (lt_of_lt_of_le (lt_of_le_of_ne hhi hmax) (codeAt_of_length_le le_rfl).ge)
  simp only [if_neg hmax, hs]
  by_cases heq : codeAt map i = code
  · rw [if_pos heq]
    refine ⟨h, hi.le, le_rfl, heq, fun _ _ => rfl, heq.ge, fun _ => rfl, fun c => ?_⟩
    refine (or_iff_left_of_imp ?_).symm
    rintro ⟨rfl, -⟩
    rw [← heq, codeAt_of_lt hi]
    exact List.mem_map_of_mem (List.getElem_mem hi)
  · rw [if_neg heq]
    have hlti : codeAt map i < code := lt_of_le_of_ne hle heq
    have hbefore : ∀ e ∈ map.take (i + 1), e.1 < code := by
      intro e he
      obtain ⟨j, hj, rfl⟩ := List.mem_iff_getElem.1 he
      rw [List.length_take] at hj
      rw [List.getElem_take, ← codeAt_of_lt]
      exact (h.codeAt_le_codeAt (by omega) hi.le).trans_lt hlti
    have hafter : ∀ e ∈ map.drop (i + 1), code < e.1 := by
      intro e he
      obtain ⟨j, hj, rfl⟩ := List.mem_iff_getElem.1 he
      rw [List.length_drop] at hj
      rw [List.getElem_drop, ← codeAt_of_lt]
      exact hlt.trans_le (h.codeAt_le_codeAt (by omega) (by omega))
    have hlength : (map.take (i + 1)).length = i + 1 := by
      rw [List.length_take, Nat.min_eq_left hi]
    have hlast : (map.take (i + 1)).getLast?.map Prod.snd =
        some ((map[i + 1 - 1]?.map Prod.snd).getD ∅) := by
      rw [List.getLast?_eq_getElem?, hlength, Nat.add_sub_cancel,
        List.getElem?_take_of_lt (Nat.lt_succ_self i), List.getElem?_eq_getElem hi]
      rfl
    have hmem : ∀ c, c ∈ codes map ↔
        c ∈ (map.take (i + 1)).map Prod.fst ∨ c ∈ (map.drop (i + 1)).map Prod.fst := by
      intro c
      rw [codes, ← List.mem_append, ← List.map_append, List.take_append_drop]
    have hincreasing := h.increasing
    rw [codes, ← List.take_append_drop (i + 1) map, List.map_append,
      List.pairwise_append] at hincreasing
    refine ⟨⟨?_, ?_, ?_⟩, hi, ?_, ?_, ?_, hlt.le, fun c => ?_, fun c => ?_⟩
    · rw [codes, List.map_append, List.map_cons, List.pairwise_append, List.pairwise_cons]
      refine ⟨hincreasing.1, ⟨?_, hincreasing.2.1⟩, fun a ha b hb => ?_⟩
      · exact List.forall_mem_map.2 hafter
      · rcases List.mem_cons.1 hb with rfl | hb
        · obtain ⟨e, he, rfl⟩ := List.mem_map.1 ha
          exact hbefore e he
        · exact hincreasing.2.2 a ha b hb
    · rcases map with _ | ⟨e, map⟩
      · exact absurd rfl h.ne_nil
      · exact h.head
    · refine List.forall_mem_map.2 fun e he => ?_
      rcases List.mem_append.1 he with he | he
      · exact h.lt _ (List.mem_map_of_mem (List.mem_of_mem_take he))
      · rcases List.mem_cons.1 he with rfl | he
        · exact lt_of_le_of_ne hhi hmax
        · exact h.lt _ (List.mem_map_of_mem (List.mem_of_mem_drop he))
    · simp only [List.length_append, List.length_cons, hlength, List.length_drop]
      omega
    · rw [codeAt_of_lt (by simp [hlength]), List.getElem_append_right hlength.le]
      simp [hlength]
    · intro j hj
      rw [codeAt_of_lt (by simp [hlength]; omega), codeAt_of_lt (by omega),
        List.getElem_append_left (by omega), List.getElem_take]
    · rw [statesOf_insert hbefore hafter hlast, List.take_append_drop]
    · rw [codes, List.map_append, List.map_cons, List.mem_append, List.mem_cons, hmem]
      tauto

/-! ### Adding transitions -/

/-- Between two split points, `updateSets` is told by the codes. -/
theorem updateSets_eq_map (h : Sorted map) {i j : Nat} (hi : i ≤ map.length) (hj : j ≤ map.length)
    (newSet : StateSet) :
    updateSets map i j newSet = map.map fun e =>
      if codeAt map i ≤ e.1 ∧ e.1 < codeAt map j then (e.1, e.2 ∪ newSet) else e := by
  refine List.ext_getElem (by simp [updateSets]) fun k hk _ => ?_
  have hk : k < map.length := by simpa [updateSets] using hk
  simp only [updateSets, List.getElem_mapIdx, List.getElem_map]
  refine if_congr (and_congr ?_ ?_) rfl rfl
  · rw [← codeAt_of_lt hk]
    refine ⟨fun hle => h.codeAt_le_codeAt hle hk.le, fun hle => not_lt.1 fun hlt => ?_⟩
    exact absurd (h.codeAt_lt_codeAt hlt hi) (not_lt.2 hle)
  · rw [← codeAt_of_lt hk]
    refine ⟨fun hlt => h.codeAt_lt_codeAt hlt hj, fun hlt => not_le.1 fun hle => ?_⟩
    exact absurd (h.codeAt_le_codeAt hle hk.le) (not_le.2 hlt)

theorem codes_updateSets (map : List (Int × StateSet)) (i j : Nat) (newSet : StateSet) :
    codes (updateSets map i j newSet) = codes map := by
  refine List.ext_getElem (by simp [codes, updateSets]) fun k hk _ => ?_
  simp only [codes, updateSets, List.getElem_map, List.getElem_mapIdx]
  split <;> rfl

theorem updateSets_of_le {i j : Nat} (h : j ≤ i) (newSet : StateSet) :
    updateSets map i j newSet = map := by
  refine List.ext_getElem (by simp [updateSets]) fun k hk _ => ?_
  simp only [updateSets, List.getElem_mapIdx]
  exact if_neg (by omega)

/-- One pair after the other. -/
theorem updateSets_updateSets {i j : Nat} (h : i < j) (newSet : StateSet) :
    updateSets (updateSets map i (i + 1) newSet) (i + 1) j newSet = updateSets map i j newSet := by
  refine List.ext_getElem (by simp [updateSets]) fun k hk _ => ?_
  simp only [updateSets, List.getElem_mapIdx]
  rcases Nat.lt_trichotomy k i with hk | rfl | hk
  · rw [if_neg (by omega), if_neg (by omega), if_neg (by omega)]
  · rw [if_neg (by omega), if_pos (by omega), if_pos (by omega)]
  · rw [if_neg (by omega : ¬(i ≤ k ∧ k < i + 1))]
    exact if_congr (by omega) rfl rfl

theorem Sorted.updateSets (h : Sorted map) (i j : Nat) (newSet : StateSet) :
    Sorted (updateSets map i j newSet) := by
  constructor <;> rw [codes_updateSets]
  exacts [h.increasing, h.head, h.lt]

/-- The last pair whose code is not larger. -/
theorem getLast?_filter_le (h : Sorted map) {c : Int} (hc : -maxint ≤ c) :
    ∃ e ∈ map, (map.filter fun e => e.1 ≤ c).getLast? = some e ∧ e.1 ≤ c ∧
      ∀ d ∈ codes map, d ≤ c → d ≤ e.1 := by
  have hne : map.filter (fun e => e.1 ≤ c) ≠ [] := by
    rcases map with _ | ⟨e, map⟩
    · exact absurd rfl h.ne_nil
    · have he : e.1 = -maxint := by simpa [codes] using h.head
      exact List.ne_nil_of_mem (List.mem_filter.2 ⟨List.mem_cons_self, decide_eq_true (he ▸ hc)⟩)
  obtain ⟨hm, hle⟩ := List.mem_filter.1 (List.getLast_mem hne)
  refine ⟨_, hm, List.getLast?_eq_getLast_of_ne_nil hne, of_decide_eq_true hle, fun d hd hdc => ?_⟩
  obtain ⟨e, he, rfl⟩ := List.mem_map.1 hd
  have hp : (map.filter fun e => e.1 ≤ c).Pairwise fun a b => a.1 ≤ b.1 :=
    ((List.pairwise_map.1 h.increasing).imp fun hlt => hlt.le).sublist List.filter_sublist
  exact hp.rel_getLast (List.mem_filter.2 ⟨he, decide_eq_true hdc⟩)

theorem statesOf_updateSets (h : Sorted map) {i j : Nat} (hi : i ≤ map.length)
    (hj : j ≤ map.length) (newSet : StateSet) {c : Int} (hlo : -maxint ≤ c) (hhi : c < maxint) :
    statesOf (updateSets map i j newSet) c =
      if codeAt map i ≤ c ∧ c < codeAt map j then statesOf map c ∪ newSet else statesOf map c := by
  obtain ⟨e, -, hlast, hle, hmax⟩ := getLast?_filter_le h hlo
  -- A split point is not larger than `c` if it is not larger than the code before `c`.
  have hpoint : ∀ k ≤ map.length, codeAt map k ≤ c ↔ codeAt map k ≤ e.1 := by
    intro k hk
    refine ⟨fun hkc => ?_, fun hke => hke.trans hle⟩
    rcases hk.lt_or_eq with hk | rfl
    · refine hmax _ ?_ hkc
      rw [codeAt_of_lt hk]
      exact List.mem_map_of_mem (List.getElem_mem hk)
    · rw [codeAt_of_length_le le_rfl] at hkc
      omega
  have hfilter : ((updateSets map i j newSet).filter fun e => e.1 ≤ c) =
      (map.filter fun e => e.1 ≤ c).map fun e =>
        if codeAt map i ≤ e.1 ∧ e.1 < codeAt map j then (e.1, e.2 ∪ newSet) else e := by
    rw [updateSets_eq_map h hi hj, List.filter_map]
    congr 1
    refine List.filter_congr fun e _ => ?_
    rw [Function.comp_apply]
    split <;> rfl
  have hiff : codeAt map i ≤ e.1 ∧ e.1 < codeAt map j ↔ codeAt map i ≤ c ∧ c < codeAt map j := by
    rw [← not_le, ← hpoint j hj, ← hpoint i hi, not_le]
  rw [statesOf, statesOf, hfilter, List.getLast?_map, hlast]
  simp only [Option.map_some, Option.getD_some, hiff]
  split <;> rfl

/-- The codes that may bound a range. -/
def InRange (c : Int) : Prop := -maxint ≤ c ∧ c ≤ maxint

theorem addSet_range {m : TransitionMap} (h : Sorted m.map) {code0 code1 : Int}
    (h₀ : InRange code0) (h₁ : InRange code1) (newSet : StateSet) :
    Sorted (m.addSet (.range code0 code1) newSet).map ∧
      (∀ c, c ∈ codes (m.addSet (.range code0 code1) newSet).map ↔
        c ∈ codes m.map ∨ c = code0 ∧ code0 ≠ maxint ∨ c = code1 ∧ code1 ≠ maxint) ∧
      ∀ c, -maxint ≤ c → c < maxint → statesOf (m.addSet (.range code0 code1) newSet).map c =
        if code0 ≤ c ∧ c < code1 then statesOf m.map c ∪ newSet else statesOf m.map c := by
  have hs₀ := split_spec h h₀.1 h₀.2
  have hs₁ := split_spec hs₀.sorted h₁.1 h₁.2
  simp only [addSet]
  generalize split m.map code0 = r at hs₀ hs₁ ⊢
  generalize split r.2 code1 = r' at hs₁ ⊢
  have hi : r.1 ≤ r.2.length := hs₀.index_le.trans hs₀.length_le
  have hj : r'.1 ≤ r'.2.length := hs₁.index_le.trans hs₁.length_le
  refine ⟨hs₁.sorted.updateSets _ _ _, fun c => ?_, fun c hlo hhi => ?_⟩
  · rw [codes_updateSets, hs₁.mem_codes, hs₀.mem_codes, or_assoc]
  · rw [statesOf_updateSets hs₁.sorted (hi.trans hs₁.length_le) hj newSet hlo hhi, hs₁.codeAt_index,
      hs₁.statesOf_eq, hs₀.statesOf_eq]
    by_cases hlt : r.1 < r'.1
    · -- The second split point is inserted after the first.
      rw [hs₁.codeAt_before _ hlt, hs₀.codeAt_index]
    · -- The range is empty: its end is not after its start.
      have hle : code1 ≤ code0 := by
        rw [← hs₀.codeAt_index]
        exact hs₁.le_codeAt.trans (hs₀.sorted.codeAt_le_codeAt (not_lt.1 hlt) hi)
      have hle' : code1 ≤ codeAt r'.2 r.1 := by
        have := hs₁.sorted.codeAt_le_codeAt (not_lt.1 hlt) (hi.trans hs₁.length_le)
        rwa [hs₁.codeAt_index] at this
      rw [if_neg (by omega), if_neg (by omega)]

theorem getSpecial_addSet (m : TransitionMap) (sym sym' : Special) (newSet : StateSet) :
    (m.addSet (.special sym) newSet).getSpecial sym' =
      if sym' = sym then m.getSpecial sym ∪ newSet else m.getSpecial sym' := by
  simp only [addSet, getSpecial, OrderedDict.get?_set]
  split <;> rfl

/-! ### Sets of states -/

/-- All targets of transitions are in `U`. -/
structure Within (U : StateSet) (m : TransitionMap) : Prop where
  map : ∀ e ∈ m.map, e.2 ⊆ U
  special : ∀ sym, m.getSpecial sym ⊆ U

theorem within_new (U : StateSet) : Within U new where
  map := by simp [new]
  special := by simp [new, getSpecial]

theorem getD_subset {U : StateSet} (h : ∀ e ∈ map, e.2 ⊆ U) (i : Nat) :
    (map[i]?.map Prod.snd).getD ∅ ⊆ U := by
  rcases hi : map[i]? with _ | e
  · exact Finset.empty_subset U
  · exact h e (List.mem_of_getElem? hi)

theorem split_subset {U : StateSet} (h : ∀ e ∈ map, e.2 ⊆ U) (code : Int) :
    ∀ e ∈ (split map code).2, e.2 ⊆ U := by
  rw [split]
  generalize splitSearch map code map.length 0 map.length = r
  split
  · exact h
  · dsimp only
    split
    · exact h
    · intro e he
      rcases List.mem_append.1 he with he | he
      · exact h e (List.mem_of_mem_take he)
      · rcases List.mem_cons.1 he with rfl | he
        · exact getD_subset h _
        · exact h e (List.mem_of_mem_drop he)

theorem Within.addSet {U newSet : StateSet} {m : TransitionMap} (h : Within U m)
    (hnew : newSet ⊆ U) (event : Event) : Within U (m.addSet event newSet) := by
  rcases event with ⟨code0, code1⟩ | sym
  · refine ⟨fun e he => ?_, h.special⟩
    simp only [TransitionMap.addSet, updateSets] at he
    obtain ⟨k, hk, rfl⟩ := List.mem_mapIdx.1 he
    have hsub := split_subset (split_subset h.map code0) code1 _ (List.getElem_mem hk)
    split
    · exact Finset.union_subset hsub hnew
    · exact hsub
  · refine ⟨h.map, fun sym' => ?_⟩
    rw [getSpecial_addSet]
    split
    · exact Finset.union_subset (h.special sym) hnew
    · exact h.special sym'

/-! ## Iteration -/

theorem intervals_cons (e : Int × StateSet) (map : List (Int × StateSet)) :
    intervals (e :: map) = ((e.1, codeAt map 0), e.2) :: intervals map := by
  rcases map with _ | ⟨e', map⟩ <;> rfl

theorem mem_intervals_iff {x : (Int × Int) × StateSet} : x ∈ intervals map ↔
    ∃ i, ∃ h : i < map.length, x = ((codeAt map i, codeAt map (i + 1)), map[i].2) := by
  induction map with
  | nil => simp [intervals]
  | cons e map ih =>
    rw [intervals_cons, List.mem_cons, ih]
    constructor
    · rintro (rfl | ⟨i, hi, rfl⟩)
      · exact ⟨0, Nat.zero_lt_succ _, rfl⟩
      · exact ⟨i + 1, Nat.succ_lt_succ hi, rfl⟩
    · rintro ⟨_ | i, hi, rfl⟩
      · exact .inl rfl
      · exact .inr ⟨i, Nat.lt_of_succ_lt_succ hi, rfl⟩

theorem codeAt_mem {i : Nat} (h : i < map.length) : codeAt map i ∈ codes map := by
  rw [codeAt_of_lt h]
  exact List.mem_map_of_mem (List.getElem_mem h)

theorem exists_codeAt {c : Int} (h : c ∈ codes map) : ∃ i < map.length, codeAt map i = c := by
  obtain ⟨e, he, rfl⟩ := List.mem_map.1 h
  obtain ⟨i, hi, rfl⟩ := List.mem_iff_getElem.1 he
  exact ⟨i, hi, codeAt_of_lt hi⟩

/-- The codes between two neighbours have the states of the first. -/
theorem statesOf_eq_getElem (h : Sorted map) {i : Nat} (hi : i < map.length) {c : Int}
    (hle : codeAt map i ≤ c) (hlt : c < codeAt map (i + 1)) : statesOf map c = map[i].2 := by
  have hlo : -maxint ≤ c :=
    h.codeAt_zero ▸ (h.codeAt_le_codeAt (Nat.zero_le i) hi.le).trans hle
  obtain ⟨e, he, hlast, hec, hmax⟩ := getLast?_filter_le h hlo
  obtain ⟨j, hj, rfl⟩ := List.mem_iff_getElem.1 he
  rw [← codeAt_of_lt hj] at hec hmax
  have hij : codeAt map i ≤ codeAt map j := hmax _ (codeAt_mem hi) hle
  have hji : j < i + 1 := by
    by_contra hge
    exact absurd (h.codeAt_le_codeAt (not_lt.1 hge) hj.le) (not_le.2 (hec.trans_lt hlt))
  have hj : j = i := by
    by_contra hne
    exact absurd (h.codeAt_lt_codeAt (show j < i by omega) hi.le) (not_lt.2 hij)
  subst hj
  rw [statesOf, hlast]
  rfl

/-- An interval is a range of codes with the same states, without a split point
    inside. -/
structure Interval (map : List (Int × StateSet)) (a b : Int) (s : StateSet) : Prop where
  lt : a < b
  start_mem : a ∈ codes map
  end_mem : b ∈ codes map ∨ b = maxint
  statesOf : ∀ c, a ≤ c → c < b → statesOf map c = s
  not_mem : ∀ c ∈ codes map, a < c → b ≤ c

theorem Sorted.interval (h : Sorted map) {a b : Int} {s : StateSet}
    (hm : ((a, b), s) ∈ intervals map) : Interval map a b s := by
  obtain ⟨i, hi, heq⟩ := mem_intervals_iff.1 hm
  obtain ⟨⟨rfl, rfl⟩, rfl⟩ := Prod.ext_iff.1 heq |>.imp_left Prod.ext_iff.1
  refine ⟨h.codeAt_lt_codeAt (Nat.lt_succ_self i) hi, codeAt_mem hi, ?_,
    fun c => statesOf_eq_getElem h hi, fun c hc hlt => ?_⟩
  · rcases Nat.lt_or_eq_of_le (Nat.succ_le_of_lt hi) with hlt | heq
    · exact .inl (codeAt_mem hlt)
    · exact .inr (codeAt_of_length_le heq.ge)
  · obtain ⟨j, hj, rfl⟩ := exists_codeAt hc
    refine h.codeAt_le_codeAt (Nat.succ_le_of_lt ?_) hj.le
    by_contra hle
    exact absurd (h.codeAt_le_codeAt (not_lt.1 hle) hi.le) (not_le.2 hlt)

/-- Every code is in an interval. -/
theorem Sorted.exists_interval (h : Sorted map) {c : Int} (hlo : -maxint ≤ c) (hhi : c < maxint) :
    ∃ a b, ((a, b), TransitionMap.statesOf map c) ∈ intervals map ∧ a ≤ c ∧ c < b := by
  obtain ⟨i, -, hi, hle, hlt⟩ := splitSearch_spec (Nat.le_succ_of_le (Nat.zero_add _).ge)
    h.length_pos (h.codeAt_zero.trans_le hlo)
    (lt_of_lt_of_le hhi (codeAt_of_length_le le_rfl).ge)
  exact ⟨_, _, mem_intervals_iff.2 ⟨i, hi, by rw [statesOf_eq_getElem h hi hle hlt]⟩, hle, hlt⟩

theorem elseSet_eq_true_iff {m : TransitionMap} (h : Sorted m.map) :
    m.elseSet = true ↔ statesOf m.map (-maxint) ≠ ∅ := by
  have hpos := h.length_pos
  have hfirst : statesOf m.map (-maxint) = m.map[0].2 :=
    statesOf_eq_getElem h hpos h.codeAt_zero.le
      (h.codeAt_zero ▸ h.codeAt_lt_codeAt Nat.zero_lt_one hpos)
  rw [elseSet, decide_eq_true_iff, hfirst, List.head?_eq_getElem?, List.getElem?_eq_getElem hpos]
  rfl

theorem mem_iteritems_range {m : TransitionMap} {a b : Int} {s : StateSet} :
    (.range a b, s) ∈ m.iteritems ↔ ((a, b), s) ∈ intervals m.map ∧ (s ≠ ∅ ∨ m.elseSet) := by
  simp only [iteritems, List.mem_append, List.mem_map, List.mem_filter, decide_eq_true_eq]
  constructor
  · rintro (⟨e, he, heq⟩ | ⟨e, -, heq⟩)
    · obtain ⟨⟨a', b'⟩, s'⟩ := e
      simp only [Prod.mk.injEq, Event.range.injEq] at heq
      obtain ⟨⟨rfl, rfl⟩, rfl⟩ := heq
      exact he
    · simp at heq
  · exact fun h => .inl ⟨_, h, rfl⟩

theorem mem_iteritems_special {m : TransitionMap} {sym : Special} {s : StateSet} :
    (.special sym, s) ∈ m.iteritems ↔ m.getSpecial sym = s ∧ s ≠ ∅ := by
  simp only [iteritems, List.mem_append, List.mem_map, List.mem_filter, decide_eq_true_eq,
    getSpecial]
  constructor
  · rintro (⟨e, -, heq⟩ | ⟨⟨sym', s'⟩, ⟨hm, hne⟩, heq⟩)
    · simp at heq
    · simp only [Prod.mk.injEq, Event.special.injEq] at heq
      obtain ⟨rfl, rfl⟩ := heq
      rw [OrderedDict.get?_eq_some_iff.2 hm]
      exact ⟨rfl, hne⟩
  · rintro ⟨hs, hne⟩
    rcases hget : m.special.get? sym with _ | s'
    · rw [hget] at hs
      exact absurd hs.symm hne
    · rw [hget] at hs
      obtain rfl : s' = s := hs
      exact .inr ⟨_, ⟨OrderedDict.get?_eq_some_iff.1 hget, hne⟩, rfl⟩

theorem Within.iteritems {U s : StateSet} {m : TransitionMap} (h : Within U m) {event : Event}
    (hm : (event, s) ∈ m.iteritems) : s ⊆ U := by
  rcases event with ⟨a, b⟩ | sym
  · obtain ⟨i, hi, heq⟩ := mem_intervals_iff.1 (mem_iteritems_range.1 hm).1
    have hs : s = m.map[i].2 := congrArg Prod.snd heq
    exact hs ▸ h.map _ (List.getElem_mem hi)
  · rw [← (mem_iteritems_special.1 hm).1]
    exact h.special sym

end TransitionMap

end AHPy.Plex
