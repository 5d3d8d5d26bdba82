import AHPy.Plex.Transitions

/-!
# Transition maps as objects

The list of a `TransitionMap` as the source has it: codes and set objects in turn,
of which the last item is the code `maxint`. A set object is its index in the list
of the contents of all set objects, so that two items may be one object; `split`
copies an object, and `add` changes objects in place.

* `Represents`: the items are the pairs of a map of `AHPy.Plex.Transitions`, and no
  two of them are one object;
* `Represents.split`, `Represents.update`: the operations are those of that map;
* `WellFormed`: what the list is like after any calls.
-/

namespace AHPy.Plex

/-- An item of the list: a code, or a set object. -/
inductive Item where
  | code (c : Int)
  | states (ref : Nat)

structure MapObject where
  /-- The contents of the set objects. -/
  sets : List StateSet
  /-- The list of codes and states. -/
  map : List Item
  /-- The set objects of the special events. -/
  special : OrderedDict Special Nat

/-- Ranges have codes between `-maxint` and `maxint`. -/
def Event.InRange : Event → Prop
  | .range code0 code1 => TransitionMap.InRange code0 ∧ TransitionMap.InRange code1
  | .special _ => True

namespace MapObject

/-- A map without transitions. -/
def new : MapObject := ⟨[∅], [.code (-maxint), .states 0, .code maxint], .empty⟩

/-- The code at an index, where there is one. -/
def codeItem (map : List Item) (i : Nat) : Option Int :=
  map[i]?.bind fun item => match item with
    | .code c => some c
    | .states _ => none

/-- The set object at an index, where there is one. -/
def statesItem (map : List Item) (i : Nat) : Option Nat :=
  map[i]?.bind fun item => match item with
    | .code _ => none
    | .states ref => some ref

/-- The loop of `split`, in at most `steps` steps. The middle is truncated to an
    even index. -/
def search (map : List Item) (code : Int) : Nat → Nat → Nat → Option (Nat × Nat)
  | 0, _, _ => none
  | steps + 1, lo, hi =>
    if lo + 4 ≤ hi then do
      let mid := 2 * ((lo + hi) / 2 / 2)
      if code < (← codeItem map mid) then search map code steps lo mid
      else search map code steps mid hi
    else some (lo, hi)

/-- The index of the split point for `code`, which is inserted if it is new, with a
    copy of the set before it. -/
def split (o : MapObject) (code : Int) : Option (Nat × MapObject) :=
  let hi := o.map.length - 1
  if code = maxint then some (hi, o)
  else do
    let r ← search o.map code (o.map.length / 2) 0 hi
    if (← codeItem o.map r.1) = code then some (r.1, o)
    else do
      let ref ← statesItem o.map (r.2 - 1)
      let copy ← o.sets[ref]?
      some (r.2, { o with
        sets := o.sets ++ [copy]
        map := o.map.take r.2 ++ .code code :: .states o.sets.length :: o.map.drop r.2 })

/-- A set object changed in place. -/
def updateObject (o : MapObject) (f : StateSet → StateSet) (ref : Nat) : MapObject :=
  { o with sets := o.sets.modify ref f }

/-- The loops of `add` and `add_set`, from `i` to before `j` in at most `steps`
    steps. -/
def updateItems (f : StateSet → StateSet) (j : Nat) : Nat → Nat → MapObject → Option MapObject
  | 0, i, o => if i < j then none else some o
  | steps + 1, i, o =>
    if i < j then do
      let ref ← statesItem o.map (i + 1)
      updateItems f j steps (i + 2) (o.updateObject f ref)
    else some o

/-- The set object of a special event, which is new if there is none. -/
def getSpecial (o : MapObject) (event : Special) : Nat × MapObject :=
  match o.special.get? event with
  | some ref => (ref, o)
  | none => (o.sets.length, { o with
      sets := o.sets ++ [∅], special := o.special.set event o.sets.length })

/-- What `add` and `add_set` do with the sets of an event. -/
def update (o : MapObject) (event : Event) (f : StateSet → StateSet) : Option MapObject :=
  match event with
  | .range code0 code1 => do
    let (i, o) ← o.split code0
    let (j, o) ← o.split code1
    updateItems f j (j - i) i o
  | .special sym =>
    let (ref, o) := o.getSpecial sym
    some (o.updateObject f ref)

/-- A transition to `newState` on `event`. -/
def add (o : MapObject) (event : Event) (newState : Nat) : Option MapObject :=
  o.update event fun states => insert newState states

/-- Transitions to the states of `newSet` on `event`. -/
def addSet (o : MapObject) (event : Event) (newSet : StateSet) : Option MapObject :=
  o.update event fun states => states ∪ newSet

theorem getElem?_updateObject_self (o : MapObject) (f : StateSet → StateSet) (ref : Nat) :
    (o.updateObject f ref).sets[ref]? = o.sets[ref]?.map f :=
  List.getElem?_modify_eq f ref o.sets

theorem getElem?_updateObject_of_ne (o : MapObject) (f : StateSet → StateSet) {ref ref' : Nat}
    (h : ref ≠ ref') : (o.updateObject f ref).sets[ref']? = o.sets[ref']? :=
  List.getElem?_modify_ne f o.sets h

theorem length_updateObject (o : MapObject) (f : StateSet → StateSet) (ref : Nat) :
    (o.updateObject f ref).sets.length = o.sets.length := List.length_modify _ _ _

/-! ## The pairs of a list -/

/-- The items of the pairs of a code and a set object. -/
def items (refs : List (Int × Nat)) : List Item :=
  refs.flatMap (fun e => [.code e.1, .states e.2]) ++ [.code maxint]

/-- The pairs with the contents of their set objects. -/
def contents (sets : List StateSet) (refs : List (Int × Nat)) : List (Int × StateSet) :=
  refs.map fun e => (e.1, sets[e.2]?.getD ∅)

theorem items_cons (e : Int × Nat) (refs : List (Int × Nat)) :
    items (e :: refs) = .code e.1 :: .states e.2 :: items refs := rfl

@[simp] theorem length_items (refs : List (Int × Nat)) :
    (items refs).length = 2 * refs.length + 1 := by
  induction refs with
  | nil => rfl
  | cons e refs ih =>
    rw [items_cons, List.length_cons, List.length_cons, ih, List.length_cons]
    omega

@[simp] theorem length_contents (sets : List StateSet) (refs : List (Int × Nat)) :
    (contents sets refs).length = refs.length := List.length_map _

/-- The item at an even index is a code, that of the pair or the last one. -/
theorem getElem?_items_even (sets : List StateSet) {refs : List (Int × Nat)} {i : Nat}
    (h : i ≤ refs.length) :
    (items refs)[2 * i]? = some (.code (TransitionMap.codeAt (contents sets refs) i)) := by
  induction refs generalizing i with
  | nil =>
    obtain rfl : i = 0 := Nat.le_zero.1 h
    rfl
  | cons e refs ih =>
    rcases i with _ | i
    · rfl
    · have hi := ih (Nat.le_of_succ_le_succ h)
      rw [items_cons, Nat.mul_succ, List.getElem?_cons_succ, List.getElem?_cons_succ, hi]
      rfl

/-- The item at an odd index is the set object of the pair. -/
theorem getElem?_items_odd (refs : List (Int × Nat)) (i : Nat) :
    (items refs)[2 * i + 1]? = refs[i]?.map fun e => .states e.2 := by
  induction refs generalizing i with
  | nil => rcases i with _ | i <;> simp [items]
  | cons e refs ih =>
    rcases i with _ | i
    · rfl
    · rw [items_cons, Nat.mul_succ, List.getElem?_cons_succ, List.getElem?_cons_succ, ih,
        List.getElem?_cons_succ]

theorem codeItem_items (sets : List StateSet) {refs : List (Int × Nat)} {i : Nat}
    (h : i ≤ refs.length) :
    codeItem (items refs) (2 * i) = some (TransitionMap.codeAt (contents sets refs) i) := by
  rw [codeItem, getElem?_items_even sets h]
  rfl

theorem statesItem_items {refs : List (Int × Nat)} {i : Nat} (h : i < refs.length) :
    statesItem (items refs) (2 * i + 1) = some refs[i].2 := by
  rw [statesItem, getElem?_items_odd, List.getElem?_eq_getElem h]
  rfl

/-- A pair between others, as two items between others. -/
theorem items_insert (refs : List (Int × Nat)) {i : Nat} (h : i ≤ refs.length) (e : Int × Nat) :
    items (refs.take i ++ e :: refs.drop i) =
      (items refs).take (2 * i) ++ .code e.1 :: .states e.2 :: (items refs).drop (2 * i) := by
  induction refs generalizing i with
  | nil =>
    obtain rfl : i = 0 := Nat.le_zero.1 h
    rfl
  | cons d refs ih =>
    rcases i with _ | i
    · rfl
    · have hi := ih (Nat.le_of_succ_le_succ h)
      rw [List.take_succ_cons, List.drop_succ_cons, List.cons_append, items_cons, hi, items_cons,
        Nat.mul_succ, List.take_succ_cons, List.take_succ_cons, List.drop_succ_cons,
        List.drop_succ_cons]
      rfl

/-- The search over the items is that over the pairs. -/
theorem search_items (sets : List StateSet) {refs : List (Int × Nat)} (code : Int)
    {steps lo hi : Nat} (hlt : lo < hi) (hsteps : hi ≤ lo + steps) (hhi : hi ≤ refs.length) :
    search (items refs) code steps (2 * lo) (2 * hi) =
      some (2 * (TransitionMap.splitSearch (contents sets refs) code steps lo hi).1,
        2 * (TransitionMap.splitSearch (contents sets refs) code steps lo hi).2) := by
  induction steps generalizing lo hi with
  | zero => omega
  | succ steps ih =>
    rw [search, TransitionMap.splitSearch]
    by_cases hmore : lo + 2 ≤ hi
    · have hmid : 2 * ((2 * lo + 2 * hi) / 2 / 2) = 2 * ((lo + hi) / 2) := by omega
      have hcode := codeItem_items sets (i := (lo + hi) / 2) (show _ ≤ refs.length by omega)
      simp only [if_pos (show 2 * lo + 4 ≤ 2 * hi by omega), if_pos hmore, hmid, hcode]
      by_cases hless : code < TransitionMap.codeAt (contents sets refs) ((lo + hi) / 2)
      · simpa [hless] using ih (by omega) (by omega) (by omega)
      · simpa [hless] using ih (by omega) (by omega) hhi
    · rw [if_neg (show ¬2 * lo + 4 ≤ 2 * hi by omega), if_neg hmore]

/-! ## Independent objects -/

/-- The list is that of the pairs `refs`, whose sets are those of `m`; no two sets
    are one object. -/
structure Represents (o : MapObject) (refs : List (Int × Nat)) (m : TransitionMap) : Prop where
  map : o.map = items refs
  lt : ∀ ref ∈ refs.map Prod.snd, ref < o.sets.length
  nodup : (refs.map Prod.snd).Nodup
  special_lt : ∀ sym ref, o.special.get? sym = some ref → ref < o.sets.length
  not_mem : ∀ sym ref, o.special.get? sym = some ref → ref ∉ refs.map Prod.snd
  inj : ∀ sym sym' ref, o.special.get? sym = some ref → o.special.get? sym' = some ref →
    sym = sym'
  contents : contents o.sets refs = m.map
  special : ∀ sym, (o.special.get? sym).map (fun ref => o.sets[ref]?.getD ∅) = m.special.get? sym

variable {o : MapObject} {refs : List (Int × Nat)} {m : TransitionMap}

theorem represents_new : Represents new [(-maxint, 0)] .new where
  map := rfl
  lt := by simp [new]
  nodup := by simp
  special_lt := by simp [new]
  not_mem := by simp [new]
  inj := by simp [new]
  contents := rfl
  special := fun _ => rfl

namespace Represents

theorem length_eq (h : Represents o refs m) : m.map.length = refs.length := by
  rw [← h.contents, length_contents]

/-- What the map says about special events is all that matters of them. -/
theorem of_special {m' : TransitionMap} (h : Represents o refs m) (hmap : m.map = m'.map)
    (hs : ∀ sym, m.special.get? sym = m'.special.get? sym) : Represents o refs m' :=
  ⟨h.map, h.lt, h.nodup, h.special_lt, h.not_mem, h.inj, h.contents.trans hmap,
    fun sym => (h.special sym).trans (hs sym)⟩

theorem ref_lt (h : Represents o refs m) {i : Nat} (hi : i < refs.length) :
    refs[i].2 < o.sets.length :=
  h.lt _ (List.mem_map_of_mem (List.getElem_mem hi))

theorem ref_inj (h : Represents o refs m) {i j : Nat} (hi : i < refs.length) (hj : j < refs.length)
    (heq : refs[i].2 = refs[j].2) : i = j := by
  have hi' : i < (refs.map Prod.snd).length := by rwa [List.length_map]
  have hj' : j < (refs.map Prod.snd).length := by rwa [List.length_map]
  have heq' : (refs.map Prod.snd)[i] = (refs.map Prod.snd)[j] := by
    rw [List.getElem_map, List.getElem_map, heq]
  exact h.nodup.getElem_inj_iff.1 heq'

/-- The contents do not change when an object is made. -/
theorem contents_append (h : Represents o refs m) (states : StateSet) :
    MapObject.contents (o.sets ++ [states]) refs = m.map := by
  rw [← h.contents]
  refine List.map_congr_left fun e he => ?_
  have hlt : e.2 < o.sets.length := h.lt _ (List.mem_map_of_mem he)
  rw [List.getElem?_append_left hlt]

theorem special_append (h : Represents o refs m) (states : StateSet) (sym : Special) :
    (o.special.get? sym).map (fun ref => (o.sets ++ [states])[ref]?.getD ∅) =
      m.special.get? sym := by
  rw [← h.special]
  rcases hs : o.special.get? sym with _ | ref
  · rfl
  · rw [Option.map_some, Option.map_some, List.getElem?_append_left (h.special_lt sym ref hs)]

/-- `split` finds the split point, or makes it with an object of its own. -/
theorem split (h : Represents o refs m) (hs : TransitionMap.Sorted m.map) {code : Int}
    (hc : TransitionMap.InRange code) :
    ∃ o' refs', o.split code = some (2 * (TransitionMap.split m.map code).1, o') ∧
      Represents o' refs' { m with map := (TransitionMap.split m.map code).2 } := by
  have hlength := h.length_eq
  rw [MapObject.split, TransitionMap.split, h.map, length_items]
  by_cases hmax : code = maxint
  · refine ⟨o, refs, ?_, ?_⟩
    · simp only [if_pos hmax, hlength]
      rfl
    · simpa only [if_pos hmax] using h
  have hpos : 0 < refs.length := hlength ▸ hs.length_pos
  have hlo : TransitionMap.codeAt m.map 0 ≤ code := hs.codeAt_zero.trans_le hc.1
  obtain ⟨i, hsearch, hi, -⟩ := TransitionMap.splitSearch_spec
    (Nat.le_succ_of_le (Nat.zero_add _).ge) hs.length_pos hlo
    (lt_of_lt_of_le (lt_of_le_of_ne hc.2 hmax) (TransitionMap.codeAt_of_length_le le_rfl).ge)
  have hitems := search_items o.sets code hpos (Nat.zero_add refs.length).ge le_rfl
  rw [h.contents] at hitems
  rw [hlength] at hsearch hi
  have hcode := codeItem_items o.sets hi.le
  rw [h.contents] at hcode
  simp only [if_neg hmax, hlength, hsearch, Nat.mul_zero] at hitems ⊢
  rw [show (2 * refs.length + 1) / 2 = refs.length by omega, Nat.add_sub_cancel, hitems]
  simp only [Option.bind_eq_bind, Option.bind_some, hcode]
  by_cases heq : TransitionMap.codeAt m.map i = code
  · refine ⟨o, refs, ?_, ?_⟩
    · simp only [if_pos heq]
    · simpa only [if_pos heq] using h
  · -- A new pair is inserted after the one that was found.
    have hodd : 2 * (i + 1) - 1 = 2 * i + 1 := by omega
    have hlt := h.ref_lt hi
    have hget := List.getElem?_eq_getElem hlt
    have hcopy : (m.map[i + 1 - 1]?.map Prod.snd).getD ∅ = o.sets[refs[i].2] := by
      rw [← h.contents, Nat.add_sub_cancel, MapObject.contents, List.getElem?_map,
        List.getElem?_eq_getElem hi, Option.map_some, Option.map_some, Option.getD_some, hget]
      rfl
    simp only [if_neg heq, hodd, statesItem_items hi, Option.bind_some, hget, hcopy]
    refine ⟨_, refs.take (i + 1) ++ (code, o.sets.length) :: refs.drop (i + 1), rfl, ?_⟩
    have hperm : ((refs.take (i + 1) ++ (code, o.sets.length) :: refs.drop (i + 1)).map
        Prod.snd).Perm (o.sets.length :: refs.map Prod.snd) := by
      rw [List.map_append, List.map_cons]
      refine List.perm_middle.trans ?_
      rw [← List.map_append, List.take_append_drop]
    have hmore : ∀ ref, ref < o.sets.length →
        ref < (o.sets ++ [o.sets[refs[i].2]]).length := by
      intro ref href
      rw [List.length_append, List.length_singleton]
      exact href.trans (Nat.lt_succ_self _)
    refine ⟨?_, ?_, ?_, fun sym ref href => hmore ref (h.special_lt sym ref href), ?_, h.inj, ?_,
      h.special_append _⟩
    · rw [items_insert refs hi]
    · intro ref href
      rcases List.mem_cons.1 (hperm.mem_iff.1 href) with rfl | href
      · rw [List.length_append, List.length_singleton]
        exact Nat.lt_succ_self _
      · exact hmore ref (h.lt ref href)
    · refine hperm.nodup_iff.2 (List.nodup_cons.2 ⟨fun hmem => ?_, h.nodup⟩)
      exact absurd (h.lt _ hmem) (Nat.lt_irrefl _)
    · intro sym ref href hmem
      rcases List.mem_cons.1 (hperm.mem_iff.1 hmem) with rfl | hmem
      · exact absurd (h.special_lt sym _ href) (Nat.lt_irrefl _)
      · exact h.not_mem sym ref href hmem
    · have hold := h.contents_append (o.sets[refs[i].2])
      rw [← hold]
      simp only [MapObject.contents, List.map_append, List.map_cons, List.map_take, List.map_drop,
        List.getElem?_concat_length, Option.getD_some]

/-- A step of the loop changes the set of one pair. -/
theorem updateObject (h : Represents o refs m) (newSet : StateSet) {i : Nat}
    (hi : i < refs.length) :
    Represents (o.updateObject (fun states => states ∪ newSet) refs[i].2) refs
      { m with map := TransitionMap.updateSets m.map i (i + 1) newSet } := by
  refine ⟨h.map, ?_, h.nodup, ?_, h.not_mem, h.inj, ?_, fun sym => ?_⟩
  · rw [length_updateObject]
    exact h.lt
  · rw [length_updateObject]
    exact h.special_lt
  · rw [← h.contents]
    refine List.ext_getElem (by simp [MapObject.contents, TransitionMap.updateSets])
      fun k hk _ => ?_
    rw [length_contents] at hk
    have hlt := h.ref_lt hk
    simp only [MapObject.contents, TransitionMap.updateSets, List.getElem_map, List.getElem_mapIdx]
    by_cases hki : i = k
    · subst hki
      rw [getElem?_updateObject_self, List.getElem?_eq_getElem hlt, if_pos (by omega)]
      rfl
    · have hne : refs[i].2 ≠ refs[k].2 := fun heq => hki (h.ref_inj hi hk heq)
      rw [getElem?_updateObject_of_ne _ _ hne, if_neg (by omega)]
  · have hr : refs[i].2 ∈ refs.map Prod.snd := List.mem_map_of_mem (List.getElem_mem hi)
    rw [← h.special]
    rcases hs : o.special.get? sym with _ | ref
    · simp only [MapObject.updateObject, hs, Option.map_none]
    · have hne : refs[i].2 ≠ ref := fun heq => h.not_mem sym ref hs (heq ▸ hr)
      rw [Option.map_some, ← getElem?_updateObject_of_ne o (fun states => states ∪ newSet) hne]
      simp only [MapObject.updateObject, hs, Option.map_some]

/-- The loop changes the sets of the pairs from `i` to before `j`. -/
theorem updateItems (h : Represents o refs m) (newSet : StateSet) {steps i j : Nat}
    (hj : j ≤ refs.length) (hsteps : j ≤ i + steps) :
    ∃ o', MapObject.updateItems (fun states => states ∪ newSet) (2 * j) steps (2 * i) o = some o' ∧
      Represents o' refs { m with map := TransitionMap.updateSets m.map i j newSet } := by
  induction steps generalizing i o m with
  | zero =>
    have hnone : TransitionMap.updateSets m.map i j newSet = m.map :=
      TransitionMap.updateSets_of_le (by omega) newSet
    refine ⟨o, ?_, ?_⟩
    · rw [MapObject.updateItems, if_neg (by omega)]
    · rw [hnone]
      exact h
  | succ steps ih =>
    rw [MapObject.updateItems]
    by_cases hlt : i < j
    · have hi : i < refs.length := hlt.trans_le hj
      have hget : statesItem o.map (2 * i + 1) = some refs[i].2 := by
        rw [h.map, statesItem_items hi]
      obtain ⟨o', ho', hr⟩ := ih (h.updateObject newSet hi) (show j ≤ i + 1 + steps by omega)
      rw [TransitionMap.updateSets_updateSets hlt] at hr
      refine ⟨o', ?_, hr⟩
      rw [if_pos (by omega), hget]
      exact ho'
    · have hnone : TransitionMap.updateSets m.map i j newSet = m.map :=
        TransitionMap.updateSets_of_le (not_lt.1 hlt) newSet
      refine ⟨o, ?_, ?_⟩
      · rw [if_neg (by omega)]
      · rw [hnone]
        exact h

/-- The set object of a special event. -/
theorem getSpecial (h : Represents o refs m) (event : Special) :
    Represents (o.getSpecial event).2 refs
        { m with special := m.special.set event (m.getSpecial event) } ∧
      (o.getSpecial event).2.special.get? event = some (o.getSpecial event).1 := by
  rw [MapObject.getSpecial]
  rcases hs : o.special.get? event with _ | ref
  · have hnew : m.special.get? event = none := by rw [← h.special, hs, Option.map_none]
    have hget : ∀ sym ref, (o.special.set event o.sets.length).get? sym = some ref →
        sym = event ∧ ref = o.sets.length ∨ sym ≠ event ∧ o.special.get? sym = some ref :=
      fun _ _ => OrderedDict.get?_set_cases
    have hlength : (o.sets ++ [∅]).length = o.sets.length + 1 := by
      rw [List.length_append, List.length_singleton]
    refine ⟨⟨h.map, fun ref href => ?_, h.nodup, fun sym ref href => ?_, fun sym ref href => ?_,
      fun sym sym' ref href href' => ?_, h.contents_append ∅, fun sym => ?_⟩,
      OrderedDict.get?_set_self _ _ _⟩
    · exact hlength ▸ (h.lt ref href).trans (Nat.lt_succ_self _)
    · rcases hget sym ref href with ⟨-, rfl⟩ | ⟨-, href⟩
      · exact hlength ▸ Nat.lt_succ_self _
      · exact hlength ▸ (h.special_lt sym ref href).trans (Nat.lt_succ_self _)
    · rcases hget sym ref href with ⟨-, rfl⟩ | ⟨-, href⟩
      · exact fun hmem => absurd (h.lt _ hmem) (Nat.lt_irrefl _)
      · exact h.not_mem sym ref href
    · rcases hget sym ref href with ⟨hsym, hr⟩ | ⟨-, hr⟩ <;>
        rcases hget sym' ref href' with ⟨hsym', hr'⟩ | ⟨-, hr'⟩
      · exact hsym.trans hsym'.symm
      · exact absurd (h.special_lt sym' ref hr') (hr ▸ Nat.lt_irrefl _)
      · exact absurd (h.special_lt sym ref hr) (hr' ▸ Nat.lt_irrefl _)
      · exact h.inj sym sym' ref hr hr'
    · rw [OrderedDict.get?_set, OrderedDict.get?_set]
      by_cases heq : sym = event
      · rw [if_pos heq, if_pos heq, TransitionMap.getSpecial, hnew, Option.map_some,
          List.getElem?_concat_length, Option.getD_some, Option.getD_none]
      · rw [if_neg heq, if_neg heq]
        exact h.special_append ∅ sym
  · have hold : m.special.get? event = some (o.sets[ref]?.getD ∅) := by
      rw [← h.special, hs, Option.map_some]
    refine ⟨h.of_special rfl fun sym => ?_, hs⟩
    rw [OrderedDict.get?_set, TransitionMap.getSpecial, hold]
    split
    next heq => rw [heq, hold, Option.getD_some]
    next => rfl

/-- The set object of a special event, changed. -/
theorem updateSpecial (h : Represents o refs m) {event : Special} {ref : Nat}
    (hs : o.special.get? event = some ref) (newSet : StateSet) :
    Represents (o.updateObject (fun states => states ∪ newSet) ref) refs
      { m with special := m.special.set event (m.getSpecial event ∪ newSet) } := by
  have hnot := h.not_mem event ref hs
  refine ⟨h.map, ?_, h.nodup, ?_, h.not_mem, h.inj, ?_, fun sym => ?_⟩
  · rw [length_updateObject]
    exact h.lt
  · rw [length_updateObject]
    exact h.special_lt
  · rw [← h.contents]
    refine List.map_congr_left fun e he => ?_
    have hne : ref ≠ e.2 := fun heq => hnot (heq ▸ List.mem_map_of_mem he)
    rw [getElem?_updateObject_of_ne _ _ hne]
  · have hget := h.special event
    rw [hs, Option.map_some] at hget
    rw [OrderedDict.get?_set, TransitionMap.getSpecial, ← hget, Option.getD_some,
      show (o.updateObject (fun states => states ∪ newSet) ref).special = o.special from rfl]
    by_cases heq : sym = event
    · have hlt := h.special_lt event ref hs
      rw [if_pos heq, heq, hs, Option.map_some, getElem?_updateObject_self,
        List.getElem?_eq_getElem hlt]
      rfl
    · rw [if_neg heq, ← h.special]
      rcases hsym : o.special.get? sym with _ | ref'
      · rfl
      · have hne : ref ≠ ref' := fun he => heq (h.inj sym event ref' hsym (he ▸ hs))
        rw [Option.map_some, Option.map_some, getElem?_updateObject_of_ne _ _ hne]

/-- `add_set` is that of the maps of pairs. -/
theorem update (h : Represents o refs m) (hs : TransitionMap.Sorted m.map) {event : Event}
    (he : event.InRange) (newSet : StateSet) :
    ∃ o' refs', o.addSet event newSet = some o' ∧ Represents o' refs' (m.addSet event newSet) := by
  rcases event with ⟨code0, code1⟩ | sym
  · obtain ⟨o₁, refs₁, ho₁, h₁⟩ := h.split hs he.1
    have hs₁ := TransitionMap.split_spec hs he.1.1 he.1.2
    obtain ⟨o₂, refs₂, ho₂, h₂⟩ := h₁.split hs₁.sorted he.2
    have hs₂ := TransitionMap.split_spec hs₁.sorted he.2.1 he.2.2
    have hj : (TransitionMap.split (TransitionMap.split m.map code0).2 code1).1 ≤ refs₂.length := by
      rw [← h₂.length_eq]
      exact hs₂.index_le.trans hs₂.length_le
    have hsteps : (TransitionMap.split (TransitionMap.split m.map code0).2 code1).1 ≤
        (TransitionMap.split m.map code0).1 +
          (2 * (TransitionMap.split (TransitionMap.split m.map code0).2 code1).1 -
            2 * (TransitionMap.split m.map code0).1) := by omega
    obtain ⟨o₃, ho₃, h₃⟩ := h₂.updateItems newSet hj hsteps
    refine ⟨o₃, refs₂, ?_, h₃⟩
    simp only [addSet, MapObject.update, ho₁, Option.bind_eq_bind, Option.bind_some, ho₂, ho₃]
  · obtain ⟨h₁, hget⟩ := h.getSpecial sym
    refine ⟨_, refs, rfl, (h₁.updateSpecial hget newSet).of_special rfl fun sym' => ?_⟩
    simp only [TransitionMap.addSet, TransitionMap.getSpecial, OrderedDict.get?_set]
    split <;> simp_all

end Represents

/-! ## Calls -/

/-- A call of `add` or `add_set`. -/
inductive Call where
  | add (event : Event) (newState : Nat)
  | addSet (event : Event) (newSet : StateSet)

namespace Call

def event : Call → Event
  | .add event _ => event
  | .addSet event _ => event

/-- The states that are added. -/
def targets : Call → StateSet
  | .add _ newState => {newState}
  | .addSet _ newSet => newSet

/-- The call has a range with the code in it. -/
def Covers (call : Call) (code : Int) : Prop :=
  ∃ code0 code1, call.event = .range code0 code1 ∧ code0 ≤ code ∧ code < code1

end Call

def call (o : MapObject) : Call → Option MapObject
  | .add event newState => o.add event newState
  | .addSet event newSet => o.addSet event newSet

/-- The calls one after the other. -/
def calls (o : MapObject) : List Call → Option MapObject
  | [] => some o
  | c :: cs => do calls (← o.call c) cs

theorem call_eq (o : MapObject) (c : Call) : o.call c = o.addSet c.event c.targets := by
  rcases c with ⟨event, newState⟩ | ⟨event, newSet⟩
  · have hinsert : (fun states : StateSet => insert newState states) =
        fun states => states ∪ {newState} := by
      funext states
      rw [Finset.insert_eq, Finset.union_comm]
    rw [call, add, hinsert]
    rfl
  · rfl

/-- The states that the calls have added for a code. -/
theorem calls_represents (cs : List Call) (h : Represents o refs m)
    (hs : TransitionMap.Sorted m.map) (hcs : ∀ c ∈ cs, c.event.InRange) :
    ∃ o' refs' m', o.calls cs = some o' ∧ Represents o' refs' m' ∧
      TransitionMap.Sorted m'.map ∧
      (∀ code, -maxint ≤ code → code < maxint → ∀ x, x ∈ TransitionMap.statesOf m'.map code ↔
        x ∈ TransitionMap.statesOf m.map code ∨ ∃ c ∈ cs, c.Covers code ∧ x ∈ c.targets) ∧
      ∀ sym x, x ∈ m'.getSpecial sym ↔
        x ∈ m.getSpecial sym ∨ ∃ c ∈ cs, c.event = .special sym ∧ x ∈ c.targets := by
  induction cs generalizing o refs m with
  | nil => exact ⟨o, refs, m, rfl, h, hs, by simp, by simp⟩
  | cons c cs ih =>
    obtain ⟨hc, hcs⟩ := List.forall_mem_cons.1 hcs
    obtain ⟨o₁, refs₁, ho₁, h₁⟩ := h.update hs hc c.targets
    have hstep : TransitionMap.Sorted (m.addSet c.event c.targets).map ∧
        (∀ code, -maxint ≤ code → code < maxint → ∀ x,
          x ∈ TransitionMap.statesOf (m.addSet c.event c.targets).map code ↔
            x ∈ TransitionMap.statesOf m.map code ∨ c.Covers code ∧ x ∈ c.targets) ∧
        ∀ sym x, x ∈ (m.addSet c.event c.targets).getSpecial sym ↔
          x ∈ m.getSpecial sym ∨ c.event = .special sym ∧ x ∈ c.targets := by
      rcases he : c.event with ⟨code0, code1⟩ | sym
      · rw [he] at hc
        obtain ⟨hsorted, -, hstates⟩ := TransitionMap.addSet_range hs hc.1 hc.2 c.targets
        refine ⟨hsorted, fun code hlo hhi x => ?_, fun sym x => ?_⟩
        · have hcovers : c.Covers code ↔ code0 ≤ code ∧ code < code1 := by
            simp [Call.Covers, he]
          rw [hstates code hlo hhi, hcovers]
          split
          next hin => simp [hin]
          next hout => simp [hout]
        · simp [TransitionMap.addSet, TransitionMap.getSpecial]
      · refine ⟨hs, fun code _ _ x => ?_, fun sym' x => ?_⟩
        · have hcovers : ¬c.Covers code := by simp [Call.Covers, he]
          simp [hcovers, TransitionMap.addSet]
        · rw [TransitionMap.getSpecial_addSet]
          split
          next heq => simp [heq]
          next hne => simp [Ne.symm hne]
    obtain ⟨o', refs', m', ho', h', hs', hstates, hspecial⟩ := ih h₁ hstep.1 hcs
    refine ⟨o', refs', m', ?_, h', hs', fun code hlo hhi x => ?_, fun sym x => ?_⟩
    · simp only [calls, call_eq, ho₁, Option.bind_eq_bind, Option.bind_some, ho']
    · rw [hstates code hlo hhi, hstep.2.1 code hlo hhi]
      simp [or_assoc]
    · rw [hspecial, hstep.2.2]
      simp [or_assoc]

/-! ## The invariant -/

/-- The list of codes and states: the codes at the even indices increase from
    `-maxint` to `maxint`, and the set objects at the odd ones are independent. -/
structure WellFormed (o : MapObject) : Prop where
  first : o.map.head? = some (.code (-maxint))
  last : o.map.getLast? = some (.code maxint)
  even : ∀ i < o.map.length, i % 2 = 0 → ∃ code, o.map[i]? = some (.code code)
  odd : ∀ i < o.map.length, i % 2 = 1 → ∃ ref < o.sets.length, o.map[i]? = some (.states ref)
  increasing : ∀ (i j : Nat) code code', i < j → o.map[i]? = some (.code code) →
    o.map[j]? = some (.code code') → code < code'
  independent : ∀ (i j ref : Nat), o.map[i]? = some (.states ref) →
    o.map[j]? = some (.states ref) → i = j
  apart : ∀ (i ref : Nat) sym, o.map[i]? = some (.states ref) → o.special.get? sym ≠ some ref

/-- The code is in the interval from the code at index `i` to the next one. -/
def Contains (o : MapObject) (i : Nat) (code : Int) : Prop :=
  ∃ code0 code1, o.map[i]? = some (.code code0) ∧ o.map[i + 2]? = some (.code code1) ∧
    code0 ≤ code ∧ code < code1

/-- An item is a code at an even index, or a set object at an odd one. -/
theorem getElem?_items_cases (sets : List StateSet) {refs : List (Int × Nat)} {i : Nat}
    {item : Item} (h : (items refs)[i]? = some item) :
    (∃ k ≤ refs.length, i = 2 * k ∧
      item = .code (TransitionMap.codeAt (MapObject.contents sets refs) k)) ∨
    ∃ k, ∃ hk : k < refs.length, i = 2 * k + 1 ∧ item = .states refs[k].2 := by
  have hlt : i < (items refs).length := by
    by_contra hge
    rw [List.getElem?_eq_none (not_lt.1 hge)] at h
    cases h
  rw [length_items] at hlt
  rcases Nat.mod_two_eq_zero_or_one i with hi | hi
  · have heven : i = 2 * (i / 2) := by omega
    have hk : i / 2 ≤ refs.length := by omega
    rw [heven, getElem?_items_even sets hk] at h
    exact .inl ⟨i / 2, hk, heven, (Option.some.inj h).symm⟩
  · have hodd : i = 2 * (i / 2) + 1 := by omega
    have hk : i / 2 < refs.length := by omega
    rw [hodd, getElem?_items_odd, List.getElem?_eq_getElem hk] at h
    exact .inr ⟨i / 2, hk, hodd, (Option.some.inj h).symm⟩

theorem Represents.wellFormed (h : Represents o refs m) (hs : TransitionMap.Sorted m.map) :
    o.WellFormed := by
  have hlength := h.length_eq
  have hcodes := hs.codeAt_zero
  rw [← h.contents] at hcodes
  refine ⟨?_, ?_, fun i hi heven => ?_, fun i hi hodd => ?_, fun i j code code' hij hi hj => ?_,
    fun i j ref hi hj => ?_, fun i ref sym hi hsym => ?_⟩
  · have hfirst := getElem?_items_even o.sets (Nat.zero_le refs.length)
    rw [Nat.mul_zero, hcodes] at hfirst
    rw [h.map, List.head?_eq_getElem?, hfirst]
  · rw [h.map, items, List.getLast?_concat]
  · rw [h.map, length_items] at hi
    have hk := getElem?_items_even o.sets (show i / 2 ≤ refs.length by omega)
    rw [show 2 * (i / 2) = i by omega, ← h.map] at hk
    exact ⟨_, hk⟩
  · rw [h.map, length_items] at hi
    have hlt : i / 2 < refs.length := by omega
    have hk := getElem?_items_odd refs (i / 2)
    rw [show 2 * (i / 2) + 1 = i by omega, ← h.map, List.getElem?_eq_getElem hlt] at hk
    exact ⟨_, h.ref_lt hlt, hk⟩
  · rw [h.map] at hi hj
    rcases getElem?_items_cases o.sets hi with ⟨k, -, rfl, hk⟩ | ⟨k, _, -, hk⟩ <;> cases hk
    rcases getElem?_items_cases o.sets hj with ⟨l, hl, rfl, hl'⟩ | ⟨l, _, -, hl⟩
    · cases hl'
      rw [h.contents]
      exact hs.codeAt_lt_codeAt (by omega) (hlength.symm ▸ hl)
    · cases hl
  · rw [h.map] at hi hj
    rcases getElem?_items_cases o.sets hi with ⟨k, -, -, hk⟩ | ⟨k, hk, rfl, hk'⟩
    · cases hk
    rcases getElem?_items_cases o.sets hj with ⟨l, -, -, hl⟩ | ⟨l, hl, rfl, hl'⟩
    · cases hl
    rw [h.ref_inj hk hl ((Item.states.inj hk').symm.trans (Item.states.inj hl'))]
  · rw [h.map] at hi
    rcases getElem?_items_cases o.sets hi with ⟨k, -, -, hk⟩ | ⟨k, hk, rfl, hk'⟩
    · cases hk
    · refine h.not_mem sym ref hsym ?_
      rw [Item.states.inj hk']
      exact List.mem_map_of_mem (List.getElem_mem hk)

/-- The set of an interval is that of its codes. -/
theorem Represents.contains_iff (h : Represents o refs m) {i : Nat} {code : Int} :
    o.Contains i code ↔ ∃ k < refs.length, i = 2 * k ∧
      TransitionMap.codeAt m.map k ≤ code ∧ code < TransitionMap.codeAt m.map (k + 1) := by
  rw [Contains, h.map, ← h.contents]
  constructor
  · rintro ⟨code0, code1, h₀, h₁, hcode⟩
    rcases getElem?_items_cases o.sets h₀ with ⟨k, -, rfl, hk⟩ | ⟨k, _, -, hk⟩ <;> cases hk
    rcases getElem?_items_cases o.sets h₁ with ⟨l, hl, hkl, hl'⟩ | ⟨l, _, -, hl⟩
    · obtain rfl : l = k + 1 := by omega
      cases hl'
      exact ⟨k, hl, rfl, hcode⟩
    · cases hl
  · rintro ⟨k, hk, rfl, hcode⟩
    have h₁ := getElem?_items_even o.sets (show k + 1 ≤ refs.length from hk)
    exact ⟨_, _, getElem?_items_even o.sets hk.le, h₁, hcode⟩

/-- The sets of intervals are what the pairs say about their codes. -/
theorem Represents.sets_eq (h : Represents o refs m) (hs : TransitionMap.Sorted m.map) {i : Nat}
    {code : Int} (hi : o.Contains i code) :
    ∃ ref, o.map[i + 1]? = some (.states ref) ∧
      o.sets[ref]? = some (TransitionMap.statesOf m.map code) := by
  obtain ⟨k, hk, rfl, hle, hlt⟩ := h.contains_iff.1 hi
  have hk' : k < m.map.length := h.length_eq.symm ▸ hk
  have href := h.ref_lt hk
  refine ⟨refs[k].2, ?_, ?_⟩
  · rw [h.map, getElem?_items_odd, List.getElem?_eq_getElem hk]
    rfl
  · rw [TransitionMap.statesOf_eq_getElem hs hk' hle hlt, List.getElem?_eq_getElem href]
    simp only [← h.contents, MapObject.contents, List.getElem_map, List.getElem?_eq_getElem href,
      Option.getD_some]

/-- Every code between the first and the last one is in an interval. -/
theorem Represents.exists_contains (h : Represents o refs m) (hs : TransitionMap.Sorted m.map)
    {code : Int} (hlo : -maxint ≤ code) (hhi : code < maxint) : ∃ i, o.Contains i code := by
  obtain ⟨a, b, hm, hle, hlt⟩ := hs.exists_interval hlo hhi
  obtain ⟨k, hk, heq⟩ := TransitionMap.mem_intervals_iff.1 hm
  obtain ⟨⟨rfl, rfl⟩, -⟩ := Prod.ext_iff.1 heq |>.imp_left Prod.ext_iff.1
  exact ⟨2 * k, h.contains_iff.2 ⟨k, h.length_eq ▸ hk, rfl, hle, hlt⟩⟩

/-- After any calls, `split` returns an even index with the code, in a list that is
    in order; and the set of the interval of a code has the states that were added
    for it. -/
theorem calls_spec (cs : List Call) (hcs : ∀ c ∈ cs, c.event.InRange) :
    ∃ o, new.calls cs = some o ∧ o.WellFormed ∧
      (∀ code, TransitionMap.InRange code → ∃ i o', o.split code = some (i, o') ∧ i % 2 = 0 ∧
        o'.map[i]? = some (.code code) ∧ o'.WellFormed) ∧
      (∀ code, -maxint ≤ code → code < maxint → ∃ i, o.Contains i code) ∧
      (∀ i code, o.Contains i code → ∃ ref states, o.map[i + 1]? = some (.states ref) ∧
        o.sets[ref]? = some states ∧
        ∀ x, x ∈ states ↔ ∃ c ∈ cs, c.Covers code ∧ x ∈ c.targets) := by
  obtain ⟨o, refs, m, ho, h, hs, hstates, -⟩ :=
    calls_represents cs represents_new TransitionMap.sorted_new hcs
  refine ⟨o, ho, h.wellFormed hs, fun code hcode => ?_, fun code => h.exists_contains hs,
    fun i code hi => ?_⟩
  · obtain ⟨o', refs', ho', h'⟩ := h.split hs hcode
    have hsplit := TransitionMap.split_spec hs hcode.1 hcode.2
    have hle : (TransitionMap.split m.map code).1 ≤ refs'.length := by
      rw [← h'.length_eq]
      exact hsplit.index_le.trans hsplit.length_le
    refine ⟨_, o', ho', Nat.mul_mod_right 2 _, ?_, h'.wellFormed hsplit.sorted⟩
    rw [h'.map, getElem?_items_even o'.sets hle, h'.contents, hsplit.codeAt_index]
  · obtain ⟨ref, href, hget⟩ := h.sets_eq hs hi
    obtain ⟨k, hk, -, hle, hlt⟩ := h.contains_iff.1 hi
    have hk' : k < m.map.length := h.length_eq.symm ▸ hk
    have hlo : -maxint ≤ code :=
      (hs.codeAt_zero.symm.le.trans (hs.codeAt_le_codeAt (Nat.zero_le k) hk'.le)).trans hle
    have hhi : code < maxint := by
      refine hlt.trans_le ?_
      have hend := hs.codeAt_le_codeAt (Nat.succ_le_of_lt hk') le_rfl
      rwa [TransitionMap.codeAt_of_length_le le_rfl] at hend
    refine ⟨ref, _, href, hget, fun x => ?_⟩
    rw [hstates code hlo hhi]
    simp [TransitionMap.new, TransitionMap.statesOf, hlo]

/-- Two ranges that overlap, the second up to the end, and a special event. -/
theorem calls_spec_overlapping :
    ∃ o, new.calls [.add (.range 97 123) 1, .addSet (.range 110 maxint) {2, 3},
      .add (.special .bol) 1] = some o ∧ o.WellFormed := by
  obtain ⟨o, ho, hw, -⟩ := calls_spec [.add (.range 97 123) 1, .addSet (.range 110 maxint) {2, 3},
    .add (.special .bol) 1] (by simp [Call.event, Event.InRange, TransitionMap.InRange, maxint])
  exact ⟨o, ho, hw⟩

end MapObject

end AHPy.Plex
