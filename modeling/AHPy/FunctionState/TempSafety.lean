import AHPy.FunctionState.Allocation

/-!
# Safety of temporaries

The methods of a `FunctionState`, one by one, and any calls of them.
-/

namespace AHPy

open PoolEvent (InUse Disciplined)

namespace FunctionState

variable {τ κ : Type} [DecidableEq κ] {t : TempTypes τ κ} {taken : Finset String}
  {s : FunctionState τ κ} {history : List (PoolEvent String (κ × Bool))}

/-! ## Methods -/

omit [DecidableEq κ] in
theorem get_run (s : FunctionState τ κ) : (get : FunctionM τ κ (FunctionState τ κ)) s = .ok s s :=
  rfl

/-! ### Allocating -/

/-- The last name in the list of a key, if there is one, leaves it and the set. -/
theorem popFree_run (hs : s.temps.Sound t taken history) (key : κ × Bool) :
    popFree key s = .ok none s ∨
      ∃ freelist name, s.temps.tempsFree.get? key = some freelist ∧
        freelist.names.getLast? = some name ∧
        popFree key s = .ok (some name) { s with temps := { s.temps with
          tempsFree := s.temps.tempsFree.set key
            ⟨freelist.names.dropLast, freelist.set.erase name⟩ } } := by
  rw [popFree, bind_of_ok (get_run s)]
  cases hfree : s.temps.tempsFree.get? key with
  | none => exact .inl rfl
  | some freelist =>
    cases hlast : freelist.names.getLast? with
    | none =>
      refine .inl ?_
      simp only [hlast]
      rfl
    | some name =>
      have hmem : name ∈ freelist.set :=
        (((hs.free key freelist hfree).2.1 name).1 (List.mem_of_getLast? hlast)).1
      refine .inr ⟨freelist, name, rfl, hlast, ?_⟩
      simp only [hlast, if_pos hmem]
      rfl

omit [DecidableEq κ] in
theorem newTemp_run (type : τ) (manageRef static reusable : Bool) :
    newTemp type manageRef static reusable s =
      .ok (tempName (nextCounter s.temps.namesTaken s.temps.namesTaken.card s.temps.tempCounter))
        { s with temps := { s.temps with
          tempCounter := nextCounter s.temps.namesTaken s.temps.namesTaken.card s.temps.tempCounter
          tempsAllocated := s.temps.tempsAllocated ++
            [⟨tempName (nextCounter s.temps.namesTaken s.temps.namesTaken.card s.temps.tempCounter),
              type, manageRef, static⟩]
          zombieTemps := if reusable then s.temps.zombieTemps else insert (tempName
            (nextCounter s.temps.namesTaken s.temps.namesTaken.card s.temps.tempCounter))
              s.temps.zombieTemps } } := rfl

/-- A name is taken that may be handed out. -/
theorem takeTemp_run (hs : s.temps.Sound t taken history) {type : τ} {manageRef : Bool}
    (hmanage : manageRef = true → t.needsRefcounting type = true) (static reusable : Bool) :
    ∃ name s', takeTemp t type manageRef static reusable s = .ok name s' ∧
      ({ s'.temps with
        tempsUsedType := s'.temps.tempsUsedType.set name (type, manageRef) } :
          Temps τ κ).Sound t taken (.allocated name (t.key type, manageRef) reusable :: history) := by
  have hnew : ∃ name s', newTemp type manageRef static reusable s = .ok name s' ∧
      ({ s'.temps with
        tempsUsedType := s'.temps.tempsUsedType.set name (type, manageRef) } :
          Temps τ κ).Sound t taken (.allocated name (t.key type, manageRef) reusable :: history) := by
    obtain ⟨hfree, hlt⟩ := nextCounter_spec (exists_not_mem s.temps.namesTaken s.temps.tempCounter)
    exact ⟨_, _, newTemp_run type manageRef static reusable,
      hs.new hlt hfree hmanage static reusable⟩
  rw [takeTemp]
  cases reusable with
  | false => exact hnew
  | true =>
    rw [if_pos rfl]
    rcases popFree_run hs (t.key type, manageRef) with hpop | ⟨freelist, name, hget, hlast, hpop⟩
    · rw [bind_of_ok hpop]
      exact hnew
    · rw [bind_of_ok hpop]
      exact ⟨name, _, rfl, hs.reused hget hlast⟩

/-- A name is handed out that may be handed out. -/
theorem allocateTemp_run (hs : s.temps.Sound t taken history) (type : τ)
    (manageRef static reusable : Bool) :
    ∃ name s', allocateTemp t type manageRef static reusable s = .ok name s' ∧
      s'.temps.Sound t taken (.allocated name (t.tempKey type manageRef) reusable :: history) := by
  have huse : ∃ s₁, useOptionalLocals t type s = .ok () s₁ ∧ s₁.temps = s.temps := by
    rw [useOptionalLocals, bind_of_ok (get_run s)]
    split
    · exact ⟨_, rfl, rfl⟩
    · exact ⟨s, rfl, rfl⟩
  obtain ⟨s₁, huse, htemps⟩ := huse
  have hs₁ : s₁.temps.Sound t taken history := htemps ▸ hs
  have hmanage : (manageRef && t.needsRefcounting (t.variableType type)) = true →
      t.needsRefcounting (t.variableType type) = true := fun h => (Bool.and_eq_true_iff.1 h).2
  obtain ⟨name, s₂, htake, hsound⟩ := takeTemp_run hs₁ hmanage static reusable
  rw [allocateTemp, bind_of_ok huse, bind_of_ok htake]
  exact ⟨name, _, rfl, hsound⟩

/-! ### Releasing -/

theorem freeListOf_run (key : κ × Bool) :
    (∃ freelist, s.temps.tempsFree.get? key = some freelist ∧
      freeListOf key s = .ok freelist s) ∨
    s.temps.tempsFree.get? key = none ∧ freeListOf key s = .ok ⟨[], ∅⟩
      { s with temps := { s.temps with tempsFree := s.temps.tempsFree.set key ⟨[], ∅⟩ } } := by
  rw [freeListOf, bind_of_ok (get_run s)]
  cases s.temps.tempsFree.get? key with
  | some freelist => exact .inl ⟨freelist, rfl, rfl⟩
  | none => exact .inr ⟨rfl, rfl⟩

/-- Releasing a name takes it back if it is in use, and changes nothing otherwise. -/
theorem releaseTemp_run (hs : s.temps.Sound t taken history) (name : String) :
    (InUse name history ∧ ∃ s', releaseTemp t name s = .ok () s' ∧
        s'.temps.Sound t taken (.released name :: history)) ∨
      ¬InUse name history ∧ releaseTemp t name s = .error
        (if name ∈ s.temps.tempsUsedType then .freedTwice name else .keyError name) s := by
  rw [releaseTemp, bind_of_ok (get_run s)]
  cases hused : s.temps.tempsUsedType.get? name with
  | none =>
    have hnot := OrderedDict.get?_eq_none_iff.1 hused
    refine .inr ⟨fun huse => ?_, by rw [if_neg hnot]; rfl⟩
    obtain ⟨key, reusable, hmem⟩ := PoolEvent.mem_of_inUse huse
    obtain ⟨a, ha, rfl, -⟩ := (hs.allocated_iff name key).1 ⟨reusable, hmem⟩
    exact hnot (hs.mem_usedType a ha)
  | some used =>
    obtain ⟨type, manageRef⟩ := used
    obtain ⟨a, ha, rfl, hakey⟩ := hs.usedType name type manageRef hused
    have huse := hs.inUse_iff a ha
    rw [hakey] at huse
    dsimp only
    rcases freeListOf_run (s := s) (t.key type, manageRef) with
      ⟨freelist, hget, hrun⟩ | ⟨hget, hrun⟩
    · rw [bind_of_ok hrun]
      by_cases hmem : a.name ∈ freelist.set
      · have hfree : isFree s.temps (t.key type, manageRef) a.name = true :=
          Temps.isFree_eq_true.2 ⟨freelist, hget, hmem⟩
        rw [if_pos hmem, if_pos (OrderedDict.mem_of_get? hused)]
        exact .inr ⟨by simp [huse, hfree], rfl⟩
      · have hfree : isFree s.temps (t.key type, manageRef) a.name = false := by
          simp [isFree, hget, hmem]
        rw [if_neg hmem]
        exact .inl ⟨huse.2 hfree, _, rfl, hs.released hused hfree (by rw [hget, Option.getD_some])
          fun key => OrderedDict.get?_set _ _ _ _⟩
    · rw [bind_of_ok hrun]
      have hfree : isFree s.temps (t.key type, manageRef) a.name = false := by
        simp [isFree, hget]
      rw [if_neg (Finset.notMem_empty _)]
      refine .inl ⟨huse.2 hfree, _, rfl,
        hs.released hused hfree (by rw [hget, Option.getD_none]) fun key => ?_⟩
      refine (OrderedDict.get?_set _ _ _ _).trans ?_
      split
      · rfl
      next hne => exact OrderedDict.get?_set_of_ne _ hne _

/-! ### Handles and builders -/

/-- The temporaries are left alone. -/
def SameTemps (s s' : FunctionState τ κ) : Prop := s'.temps = s.temps

omit [DecidableEq κ] in
theorem onHandleTemps_keeps {α : Type} (x : TemporaryM α) :
    Keeps (@SameTemps τ κ) (onHandleTemps x) := by
  intro s
  rw [onHandleTemps]
  cases x s.handleTemps <;> rfl

omit [DecidableEq κ] in
theorem onHandleBuilders_keeps {α : Type} (x : ResourceM HandleBuilderState α) :
    Keeps (@SameTemps τ κ) (onHandleBuilders x) := by
  intro s
  rw [onHandleBuilders]
  cases x s.handleBuilders <;> rfl

/-- A method that takes a name back, or throws. -/
theorem releaseTemp_after {α : Type} {x : FunctionM τ κ α} (hx : Keeps SameTemps x)
    (hs : s.temps.Sound t taken history) (name : String) :
    (InUse name history ∧ ∃ s', (x >>= fun _ => releaseTemp t name) s = .ok () s' ∧
        s'.temps.Sound t taken (.released name :: history)) ∨
      ∃ e s', (x >>= fun _ => releaseTemp t name) s = .error e s' ∧ s'.temps = s.temps := by
  have htemps := hx s
  cases hrun : x s with
  | ok a s₁ =>
    rw [hrun] at htemps
    have htemps : s₁.temps = s.temps := htemps
    have hs₁ : s₁.temps.Sound t taken history := htemps ▸ hs
    rw [bind_of_ok hrun]
    rcases releaseTemp_run hs₁ name with h | ⟨-, herror⟩
    · exact .inl h
    · exact .inr ⟨_, s₁, herror, htemps⟩
  | error e s₁ =>
    rw [hrun] at htemps
    exact .inr ⟨e, s₁, bind_of_error hrun _, htemps⟩

/-- What is allocated besides a temporary that has been handed out does not change the
    temporaries, also when the manager throws. -/
theorem temps_allocate_after {type : τ} {static reusable : Bool} {name : String}
    {s₁ : FunctionState τ κ} (h : allocateTemp t type false static reusable s = .ok name s₁)
    {α : Type} {x : String → FunctionM τ κ α} (hx : Keeps SameTemps (x name)) :
    (finalState ((allocateTemp t type false static reusable >>= fun name =>
      (fun _ => name) <$> x name) s)).temps = s₁.temps := by
  rw [bind_of_ok h, finalState_map]
  exact hx s₁

end FunctionState

/-! ## Calls -/

namespace FunctionCall

open FunctionState

variable {τ κ : Type} [DecidableEq κ] {t : TempTypes τ κ} {taken : Finset String}
  {s : FunctionState τ κ} {history : List (PoolEvent String (κ × Bool))}

theorem sound_allocation (hs : s.temps.Sound t taken history) {type : τ}
    {manageRef static reusable : Bool} {s' : FunctionState τ κ}
    (h : ∀ name s₁, FunctionState.allocateTemp t type manageRef static reusable s = .ok name s₁ →
      s'.temps = s₁.temps) :
    s'.temps.Sound t taken ((allocation t s type manageRef static reusable).toList ++ history) := by
  obtain ⟨name, s₁, hrun, hsound⟩ := allocateTemp_run hs type manageRef static reusable
  rw [allocation, hrun, h name s₁ hrun]
  exact hsound

theorem sound_release (hs : s.temps.Sound t taken history) {call : FunctionCall τ} {name : String}
    {x : FunctionM τ κ Unit} (hcall : call.perform t = (fun _ => none) <$> x)
    (h : (InUse name history ∧ ∃ s', x s = .ok () s' ∧
        s'.temps.Sound t taken (.released name :: history)) ∨
      ∃ e s', x s = .error e s' ∧ s'.temps = s.temps) :
    (finalState (call.perform t s)).temps.Sound t taken
      ((release t s call name).toList ++ history) := by
  rw [release, hcall]
  rcases h with ⟨-, s', hrun, hsound⟩ | ⟨e, s', hrun, htemps⟩
  · rw [map_of_ok hrun]
    exact hsound
  · rw [map_of_error hrun, finalState_error, htemps]
    exact hs

omit [DecidableEq κ] in
theorem temps_stopCollectingTemps {β : Type} (f : OrderedDict (String × κ) τ → β) :
    (finalState ((f <$> FunctionState.stopCollectingTemps) s)).temps = s.temps := by
  rw [finalState_map, FunctionState.stopCollectingTemps, bind_of_ok (get_run s)]
  cases s.collectTempsStack <;> rfl

/-- What a call does to the temporaries is right for what happened with their names. -/
theorem sound_perform (hs : s.temps.Sound t taken history) (call : FunctionCall τ) :
    (finalState (call.perform t s)).temps.Sound t taken ((call.event t s).toList ++ history) := by
  cases call with
  | newLabel name => exact hs
  | allocateTemp type manageRef static reusable =>
    refine sound_allocation hs fun name s₁ hrun => ?_
    rw [perform, finalState_map, hrun, finalState_ok]
  | releaseTemp name =>
    exact sound_release hs rfl (releaseTemp_after (x := pure ()) (fun _ => rfl) hs name)
  | allocateHandleTemp type ownership static reusable =>
    refine sound_allocation hs fun name s₁ hrun => ?_
    rw [perform, finalState_map]
    exact temps_allocate_after hrun (onHandleTemps_keeps _)
  | releaseHandleTemp name =>
    exact sound_release hs rfl (releaseTemp_after (onHandleTemps_keeps _) hs name)
  | allocateHandleBuilderTemp type static reusable =>
    refine sound_allocation hs fun name s₁ hrun => ?_
    rw [perform, finalState_map]
    exact temps_allocate_after hrun (onHandleBuilders_keeps _)
  | releaseHandleBuilderTemp name =>
    exact sound_release hs rfl (releaseTemp_after (onHandleBuilders_keeps _) hs name)
  | useHandleTemp name | closeHandleTemp name | moveHandleTemp name =>
    rw [perform, finalState_map, onHandleTemps_keeps _ s]
    exact hs
  | useHandleBuilderTemp name | buildHandleBuilderTemp name | cancelHandleBuilderTemp name =>
    rw [perform, finalState_map, onHandleBuilders_keeps _ s]
    exact hs
  | startCollectingTemps => exact hs
  | stopCollectingTemps =>
    rw [perform, temps_stopCollectingTemps]
    exact hs

end FunctionCall

/-! ## Runs -/

namespace Trace

open FunctionState

variable {τ κ : Type} [DecidableEq κ] {t : TempTypes τ κ} {taken : Finset String}
  {r : Trace τ κ}

theorem sound_run (hs : r.state.temps.Sound t taken r.history) (calls : List (FunctionCall τ)) :
    (r.run t calls).state.temps.Sound t taken (r.run t calls).history := by
  induction calls generalizing r with
  | nil => exact hs
  | cons call calls ih => exact ih (FunctionCall.sound_perform hs call)

/-- Labels begin with the prefix of labels. -/
theorem labels_run (h : ∀ label ∈ r.labels, ∃ n name, label = labelName n name)
    (calls : List (FunctionCall τ)) :
    ∀ label ∈ (r.run t calls).labels, ∃ n name, label = labelName n name := by
  induction calls generalizing r with
  | nil => exact h
  | cons call calls ih =>
    refine ih fun label hlabel => ?_
    rcases List.mem_append.1 hlabel with hlabel | hlabel
    · cases call with
      | newLabel name => exact ⟨_, name, List.mem_singleton.1 hlabel⟩
      | _ => exact absurd hlabel List.not_mem_nil
    · exact h label hlabel

/-- After the calls of a trace: which name is handed out next, that names are different,
    what releasing a name does, and what is reported to be in use. -/
structure Safe (t : TempTypes τ κ) (namesTaken : Finset String) (r : Trace τ κ) : Prop where
  handedOut : ∀ type manageRef static reusable, ∃ name s',
    allocateTemp t type manageRef static reusable r.state = .ok name s' ∧
      ¬InUse name r.history ∧ (∀ key, .allocated name key false ∉ r.history) ∧
      ∀ key reusable', .allocated name key reusable' ∈ r.history → key = t.tempKey type manageRef
  distinct : (r.state.temps.tempsAllocated.map AllocatedTemp.name).Nodup
  mem_names_iff : ∀ name, name ∈ r.state.temps.tempsAllocated.map AllocatedTemp.name ↔
    ∃ key reusable, .allocated name key reusable ∈ r.history
  reserved : ∀ name ∈ r.state.temps.tempsAllocated.map AllocatedTemp.name,
    name ∉ namesTaken ∧ name ∉ r.labels
  release : ∀ name, InUse name r.history → ∃ s', releaseTemp t name r.state = .ok () s'
  doubleRelease : ∀ name, ¬InUse name r.history →
    releaseTemp t name r.state = .error
        (if name ∈ r.state.temps.tempsAllocated.map AllocatedTemp.name then .freedTwice name
          else .keyError name) r.state ∧
      (∃ e s', releaseHandleTemp t name r.state = .error e s') ∧
      ∃ e s', releaseHandleBuilderTemp t name r.state = .error e s'
  nodup_tempsInUse : ((tempsInUse t r.state).map Prod.fst).Nodup
  mem_tempsInUse_iff : ∀ name, name ∈ (tempsInUse t r.state).map Prod.fst ↔ InUse name r.history
  key_tempsInUse : ∀ name type manageRef, (name, type, manageRef) ∈ tempsInUse t r.state →
    ∃ reusable, .allocated name (t.key type, manageRef) reusable ∈ r.history

theorem tempsInUse_eq (s : FunctionState τ κ) :
    (tempsInUse t s).map Prod.fst = (s.temps.tempsAllocated.filter fun a =>
      !isFree s.temps (a.key t) a.name).map AllocatedTemp.name := by
  rw [tempsInUse]
  induction s.temps.tempsAllocated with
  | nil => rfl
  | cons a as ih =>
    rw [List.filterMap_cons, List.filter_cons]
    by_cases h : isFree s.temps (t.key a.type, a.manageRef) a.name = true
    · simpa [h, AllocatedTemp.key] using ih
    · simpa [h, AllocatedTemp.key] using ih

theorem mem_usedType_iff {s : FunctionState τ κ} {history : List (PoolEvent String (κ × Bool))}
    (hs : s.temps.Sound t taken history) (name : String) :
    name ∈ s.temps.tempsUsedType ↔ name ∈ s.temps.tempsAllocated.map AllocatedTemp.name := by
  rw [OrderedDict.mem_iff_exists_get?, List.mem_map]
  constructor
  · rintro ⟨⟨type, manageRef⟩, hget⟩
    obtain ⟨a, ha, hname, -⟩ := hs.usedType name type manageRef hget
    exact ⟨a, ha, hname⟩
  · rintro ⟨a, ha, rfl⟩
    exact OrderedDict.mem_iff_exists_get?.1 (hs.mem_usedType a ha)

theorem safe_of_sound (hs : r.state.temps.Sound t taken r.history)
    (hlabels : ∀ label ∈ r.labels, ∃ n name, label = labelName n name) : Safe t taken r where
  handedOut type manageRef static reusable := by
    obtain ⟨name, s', hrun, hsound⟩ := allocateTemp_run hs type manageRef static reusable
    refine ⟨name, s', hrun, ?_⟩
    cases hsound.disciplined with
    | allocated _ hunused hkey =>
      refine ⟨hunused, fun key hmem => ?_, fun key reusable' hmem => (hkey _ _ hmem).2⟩
      exact absurd (hkey _ _ hmem).1 Bool.false_ne_true
  distinct := hs.nodup
  mem_names_iff name := by
    rw [List.mem_map]
    constructor
    · rintro ⟨a, ha, rfl⟩
      exact ⟨_, (hs.allocated_iff _ _).2 ⟨a, ha, rfl, rfl⟩⟩
    · rintro ⟨key, hmem⟩
      obtain ⟨a, ha, hname, -⟩ := (hs.allocated_iff name key).1 hmem
      exact ⟨a, ha, hname⟩
  reserved name hname := by
    obtain ⟨a, ha, rfl⟩ := List.mem_map.1 hname
    refine ⟨hs.notTaken a ha, fun hlabel => ?_⟩
    obtain ⟨n, word, heq⟩ := hlabels _ hlabel
    obtain ⟨k, -, hk⟩ := hs.counter a ha
    exact tempName_ne_labelName k n word (hk.symm.trans heq)
  release name huse := by
    rcases releaseTemp_run hs name with ⟨-, s', hrun, -⟩ | ⟨hnot, -⟩
    · exact ⟨s', hrun⟩
    · exact absurd huse hnot
  doubleRelease name hnot := by
    refine ⟨?_, ?_, ?_⟩
    · rcases releaseTemp_run hs name with ⟨huse, -⟩ | ⟨-, hrun⟩
      · exact absurd huse hnot
      · simpa only [mem_usedType_iff hs] using hrun
    · rcases releaseTemp_after (onHandleTemps_keeps _) hs name with ⟨huse, -⟩ | ⟨e, s', hrun, -⟩
      · exact absurd huse hnot
      · exact ⟨e, s', hrun⟩
    · rcases releaseTemp_after (onHandleBuilders_keeps _) hs name with ⟨huse, -⟩ | ⟨e, s', hrun, -⟩
      · exact absurd huse hnot
      · exact ⟨e, s', hrun⟩
  nodup_tempsInUse := by
    rw [tempsInUse_eq]
    exact hs.nodup.sublist (List.filter_sublist.map _)
  mem_tempsInUse_iff name := by
    rw [tempsInUse_eq, List.mem_map]
    constructor
    · rintro ⟨a, ha, rfl⟩
      obtain ⟨ha, hfree⟩ := List.mem_filter.1 ha
      exact (hs.inUse_iff a ha).2 (by simpa using hfree)
    · intro huse
      obtain ⟨key, hmem⟩ := PoolEvent.mem_of_inUse huse
      obtain ⟨a, ha, rfl, -⟩ := (hs.allocated_iff name key).1 hmem
      refine ⟨a, List.mem_filter.2 ⟨ha, ?_⟩, rfl⟩
      rw [(hs.inUse_iff a ha).1 huse, Bool.not_false]
  key_tempsInUse name type manageRef hmem := by
    rw [tempsInUse, List.mem_filterMap] at hmem
    obtain ⟨a, ha, heq⟩ := hmem
    split at heq
    · cases heq
    obtain ⟨rfl, rfl, rfl⟩ : a.name = name ∧ a.type = type ∧
        (a.manageRef && t.needsRefcounting a.type) = manageRef := by simpa using heq
    refine (hs.allocated_iff _ _).2 ⟨a, ha, rfl, ?_⟩
    have hmanaged := hs.managed a ha
    rw [AllocatedTemp.key]
    cases hm : a.manageRef with
    | false => rfl
    | true => rw [hmanaged hm, Bool.and_true]

/-- After any calls of the methods of a new `FunctionState`, whether they return or throw. -/
theorem safe_run (t : TempTypes τ κ) (namesTaken : Finset String) (cppLocals : Bool)
    (calls : List (FunctionCall τ)) :
    Safe t namesTaken ((Trace.init namesTaken cppLocals).run t calls) := by
  refine safe_of_sound (sound_run (Temps.sound_init namesTaken) calls)
    (labels_run (fun label hlabel => ?_) calls)
  rw [Trace.init, List.mem_cons, List.mem_singleton] at hlabel
  rcases hlabel with rfl | rfl
  · exact ⟨1, some "error", rfl⟩
  · exact ⟨0, none, rfl⟩

end Trace

end AHPy
