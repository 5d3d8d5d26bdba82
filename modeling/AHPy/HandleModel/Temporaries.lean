import AHPy.HandleModel.Lifecycle
import AHPy.Lib.UniqueNames

/-!
# Handle temporaries

The temporaries of a function are C variables, used again when they are free.
Every use is a lifetime of its own: a value of a tracker, under the name of the
variable stamped with a generation (`HandleTemporaryManager`).

What a call does to the manager is one of five steps (`Step`). They keep the
manager sound (`Sound`): every value was stamped for a variable, and a value that
is live and owned is the one bound to its variable.

* `Sound.stamp_not_mem`: a new lifetime has a new identity;
* `Sound.release_isOk_iff`, `Step.get?_values`, `Sound.liveOwnedHandles_iff`:
  what releasing checks, what a call leaves alone, and what the exit check sees.
-/

namespace AHPy

open Generations (stamp next)

/-- The lifetime a C variable is bound to. -/
structure HandleTemporaryBinding where
  cname : String
  identity : String
  ownership : HandleOwnership

/-- The errors of a manager: its own, and those of its tracker. -/
inductive TemporaryError where
  | alreadyAllocated (cname : String)
  | notAllocated (cname : String)
  | releaseLiveOwned (cname : String)
  | ownedRemainLive (cnames : List String)
  | state (error : HandleModelError String)

/-- The text of an error, for names printed by `repr`. -/
def TemporaryError.message (repr : String → String) : TemporaryError → String
  | alreadyAllocated c => "handle temporary " ++ repr c ++ " is already allocated"
  | notAllocated c => "handle temporary " ++ repr c ++ " is not allocated"
  | releaseLiveOwned c =>
    "cannot release live owned handle temporary " ++ repr c ++ "; close or move it first"
  | ownedRemainLive cs =>
    "owned handle temporaries remain live at function exit: " ++ ", ".intercalate cs
  | state e => e.message repr id

/-- The tracker of a function, the bindings of its variables, and their generations. -/
structure HandleTemporaryManager where
  state : HandleStateTracker String
  active : OrderedDict String HandleTemporaryBinding
  generations : OrderedDict String ℕ

/-- The methods of a manager. -/
abbrev TemporaryM := EStateM TemporaryError HandleTemporaryManager

namespace HandleTemporaryManager

open HandleStateTracker (LiveOwned)

/-- A manager without temporaries. -/
def empty : HandleTemporaryManager := ⟨.empty, .empty, .empty⟩

/-- A method of the tracker. -/
def onState {α : Type} (x : TrackerM String α) : TemporaryM α := fun m =>
  match x m.state with
  | .ok a t => .ok a { m with state := t }
  | .error e t => .error (.state e) { m with state := t }

/-! ## Methods -/

def allocate (cname : String) (ownership : HandleOwnership) : TemporaryM HandleTemporaryBinding := do
  let m ← get
  if cname ∈ m.active then
    throw (.alreadyAllocated cname)
  else do
    let generation := next m.generations cname
    modify fun m => { m with generations := m.generations.set cname generation }
    let identity := stamp cname generation
    let _ ← onState (HandleStateTracker.declareValue identity .local_ ownership)
    let binding : HandleTemporaryBinding := ⟨cname, identity, ownership⟩
    modify fun m => { m with active := m.active.set cname binding }
    return binding

def binding (cname : String) : TemporaryM HandleTemporaryBinding := do
  match (← get).active.get? cname with
  | some binding => return binding
  | none => throw (.notAllocated cname)

def isActive (m : HandleTemporaryManager) (cname : String) : Bool := cname ∈ m.active

/-- A method of the tracker, on the value a variable is bound to. -/
def onBinding {α : Type} (x : String → TrackerM String α) (cname : String) : TemporaryM α := do
  let binding ← binding cname
  onState (x binding.identity)

def use (cname : String) : TemporaryM HandleValue := onBinding HandleStateTracker.use cname

def close (cname : String) : TemporaryM HandleValue := onBinding HandleStateTracker.close cname

def move (cname : String) : TemporaryM HandleValue := onBinding HandleStateTracker.move cname

def release (cname : String) : TemporaryM HandleValue := do
  let binding ← binding cname
  let value ← onState (HandleStateTracker.value binding.identity)
  if LiveOwned value then
    throw (.releaseLiveOwned cname)
  else do
    modify fun m => { m with active := m.active.erase cname }
    return value

def activeCnames (m : HandleTemporaryManager) : List String := m.active.keys.mergeSort

/-- The variables whose value is yet to be closed, sorted. -/
def liveOwnedHandles (m : HandleTemporaryManager) : List String :=
  (m.active.entries.filterMap fun (cname, binding) =>
    if m.state.IsLiveOwned binding.identity then some cname else none).mergeSort

def assertNoLiveOwnedHandles : TemporaryM Unit := do
  let live := (← get).liveOwnedHandles
  if live ≠ [] then
    throw (.ownedRemainLive live)

end HandleTemporaryManager

/-! ## Calls -/

/-- The calls of a manager. -/
inductive TemporaryCall where
  | allocate (cname : String) (ownership : HandleOwnership)
  | use (cname : String)
  | close (cname : String)
  | move (cname : String)
  | release (cname : String)

namespace TemporaryCall

/-- The variable a call is about. -/
def cname : TemporaryCall → String
  | allocate c _ | use c | close c | move c | release c => c

/-- A call, with the binding it makes, if any. -/
def perform : TemporaryCall → TemporaryM (Option HandleTemporaryBinding)
  | allocate c o => some <$> HandleTemporaryManager.allocate c o
  | use c => (fun _ => none) <$> HandleTemporaryManager.use c
  | close c => (fun _ => none) <$> HandleTemporaryManager.close c
  | move c => (fun _ => none) <$> HandleTemporaryManager.move c
  | release c => (fun _ => none) <$> HandleTemporaryManager.release c

/-- The effect of a call on the manager, whether it returns or throws. -/
def effect (m : HandleTemporaryManager) (c : TemporaryCall) : HandleTemporaryManager :=
  finalState (c.perform m)

/-- The binding a call makes. -/
def made (m : HandleTemporaryManager) (c : TemporaryCall) : Option HandleTemporaryBinding :=
  match c.perform m with
  | .ok b _ => b
  | .error .. => none

end TemporaryCall

namespace HandleTemporaryManager

open HandleStateTracker (LiveOwned IsLiveOwned)

/-- The manager after calls. -/
def run (m : HandleTemporaryManager) (calls : List TemporaryCall) : HandleTemporaryManager :=
  calls.foldl TemporaryCall.effect m

/-- The bindings that calls make, one after the other. -/
def allocated : HandleTemporaryManager → List TemporaryCall → List HandleTemporaryBinding
  | _, [] => []
  | m, c :: calls => (c.made m).toList ++ allocated (c.effect m) calls

/-! ## Steps -/

/-- The binding of the next lifetime of a variable. -/
def nextBinding (m : HandleTemporaryManager) (c : String) (o : HandleOwnership) :
    HandleTemporaryBinding :=
  ⟨c, stamp c (next m.generations c), o⟩

/-- What a call does to the manager, and the binding it makes. -/
inductive Step (m : HandleTemporaryManager) :
    TemporaryCall → Option HandleTemporaryBinding → HandleTemporaryManager → Prop where
  | nothing (call) : Step m call none m
  | count (c o) : Step m (.allocate c o) none
    { m with generations := m.generations.set c (next m.generations c) }
  | allocate {c o} (hc : c ∉ m.active) (hs : (m.nextBinding c o).identity ∉ m.state.storage)
    (hv : (m.nextBinding c o).identity ∉ m.state.values) :
    Step m (.allocate c o) (some (m.nextBinding c o))
      { state := m.state.addValue (m.nextBinding c o).identity
          ⟨storageContract .local_, o, .live⟩
        active := m.active.set c (m.nextBinding c o)
        generations := m.generations.set c (next m.generations c) }
  | consume {call : TemporaryCall} {b v s} (hb : m.active.get? call.cname = some b)
    (hv : m.state.values.get? b.identity = some v) (ho : LiveOwned v) (hs : s ≠ .live) :
    Step m call none { m with state := m.state.consumeValue b.identity { v with state := s } }
  | release {c b v} (hb : m.active.get? c = some b)
    (hv : m.state.values.get? b.identity = some v) (ho : ¬ LiveOwned v) :
    Step m (.release c) none { m with active := m.active.erase c }

theorem binding_run (c : String) (m : HandleTemporaryManager) :
    binding c m = match m.active.get? c with
      | some b => .ok b m
      | none => .error (.notAllocated c) m := by
  simp only [binding, bind, EStateM.bind, get, getThe, MonadStateOf.get, EStateM.get]
  cases m.active.get? c <;> rfl

theorem allocate_run (c : String) (o : HandleOwnership) (m : HandleTemporaryManager) :
    allocate c o m = if c ∈ m.active then .error (.alreadyAllocated c) m else
      match HandleStateTracker.declareValue (m.nextBinding c o).identity .local_ o none m.state with
      | .error e t => .error (.state e)
        { m with state := t, generations := m.generations.set c (next m.generations c) }
      | .ok _ t => .ok (m.nextBinding c o)
        { state := t, active := m.active.set c (m.nextBinding c o),
          generations := m.generations.set c (next m.generations c) } := by
  simp only [allocate, bind, EStateM.bind, get, getThe, MonadStateOf.get, EStateM.get, modify,
    modifyGet, MonadStateOf.modifyGet, nextBinding]
  split
  · rfl
  · simp only [EStateM.bind, EStateM.modifyGet, onState]
    cases HandleStateTracker.declareValue (stamp c (next m.generations c)) .local_ o none m.state
      <;> rfl

theorem onBinding_run {α : Type} (x : String → TrackerM String α) (c : String)
    (m : HandleTemporaryManager) :
    onBinding x c m = match m.active.get? c with
      | none => .error (.notAllocated c) m
      | some b => onState (x b.identity) m := by
  simp only [onBinding, bind, EStateM.bind, binding_run]
  cases m.active.get? c <;> rfl

/-- Using a temporary changes nothing. -/
theorem use_run (c : String) (m : HandleTemporaryManager) : finalState (use c m) = m := by
  rw [use, onBinding_run]
  cases m.active.get? c with
  | none => rfl
  | some b =>
    have hk := HandleStateTracker.keeps_use Eq b.identity m.state
    dsimp only [onState]
    cases hr : HandleStateTracker.use b.identity m.state with
    | ok v t =>
      rw [hr] at hk
      obtain rfl : m.state = t := hk
      rfl
    | error e t =>
      rw [hr] at hk
      obtain rfl : m.state = t := hk
      rfl

/-- Closing or moving a temporary changes nothing, or consumes the value bound to it. -/
theorem consume_run (c : String) (s : HandleState) (op : String) (m : HandleTemporaryManager) :
    finalState (onBinding (HandleStateTracker.consumeOwned · s op) c m) = m ∨
      ∃ b v, m.active.get? c = some b ∧ m.state.values.get? b.identity = some v ∧ LiveOwned v ∧
        finalState (onBinding (HandleStateTracker.consumeOwned · s op) c m) =
          { m with state := m.state.consumeValue b.identity { v with state := s } } := by
  rw [onBinding_run]
  cases hb : m.active.get? c with
  | none => exact .inl rfl
  | some b =>
    dsimp only [onState]
    rcases HandleStateTracker.consumeOwned_run b.identity s op m.state with
      ⟨e, he⟩ | ⟨v, hv, ho, hr⟩
    · rw [he]
      exact .inl rfl
    · rw [hr]
      exact .inr ⟨b, v, rfl, hv, ho, rfl⟩

theorem value_run (n : String) (t : HandleStateTracker String) :
    HandleStateTracker.value n t = match t.values.get? n with
      | some v => .ok v t
      | none => .error (.unknownValue n) t := by
  simp only [HandleStateTracker.value, bind, EStateM.bind, get, getThe, MonadStateOf.get,
    EStateM.get]
  cases t.values.get? n <;> rfl

/-- What releasing a temporary does with its value. -/
theorem release_of_get? {c : String} {m : HandleTemporaryManager} {b : HandleTemporaryBinding}
    {v : HandleValue} (hb : m.active.get? c = some b)
    (hv : m.state.values.get? b.identity = some v) :
    release c m = if LiveOwned v then .error (.releaseLiveOwned c) m
      else .ok v { m with active := m.active.erase c } := by
  simp only [release, bind, EStateM.bind, binding_run, hb, onState, value_run, hv]
  split <;> rfl

/-- Releasing a temporary fails and changes nothing, or unbinds it. -/
theorem release_run (c : String) (m : HandleTemporaryManager) :
    (∃ e, release c m = .error e m ∧ ∀ b v, m.active.get? c = some b →
        m.state.values.get? b.identity = some v → LiveOwned v) ∨
      ∃ b v, m.active.get? c = some b ∧ m.state.values.get? b.identity = some v ∧ ¬ LiveOwned v ∧
        release c m = .ok v { m with active := m.active.erase c } := by
  cases hb : m.active.get? c with
  | none =>
    refine .inl ⟨.notAllocated c, ?_, fun _ _ h => nomatch h⟩
    simp only [release, bind, EStateM.bind, binding_run, hb]
  | some b =>
    cases hv : m.state.values.get? b.identity with
    | none =>
      refine .inl ⟨.state (.unknownValue b.identity), ?_, ?_⟩
      · simp only [release, bind, EStateM.bind, binding_run, hb, onState, value_run, hv]
      · intro b' v hb' hv'
        obtain rfl : b = b' := Option.some.inj hb'
        rw [hv] at hv'
        cases hv'
    | some v =>
      rw [release_of_get? hb hv]
      by_cases ho : LiveOwned v
      · rw [if_pos ho]
        refine .inl ⟨_, rfl, ?_⟩
        intro b' v' hb' hv'
        obtain rfl : b = b' := Option.some.inj hb'
        exact Option.some.inj (hv.symm.trans hv') ▸ ho
      · rw [if_neg ho]
        exact .inr ⟨b, v, rfl, hv, ho, rfl⟩

theorem effect_map {α : Type} (f : α → Option HandleTemporaryBinding) (x : TemporaryM α)
    (m : HandleTemporaryManager) : finalState ((f <$> x) m) = finalState (x m) := by
  change finalState (EStateM.map f x m) = _
  rw [EStateM.map]
  cases x m <;> rfl

theorem made_map {α : Type} (x : TemporaryM α) (m : HandleTemporaryManager)
    {call : TemporaryCall} (h : call.perform = (fun _ => none) <$> x) : call.made m = none := by
  have hmap : call.perform m = EStateM.map (fun _ => none) x m := congrFun h m
  rw [TemporaryCall.made, hmap, EStateM.map]
  cases x m <;> rfl

/-- What a call does to the manager is a step. -/
theorem step_effect (m : HandleTemporaryManager) (call : TemporaryCall) :
    Step m call (call.made m) (call.effect m) := by
  cases call with
  | allocate c o =>
    have hp : (TemporaryCall.allocate c o).perform m = EStateM.map some (allocate c o) m := rfl
    rw [TemporaryCall.made, TemporaryCall.effect, hp, EStateM.map, allocate_run]
    split_ifs with hc
    · exact .nothing _
    · rcases HandleStateTracker.declareValue_run (m.nextBinding c o).identity .local_ o none
        m.state with ⟨e, he⟩ | ⟨hs, hv, hr⟩
      · rw [he]
        exact .count c o
      · rw [hr]
        exact .allocate hc hs hv
  | use c =>
    rw [made_map (use c) m rfl, TemporaryCall.effect, TemporaryCall.perform, effect_map, use_run]
    exact .nothing _
  | close c =>
    rw [made_map (close c) m rfl, TemporaryCall.effect, TemporaryCall.perform, effect_map]
    rcases consume_run c .closed "close" m with h | ⟨b, v, hb, hv, ho, h⟩
    · exact h.symm ▸ .nothing _
    · exact h.symm ▸ .consume hb hv ho nofun
  | move c =>
    rw [made_map (move c) m rfl, TemporaryCall.effect, TemporaryCall.perform, effect_map]
    rcases consume_run c .moved "move" m with h | ⟨b, v, hb, hv, ho, h⟩
    · exact h.symm ▸ .nothing _
    · exact h.symm ▸ .consume hb hv ho nofun
  | release c =>
    rw [made_map (release c) m rfl, TemporaryCall.effect, TemporaryCall.perform, effect_map]
    rcases release_run c m with ⟨e, h, _⟩ | ⟨b, v, hb, hv, ho, h⟩
    · rw [h]
      exact .nothing _
    · rw [h]
      exact .release hb hv ho

/-! ## Soundness -/

/-- The values of the tracker are the lifetimes of the variables: stamped with generations counted
    so far, and bound as long as they are live and owned. -/
structure Sound (m : HandleTemporaryManager) : Prop where
  consistent : m.state.Consistent
  counted : Generations.Counted m.generations (· ∈ m.state.values)
  bound : ∀ c b, m.active.get? c = some b → b.cname = c ∧ (∃ g, b.identity = stamp c g) ∧
    ∃ v, m.state.values.get? b.identity = some v ∧ v.ownership = b.ownership
  live : ∀ n, m.state.IsLiveOwned n → ∃ c b, m.active.get? c = some b ∧ b.identity = n

theorem sound_empty : empty.Sound where
  consistent := HandleStateTracker.consistent_empty
  counted _ h := absurd h (OrderedDict.not_mem_empty _)
  bound _ _ h := nomatch h
  live := by
    rintro n ⟨v, hv, _⟩
    cases hv

/-- The next lifetime of a variable is a new value. -/
theorem Sound.stamp_not_mem {m : HandleTemporaryManager} (hm : m.Sound) (c : String)
    (o : HandleOwnership) : (m.nextBinding c o).identity ∉ m.state.values :=
  hm.counted.stamp_next c

/-- Different variables are bound to different values. -/
theorem Sound.bound_inj {m : HandleTemporaryManager} (hm : m.Sound) {c c' : String}
    {b b' : HandleTemporaryBinding} (hb : m.active.get? c = some b)
    (hb' : m.active.get? c' = some b') (h : b.identity = b'.identity) : c = c' := by
  obtain ⟨_, ⟨g, hg⟩, _⟩ := hm.bound c b hb
  obtain ⟨_, ⟨g', hg'⟩, _⟩ := hm.bound c' b' hb'
  rw [hg, hg'] at h
  exact (Generations.stamp_inj h).1

/-- What a call does to the tracker. -/
theorem Step.steps {m m' : HandleTemporaryManager} {call : TemporaryCall}
    {made : Option HandleTemporaryBinding} (h : Step m call made m') :
    HandleStateTracker.Steps m.state m'.state := by
  cases h with
  | nothing => exact .refl
  | count c o => exact .refl
  | allocate hc hs hv => exact .single (.addValue hs hv rfl)
  | consume hb hv ho hs => exact .single (.consume hv ho hs)
  | release hb hv ho => exact .refl

/-- A call keeps the manager sound. -/
theorem Step.sound {m m' : HandleTemporaryManager} {call : TemporaryCall}
    {made : Option HandleTemporaryBinding} (h : Step m call made m') (hm : m.Sound) :
    m'.Sound := by
  have hc := h.steps.consistent hm.consistent
  have hl := h.steps.later
  cases h with
  | nothing => exact hm
  | count c o =>
    exact ⟨hc, hm.counted.set c fun n hn => .inl hn, hm.bound, hm.live⟩
  | @allocate c o hc' hs hv =>
    have hget : ∀ n, (m.state.addValue (m.nextBinding c o).identity
        ⟨storageContract .local_, o, .live⟩).values.get? n =
          if n = (m.nextBinding c o).identity then some ⟨storageContract .local_, o, .live⟩
          else m.state.values.get? n :=
      fun n => m.state.values.get?_set _ n _
    refine ⟨hc, hm.counted.set c fun n hn => ?_, fun c' b hb => ?_, ?_⟩
    · exact (OrderedDict.mem_set_iff.1 hn).symm
    · rcases OrderedDict.get?_set_cases hb with ⟨rfl, rfl⟩ | ⟨-, hb⟩
      · exact ⟨rfl, ⟨_, rfl⟩, _, (hget _).trans (if_pos rfl), rfl⟩
      · obtain ⟨hcn, hg, v, hvb, ho⟩ := hm.bound c' b hb
        obtain ⟨v', hv', _, ho', _⟩ := hl.get?_values _ _ hvb
        exact ⟨hcn, hg, v', hv', ho'.trans ho⟩
    · rintro n ⟨v, hvn, ho⟩
      rw [hget] at hvn
      split at hvn
      next he => exact ⟨c, _, OrderedDict.get?_set_self _ _ _, he.symm⟩
      next he =>
        obtain ⟨c', b, hb, hbn⟩ := hm.live n ⟨v, hvn, ho⟩
        have hne : c' ≠ c := fun h => hc' (h ▸ OrderedDict.mem_of_get? hb)
        exact ⟨c', b, (m.active.get?_set_of_ne hne _).trans hb, hbn⟩
  | @consume _ b v s hb hv ho hs =>
    have hget : ∀ n, (m.state.consumeValue b.identity { v with state := s }).values.get? n =
        if n = b.identity then some { v with state := s } else m.state.values.get? n :=
      fun n => m.state.values.get?_set _ n _
    refine ⟨hc, hm.counted.mono fun n hn => ?_, fun c' b' hb' => ?_, ?_⟩
    · have hmem := OrderedDict.mem_set_iff.1 hn
      exact hmem.elim (fun he => he ▸ OrderedDict.mem_of_get? hv) id
    · obtain ⟨hcn, hg, v', hvb, ho'⟩ := hm.bound c' b' hb'
      obtain ⟨v'', hv'', _, ho'', _⟩ := hl.get?_values _ _ hvb
      exact ⟨hcn, hg, v'', hv'', ho''.trans ho'⟩
    · rintro n ⟨v', hvn, ho'⟩
      rw [hget] at hvn
      split at hvn
      next =>
        cases hvn
        exact absurd ho'.2 hs
      next => exact hm.live n ⟨v', hvn, ho'⟩
  | @release c b v hb hv ho =>
    refine ⟨hc, hm.counted, fun c' b' hb' => ?_, fun n hn => ?_⟩
    · rw [OrderedDict.get?_erase] at hb'
      split at hb'
      next => cases hb'
      next => exact hm.bound c' b' hb'
    · obtain ⟨c', b', hb', hbn⟩ := hm.live n hn
      refine ⟨c', b', ?_, hbn⟩
      -- What is released is not live and owned.
      have hne : c' ≠ c := by
        rintro rfl
        obtain rfl : b = b' := Option.some.inj (hb.symm.trans hb')
        obtain ⟨v', hv', ho'⟩ := hn
        rw [← hbn, hv] at hv'
        exact ho (Option.some.inj hv' ▸ ho')
      rw [OrderedDict.get?_erase, if_neg hne, hb']

theorem sound_run {m : HandleTemporaryManager} (hm : m.Sound) (calls : List TemporaryCall) :
    (m.run calls).Sound := by
  induction calls generalizing m with
  | nil => exact hm
  | cons c calls ih => exact ih ((step_effect m c).sound hm)

/-! ## What a call leaves alone -/

/-- A call on a variable leaves the bindings of the others alone. -/
theorem Step.get?_active {m m' : HandleTemporaryManager} {call : TemporaryCall}
    {made : Option HandleTemporaryBinding} (h : Step m call made m') {c : String}
    (hc : c ≠ call.cname) : m'.active.get? c = m.active.get? c := by
  cases h with
  | nothing => rfl
  | count c o => rfl
  | allocate => exact m.active.get?_set_of_ne hc _
  | consume => rfl
  | release => exact (m.active.get?_erase _ c).trans (if_neg hc)

/-- A call on a variable leaves all values alone but the one bound to it. -/
theorem Step.get?_values {m m' : HandleTemporaryManager} {call : TemporaryCall}
    {made : Option HandleTemporaryBinding} (h : Step m call made m') {n : String}
    (hn : n ∈ m.state.values)
    (hb : ∀ b, m.active.get? call.cname = some b → b.identity ≠ n) :
    m'.state.values.get? n = m.state.values.get? n := by
  cases h with
  | nothing => rfl
  | count c o => rfl
  | allocate hc hs hv =>
    have hne : n ≠ (m.nextBinding _ _).identity := fun he => hv (he ▸ hn)
    exact m.state.values.get?_set_of_ne hne _
  | consume hb' hv ho hs => exact m.state.values.get?_set_of_ne (hb _ hb').symm _
  | release => rfl

/-- A temporary is released exactly if it is bound to a value that is not live and owned. -/
theorem Sound.release_isOk_iff {m : HandleTemporaryManager} (hm : m.Sound) (c : String) :
    (∃ v m', release c m = .ok v m') ↔
      ∃ b, m.active.get? c = some b ∧ ¬ m.state.IsLiveOwned b.identity := by
  constructor
  · rintro ⟨v, m', h⟩
    rcases release_run c m with ⟨e, he, _⟩ | ⟨b, v', hb, hv, ho, _⟩
    · rw [h] at he
      cases he
    · refine ⟨b, hb, ?_⟩
      rintro ⟨v'', hv'', ho'⟩
      rw [hv] at hv''
      exact ho (Option.some.inj hv'' ▸ ho')
  · rintro ⟨b, hb, hn⟩
    obtain ⟨_, _, v, hv, _⟩ := hm.bound c b hb
    have ho : ¬ LiveOwned v := fun ho => hn ⟨v, hv, ho⟩
    rw [release_of_get? hb hv, if_neg ho]
    exact ⟨v, _, rfl⟩

theorem mem_liveOwnedHandles_iff {m : HandleTemporaryManager} {c : String} :
    c ∈ m.liveOwnedHandles ↔
      ∃ b, m.active.get? c = some b ∧ m.state.IsLiveOwned b.identity := by
  simp only [liveOwnedHandles, List.mem_mergeSort, List.mem_filterMap, Prod.exists,
    Option.ite_none_right_eq_some, Option.some.injEq, OrderedDict.get?_eq_some_iff]
  constructor
  · rintro ⟨_, b, hb, hl, rfl⟩
    exact ⟨b, hb, hl⟩
  · rintro ⟨b, hb, hl⟩
    exact ⟨c, b, hb, hl, rfl⟩

/-- The manager has a variable to close exactly if its tracker has a value to close. -/
theorem Sound.liveOwnedHandles_iff {m : HandleTemporaryManager} (hm : m.Sound) :
    m.liveOwnedHandles = [] ↔ m.state.liveOwnedHandles = [] := by
  have hstate : ∀ n, n ∈ m.state.liveOwnedHandles ↔ m.state.IsLiveOwned n := fun n => by
    simp [HandleStateTracker.liveOwnedHandles, IsLiveOwned, OrderedDict.get?_eq_some_iff]
  simp only [List.eq_nil_iff_forall_not_mem, mem_liveOwnedHandles_iff, hstate]
  constructor
  · intro h n hn
    obtain ⟨c, b, hb, rfl⟩ := hm.live n hn
    exact h c ⟨b, hb, hn⟩
  · rintro h c ⟨b, _, hl⟩
    exact h b.identity hl

theorem assertNoLiveOwnedHandles_eq_ok_iff (m : HandleTemporaryManager) :
    assertNoLiveOwnedHandles m = .ok () m ↔ m.liveOwnedHandles = [] := by
  simp only [assertNoLiveOwnedHandles, bind, EStateM.bind, get, getThe, MonadStateOf.get,
    EStateM.get]
  by_cases h : m.liveOwnedHandles = []
  · simp only [h, ne_eq, not_true, if_false, iff_true]
    rfl
  · simp only [h, ne_eq, not_false_eq_true, if_true, iff_false]
    exact nofun

/-! ## Lifetimes -/

theorem steps_run (m : HandleTemporaryManager) (calls : List TemporaryCall) :
    HandleStateTracker.Steps m.state (m.run calls).state := by
  induction calls generalizing m with
  | nil => exact .refl
  | cons c calls ih => exact (step_effect m c).steps.trans (ih (c.effect m))

/-- A binding that a call makes is of a new value. -/
theorem Step.made_eq_some {m m' : HandleTemporaryManager} {call : TemporaryCall}
    {made : Option HandleTemporaryBinding} (h : Step m call made m') {b : HandleTemporaryBinding}
    (hb : made = some b) : b.identity ∉ m.state.values ∧
      ∃ v, m'.state.values.get? b.identity = some v ∧ v.ownership = b.ownership := by
  cases h with
  | allocate hc hs hv =>
    cases hb
    exact ⟨hv, _, OrderedDict.get?_set_self _ _ _, rfl⟩
  | _ => cases hb

/-- The lifetimes that calls begin have different identities, which are new. -/
theorem nodup_allocated (m : HandleTemporaryManager) (calls : List TemporaryCall) :
    ((m.allocated calls).map (·.identity)).Nodup ∧
      ∀ b ∈ m.allocated calls, b.identity ∉ m.state.values := by
  induction calls generalizing m with
  | nil => exact ⟨List.nodup_nil, fun _ hb => absurd hb List.not_mem_nil⟩
  | cons c calls ih =>
    obtain ⟨hnodup, hnew⟩ := ih (c.effect m)
    have hstep := step_effect m c
    have hmono : ∀ n ∈ m.state.values, n ∈ (c.effect m).state.values := fun n hn => by
      obtain ⟨v, hv⟩ := OrderedDict.mem_iff_exists_get?.1 hn
      obtain ⟨v', hv', _⟩ := hstep.steps.later.get?_values n v hv
      exact OrderedDict.mem_of_get? hv'
    rw [allocated]
    cases hmade : c.made m with
    | none =>
      simp only [Option.toList_none, List.nil_append]
      exact ⟨hnodup, fun b hb hn => hnew b hb (hmono _ hn)⟩
    | some b =>
      obtain ⟨hb, v, hv, _⟩ := hstep.made_eq_some hmade
      simp only [Option.toList_some, List.singleton_append, List.map_cons, List.nodup_cons]
      refine ⟨⟨fun hmem => ?_, hnodup⟩, fun b' hb' hn => ?_⟩
      · obtain ⟨b', hb', he⟩ := List.mem_map.1 hmem
        exact hnew b' hb' (he ▸ OrderedDict.mem_of_get? hv)
      · rcases List.mem_cons.1 hb' with rfl | hb'
        · exact hb hn
        · exact hnew b' hb' (hmono _ hn)

/-- The tracker knows the lifetimes that calls begin. -/
theorem exists_of_allocated {m : HandleTemporaryManager} {calls : List TemporaryCall}
    {b : HandleTemporaryBinding} (hb : b ∈ m.allocated calls) :
    ∃ v, (m.run calls).state.values.get? b.identity = some v ∧ v.ownership = b.ownership := by
  induction calls generalizing m with
  | nil => exact absurd hb List.not_mem_nil
  | cons c calls ih =>
    rw [allocated, List.mem_append, Option.mem_toList] at hb
    rcases hb with hb | hb
    · obtain ⟨_, v, hv, ho⟩ := (step_effect m c).made_eq_some hb
      obtain ⟨v', hv', _, ho', _⟩ := (steps_run (c.effect m) calls).later.get?_values _ _ hv
      exact ⟨v', hv', ho'.trans ho⟩
    · exact ih hb

/-- The lifetimes of the temporaries of a function, after `calls`. -/
structure KeepsLifetimes (calls : List TemporaryCall) : Prop where
  /-- No identity is used for two lifetimes, and none is consumed twice. -/
  nodup_identities : ((empty.allocated calls).map (·.identity)).Nodup
  nodup_consumed : (empty.run calls).state.consumed.Nodup
  /-- Different variables are bound to different lifetimes. -/
  bound_inj : ∀ c c' b b', (empty.run calls).active.get? c = some b →
    (empty.run calls).active.get? c' = some b' → b.identity = b'.identity → c = c'
  /-- A call affects the binding of its variable only, and the lifetime bound to it. -/
  get?_active : ∀ (call : TemporaryCall) c, c ≠ call.cname →
    (call.effect (empty.run calls)).active.get? c = (empty.run calls).active.get? c
  get?_values : ∀ (call : TemporaryCall) n, n ∈ (empty.run calls).state.values →
    (∀ b, (empty.run calls).active.get? call.cname = some b → b.identity ≠ n) →
      (call.effect (empty.run calls)).state.values.get? n =
        (empty.run calls).state.values.get? n
  /-- Releasing succeeds exactly if the lifetime is not live and owned. -/
  release_iff : ∀ c, (∃ v m', release c (empty.run calls) = .ok v m') ↔
    ∃ b, (empty.run calls).active.get? c = some b ∧
      ¬ (empty.run calls).state.IsLiveOwned b.identity
  liveOwnedHandles_iff : (empty.run calls).liveOwnedHandles = [] ↔
    (empty.run calls).state.liveOwnedHandles = []
  /-- If the exit check passes, every owned handle ever allocated was closed or moved. -/
  consumed : assertNoLiveOwnedHandles (empty.run calls) = .ok () (empty.run calls) →
    ∀ b ∈ empty.allocated calls, b.ownership = .owned →
      b.identity ∈ (empty.run calls).state.consumed

theorem keepsLifetimes (calls : List TemporaryCall) : KeepsLifetimes calls := by
  have hm : (empty.run calls).Sound := sound_run sound_empty calls
  refine ⟨(nodup_allocated empty calls).1, hm.consistent.nodup_consumed, fun _ _ _ _ => hm.bound_inj,
    fun call _ => (step_effect _ call).get?_active, fun call _ => (step_effect _ call).get?_values,
    hm.release_isOk_iff, hm.liveOwnedHandles_iff, fun hassert b hb hown => ?_⟩
  rw [assertNoLiveOwnedHandles_eq_ok_iff, List.eq_nil_iff_forall_not_mem] at hassert
  obtain ⟨v, hv, ho⟩ := exists_of_allocated hb
  refine (hm.consistent.mem_consumed_iff b.identity).2 ⟨v, hv, fun hl => ?_⟩
  have hlive : (empty.run calls).state.IsLiveOwned b.identity := ⟨v, hv, ho.trans hown, hl⟩
  obtain ⟨c, b', hb', hid⟩ := hm.live _ hlive
  exact hassert c (mem_liveOwnedHandles_iff.2 ⟨b', hb', hid ▸ hlive⟩)

end HandleTemporaryManager

end AHPy
