import AHPy.HandleModel.Temporaries

/-!
# Builders and trackers

The builders and the trackers of a function are C variables too, but not
handles: their states are kept with their bindings (`ResourceManager`), and each
is finished, by being built, cancelled or closed, before its variable is free.

The lifetimes of a kind of resource, and what has become of them, are what its
calls return (`ResourceManager.Observed`). A sound manager agrees with them.

* `ResourceManager.keepsLifetimes`: identities, release and the exit check;
* `managers_keepLifetimes`: the same for all three managers.
-/

namespace AHPy

open Generations (stamp next)

/-- What has become of a builder. -/
inductive HandleBuilderState where
  | live
  | built
  | cancelled
  deriving DecidableEq

/-- The name of a state in messages. -/
def HandleBuilderState.value : HandleBuilderState → String
  | live => "live"
  | built => "built"
  | cancelled => "cancelled"

/-- What has become of a tracker of arguments. -/
inductive HandleTrackerState where
  | live
  | closed
  deriving DecidableEq

/-- The name of a state in messages. -/
def HandleTrackerState.value : HandleTrackerState → String
  | live => "live"
  | closed => "closed"

/-- A kind of resource with states `σ`: the state of one that is not finished, and the words of its
    messages. -/
structure ResourceKind (σ : Type) where
  live : σ
  value : σ → String
  temporary : String
  resource : String
  terminate : String

/-- The lifetime a C variable is bound to. -/
structure ResourceBinding (σ : Type) where
  cname : String
  identity : String
  state : σ

/-- The errors of a manager of resources. -/
inductive ResourceError (σ : Type) where
  | alreadyAllocated (cname : String)
  | notAllocated (cname : String)
  | notLive (state : σ) (cname : String)
  | releaseLive (cname : String)
  | remainLive (cnames : List String)

/-- The text of an error, for names printed by `repr`. -/
def ResourceError.message {σ : Type} (kind : ResourceKind σ) (repr : String → String) :
    ResourceError σ → String
  | alreadyAllocated c => kind.temporary ++ " " ++ repr c ++ " is already allocated"
  | notAllocated c => kind.temporary ++ " " ++ repr c ++ " is not allocated"
  | notLive s c => "cannot use " ++ kind.value s ++ " " ++ kind.resource ++ " " ++ repr c
  | releaseLive c =>
    "cannot release live " ++ kind.resource ++ " " ++ repr c ++ "; " ++ kind.terminate ++ " it first"
  | remainLive cs =>
    kind.resource ++ "s remain live at function exit: " ++ ", ".intercalate cs

/-- The bindings of the variables of a function, and their generations. -/
structure ResourceManager (σ : Type) where
  active : OrderedDict String (ResourceBinding σ)
  generations : OrderedDict String ℕ

/-- The methods of a manager of resources. -/
abbrev ResourceM (σ : Type) := EStateM (ResourceError σ) (ResourceManager σ)

namespace ResourceManager

variable {σ : Type}

/-- A manager without resources. -/
def empty : ResourceManager σ := ⟨.empty, .empty⟩

/-! ## Methods -/

section Methods

variable [DecidableEq σ] (kind : ResourceKind σ)

def allocate (cname : String) : ResourceM σ (ResourceBinding σ) := do
  let m ← get
  if cname ∈ m.active then
    throw (.alreadyAllocated cname)
  else do
    let generation := next m.generations cname
    let binding : ResourceBinding σ := ⟨cname, stamp cname generation, kind.live⟩
    set { m with
      generations := m.generations.set cname generation
      active := m.active.set cname binding }
    return binding

omit [DecidableEq σ] in
def binding (cname : String) : ResourceM σ (ResourceBinding σ) := do
  match (← get).active.get? cname with
  | some binding => return binding
  | none => throw (.notAllocated cname)

def isActive (m : ResourceManager σ) (cname : String) : Bool := cname ∈ m.active

def use (cname : String) : ResourceM σ (ResourceBinding σ) := do
  let binding ← binding cname
  if binding.state ≠ kind.live then
    throw (.notLive binding.state cname)
  else
    return binding

def finish (cname : String) (state : σ) : ResourceM σ (ResourceBinding σ) := do
  let binding ← use kind cname
  let binding := { binding with state := state }
  modify fun m => { m with active := m.active.set cname binding }
  return binding

def release (cname : String) : ResourceM σ (ResourceBinding σ) := do
  let binding ← binding cname
  if binding.state = kind.live then
    throw (.releaseLive cname)
  else do
    modify fun m => { m with active := m.active.erase cname }
    return binding

/-- The variables whose resource is not finished, sorted. -/
def liveResources (m : ResourceManager σ) : List String :=
  (m.active.entries.filterMap fun (cname, binding) =>
    if binding.state = kind.live then some cname else none).mergeSort

def assertNoLive : ResourceM σ Unit := do
  let live := (← get).liveResources kind
  if live ≠ [] then
    throw (.remainLive live)

end Methods

end ResourceManager

/-! ## The managers -/

/-- Builders of lists and tuples. -/
def builderKind : ResourceKind HandleBuilderState where
  live := .live
  value := HandleBuilderState.value
  temporary := "HPy builder temporary"
  resource := "HPy builder"
  terminate := "build or cancel"

/-- Trackers of parsed arguments. -/
def trackerKind : ResourceKind HandleTrackerState where
  live := .live
  value := HandleTrackerState.value
  temporary := "HPy tracker"
  resource := "HPy tracker"
  terminate := "close"

namespace HandleBuilderManager

def build (cname : String) := ResourceManager.finish builderKind cname .built

def cancel (cname : String) := ResourceManager.finish builderKind cname .cancelled

def liveBuilders := ResourceManager.liveResources builderKind

def assertNoLiveBuilders := ResourceManager.assertNoLive builderKind

end HandleBuilderManager

namespace HandleTrackerManager

def close (cname : String) := ResourceManager.finish trackerKind cname .closed

def liveTrackers := ResourceManager.liveResources trackerKind

def assertNoLiveTrackers := ResourceManager.assertNoLive trackerKind

end HandleTrackerManager

/-! ## Calls -/

/-- The calls of a manager; what finishes a resource leaves it in another state than live. -/
inductive ResourceCall {σ : Type} (kind : ResourceKind σ) where
  | allocate (cname : String)
  | use (cname : String)
  | finish (cname : String) (state : {s : σ // s ≠ kind.live})
  | release (cname : String)

namespace ResourceCall

variable {σ : Type} [DecidableEq σ] {kind : ResourceKind σ}

/-- The variable a call is about. -/
def cname : ResourceCall kind → String
  | allocate c | use c | finish c _ | release c => c

/-- A call, with the binding it makes or changes, if any. -/
def perform : ResourceCall kind → ResourceM σ (Option (ResourceBinding σ))
  | allocate c => some <$> ResourceManager.allocate kind c
  | use c => (fun _ => none) <$> ResourceManager.use kind c
  | finish c s => some <$> ResourceManager.finish kind c s
  | release c => (fun _ => none) <$> ResourceManager.release kind c

/-- Building, cancelling and closing are the calls that finish. -/
theorem perform_build (c : String) :
    (finish c ⟨.built, nofun⟩ : ResourceCall builderKind).perform =
      some <$> HandleBuilderManager.build c :=
  rfl

theorem perform_cancel (c : String) :
    (finish c ⟨.cancelled, nofun⟩ : ResourceCall builderKind).perform =
      some <$> HandleBuilderManager.cancel c :=
  rfl

theorem perform_close (c : String) :
    (finish c ⟨.closed, nofun⟩ : ResourceCall trackerKind).perform =
      some <$> HandleTrackerManager.close c :=
  rfl

end ResourceCall

namespace ResourceManager

variable {σ : Type} [DecidableEq σ] {kind : ResourceKind σ}

/-! ## Runs of the methods -/

/-- The binding of the next lifetime of a variable. -/
def nextBinding (kind : ResourceKind σ) (m : ResourceManager σ) (c : String) : ResourceBinding σ :=
  ⟨c, stamp c (next m.generations c), kind.live⟩

omit [DecidableEq σ] in
theorem binding_run (c : String) (m : ResourceManager σ) :
    binding c m = match m.active.get? c with
      | some b => .ok b m
      | none => .error (.notAllocated c) m := by
  simp only [binding, bind, EStateM.bind, get, getThe, MonadStateOf.get, EStateM.get]
  cases m.active.get? c <;> rfl

omit [DecidableEq σ] in
theorem allocate_run (c : String) (m : ResourceManager σ) :
    allocate kind c m = if c ∈ m.active then .error (.alreadyAllocated c) m else
      .ok (nextBinding kind m c)
        { active := m.active.set c (nextBinding kind m c)
          generations := m.generations.set c (next m.generations c) } := by
  simp only [allocate, bind, EStateM.bind, get, getThe, MonadStateOf.get, EStateM.get]
  split <;> rfl

theorem use_run (c : String) (m : ResourceManager σ) :
    use kind c m = match m.active.get? c with
      | some b => if b.state = kind.live then .ok b m else .error (.notLive b.state c) m
      | none => .error (.notAllocated c) m := by
  simp only [use, bind, EStateM.bind, binding_run]
  cases m.active.get? c with
  | none => rfl
  | some b =>
    by_cases hl : b.state = kind.live
    · simp only [hl, ne_eq, not_true, if_false, if_true]
      rfl
    · simp only [hl, ne_eq, not_false_eq_true, if_true, if_false]
      rfl

theorem finish_run (c : String) (s : σ) (m : ResourceManager σ) :
    finish kind c s m = match m.active.get? c with
      | some b =>
        if b.state = kind.live then
          .ok { b with state := s } { m with active := m.active.set c { b with state := s } }
        else .error (.notLive b.state c) m
      | none => .error (.notAllocated c) m := by
  simp only [finish, bind, EStateM.bind, use_run]
  cases m.active.get? c with
  | none => rfl
  | some b =>
    by_cases hl : b.state = kind.live
    · simp only [hl, if_true]
      rfl
    · simp only [hl, if_false]

theorem release_run (c : String) (m : ResourceManager σ) :
    release kind c m = match m.active.get? c with
      | some b =>
        if b.state = kind.live then .error (.releaseLive c) m
        else .ok b { m with active := m.active.erase c }
      | none => .error (.notAllocated c) m := by
  simp only [release, bind, EStateM.bind, binding_run]
  cases m.active.get? c with
  | none => rfl
  | some b =>
    dsimp only
    split <;> rfl

/-! ## Observed lifetimes -/

/-- A manager, with the lifetimes that its calls began, in this order, and what the calls said of
    them last. -/
structure Observed (σ : Type) where
  manager : ResourceManager σ
  begun : List String
  lifetimes : OrderedDict String σ

namespace Observed

/-- Nothing has been observed. -/
def empty : Observed σ := ⟨.empty, [], .empty⟩

/-- What is observed of a call: the binding that it makes or changes, if any. -/
def step (s : Observed σ) (call : ResourceCall kind) : Observed σ :=
  match call, call.perform s.manager with
  | .allocate _, .ok (some b) m =>
    ⟨m, s.begun ++ [b.identity], s.lifetimes.set b.identity b.state⟩
  | _, .ok (some b) m => ⟨m, s.begun, s.lifetimes.set b.identity b.state⟩
  | _, .ok none m => ⟨m, s.begun, s.lifetimes⟩
  | _, .error _ m => ⟨m, s.begun, s.lifetimes⟩

/-- What is observed of calls. -/
def run (s : Observed σ) (calls : List (ResourceCall kind)) : Observed σ := calls.foldl step s

/-- The manager agrees with what is observed: every lifetime was stamped for a variable, and those
    that are live are bound. -/
structure Sound (kind : ResourceKind σ) (s : Observed σ) : Prop where
  keys : s.lifetimes.keys = s.begun
  counted : Generations.Counted s.manager.generations (· ∈ s.lifetimes)
  bound : ∀ c b, s.manager.active.get? c = some b → (∃ g, b.identity = stamp c g) ∧
    s.lifetimes.get? b.identity = some b.state
  live : ∀ n, s.lifetimes.get? n = some kind.live →
    ∃ c b, s.manager.active.get? c = some b ∧ b.identity = n

omit [DecidableEq σ] in
theorem sound_empty : Sound kind empty where
  keys := rfl
  counted _ h := absurd h (OrderedDict.not_mem_empty _)
  bound _ _ h := nomatch h
  live _ h := nomatch h

omit [DecidableEq σ] in
theorem Sound.bound_inj {s : Observed σ} (hs : Sound kind s) {c c' : String}
    {b b' : ResourceBinding σ} (hb : s.manager.active.get? c = some b)
    (hb' : s.manager.active.get? c' = some b') (h : b.identity = b'.identity) : c = c' := by
  obtain ⟨⟨g, hg⟩, _⟩ := hs.bound c b hb
  obtain ⟨⟨g', hg'⟩, _⟩ := hs.bound c' b' hb'
  rw [hg, hg'] at h
  exact (Generations.stamp_inj h).1

/-- What a call does to the manager and to what is observed. -/
inductive Change (s : Observed σ) : ResourceCall kind → Observed σ → Prop where
  | nothing (call) : Change s call s
  | allocate {c} (hc : c ∉ s.manager.active) : Change s (.allocate c)
    { manager :=
        { active := s.manager.active.set c (nextBinding kind s.manager c)
          generations := s.manager.generations.set c (next s.manager.generations c) }
      begun := s.begun ++ [stamp c (next s.manager.generations c)]
      lifetimes := s.lifetimes.set (stamp c (next s.manager.generations c)) kind.live }
  | finish {c t b} (hb : s.manager.active.get? c = some b) (hl : b.state = kind.live) :
    Change s (.finish c t)
      { s with
        manager := { s.manager with active := s.manager.active.set c { b with state := t } }
        lifetimes := s.lifetimes.set b.identity t }
  | release {c b} (hb : s.manager.active.get? c = some b) (hl : b.state ≠ kind.live) :
    Change s (.release c)
      { s with manager := { s.manager with active := s.manager.active.erase c } }

theorem change_step (s : Observed σ) (call : ResourceCall kind) : Change s call (s.step call) := by
  cases call with
  | allocate c =>
    have hp : (.allocate c : ResourceCall kind).perform s.manager =
        EStateM.map some (allocate kind c) s.manager := rfl
    unfold step
    rw [hp, EStateM.map, allocate_run]
    split_ifs with hc
    · exact .nothing _
    · exact .allocate hc
  | use c =>
    have hp : (.use c : ResourceCall kind).perform s.manager =
        EStateM.map (fun _ => none) (use kind c) s.manager := rfl
    unfold step
    rw [hp, EStateM.map, use_run]
    cases s.manager.active.get? c with
    | none => exact .nothing _
    | some b =>
      dsimp only
      split_ifs <;> exact .nothing _
  | finish c t =>
    have hp : (.finish c t : ResourceCall kind).perform s.manager =
        EStateM.map some (finish kind c t) s.manager := rfl
    unfold step
    rw [hp, EStateM.map, finish_run]
    cases hb : s.manager.active.get? c with
    | none => exact .nothing _
    | some b =>
      dsimp only
      split_ifs with hl
      · exact .finish hb hl
      · exact .nothing _
  | release c =>
    have hp : (.release c : ResourceCall kind).perform s.manager =
        EStateM.map (fun _ => none) (release kind c) s.manager := rfl
    unfold step
    rw [hp, EStateM.map, release_run]
    cases hb : s.manager.active.get? c with
    | none => exact .nothing _
    | some b =>
      dsimp only
      split_ifs with hl
      · exact .nothing _
      · exact .release hb hl

omit [DecidableEq σ] in
/-- A call keeps the manager in agreement with what is observed. -/
theorem Change.sound {s s' : Observed σ} {call : ResourceCall kind} (h : Change s call s')
    (hs : Sound kind s) : Sound kind s' := by
  cases h with
  | nothing => exact hs
  | @allocate c hc =>
    have hnew : stamp c (next s.manager.generations c) ∉ s.lifetimes := hs.counted.stamp_next c
    refine ⟨?_, hs.counted.set c fun n hn => (OrderedDict.mem_set_iff.1 hn).symm, ?_, ?_⟩
    · rw [← hs.keys]
      exact OrderedDict.keys_set_of_not_mem hnew _
    · intro c' b hb
      rcases OrderedDict.get?_set_cases hb with ⟨rfl, rfl⟩ | ⟨-, hb⟩
      · exact ⟨⟨_, rfl⟩, OrderedDict.get?_set_self _ _ _⟩
      · obtain ⟨hg, hb'⟩ := hs.bound c' b hb
        have hne : b.identity ≠ stamp c (next s.manager.generations c) := fun he =>
          hnew (he ▸ OrderedDict.mem_of_get? hb')
        exact ⟨hg, (s.lifetimes.get?_set_of_ne hne _).trans hb'⟩
    · intro n hn
      rcases OrderedDict.get?_set_cases hn with ⟨rfl, -⟩ | ⟨-, hn⟩
      · exact ⟨c, _, OrderedDict.get?_set_self _ _ _, rfl⟩
      · obtain ⟨c', b, hb, hbn⟩ := hs.live n hn
        have hne : c' ≠ c := fun h => hc (h ▸ OrderedDict.mem_of_get? hb)
        exact ⟨c', b, (s.manager.active.get?_set_of_ne hne _).trans hb, hbn⟩
  | @finish c t b hb hl =>
    obtain ⟨hg, hlb⟩ := hs.bound c b hb
    have hmem : b.identity ∈ s.lifetimes := OrderedDict.mem_of_get? hlb
    refine ⟨?_, hs.counted.mono fun n hn => ?_, ?_, ?_⟩
    · rw [OrderedDict.keys_set_of_mem hmem]
      exact hs.keys
    · exact (OrderedDict.mem_set_iff.1 hn).elim (fun he => he ▸ hmem) id
    · intro c' b' hb'
      rcases OrderedDict.get?_set_cases hb' with ⟨rfl, rfl⟩ | ⟨he, hb'⟩
      · exact ⟨hg, OrderedDict.get?_set_self _ _ _⟩
      · obtain ⟨hg', hlb'⟩ := hs.bound c' b' hb'
        have hne : b'.identity ≠ b.identity := fun h => he (hs.bound_inj hb' hb h)
        exact ⟨hg', (s.lifetimes.get?_set_of_ne hne _).trans hlb'⟩
    · intro n hn
      rcases OrderedDict.get?_set_cases hn with ⟨-, ht⟩ | ⟨he, hn⟩
      · exact absurd ht.symm t.2
      · obtain ⟨c', b', hb', hbn⟩ := hs.live n hn
        -- The variable is another one, as its lifetime is.
        have hne : c' ≠ c := by
          rintro rfl
          obtain rfl : b = b' := Option.some.inj (hb.symm.trans hb')
          exact he hbn.symm
        exact ⟨c', b', (s.manager.active.get?_set_of_ne hne _).trans hb', hbn⟩
  | @release c b hb hl =>
    refine ⟨hs.keys, hs.counted, fun c' b' hb' => ?_, fun n hn => ?_⟩
    · rw [OrderedDict.get?_erase] at hb'
      split at hb'
      next => cases hb'
      next => exact hs.bound c' b' hb'
    · obtain ⟨c', b', hb', hbn⟩ := hs.live n hn
      refine ⟨c', b', ?_, hbn⟩
      have hne : c' ≠ c := by
        rintro rfl
        obtain rfl : b = b' := Option.some.inj (hb.symm.trans hb')
        have hlb := (hs.bound c' b hb).2
        rw [hbn, hn] at hlb
        exact hl (Option.some.inj hlb).symm
      rw [OrderedDict.get?_erase, if_neg hne, hb']

theorem sound_run {s : Observed σ} (hs : Sound kind s) (calls : List (ResourceCall kind)) :
    Sound kind (s.run calls) := by
  induction calls generalizing s with
  | nil => exact hs
  | cons c calls ih => exact ih ((change_step s c).sound hs)

omit [DecidableEq σ] in
/-- A call on a variable leaves the bindings of the others alone. -/
theorem Change.get?_active {s s' : Observed σ} {call : ResourceCall kind} (h : Change s call s')
    {c : String} (hc : c ≠ call.cname) : s'.manager.active.get? c = s.manager.active.get? c := by
  cases h with
  | nothing => rfl
  | allocate => exact s.manager.active.get?_set_of_ne hc _
  | finish => exact s.manager.active.get?_set_of_ne hc _
  | release => exact (s.manager.active.get?_erase _ c).trans (if_neg hc)

omit [DecidableEq σ] in
/-- A call on a variable leaves all lifetimes alone but the one bound to it. -/
theorem Change.get?_lifetimes {s s' : Observed σ} {call : ResourceCall kind}
    (h : Change s call s') (hs : Sound kind s) {n : String} (hn : n ∈ s.lifetimes)
    (hb : ∀ b, s.manager.active.get? call.cname = some b → b.identity ≠ n) :
    s'.lifetimes.get? n = s.lifetimes.get? n := by
  cases h with
  | nothing => rfl
  | @allocate c hc =>
    have hne : n ≠ stamp c (next s.manager.generations c) := fun he =>
      hs.counted.stamp_next c (he ▸ hn)
    exact s.lifetimes.get?_set_of_ne hne _
  | finish hb' hl => exact s.lifetimes.get?_set_of_ne (hb _ hb').symm _
  | release => rfl

omit [DecidableEq σ] in
/-- What is finished stays so. -/
theorem Change.terminal {s s' : Observed σ} {call : ResourceCall kind} (h : Change s call s')
    (hs : Sound kind s) {n : String} {t : σ} (hn : s.lifetimes.get? n = some t)
    (ht : t ≠ kind.live) : s'.lifetimes.get? n = some t := by
  refine Eq.trans ?_ hn
  cases h with
  | nothing => rfl
  | @allocate c hc =>
    have hne : n ≠ stamp c (next s.manager.generations c) := fun he =>
      hs.counted.stamp_next c (he ▸ OrderedDict.mem_of_get? hn)
    exact s.lifetimes.get?_set_of_ne hne _
  | @finish c t' b hb hl =>
    have hne : n ≠ b.identity := by
      rintro rfl
      rw [(hs.bound c b hb).2] at hn
      exact ht ((Option.some.inj hn).symm.trans hl)
    exact s.lifetimes.get?_set_of_ne hne _
  | release => rfl

end Observed

/-- A resource is released exactly if it is bound and finished. -/
theorem release_isOk_iff (m : ResourceManager σ) (c : String) :
    (∃ b m', release kind c m = .ok b m') ↔
      ∃ b, m.active.get? c = some b ∧ b.state ≠ kind.live := by
  rw [release_run]
  cases m.active.get? c with
  | none => simp
  | some b =>
    by_cases hl : b.state = kind.live <;> simp [hl]

theorem mem_liveResources_iff {m : ResourceManager σ} {c : String} :
    c ∈ m.liveResources kind ↔ ∃ b, m.active.get? c = some b ∧ b.state = kind.live := by
  simp only [liveResources, List.mem_mergeSort, List.mem_filterMap, Prod.exists,
    Option.ite_none_right_eq_some, Option.some.injEq, OrderedDict.get?_eq_some_iff]
  constructor
  · rintro ⟨_, b, hb, hl, rfl⟩
    exact ⟨b, hb, hl⟩
  · rintro ⟨b, hb, hl⟩
    exact ⟨c, b, hb, hl, rfl⟩

/-- The manager has a variable to finish exactly if a lifetime is not finished. -/
theorem Observed.Sound.liveResources_iff {s : Observed σ} (hs : Observed.Sound kind s) :
    s.manager.liveResources kind = [] ↔ ∀ n, s.lifetimes.get? n ≠ some kind.live := by
  simp only [List.eq_nil_iff_forall_not_mem, mem_liveResources_iff]
  constructor
  · intro h n hn
    obtain ⟨c, b, hb, rfl⟩ := hs.live n hn
    have hlb := (hs.bound c b hb).2
    rw [hn] at hlb
    exact h c ⟨b, hb, (Option.some.inj hlb).symm⟩
  · rintro h c ⟨b, hb, hl⟩
    exact h b.identity (hl ▸ (hs.bound c b hb).2)

theorem assertNoLive_eq_ok_iff (m : ResourceManager σ) :
    assertNoLive kind m = .ok () m ↔ m.liveResources kind = [] := by
  simp only [assertNoLive, bind, EStateM.bind, get, getThe, MonadStateOf.get, EStateM.get]
  by_cases h : m.liveResources kind = []
  · simp only [h, ne_eq, not_true, if_false, iff_true]
    rfl
  · simp only [h, ne_eq, not_false_eq_true, if_true, iff_false]
    exact nofun

/-- The lifetimes of the resources of a function, after `calls`. -/
structure KeepsLifetimes (kind : ResourceKind σ) (calls : List (ResourceCall kind)) : Prop where
  /-- No identity is used for two lifetimes. -/
  nodup_begun : (Observed.empty.run calls).begun.Nodup
  mem_lifetimes : ∀ n, n ∈ (Observed.empty.run calls).begun ↔
    n ∈ (Observed.empty.run calls).lifetimes
  /-- What is finished stays so. -/
  terminal : ∀ (call : ResourceCall kind) n t, t ≠ kind.live →
    (Observed.empty.run calls).lifetimes.get? n = some t →
      ((Observed.empty.run calls).step call).lifetimes.get? n = some t
  /-- Different variables are bound to different lifetimes. -/
  bound_inj : ∀ c c' b b', (Observed.empty.run calls).manager.active.get? c = some b →
    (Observed.empty.run calls).manager.active.get? c' = some b' → b.identity = b'.identity → c = c'
  /-- A call affects the binding of its variable only, and the lifetime bound to it. -/
  get?_active : ∀ (call : ResourceCall kind) c, c ≠ call.cname →
    ((Observed.empty.run calls).step call).manager.active.get? c =
      (Observed.empty.run calls).manager.active.get? c
  get?_lifetimes : ∀ (call : ResourceCall kind) n, n ∈ (Observed.empty.run calls).lifetimes →
    (∀ b, (Observed.empty.run calls).manager.active.get? call.cname = some b → b.identity ≠ n) →
      ((Observed.empty.run calls).step call).lifetimes.get? n =
        (Observed.empty.run calls).lifetimes.get? n
  /-- Releasing succeeds exactly if the lifetime is not live. -/
  release_iff : ∀ c, (∃ b m', release kind c (Observed.empty.run calls).manager = .ok b m') ↔
    ∃ b, (Observed.empty.run calls).manager.active.get? c = some b ∧
      (Observed.empty.run calls).lifetimes.get? b.identity ≠ some kind.live
  liveResources_iff : (Observed.empty.run calls).manager.liveResources kind = [] ↔
    ∀ n, (Observed.empty.run calls).lifetimes.get? n ≠ some kind.live
  /-- If the exit check passes, everything ever allocated is finished. -/
  finished : assertNoLive kind (Observed.empty.run calls).manager =
      .ok () (Observed.empty.run calls).manager →
    ∀ n ∈ (Observed.empty.run calls).begun,
      ∃ t, (Observed.empty.run calls).lifetimes.get? n = some t ∧ t ≠ kind.live

theorem keepsLifetimes (calls : List (ResourceCall kind)) : KeepsLifetimes kind calls := by
  have hs : Observed.Sound kind (Observed.empty.run calls) :=
    Observed.sound_run Observed.sound_empty calls
  have hmem : ∀ n, n ∈ (Observed.empty.run calls).begun ↔
      n ∈ (Observed.empty.run calls).lifetimes := fun n => by rw [← hs.keys]; rfl
  refine ⟨hs.keys ▸ OrderedDict.nodup_keys _, hmem,
    fun call _ _ ht hn => (Observed.change_step _ call).terminal hs hn ht,
    fun _ _ _ _ => hs.bound_inj,
    fun call _ => (Observed.change_step _ call).get?_active,
    fun call _ => (Observed.change_step _ call).get?_lifetimes hs,
    fun c => ?_, hs.liveResources_iff, fun hassert n hn => ?_⟩
  · rw [release_isOk_iff]
    refine exists_congr fun b => and_congr_right fun hb => not_congr ?_
    rw [(hs.bound c b hb).2, Option.some.injEq]
  · rw [assertNoLive_eq_ok_iff, hs.liveResources_iff] at hassert
    obtain ⟨t, ht⟩ := OrderedDict.mem_iff_exists_get?.1 ((hmem n).1 hn)
    exact ⟨t, ht, fun hl => hassert n (hl ▸ ht)⟩

end ResourceManager

/-- The managers of handles, of builders and of trackers keep the lifetimes of their variables
    apart, whatever the calls and the names; and what their exit checks pass has leaked nothing. -/
theorem managers_keepLifetimes :
    (∀ calls, HandleTemporaryManager.KeepsLifetimes calls) ∧
    (∀ calls, ResourceManager.KeepsLifetimes builderKind calls) ∧
    ∀ calls, ResourceManager.KeepsLifetimes trackerKind calls :=
  ⟨HandleTemporaryManager.keepsLifetimes, ResourceManager.keepsLifetimes,
    ResourceManager.keepsLifetimes⟩

end AHPy
