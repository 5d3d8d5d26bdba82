import AHPy.HandleModel.Lifecycle

/-!
# Failed calls

What a call of a tracker leaves behind when it raises. Declarations, loads and
returns check all they check before they change anything. Two kinds of calls
do not: closing a handle as an operation with the name of a result, which is
rejected after the handle is closed, and applying a plan, which closes its
handles one by one.

* `TrackerCall.perform`: what a call returns or raises;
* `TrackerCall.atomic_iff`: the calls that leave the maps of the tracker as they
  were when they raise are those that check first (`TrackerCall.ChecksFirst`);
* `Pool.atomic_iff`: the same for the calls to a pool of trackers, merges included.
-/

namespace AHPy

/-- What a call of a tracker returns. -/
inductive TrackerResult (ν : Type) where
  | storage (contract : HandleStorage)
  | value (value : HandleValue)
  | result (value : Option HandleValue)
  | transfer (transfer : HandleTransfer)
  | plan (plan : HandleCleanupPlan ν)
  | unit

namespace HandleStateTracker

variable {ν : Type} [DecidableEq ν]

/-! ## The methods that check first -/

theorem failsClean_use (n : ν) : FailsClean (use n) := by
  intro t e t' h
  rcases use_run n t with ⟨e', h', _⟩ | ⟨v, _, _, h'⟩
  · rw [h'] at h
    cases h
    rfl
  · rw [h'] at h
    cases h

theorem failsClean_declareStorage (n : ν) (k : HandleStorageKind) (c : Option String) :
    FailsClean (declareStorage n k c) := by
  intro t e t' h
  rcases declareStorage_run n k c t with ⟨e', h'⟩ | ⟨_, _, contract, h'⟩
  · rw [h'] at h
    cases h
    rfl
  · rw [h'] at h
    cases h

theorem failsClean_declareValue (n : ν) (k : HandleStorageKind) (o : HandleOwnership)
    (c : Option String) : FailsClean (declareValue n k o c) := by
  intro t e t' h
  rcases declareValue_run n k o c t with ⟨e', h'⟩ | ⟨_, _, h'⟩
  · rw [h'] at h
    cases h
    rfl
  · rw [h'] at h
    cases h

theorem failsClean_consumeOwned (n : ν) (s : HandleState) (op : String) :
    FailsClean (consumeOwned n s op) := by
  intro t e t' h
  rcases use_run n t with ⟨e', hu, _⟩ | ⟨v, hv, hl, hu⟩
  · simp only [consumeOwned, bind, EStateM.bind, hu] at h
    cases h
    rfl
  · by_cases ho : v.ownership = .owned
    · rw [consumeOwned_of_liveOwned hv ⟨ho, hl⟩] at h
      cases h
    · simp only [consumeOwned, bind, EStateM.bind, hu, ne_eq, ho, not_false_eq_true, if_true] at h
      cases h
      rfl

/-- A value that is not live and owned cannot be consumed. -/
theorem consumeOwned_of_not_liveOwned {n : ν} {t : HandleStateTracker ν} (h : ¬ t.IsLiveOwned n)
    (s : HandleState) (op : String) : ∃ e, consumeOwned n s op t = .error e t := by
  rcases hr : consumeOwned n s op t with ⟨v, t'⟩ | ⟨e, t'⟩
  · rcases consumeOwned_run n s op t with ⟨e', h'⟩ | ⟨v', hv', ho, _⟩
    · rw [hr] at h'
      cases h'
    · exact absurd ⟨v', hv', ho⟩ h
  · obtain rfl := failsClean_consumeOwned n s op t e t' hr
    exact ⟨e, rfl⟩

theorem keeps_storageOf_eq (n : ν) : Keeps Eq (storageOf n) := by
  intro t
  simp only [storageOf, bind, EStateM.bind, get, getThe, MonadStateOf.get, EStateM.get]
  cases t.storage.get? n <;> rfl

theorem failsClean_duplicate (source target : ν) : FailsClean (duplicate source target) :=
  .bind_of_keeps (keeps_use Eq source) fun _ => failsClean_declareValue target _ _ _

theorem failsClean_loadStorage (source target : ν) : FailsClean (loadStorage source target) :=
  .bind_of_keeps (keeps_storageOf_eq source) fun _ =>
    .ite (failsClean_declareValue target _ _ _) (.throw _)

theorem failsClean_storeStorage (n target : ν) : FailsClean (storeStorage n target) :=
  .bind_of_keeps (keeps_storageOf_eq n) fun _ => .ite (failsClean_use target) (.throw _)

theorem failsClean_prepareReturn (n : ν) : FailsClean (prepareReturn n) :=
  .bind_of_keeps (keeps_use Eq n) fun _ =>
    .ite (.bind_pure (failsClean_consumeOwned n .moved "move") _) (.pure _)

theorem failsClean_cleanupPlan (exitKind : HandleExitKind) (preserveNames : List ν) :
    FailsClean (cleanupPlan exitKind preserveNames) :=
  .bind_of_keeps (keeps_useAll Eq preserveNames) fun _ =>
    .bind_of_keeps .get fun _ => .pure _

theorem failsClean_declareResult (contract : HandleOperationContract) (result : Option ν) :
    FailsClean (declareResult contract result) := by
  unfold declareResult
  split
  · exact (failsClean_declareValue _ _ _ _).map _
  · exact .throw _
  · exact .throw _
  · exact .pure _

/-- An operation that borrows its arguments checks first. -/
theorem failsClean_applyOperation {op : HandleOperation} (h : op ≠ .close) (args : List ν)
    (result : Option ν) : FailsClean (applyOperation op args result) := by
  unfold applyOperation
  dsimp only
  split
  next he => exact absurd ((argumentEffect_operationContract op).1 he) h
  next he _ => exact absurd ((argumentEffect_operationContract op).1 he) h
  · exact .bind_of_keeps (keeps_useAll Eq _) fun _ => failsClean_declareResult _ _

/-! ## The methods that do not -/

/-- A consumed value differs from what it was. -/
theorem not_similar_of_later {t t₁ t' : HandleStateTracker ν} {n : ν} {v : HandleValue}
    (hv : t.values.get? n = some v) (hl : v.state = .live)
    (h₁ : t₁.values.get? n = some { v with state := .closed }) (h : Later t₁ t') :
    ¬ t'.values.Similar t.values := by
  intro hs
  obtain ⟨v', hv', _, _, hl'⟩ := h.get?_values n _ h₁
  rw [hs n, hv] at hv'
  cases hv'
  rw [hl' nofun] at hl
  cases hl

theorem get?_consumeValue_self (t : HandleStateTracker ν) (n : ν) (v : HandleValue) :
    (t.consumeValue n v).values.get? n = some v :=
  t.values.get?_set_self n v

/-- Only distinct live owned values can all be closed. -/
theorem closeAll_eq_ok {names : List ν} {t t' : HandleStateTracker ν}
    (h : closeAll names t = .ok () t') : names.Nodup ∧ ∀ n ∈ names, t.IsLiveOwned n := by
  induction names generalizing t with
  | nil => exact ⟨List.nodup_nil, fun _ hn => absurd hn List.not_mem_nil⟩
  | cons m l ih =>
    simp only [closeAll, bind, EStateM.bind] at h
    rcases consumeOwned_run m .closed "close" t with ⟨e, he⟩ | ⟨v, hv, ho, hc⟩
    · rw [close, he] at h
      cases h
    · rw [close, hc] at h
      obtain ⟨hnodup, hall⟩ := ih h
      have hm : ¬ (t.consumeValue m { v with state := .closed }).IsLiveOwned m := by
        rintro ⟨v', hv', ho'⟩
        rw [get?_consumeValue_self] at hv'
        cases hv'
        cases ho'.2
      refine ⟨List.nodup_cons.2 ⟨fun hml => hm (hall m hml), hnodup⟩, fun n hn => ?_⟩
      rcases List.mem_cons.1 hn with rfl | hn
      · exact ⟨v, hv, ho⟩
      · obtain ⟨v', hv', ho'⟩ := hall n hn
        have hne : n ≠ m := fun hnm => hm (hnm ▸ hall n hn)
        exact ⟨v', (t.values.get?_set_of_ne hne _).symm.trans hv', ho'⟩

/-- Closing values one by one: if the first can be closed and the others cannot, it stays
    closed. -/
theorem closeAll_cons_error {n : ν} {names : List ν} {t t' : HandleStateTracker ν}
    {e : HandleModelError ν} (hn : t.IsLiveOwned n) (h : closeAll (n :: names) t = .error e t') :
    ¬ t'.values.Similar t.values := by
  obtain ⟨v, hv, ho⟩ := hn
  have hc := consumeOwned_of_liveOwned hv ho .closed "close"
  simp only [closeAll, bind, EStateM.bind, close, hc] at h
  have hk := keeps_closeAll names (t.consumeValue n { v with state := .closed })
  rw [h] at hk
  exact not_similar_of_later hv ho.2 (get?_consumeValue_self t n _) hk.later

/-- If the first of the values cannot be closed, none is. -/
theorem closeAll_cons_of_not_liveOwned {n : ν} {names : List ν} {t t' : HandleStateTracker ν}
    {e : HandleModelError ν} (hn : ¬ t.IsLiveOwned n)
    (h : closeAll (n :: names) t = .error e t') : t' = t := by
  obtain ⟨e', he⟩ := consumeOwned_of_not_liveOwned hn .closed "close"
  simp only [closeAll, bind, EStateM.bind, close, he] at h
  cases h
  rfl

end HandleStateTracker

/-! ## Calls -/

namespace TrackerCall

open HandleStateTracker

variable {ν : Type} [DecidableEq ν]

/-- A call, with what it returns. -/
def perform : TrackerCall ν → TrackerM ν (TrackerResult ν)
  | declareStorage n k c => .storage <$> HandleStateTracker.declareStorage n k c
  | declareValue n k o c => .value <$> HandleStateTracker.declareValue n k o c
  | use n => .value <$> HandleStateTracker.use n
  | close n => .value <$> HandleStateTracker.close n
  | move n => .value <$> HandleStateTracker.move n
  | duplicate n m => .value <$> HandleStateTracker.duplicate n m
  | applyOperation op args r => .result <$> HandleStateTracker.applyOperation op args r
  | loadStorage n m => .value <$> HandleStateTracker.loadStorage n m
  | storeStorage n m => .value <$> HandleStateTracker.storeStorage n m
  | prepareReturn n => .transfer <$> HandleStateTracker.prepareReturn n
  | cleanupPlan k ns => .plan <$> HandleStateTracker.cleanupPlan k ns
  | applyCleanupPlan p => (fun _ => .unit) <$> HandleStateTracker.applyCleanupPlan p

omit [DecidableEq ν] in
theorem finalState_map {α β : Type} (f : α → β) (x : TrackerM ν α) (t : HandleStateTracker ν) :
    finalState ((f <$> x) t) = finalState (x t) := by
  change finalState (EStateM.map f x t) = _
  rw [EStateM.map]
  cases x t <;> rfl

/-- The effect of a call is the state it ends in. -/
theorem finalState_perform (c : TrackerCall ν) (t : HandleStateTracker ν) :
    finalState (c.perform t) = c.effect t := by
  cases c <;> exact finalState_map _ _ t

/-- The call leaves the maps of the tracker as they were if it raises. -/
def Atomic (t : HandleStateTracker ν) (c : TrackerCall ν) : Prop :=
  ∀ e t', c.perform t = .error e t' →
    t'.storage.Similar t.storage ∧ t'.values.Similar t.values

/-- The calls that check all they check before they close anything: not those that close a handle
    as an operation with the name of a result, and not the plans with a handle that cannot be
    closed after one that can. -/
def ChecksFirst (t : HandleStateTracker ν) : TrackerCall ν → Prop
  | applyOperation .close [n] (some _) => ¬ t.IsLiveOwned n
  | applyCleanupPlan ⟨_, n :: names⟩ =>
    t.IsLiveOwned n → n ∉ names ∧ names.Nodup ∧ ∀ m ∈ names, t.IsLiveOwned m
  | _ => True

theorem atomic_of_failsClean {t : HandleStateTracker ν} {c : TrackerCall ν}
    (h : FailsClean c.perform) : Atomic t c := by
  intro e t' he
  rw [h t e t' he]
  exact ⟨fun _ => rfl, fun _ => rfl⟩

omit [DecidableEq ν] in
theorem map_eq_error {α β : Type} {f : α → β} {x : TrackerM ν α} {t t' : HandleStateTracker ν}
    {e : HandleModelError ν} : (f <$> x) t = .error e t' ↔ x t = .error e t' := by
  change EStateM.map f x t = .error e t' ↔ _
  rw [EStateM.map]
  cases x t <;> simp

/-- Closing a handle as an operation. -/
theorem applyOperation_close (n : ν) (result : Option ν) :
    HandleStateTracker.applyOperation .close [n] result =
      HandleStateTracker.close n >>= fun _ => declareResult (operationContract .close) result :=
  rfl

/-- Closing a handle as an operation with the name of a result is atomic only if it cannot be
    closed. -/
theorem atomic_close_iff {t : HandleStateTracker ν} (n r : ν) :
    Atomic t (applyOperation .close [n] (some r)) ↔ ¬ t.IsLiveOwned n := by
  constructor
  · rintro h ⟨v, hv, ho⟩
    have hc := consumeOwned_of_liveOwned hv ho .closed "close"
    have hp : (applyOperation .close [n] (some r)).perform t =
        .error (.noResult .close) (t.consumeValue n { v with state := .closed }) := by
      rw [perform, map_eq_error, applyOperation_close]
      simp only [bind, EStateM.bind, HandleStateTracker.close, hc]
      rfl
    exact not_similar_of_later hv ho.2 (get?_consumeValue_self t n _) (.refl _) (h _ _ hp).2
  · intro hn e t' h
    obtain ⟨e', he⟩ := consumeOwned_of_not_liveOwned hn .closed "close"
    rw [perform, map_eq_error, applyOperation_close] at h
    simp only [bind, EStateM.bind, HandleStateTracker.close, he] at h
    cases h
    exact ⟨fun _ => rfl, fun _ => rfl⟩

/-- Applying a plan is atomic unless it closes a handle and then meets one it cannot close. -/
theorem atomic_applyCleanupPlan_iff {t : HandleStateTracker ν} (k : HandleExitKind) (n : ν)
    (names : List ν) :
    Atomic t (applyCleanupPlan ⟨k, n :: names⟩) ↔
      (t.IsLiveOwned n → n ∉ names ∧ names.Nodup ∧ ∀ m ∈ names, t.IsLiveOwned m) := by
  constructor
  · intro h hn
    rcases hr : closeAll (n :: names) t with ⟨u, t'⟩ | ⟨e, t'⟩
    · obtain ⟨hnodup, hall⟩ := closeAll_eq_ok hr
      rw [List.nodup_cons] at hnodup
      exact ⟨hnodup.1, hnodup.2, fun m hm => hall m (List.mem_cons_of_mem n hm)⟩
    · have hp : (applyCleanupPlan ⟨k, n :: names⟩).perform t = .error e t' :=
        map_eq_error.2 hr
      exact absurd (h _ _ hp).2 (closeAll_cons_error hn hr)
  · intro h e t' hp
    have hr : closeAll (n :: names) t = .error e t' := map_eq_error.1 hp
    by_cases hn : t.IsLiveOwned n
    · obtain ⟨hnot, hnodup, hall⟩ := h hn
      obtain ⟨t'', ht'', _⟩ := closeAll_run (List.nodup_cons.2 ⟨hnot, hnodup⟩) (t := t)
        fun m hm => (List.mem_cons.1 hm).elim (fun hmn => hmn ▸ hn) (hall m)
      rw [hr] at ht''
      cases ht''
    · rw [closeAll_cons_of_not_liveOwned hn hr]
      exact ⟨fun _ => rfl, fun _ => rfl⟩

/-- An operation other than closing one handle with the name of a result checks first. -/
theorem failsClean_perform_close {args : List ν} {r : Option ν}
    (h : ∀ n m, args = [n] → r ≠ some m) :
    FailsClean (applyOperation .close args r).perform := by
  refine FailsClean.map ?_ _
  match args, r with
  | [n], none => exact (failsClean_consumeOwned n .closed "close").map fun _ => none
  | [n], some m => exact absurd rfl (h n m rfl)
  | [], r => exact fun _ _ _ h => by cases h; rfl
  | n :: m :: l, r => exact fun _ _ _ h => by cases h; rfl

/-- The calls that leave the maps as they were when they raise are those that check first. -/
theorem atomic_iff (t : HandleStateTracker ν) (c : TrackerCall ν) :
    Atomic t c ↔ ChecksFirst t c := by
  cases c with
  | declareStorage n k c =>
    exact iff_of_true (atomic_of_failsClean ((failsClean_declareStorage n k c).map _)) trivial
  | declareValue n k o c =>
    exact iff_of_true (atomic_of_failsClean ((failsClean_declareValue n k o c).map _)) trivial
  | use n => exact iff_of_true (atomic_of_failsClean ((failsClean_use n).map _)) trivial
  | close n =>
    exact iff_of_true (atomic_of_failsClean ((failsClean_consumeOwned n _ _).map _)) trivial
  | move n =>
    exact iff_of_true (atomic_of_failsClean ((failsClean_consumeOwned n _ _).map _)) trivial
  | duplicate n m =>
    exact iff_of_true (atomic_of_failsClean ((failsClean_duplicate n m).map _)) trivial
  | loadStorage n m =>
    exact iff_of_true (atomic_of_failsClean ((failsClean_loadStorage n m).map _)) trivial
  | storeStorage n m =>
    exact iff_of_true (atomic_of_failsClean ((failsClean_storeStorage n m).map _)) trivial
  | prepareReturn n =>
    exact iff_of_true (atomic_of_failsClean ((failsClean_prepareReturn n).map _)) trivial
  | cleanupPlan k ns =>
    exact iff_of_true (atomic_of_failsClean ((failsClean_cleanupPlan k ns).map _)) trivial
  | applyOperation op args r =>
    by_cases hop : op = .close
    · subst hop
      match args, r with
      | [n], some m => exact atomic_close_iff n m
      | [n], none =>
        exact iff_of_true (atomic_of_failsClean (failsClean_perform_close fun _ _ _ => nofun))
          trivial
      | [], r =>
        exact iff_of_true (atomic_of_failsClean (failsClean_perform_close fun _ _ => nofun)) trivial
      | n :: m :: l, r =>
        exact iff_of_true (atomic_of_failsClean (failsClean_perform_close fun _ _ => nofun)) trivial
    · refine iff_of_true (atomic_of_failsClean ((failsClean_applyOperation hop args r).map _)) ?_
      unfold ChecksFirst
      split
      next h => exact absurd (TrackerCall.applyOperation.inj h).1 hop
      next h => cases h
      · trivial
  | applyCleanupPlan p =>
    obtain ⟨k, names⟩ := p
    cases names with
    | nil =>
      exact iff_of_true (atomic_of_failsClean fun _ _ _ h => nomatch h) trivial
    | cons n names => exact atomic_applyCleanupPlan_iff k n names

end TrackerCall

/-! ## Pools -/

namespace Pool

open HandleStateTracker

variable {ν : Type} [DecidableEq ν]

/-- The error a call to a pool raises, if it does. -/
def raised (p : Pool ν) : PoolCall ν → Option (HandleModelError ν)
  | .new => none
  | .call i c => (p[i]?).bind fun t =>
    match c.perform t with
    | .ok .. => none
    | .error e _ => some e
  | .fork _ => none
  | .merge branches => (branches.mapM (p[·]?)).bind fun ts =>
    match HandleStateTracker.merge ts with
    | .ok _ => none
    | .error e => some e

/-- The same trackers, with the same maps. -/
def SameMaps (p p' : Pool ν) : Prop :=
  List.Forall₂ (fun t t' => t'.storage.Similar t.storage ∧ t'.values.Similar t.values) p p'

theorem SameMaps.refl (p : Pool ν) : SameMaps p p :=
  List.forall₂_same.2 fun _ _ => ⟨fun _ => rfl, fun _ => rfl⟩

/-- The call leaves the maps of all trackers as they were if it raises. -/
def Atomic (p : Pool ν) (c : PoolCall ν) : Prop := ∀ e, p.raised c = some e → p.SameMaps (p.step c)

/-- The calls that check all they check before they close anything. -/
def ChecksFirst (p : Pool ν) : PoolCall ν → Prop
  | .call i c => ∀ t, p[i]? = some t → c.ChecksFirst t
  | _ => True

/-- A merge that raises makes no tracker, and changes none. -/
theorem step_merge_of_raised {p : Pool ν} {branches : List ℕ} {e : HandleModelError ν}
    (h : p.raised (.merge branches) = some e) : p.step (.merge branches) = p := by
  obtain ⟨ts, hts, he⟩ := Option.bind_eq_some_iff.1 h
  have hnone : p.added (.merge branches) = none := by
    rw [added, hts]
    cases hm : HandleStateTracker.merge ts with
    | ok t =>
      rw [hm] at he
      cases he
    | error e' => simp [hm, Except.toOption]
  rw [step, hnone]
  exact List.append_nil p

/-- A call to a tracker changes the maps of that tracker only. -/
theorem sameMaps_modify_iff {p : Pool ν} {i : ℕ} {t : HandleStateTracker ν} (h : p[i]? = some t)
    (f : HandleStateTracker ν → HandleStateTracker ν) :
    p.SameMaps (p.modify i f) ↔
      (f t).storage.Similar t.storage ∧ (f t).values.Similar t.values := by
  have hi : i < p.length := (List.getElem?_eq_some_iff.1 h).1
  have ht : p[i] = t := (List.getElem?_eq_some_iff.1 h).2
  rw [SameMaps, List.forall₂_iff_get]
  constructor
  · rintro ⟨_, hall⟩
    have hget := hall i hi (by simpa using hi)
    simpa [List.getElem_modify, ht] using hget
  · intro hf
    refine ⟨by simp, fun j hj hj' => ?_⟩
    simp only [List.get_eq_getElem, List.getElem_modify]
    split
    next hij =>
      subst hij
      rw [ht]
      exact hf
    next => exact ⟨fun _ => rfl, fun _ => rfl⟩

theorem step_call (p : Pool ν) (i : ℕ) (c : TrackerCall ν) :
    p.step (.call i c) = p.modify i (c.effect ·) :=
  List.append_nil _

/-- The calls to a pool that leave all maps as they were when they raise are those that check
    first. -/
theorem atomic_iff (p : Pool ν) (c : PoolCall ν) : p.Atomic c ↔ p.ChecksFirst c := by
  cases c with
  | new => exact iff_of_true (fun _ h => nomatch h) trivial
  | fork i => exact iff_of_true (fun _ h => nomatch h) trivial
  | merge branches =>
    refine iff_of_true (fun e h => ?_) trivial
    rw [step_merge_of_raised h]
    exact .refl p
  | call i c =>
    constructor
    · intro h t ht
      rw [← TrackerCall.atomic_iff]
      intro e t' he
      have hr : p.raised (.call i c) = some e := by rw [raised, ht, Option.bind_some, he]
      have hf : c.effect t = t' := by rw [← c.finalState_perform, he, finalState_error]
      have hs := h e hr
      rw [step_call, sameMaps_modify_iff ht, hf] at hs
      exact hs
    · intro h e hr
      obtain ⟨t, ht, he⟩ := Option.bind_eq_some_iff.1 hr
      have ha : c.Atomic t := (TrackerCall.atomic_iff t c).2 (h t ht)
      rw [step_call, sameMaps_modify_iff ht, ← c.finalState_perform]
      cases hp : c.perform t with
      | ok r t' =>
        rw [hp] at he
        cases he
      | error e' t' => exact ha e' t' hp

end Pool

/-- In every run, the calls that leave the maps of all trackers as they were when they raise, be
    they calls of a tracker or merges, are those that check first: a handle is not closed as an
    operation with the name of a result, and a plan does not close handles before one that cannot
    be closed. -/
theorem handleStateTracker_atomic_iff {ν : Type} [DecidableEq ν] (calls : List (PoolCall ν))
    (c : PoolCall ν) : (Pool.run [] calls).Atomic c ↔ (Pool.run [] calls).ChecksFirst c :=
  Pool.atomic_iff _ c

/-- A live owned handle is closed before the name given for a result is rejected; and a plan made
    before its second handle was moved closes the first and then fails. -/
theorem handleStateTracker_not_atomic :
    (¬ (Pool.run [] [.new, .call 0 (.declareValue "value" .local_ .owned none)]).Atomic
      (.call 0 (.applyOperation .close ["value"] (some "result")))) ∧
    ¬ (Pool.run [] [.new, .call 0 (.declareValue "first" .local_ .owned none),
        .call 0 (.declareValue "second" .local_ .owned none), .call 0 (.move "first")]).Atomic
      (.call 0 (.applyCleanupPlan ⟨.return, ["second", "first"]⟩)) := by
  constructor
  · rw [Pool.atomic_iff]
    intro h
    have hlive := h _ rfl
    exact hlive (by decide)
  · rw [Pool.atomic_iff]
    intro h
    have hlive := h _ rfl
    obtain ⟨v, hv, ho⟩ := (hlive (by decide)).2.2 "first" List.mem_cons_self
    cases hv
    cases ho.2

end AHPy
