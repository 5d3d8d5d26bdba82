import AHPy.HandleModel.Branches

/-!
# Tracker objects

A tracker is an object that refers to two dictionaries, which its methods
change in place; `fork` makes a new object with copies of them, and `merge`
forks its first branch. The objects and the dictionaries there are make a heap
(`TrackerHeap`). As every object has dictionaries of its own
(`TrackerHeap.Separated`), the calls do to the trackers of a heap what they do
to a pool: `TrackerHeap.views_step`.

* `TrackerHeap.tracker_run`: the calls on other trackers leave a tracker alone;
* `handleStateTracker_merge`: which branches merge, and into what.
-/

namespace AHPy

/-- A tracker object: the addresses of its dictionaries, and its record. -/
structure TrackerObject (ν : Type) where
  storage : ℕ
  values : ℕ
  log : List (HandleEvent ν)

/-- The dictionaries and the trackers there are. -/
structure TrackerHeap (ν : Type) where
  storages : List (OrderedDict ν HandleStorage)
  values : List (OrderedDict ν HandleValue)
  trackers : List (TrackerObject ν)

namespace TrackerHeap

open HandleStateTracker (checkBranch)

variable {ν : Type}

/-- The heap without trackers. -/
def empty : TrackerHeap ν := ⟨[], [], []⟩

/-- What a tracker object stands for. -/
def view (h : TrackerHeap ν) (o : TrackerObject ν) : HandleStateTracker ν :=
  ⟨h.storages.getD o.storage .empty, h.values.getD o.values .empty, o.log⟩

/-- The tracker with a number. -/
def tracker? (h : TrackerHeap ν) (i : ℕ) : Option (HandleStateTracker ν) :=
  (h.trackers[i]?).map h.view

/-- What the trackers stand for. -/
def views (h : TrackerHeap ν) : Pool ν := h.trackers.map h.view

/-- A new tracker, with dictionaries of its own. -/
def alloc (h : TrackerHeap ν) (t : HandleStateTracker ν) : TrackerHeap ν where
  storages := h.storages ++ [t.storage]
  values := h.values ++ [t.values]
  trackers := h.trackers ++ [⟨h.storages.length, h.values.length, t.log⟩]

/-- Change the dictionaries of the tracker `i`, which is `o`, in place. -/
def write (h : TrackerHeap ν) (i : ℕ) (o : TrackerObject ν) (t : HandleStateTracker ν) :
    TrackerHeap ν where
  storages := h.storages.set o.storage t.storage
  values := h.values.set o.values t.values
  trackers := h.trackers.set i { o with log := t.log }

section Calls

variable [DecidableEq ν]

/-- `o.fork()`: the new tracker has copies of the dictionaries. -/
def fork (h : TrackerHeap ν) (o : TrackerObject ν) : TrackerHeap ν := h.alloc (h.view o).fork

/-- `merge(first, *rest)`. -/
def merge (h : TrackerHeap ν) (first : TrackerObject ν) (rest : List (TrackerObject ν)) :
    TrackerHeap ν :=
  match rest.forM fun branch => checkBranch (h.view first) (h.view branch) with
  | .ok _ => h.fork first
  | .error _ => h

/-- The heap after a call. -/
def step (h : TrackerHeap ν) : PoolCall ν → TrackerHeap ν
  | .new => h.alloc .empty
  | .call i c =>
    match h.trackers[i]? with
    | some o => h.write i o (c.effect (h.view o))
    | none => h
  | .fork i =>
    match h.trackers[i]? with
    | some o => h.fork o
    | none => h
  | .merge branches =>
    match branches.mapM (h.trackers[·]?) with
    | some (first :: rest) => h.merge first rest
    | _ => h

/-- The heap after calls. -/
def run (h : TrackerHeap ν) (calls : List (PoolCall ν)) : TrackerHeap ν := calls.foldl step h

end Calls

/-! ## Separation -/

theorem tracker?_eq (h : TrackerHeap ν) (i : ℕ) : h.tracker? i = h.views[i]? := by
  rw [tracker?, views, List.getElem?_map]

@[simp] theorem length_views (h : TrackerHeap ν) : h.views.length = h.trackers.length :=
  List.length_map _

/-- No two trackers share a dictionary. -/
structure Separated (h : TrackerHeap ν) : Prop where
  storage_lt : ∀ o ∈ h.trackers, o.storage < h.storages.length
  values_lt : ∀ o ∈ h.trackers, o.values < h.values.length
  nodup_storage : (h.trackers.map (·.storage)).Nodup
  nodup_values : (h.trackers.map (·.values)).Nodup

theorem separated_empty : (empty : TrackerHeap ν).Separated where
  storage_lt _ h := absurd h List.not_mem_nil
  values_lt _ h := absurd h List.not_mem_nil
  nodup_storage := List.nodup_nil
  nodup_values := List.nodup_nil

/-- A new address is none of those in use. -/
theorem nodup_map_append {α : Type} {l : List α} {f : α → ℕ} {n : ℕ} {a : α}
    (hl : (l.map f).Nodup) (hlt : ∀ b ∈ l, f b < n) (ha : f a = n) :
    ((l ++ [a]).map f).Nodup := by
  rw [List.map_append, List.map_singleton, ha]
  refine List.nodup_append'.2 ⟨hl, List.nodup_singleton n, ?_⟩
  rw [List.disjoint_singleton]
  rintro hn
  obtain ⟨b, hb, hbn⟩ := List.mem_map.1 hn
  exact absurd (hlt b hb) (by rw [hbn]; exact lt_irrefl n)

theorem Separated.alloc {h : TrackerHeap ν} (hs : h.Separated) (t : HandleStateTracker ν) :
    (h.alloc t).Separated where
  storage_lt o ho := by
    simp only [TrackerHeap.alloc, List.mem_append, List.mem_singleton, List.length_append,
      List.length_singleton] at ho ⊢
    rcases ho with ho | rfl
    · exact Nat.lt_succ_of_lt (hs.storage_lt o ho)
    · exact Nat.lt_succ_self _
  values_lt o ho := by
    simp only [TrackerHeap.alloc, List.mem_append, List.mem_singleton, List.length_append,
      List.length_singleton] at ho ⊢
    rcases ho with ho | rfl
    · exact Nat.lt_succ_of_lt (hs.values_lt o ho)
    · exact Nat.lt_succ_self _
  nodup_storage := nodup_map_append hs.nodup_storage hs.storage_lt rfl
  nodup_values := nodup_map_append hs.nodup_values hs.values_lt rfl

/-- Writing keeps the addresses. -/
theorem map_set_trackers {h : TrackerHeap ν} {i : ℕ} {o : TrackerObject ν}
    (hi : h.trackers[i]? = some o) {f : TrackerObject ν → ℕ} {o' : TrackerObject ν}
    (hf : f o' = f o) : (h.trackers.set i o').map f = h.trackers.map f := by
  rw [List.map_set, hf]
  refine List.ext_getElem? fun j => ?_
  rw [List.getElem?_set]
  split
  next hij =>
    subst hij
    rw [List.getElem?_map, hi]
    split <;> simp_all
  next => rfl

theorem Separated.write {h : TrackerHeap ν} (hs : h.Separated) {i : ℕ} {o : TrackerObject ν}
    (hi : h.trackers[i]? = some o) (t : HandleStateTracker ν) : (h.write i o t).Separated where
  storage_lt o' ho' := by
    simp only [TrackerHeap.write, List.length_set] at ho' ⊢
    rcases List.mem_or_eq_of_mem_set ho' with ho' | rfl
    · exact hs.storage_lt o' ho'
    · exact hs.storage_lt o (List.mem_of_getElem? hi)
  values_lt o' ho' := by
    simp only [TrackerHeap.write, List.length_set] at ho' ⊢
    rcases List.mem_or_eq_of_mem_set ho' with ho' | rfl
    · exact hs.values_lt o' ho'
    · exact hs.values_lt o (List.mem_of_getElem? hi)
  nodup_storage := by
    have hmap : (h.write i o t).trackers.map (·.storage) = h.trackers.map (·.storage) :=
      map_set_trackers hi rfl
    exact hmap ▸ hs.nodup_storage
  nodup_values := by
    have hmap : (h.write i o t).trackers.map (·.values) = h.trackers.map (·.values) :=
      map_set_trackers hi rfl
    exact hmap ▸ hs.nodup_values

/-! ## The calls -/

theorem view_alloc {h : TrackerHeap ν} (hs : h.Separated) (t : HandleStateTracker ν)
    {o : TrackerObject ν} (ho : o ∈ h.trackers) : (h.alloc t).view o = h.view o := by
  simp only [view, alloc, List.getD_append _ _ _ _ (hs.storage_lt o ho),
    List.getD_append _ _ _ _ (hs.values_lt o ho)]

theorem views_alloc {h : TrackerHeap ν} (hs : h.Separated) (t : HandleStateTracker ν) :
    (h.alloc t).views = h.views ++ [t] := by
  have hnew : (h.alloc t).view ⟨h.storages.length, h.values.length, t.log⟩ = t := by
    simp only [view, alloc, List.getD_append_right _ _ _ _ le_rfl, Nat.sub_self,
      List.getD_cons_zero]
  have hold : h.trackers.map (h.alloc t).view = h.views :=
    List.map_congr_left fun o ho => view_alloc hs t ho
  have htrackers : (h.alloc t).trackers =
      h.trackers ++ [⟨h.storages.length, h.values.length, t.log⟩] := rfl
  rw [views, htrackers, List.map_append, hold, List.map_singleton, hnew]

/-- Two trackers with the same dictionary are the same. -/
theorem eq_of_address_eq {h : TrackerHeap ν} {i j : ℕ} {o o' : TrackerObject ν}
    {f : TrackerObject ν → ℕ} (hn : (h.trackers.map f).Nodup) (hi : h.trackers[i]? = some o)
    (hj : h.trackers[j]? = some o') (hf : f o = f o') : i = j := by
  have hi' : (h.trackers.map f)[i]? = some (f o) := by rw [List.getElem?_map, hi]; rfl
  have hj' : (h.trackers.map f)[j]? = some (f o') := by rw [List.getElem?_map, hj]; rfl
  have hlt := (List.getElem?_eq_some_iff.1 hi').1
  exact (List.getElem?_inj hlt hn).1 (by rw [hi', hj', hf])

/-- Writing to a tracker changes what it stands for, and nothing else. -/
theorem views_write {h : TrackerHeap ν} (hs : h.Separated) {i : ℕ} {o : TrackerObject ν}
    (hi : h.trackers[i]? = some o) (t : HandleStateTracker ν) :
    (h.write i o t).views = h.views.set i t := by
  have ho : o ∈ h.trackers := List.mem_of_getElem? hi
  refine List.ext_getElem? fun j => ?_
  rw [views, List.getElem?_map, List.getElem?_set, length_views]
  by_cases hij : i = j
  · subst hij
    have hlt : i < h.trackers.length := (List.getElem?_eq_some_iff.1 hi).1
    have hget : (h.write i o t).trackers[i]? = some { o with log := t.log } := by
      simp [write, hlt]
    rw [hget, if_pos rfl, if_pos hlt]
    simp [view, write, hs.storage_lt o ho, hs.values_lt o ho]
  · have hget : (h.write i o t).trackers[j]? = h.trackers[j]? := by
      simp [write, hij]
    rw [hget, if_neg hij, views, List.getElem?_map]
    cases hj : h.trackers[j]? with
    | none => rfl
    | some o' =>
      -- The dictionaries of the tracker `j` are not those written to.
      have hst : o.storage ≠ o'.storage := fun he =>
        hij (eq_of_address_eq hs.nodup_storage hi hj he)
      have hvl : o.values ≠ o'.values := fun he =>
        hij (eq_of_address_eq hs.nodup_values hi hj he)
      simp [view, write, List.getD_eq_getElem?_getD, hst, hvl]

/-- What the numbers of a merge refer to. -/
theorem mapM_views (h : TrackerHeap ν) (branches : List ℕ) :
    branches.mapM (h.views[·]?) = (branches.mapM (h.trackers[·]?)).map (·.map h.view) := by
  induction branches with
  | nil => rfl
  | cons i l ih =>
    rw [List.mapM_cons, List.mapM_cons, ih, views, List.getElem?_map]
    cases h.trackers[i]? with
    | none => rfl
    | some o =>
      cases l.mapM (h.trackers[·]?) with
      | none => rfl
      | some os => rfl

variable [DecidableEq ν]

/-- Merging objects is merging what they stand for. -/
theorem views_merge {h : TrackerHeap ν} (hs : h.Separated) (first : TrackerObject ν)
    (rest : List (TrackerObject ν)) :
    (h.merge first rest).views =
      h.views ++ (HandleStateTracker.merge ((first :: rest).map h.view)).toOption.toList := by
  have hm : HandleStateTracker.merge ((first :: rest).map h.view) =
      ((rest.map h.view).forM (checkBranch (h.view first))).bind fun _ =>
        .ok (h.view first).fork := rfl
  have hforM : (rest.map h.view).forM (checkBranch (h.view first)) =
      rest.forM fun branch => checkBranch (h.view first) (h.view branch) := by
    rw [List.forM_eq_forM, List.forM_map]
    rfl
  rw [hm, hforM, merge]
  cases hr : rest.forM fun branch => checkBranch (h.view first) (h.view branch) with
  | ok u => exact views_alloc hs _
  | error e => exact (List.append_nil _).symm

theorem Separated.merge {h : TrackerHeap ν} (hs : h.Separated) (first : TrackerObject ν)
    (rest : List (TrackerObject ν)) : (h.merge first rest).Separated := by
  unfold TrackerHeap.merge
  split
  · exact hs.alloc _
  · exact hs

theorem Separated.step {h : TrackerHeap ν} (hs : h.Separated) (c : PoolCall ν) :
    (h.step c).Separated := by
  cases c with
  | new => exact hs.alloc _
  | call i c =>
    rw [TrackerHeap.step]
    split
    next o hi => exact hs.write hi _
    next => exact hs
  | fork i =>
    rw [TrackerHeap.step]
    split
    next o hi => exact hs.alloc _
    next => exact hs
  | merge branches =>
    rw [TrackerHeap.step]
    split
    next first rest _ => exact hs.merge first rest
    next => exact hs

/-- The calls do to the trackers of a heap what they do to a pool. -/
theorem views_step {h : TrackerHeap ν} (hs : h.Separated) (c : PoolCall ν) :
    (h.step c).views = h.views.step c := by
  cases c with
  | new => exact views_alloc hs _
  | call i c =>
    rw [step, Pool.step_call]
    cases hi : h.trackers[i]? with
    | none =>
      have hle : h.views.length ≤ i := length_views h ▸ List.getElem?_eq_none_iff.1 hi
      exact (List.modify_eq_self hle).symm
    | some o =>
      have hv : h.views[i]? = some (h.view o) := by rw [views, List.getElem?_map, hi]; rfl
      dsimp only
      rw [views_write hs hi, List.modify_eq_set_getElem?, hv]
      rfl
  | fork i =>
    have hv : h.views[i]? = (h.trackers[i]?).map h.view := by rw [views, List.getElem?_map]
    have hp : h.views.step (.fork i) = h.views ++ ((h.views[i]?).map .fork).toList := rfl
    rw [step, hp, hv]
    cases hi : h.trackers[i]? with
    | none => exact (List.append_nil _).symm
    | some o => exact views_alloc hs _
  | merge branches =>
    have hp : h.views.step (.merge branches) = h.views ++
        ((branches.mapM (h.views[·]?)).bind fun ts =>
          (HandleStateTracker.merge ts).toOption).toList := rfl
    rw [step, hp, mapM_views]
    cases hb : branches.mapM (h.trackers[·]?) with
    | none => exact (List.append_nil _).symm
    | some os =>
      cases os with
      | nil => exact (List.append_nil _).symm
      | cons first rest => exact views_merge hs first rest

theorem views_run {h : TrackerHeap ν} (hs : h.Separated) (calls : List (PoolCall ν)) :
    (h.run calls).views = h.views.run calls ∧ (h.run calls).Separated := by
  induction calls generalizing h with
  | nil => exact ⟨rfl, hs⟩
  | cons c calls ih =>
    obtain ⟨hv, hsep⟩ := ih (hs.step c)
    rw [views_step hs] at hv
    exact ⟨hv, hsep⟩

end TrackerHeap

namespace Pool

variable {ν : Type} [DecidableEq ν]

/-- A call on another tracker leaves a tracker alone. -/
theorem getElem?_step {p : Pool ν} {c : PoolCall ν} {i : ℕ} (hi : i < p.length)
    (hc : ∀ d, c ≠ .call i d) : (p.step c)[i]? = p[i]? ∧ i < (p.step c).length := by
  have hlen := length_updated p c
  have hupd : (p.updated c)[i]? = p[i]? := by
    cases c with
    | call j d =>
      have hij : j ≠ i := fun h => hc d (h ▸ rfl)
      simp only [updated, List.getElem?_modify, if_neg hij, Option.map_eq_map, Option.map_id']
    | new => rfl
    | fork j => rfl
    | merge branches => rfl
  refine ⟨?_, ?_⟩
  · rw [step, List.getElem?_append_left (hlen ▸ hi), hupd]
  · rw [step, List.length_append, hlen]
    exact Nat.lt_add_right _ hi

/-- Calls on other trackers leave a tracker alone. -/
theorem getElem?_run {p : Pool ν} {calls : List (PoolCall ν)} {i : ℕ} (hi : i < p.length)
    (hc : ∀ d, PoolCall.call i d ∉ calls) : (p.run calls)[i]? = p[i]? := by
  induction calls generalizing p with
  | nil => rfl
  | cons c calls ih =>
    have hne : ∀ d, c ≠ .call i d := fun d h => hc d (h ▸ List.mem_cons_self)
    obtain ⟨hget, hlt⟩ := getElem?_step hi hne
    rw [← hget]
    exact ih hlt fun d hd => hc d (List.mem_cons_of_mem c hd)

end Pool

namespace TrackerHeap

variable {ν : Type} [DecidableEq ν]

/-- Calls on other trackers leave a tracker alone. -/
theorem tracker_run {h : TrackerHeap ν} (hs : h.Separated) {calls : List (PoolCall ν)} {i : ℕ}
    (hi : i < h.trackers.length) (hc : ∀ d, PoolCall.call i d ∉ calls) :
    (h.run calls).tracker? i = h.tracker? i := by
  rw [tracker?_eq, tracker?_eq, (views_run hs calls).1]
  exact Pool.getElem?_run (length_views h ▸ hi) hc

end TrackerHeap

/-! ## Merges of a run -/

/-- Looking up numbers in another order. -/
theorem exists_mapM_of_perm {α β : Type} {f : α → Option β} {l l' : List α} (h : l.Perm l')
    {bs : List β} (hbs : l.mapM f = some bs) : ∃ bs', l'.mapM f = some bs' ∧ bs'.Perm bs := by
  induction h generalizing bs with
  | nil => exact ⟨bs, hbs, .refl bs⟩
  | cons a _ ih =>
    simp only [List.mapM_cons, Option.bind_eq_bind, Option.bind_eq_some_iff, Option.pure_def,
      Option.some.injEq] at hbs ⊢
    obtain ⟨b, hb, bs₁, hbs₁, rfl⟩ := hbs
    obtain ⟨bs₂, hbs₂, hp⟩ := ih hbs₁
    exact ⟨b :: bs₂, ⟨b, hb, bs₂, hbs₂, rfl⟩, hp.cons b⟩
  | swap a a' l =>
    simp only [List.mapM_cons, Option.bind_eq_bind, Option.bind_eq_some_iff, Option.pure_def,
      Option.some.injEq] at hbs ⊢
    obtain ⟨b', hb', _, ⟨b, hb, bs₁, hbs₁, rfl⟩, rfl⟩ := hbs
    exact ⟨b :: b' :: bs₁, ⟨b, hb, _, ⟨b', hb', bs₁, hbs₁, rfl⟩, rfl⟩, .swap b' b bs₁⟩
  | trans _ _ ih ih' =>
    obtain ⟨bs₁, hbs₁, hp₁⟩ := ih hbs
    obtain ⟨bs₂, hbs₂, hp₂⟩ := ih' hbs₁
    exact ⟨bs₂, hbs₂, hp₂.trans hp₁⟩

section Merges

variable {ν : Type} [LinearOrder ν]

open HandleStateTracker TrackerCall

/-- Merging `branches`, which are `ts`, makes the tracker `m`. -/
structure MergesInto (h : TrackerHeap ν) (branches : List ℕ) (ts : List (HandleStateTracker ν))
    (m : HandleStateTracker ν) : Prop where
  /-- The tracker is a copy of the first branch, the order of its names included. -/
  head : ts.head? = some m
  consistent : m.Consistent
  similar : ∀ t ∈ ts, HandleStateTracker.Similar m t
  observe : ∀ t ∈ ts, ∀ cs, List.Forall₂ Agree (observe m cs) (observe t cs)
  liveOwnedHandles : ∀ t ∈ ts, m.liveOwnedHandles = t.liveOwnedHandles
  /-- What was there before the merge changes only by calls on it. -/
  isolated : ∀ calls i, i < h.trackers.length → (∀ d, PoolCall.call i d ∉ calls) →
    ((h.step (.merge branches)).run calls).tracker? i = h.tracker? i

/-- Two trackers clean up alike: their plans close the same handles, and leave similar trackers. -/
def CleanUpAlike (m m' : HandleStateTracker ν) : Prop :=
  ∀ k names p p', cleanupPlan k names m = .ok p m → cleanupPlan k names m' = .ok p' m' →
    p.closeNames.Perm p'.closeNames ∧ ∃ t t', applyCleanupPlan p m = .ok () t ∧
      applyCleanupPlan p' m' = .ok () t' ∧ HandleStateTracker.Similar t t'

/-- The tracker that a merge makes, if it succeeds. -/
theorem TrackerHeap.tracker?_merge {h : TrackerHeap ν} (hs : h.Separated) {branches : List ℕ}
    {ts : List (HandleStateTracker ν)} (hts : branches.mapM h.tracker? = some ts)
    (m : HandleStateTracker ν) :
    (h.step (.merge branches)).tracker? h.trackers.length = some m ↔
      HandleStateTracker.merge ts = .ok m := by
  have hmapM : branches.mapM (h.views[·]?) = some ts := by
    rw [← hts]
    exact congrArg (branches.mapM ·) (funext fun i => (h.tracker?_eq i).symm)
  have hstep : h.views.step (.merge branches) =
      h.views ++ (HandleStateTracker.merge ts).toOption.toList := by
    rw [Pool.step, Pool.added, hmapM]
    rfl
  rw [TrackerHeap.tracker?_eq, TrackerHeap.views_step hs, hstep, ← h.length_views,
    List.getElem?_append_right le_rfl, Nat.sub_self]
  cases HandleStateTracker.merge ts with
  | ok t => simp [Except.toOption]
  | error e => simp [Except.toOption]

theorem TrackerHeap.mergesInto {h : TrackerHeap ν} (hs : h.Separated)
    (hc : ∀ t ∈ h.views, t.Consistent) {branches : List ℕ} {ts : List (HandleStateTracker ν)}
    (hts : branches.mapM h.tracker? = some ts) {m : HandleStateTracker ν}
    (hm : HandleStateTracker.merge ts = .ok m) : MergesInto h branches ts m := by
  have hmem : m ∈ ts := (merge_eq_ok hm).1
  have hsim : ∀ t ∈ ts, HandleStateTracker.Similar m t := fun t ht =>
    (merge_isOk_iff.1 ⟨m, hm⟩).2 m hmem t ht
  have hviews : ∀ t ∈ ts, t ∈ h.views := by
    have hmapM : branches.mapM (h.views[·]?) = some ts := by
      rw [← hts]
      exact congrArg (branches.mapM ·) (funext fun i => (h.tracker?_eq i).symm)
    exact (Pool.mem_of_mapM hmapM).1
  refine ⟨?_, hc m (hviews m hmem), hsim, fun t ht => observe_similar (hsim t ht),
    fun t ht => (hsim t ht).liveOwnedHandles_eq, fun calls i hi hcalls => ?_⟩
  · cases ts with
    | nil => cases hm
    | cons first rest =>
      rw [(merge_cons_eq_ok_iff.1 hm).1]
      rfl
  · have hne : ∀ d : TrackerCall ν, PoolCall.merge branches ≠ .call i d := fun _ he => nomatch he
    obtain ⟨hget, hlt⟩ := Pool.getElem?_step (h.length_views.symm ▸ hi) hne
    rw [← TrackerHeap.views_step hs, TrackerHeap.length_views] at hlt
    rw [TrackerHeap.tracker_run (hs.step _) hlt hcalls, TrackerHeap.tracker?_eq,
      TrackerHeap.tracker?_eq, TrackerHeap.views_step hs, hget]

/-- Merges in every run of calls on tracker objects. Branches merge exactly if there are some and
    they are similar to each other. Whatever their order, they merge into similar trackers, which
    clean up alike and cannot be told from the branches, and are copies of the first branch: no
    call on the one changes another tracker. -/
theorem handleStateTracker_merge (calls : List (PoolCall ν)) (branches : List ℕ)
    (ts : List (HandleStateTracker ν))
    (hts : branches.mapM (TrackerHeap.empty.run calls).tracker? = some ts) :
    ((∃ m, ((TrackerHeap.empty.run calls).step (.merge branches)).tracker?
        (TrackerHeap.empty.run calls).trackers.length = some m) ↔
      ts ≠ [] ∧ ∀ t ∈ ts, ∀ t' ∈ ts, HandleStateTracker.Similar t t') ∧
    ∀ m, ((TrackerHeap.empty.run calls).step (.merge branches)).tracker?
        (TrackerHeap.empty.run calls).trackers.length = some m →
      MergesInto (TrackerHeap.empty.run calls) branches ts m ∧
      ∀ branches', branches'.Perm branches →
        ∃ ts' m', branches'.mapM (TrackerHeap.empty.run calls).tracker? = some ts' ∧
          ((TrackerHeap.empty.run calls).step (.merge branches')).tracker?
            (TrackerHeap.empty.run calls).trackers.length = some m' ∧
          MergesInto (TrackerHeap.empty.run calls) branches' ts' m' ∧
          HandleStateTracker.Similar m m' ∧ CleanUpAlike m m' := by
  obtain ⟨hviews, hs⟩ := TrackerHeap.views_run (TrackerHeap.separated_empty (ν := ν)) calls
  have hc : ∀ t ∈ (TrackerHeap.empty.run calls).views, t.Consistent := by
    rw [hviews]
    exact Pool.consistent_run (fun _ ht => absurd ht List.not_mem_nil) calls
  simp only [TrackerHeap.tracker?_merge hs hts]
  refine ⟨merge_isOk_iff, fun m hm => ⟨TrackerHeap.mergesInto hs hc hts hm, ?_⟩⟩
  intro branches' hperm
  obtain ⟨ts', hts', hperm'⟩ := exists_mapM_of_perm hperm.symm hts
  obtain ⟨hne, hall⟩ := merge_isOk_iff.1 ⟨m, hm⟩
  obtain ⟨m', hm'⟩ : ∃ m', HandleStateTracker.merge ts' = .ok m' := by
    refine merge_isOk_iff.2 ⟨fun h => hne ?_, fun t ht t' ht' => ?_⟩
    · rw [h] at hperm'
      exact hperm'.symm.eq_nil
    · exact hall t (hperm'.mem_iff.1 ht) t' (hperm'.mem_iff.1 ht')
  have hinto := TrackerHeap.mergesInto hs hc hts hm
  have hinto' := TrackerHeap.mergesInto hs hc hts' hm'
  have hsim : HandleStateTracker.Similar m m' :=
    hinto.similar m' (hperm'.mem_iff.1 (merge_eq_ok hm').1)
  exact ⟨ts', m', hts', (TrackerHeap.tracker?_merge hs hts' m').2 hm', hinto', hsim,
    fun k names p p' hp hp' => hinto.consistent.cleansUp_similar hsim hinto'.consistent hp hp'⟩

end Merges

section Order

open HandleStateTracker

/-- A tracker forked twice, where the branches declare the same values in different orders. -/
def declaredInOrders : List (PoolCall String) :=
  [.new, .fork 0, .fork 0,
    .call 1 (.declareValue "a" .local_ .owned none), .call 1 (.declareValue "b" .local_ .owned none),
    .call 2 (.declareValue "b" .local_ .owned none), .call 2 (.declareValue "a" .local_ .owned none)]

theorem handleStateTracker_merge_orders :
    ∃ ts, (∃ m, ((TrackerHeap.empty.run declaredInOrders).step (.merge [1, 2])).tracker? 3 = some m) ∧
      MergesInto (TrackerHeap.empty.run declaredInOrders) [1, 2] ts (ts.headD .empty) := by
  have hts : [1, 2].mapM (TrackerHeap.empty.run declaredInOrders).tracker? = some
      ((TrackerHeap.empty.run declaredInOrders).views.drop 1) := rfl
  obtain ⟨hiff, hinto⟩ := handleStateTracker_merge declaredInOrders [1, 2] _ hts
  have hsome : ((TrackerHeap.empty.run declaredInOrders).step (.merge [1, 2])).tracker? 3 =
      some (((TrackerHeap.empty.run declaredInOrders).views.drop 1).headD .empty) := rfl
  exact ⟨_, ⟨_, hsome⟩, (hinto _ hsome).1⟩

/-- The plan of a merge depends on which branch comes first. -/
theorem handleStateTracker_merge_order :
    ∃ m m' p p',
      ((TrackerHeap.empty.run declaredInOrders).step (.merge [1, 2])).tracker? 3 = some m ∧
      ((TrackerHeap.empty.run declaredInOrders).step (.merge [2, 1])).tracker? 3 = some m' ∧
      cleanupPlan .normal [] m = .ok p m ∧ cleanupPlan .normal [] m' = .ok p' m' ∧
      p.closeNames = ["b", "a"] ∧ p'.closeNames = ["a", "b"] :=
  ⟨_, _, _, _, rfl, rfl, rfl, rfl, rfl, rfl⟩

end Order

end AHPy
