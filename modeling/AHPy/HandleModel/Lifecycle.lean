import AHPy.HandleModel.Tracker

/-!
# The life of a handle

What the methods of a tracker can do to its values: declare a new one, or
consume one that is live and owned (`Step`). So a tracker stays consistent with
its record (`Consistent`), and what it knows of a value is never withdrawn
(`Later`): neither its storage nor its ownership changes, and once it is moved
or closed it stays so.

Trackers are forked and merged. A *pool* is the trackers there are, and runs
by calls to them (`Pool.step`); a tracker descends from those it was forked or
merged from (`Pool.Descends`).

* `consistent_of_mem_run`: the trackers of a run are consistent;
* `later_of_descends`: a tracker only adds to what the ones it descends from know;
* `handleStateTracker_lifecycle`: both, and what cleaning up closes.
-/

namespace AHPy

namespace HandleStateTracker

variable {ν : Type} [DecidableEq ν]

/-! ## Steps -/

/-- What a method does to a tracker, step by step. -/
inductive Step : HandleStateTracker ν → HandleStateTracker ν → Prop where
  | addValue {t n v} (hs : n ∉ t.storage) (hv : n ∉ t.values) (hl : v.state = .live) :
    Step t (t.addValue n v)
  | setStorage {t n c} (hs : n ∉ t.storage) (hv : n ∉ t.values) : Step t (t.setStorage n c)
  | consume {t n v s} (hv : t.values.get? n = some v) (ho : LiveOwned v) (hs : s ≠ .live) :
    Step t (t.consumeValue n { v with state := s })

/-- Any number of steps. -/
abbrev Steps : HandleStateTracker ν → HandleStateTracker ν → Prop := Relation.ReflTransGen Step

/-! ## Specifications of the methods -/

theorem requireNewName_run (n : ν) (t : HandleStateTracker ν) :
    requireNewName n t =
      if n ∈ t.storage ∨ n ∈ t.values then .error (.alreadyDeclared n) t else .ok () t := by
  simp only [requireNewName, bind, EStateM.bind, get, getThe, MonadStateOf.get, EStateM.get]
  split <;> rfl

omit [DecidableEq ν] in
theorem ofExcept_run {α : Type} (x : Except (HandleModelError ν) α) (t : HandleStateTracker ν) :
    (MonadExcept.ofExcept x : TrackerM ν α) t =
      match x with | .ok a => .ok a t | .error e => .error e t := by
  cases x <;> rfl

/-- Declaring a value fails, or adds a live one under a new name. -/
theorem declareValue_run (n : ν) (k : HandleStorageKind) (o : HandleOwnership)
    (c : Option String) (t : HandleStateTracker ν) :
    (∃ e, declareValue n k o c t = .error e t) ∨
      n ∉ t.storage ∧ n ∉ t.values ∧
        declareValue n k o c t = .ok ⟨storageContract k, o, .live⟩
          (t.addValue n ⟨storageContract k, o, .live⟩) := by
  simp only [declareValue, bind, EStateM.bind, requireNewName_run]
  by_cases hn : n ∈ t.storage ∨ n ∈ t.values
  · rw [if_pos hn]
    exact .inl ⟨_, rfl⟩
  · rw [if_neg hn]
    simp only [ofExcept_run]
    cases validateStorageDeclaration k (cTypeCnameOr c (storageContract k).cTypeCname) true
        false with
    | error e => exact .inl ⟨e, rfl⟩
    | ok contract =>
      simp only
      split_ifs
      · exact .inl ⟨_, rfl⟩
      · exact .inl ⟨_, rfl⟩
      · exact .inr ⟨fun h => hn (.inl h), fun h => hn (.inr h), rfl⟩

theorem declareStorage_run (n : ν) (k : HandleStorageKind) (c : Option String)
    (t : HandleStateTracker ν) :
    (∃ e, declareStorage n k c t = .error e t) ∨
      n ∉ t.storage ∧ n ∉ t.values ∧
        ∃ contract, declareStorage n k c t = .ok contract (t.setStorage n contract) := by
  simp only [declareStorage, bind, EStateM.bind, requireNewName_run]
  by_cases hn : n ∈ t.storage ∨ n ∈ t.values
  · rw [if_pos hn]
    exact .inl ⟨_, rfl⟩
  · rw [if_neg hn]
    simp only [ofExcept_run]
    cases validateStorageDeclaration k (cTypeCnameOr c (storageContract k).cTypeCname) false
        (storageContract k).longLived with
    | error e => exact .inl ⟨e, rfl⟩
    | ok contract => exact .inr ⟨fun h => hn (.inl h), fun h => hn (.inr h), contract, rfl⟩

/-- Using a value fails, or returns a live one. -/
theorem use_run (n : ν) (t : HandleStateTracker ν) :
    (∃ e, use n t = .error e t ∧ ∀ v, t.values.get? n = some v → v.state ≠ .live) ∨
      ∃ v, t.values.get? n = some v ∧ v.state = .live ∧ use n t = .ok v t := by
  simp only [use, value, bind, EStateM.bind, get, getThe, MonadStateOf.get, EStateM.get]
  cases hv : t.values.get? n with
  | none => exact .inl ⟨_, rfl, fun v h => by cases h⟩
  | some v =>
    by_cases hl : v.state = .live
    · refine .inr ⟨v, rfl, hl, ?_⟩
      simp only [pure, EStateM.pure, ne_eq, hl, not_true, if_false]
    · refine .inl ⟨.notLive v.state n, ?_, fun v' h => Option.some.inj h ▸ hl⟩
      simp only [pure, EStateM.pure, ne_eq, hl, not_false_eq_true, if_true]
      rfl

/-- A live owned value can be consumed. -/
theorem consumeOwned_of_liveOwned {n : ν} {t : HandleStateTracker ν} {v : HandleValue}
    (hv : t.values.get? n = some v) (ho : LiveOwned v) (s : HandleState) (op : String) :
    consumeOwned n s op t = .ok { v with state := s } (t.consumeValue n { v with state := s }) := by
  simp only [consumeOwned, bind, EStateM.bind]
  rcases use_run n t with ⟨e, _, hne⟩ | ⟨v', hv', _, hu⟩
  · exact absurd ho.2 (hne v hv)
  · obtain rfl : v' = v := Option.some.inj (hv'.symm.trans hv)
    simp only [hu, ne_eq, ho.1, not_true, if_false]
    rfl

/-- Consuming a value fails, or it was live and owned. -/
theorem consumeOwned_run (n : ν) (s : HandleState) (op : String) (t : HandleStateTracker ν) :
    (∃ e, consumeOwned n s op t = .error e t) ∨
      ∃ v, t.values.get? n = some v ∧ LiveOwned v ∧
        consumeOwned n s op t = .ok { v with state := s }
          (t.consumeValue n { v with state := s }) := by
  rcases use_run n t with ⟨e, hu, _⟩ | ⟨v, hv, hl, hu⟩
  · exact .inl ⟨e, by simp only [consumeOwned, bind, EStateM.bind, hu]⟩
  · by_cases ho : v.ownership = .owned
    · exact .inr ⟨v, hv, ⟨ho, hl⟩, consumeOwned_of_liveOwned hv ⟨ho, hl⟩ s op⟩
    · refine .inl ⟨.notOwned op v.ownership n, ?_⟩
      simp only [consumeOwned, bind, EStateM.bind, hu, ne_eq, ho, not_false_eq_true, if_true]
      rfl

/-! ## The methods take steps -/

theorem keeps_declareValue (n : ν) (k : HandleStorageKind) (o : HandleOwnership)
    (c : Option String) : Keeps Steps (declareValue n k o c) := by
  intro t
  rcases declareValue_run n k o c t with ⟨e, h⟩ | ⟨hs, hv, h⟩
  · rw [h]; exact .refl
  · rw [h]; exact .single (.addValue hs hv rfl)

theorem keeps_declareStorage (n : ν) (k : HandleStorageKind) (c : Option String) :
    Keeps Steps (declareStorage n k c) := by
  intro t
  rcases declareStorage_run n k c t with ⟨e, h⟩ | ⟨hs, hv, contract, h⟩
  · rw [h]; exact .refl
  · rw [h]; exact .single (.setStorage hs hv)

/-- Using a value changes nothing. -/
theorem keeps_use (R : HandleStateTracker ν → HandleStateTracker ν → Prop) [Std.Refl R] (n : ν) :
    Keeps R (use n) := by
  intro t
  rcases use_run n t with ⟨e, h, _⟩ | ⟨v, _, _, h⟩
  · rw [h]; exact Std.Refl.refl t
  · rw [h]; exact Std.Refl.refl t

theorem keeps_consumeOwned (n : ν) (s : HandleState) (hs : s ≠ .live) (op : String) :
    Keeps Steps (consumeOwned n s op) := by
  intro t
  rcases consumeOwned_run n s op t with ⟨e, h⟩ | ⟨v, hv, ho, h⟩
  · rw [h]; exact .refl
  · rw [h]; exact .single (.consume hv ho hs)

theorem keeps_close (n : ν) : Keeps Steps (close n) := keeps_consumeOwned n .closed nofun _

theorem keeps_move (n : ν) : Keeps Steps (move n) := keeps_consumeOwned n .moved nofun _

theorem keeps_duplicate (source target : ν) : Keeps Steps (duplicate source target) :=
  (keeps_use _ source).bind fun _ => keeps_declareValue target _ _ _

theorem keeps_storageOf (n : ν) : Keeps Steps (storageOf n) := by
  intro t
  simp only [storageOf, bind, EStateM.bind, get, getThe, MonadStateOf.get, EStateM.get]
  cases t.storage.get? n <;> exact .refl

theorem keeps_loadStorage (source target : ν) : Keeps Steps (loadStorage source target) :=
  (keeps_storageOf source).bind fun _ => .ite (keeps_declareValue target _ _ _) (.throw _)

theorem keeps_storeStorage (n target : ν) : Keeps Steps (storeStorage n target) :=
  (keeps_storageOf n).bind fun _ => .ite (keeps_use _ target) (.throw _)

theorem keeps_prepareReturn (n : ν) : Keeps Steps (prepareReturn n) :=
  (keeps_use _ n).bind fun _ => .ite ((keeps_move n).bind fun _ => .pure _) (.pure _)

/-- Using values changes nothing. -/
theorem keeps_useAll (R : HandleStateTracker ν → HandleStateTracker ν → Prop) [Std.Refl R]
    [IsTrans _ R] (names : List ν) : Keeps R (useAll names) := by
  induction names with
  | nil => exact .pure _
  | cons n l ih => exact (keeps_use R n).bind fun _ => ih

theorem keeps_closeAll (names : List ν) : Keeps Steps (closeAll names) := by
  induction names with
  | nil => exact .pure _
  | cons n l ih => exact (keeps_close n).bind fun _ => ih

theorem keeps_declareResult (contract : HandleOperationContract) (result : Option ν) :
    Keeps Steps (declareResult contract result) := by
  unfold declareResult
  split
  · exact (keeps_declareValue _ _ _ _).map _
  · exact .throw _
  · exact .throw _
  · exact .pure _

theorem keeps_applyOperation (op : HandleOperation) (args : List ν) (result : Option ν) :
    Keeps Steps (applyOperation op args result) := by
  unfold applyOperation
  dsimp only
  split
  · exact (keeps_close _).bind fun _ => keeps_declareResult _ _
  · exact (Keeps.throw _).bind fun _ => keeps_declareResult _ _
  · exact (keeps_useAll _ _).bind fun _ => keeps_declareResult _ _

theorem keeps_get : Keeps Steps (get : TrackerM ν (HandleStateTracker ν)) := .get

theorem keeps_cleanupPlan (exitKind : HandleExitKind) (preserveNames : List ν) :
    Keeps Steps (cleanupPlan exitKind preserveNames) :=
  (keeps_useAll _ preserveNames).bind fun _ => keeps_get.bind fun _ => .pure _

theorem keeps_applyCleanupPlan (plan : HandleCleanupPlan ν) : Keeps Steps (applyCleanupPlan plan) :=
  keeps_closeAll _

/-! ## The record -/

section Record

variable (t : HandleStateTracker ν) (n : ν)

@[simp] theorem declaredValues_addValue (v : HandleValue) :
    (t.addValue n v).declaredValues = t.declaredValues ++ [n] := by
  simp [declaredValues, addValue, List.filterMap_append]

@[simp] theorem declaredValues_setStorage (c : HandleStorage) :
    (t.setStorage n c).declaredValues = t.declaredValues := by
  simp [declaredValues, setStorage, List.filterMap_append]

@[simp] theorem declaredValues_consumeValue (v : HandleValue) :
    (t.consumeValue n v).declaredValues = t.declaredValues := by
  simp [declaredValues, consumeValue, List.filterMap_append]

@[simp] theorem declaredStorage_addValue (v : HandleValue) :
    (t.addValue n v).declaredStorage = t.declaredStorage := by
  simp [declaredStorage, addValue, List.filterMap_append]

@[simp] theorem declaredStorage_setStorage (c : HandleStorage) :
    (t.setStorage n c).declaredStorage = t.declaredStorage ++ [n] := by
  simp [declaredStorage, setStorage, List.filterMap_append]

@[simp] theorem declaredStorage_consumeValue (v : HandleValue) :
    (t.consumeValue n v).declaredStorage = t.declaredStorage := by
  simp [declaredStorage, consumeValue, List.filterMap_append]

@[simp] theorem consumed_addValue (v : HandleValue) :
    (t.addValue n v).consumed = t.consumed := by
  simp [consumed, addValue, List.filterMap_append]

@[simp] theorem consumed_setStorage (c : HandleStorage) :
    (t.setStorage n c).consumed = t.consumed := by
  simp [consumed, setStorage, List.filterMap_append]

@[simp] theorem consumed_consumeValue (v : HandleValue) :
    (t.consumeValue n v).consumed = t.consumed ++ [n] := by
  simp [consumed, consumeValue, List.filterMap_append]

end Record

/-- A tracker agrees with its record: it knows the names declared, each declared once and as one
    thing, and the values that are no longer live are those consumed, once and while owned. -/
structure Consistent (t : HandleStateTracker ν) : Prop where
  keys_values : t.values.keys = t.declaredValues
  keys_storage : t.storage.keys = t.declaredStorage
  nodup_declared : (t.declaredValues ++ t.declaredStorage).Nodup
  nodup_consumed : t.consumed.Nodup
  mem_consumed_iff : ∀ n, n ∈ t.consumed ↔ ∃ v, t.values.get? n = some v ∧ v.state ≠ .live
  owned_of_not_live : ∀ n v, t.values.get? n = some v → v.state ≠ .live → v.ownership = .owned

theorem consistent_empty : (empty : HandleStateTracker ν).Consistent where
  keys_values := rfl
  keys_storage := rfl
  nodup_declared := List.nodup_nil
  nodup_consumed := List.nodup_nil
  mem_consumed_iff n := by
    refine iff_of_false List.not_mem_nil ?_
    rintro ⟨v, hv, -⟩
    exact Option.some_ne_none v (hv.symm.trans (OrderedDict.get?_empty n))
  owned_of_not_live n v hv _ :=
    absurd (hv.symm.trans (OrderedDict.get?_empty n)) (Option.some_ne_none v)

/-- The steps keep a tracker consistent. -/
theorem Step.consistent {t t' : HandleStateTracker ν} (h : Step t t') (ht : t.Consistent) :
    t'.Consistent := by
  cases h with
  | @addValue n v hs hv hl =>
    have hd : n ∉ t.declaredValues := ht.keys_values ▸ hv
    have hd' : n ∉ t.declaredStorage := ht.keys_storage ▸ hs
    have hget : ∀ m, (t.addValue n v).values.get? m = if m = n then some v else t.values.get? m :=
      fun m => t.values.get?_set n m v
    refine ⟨?_, ?_, ?_, ?_, fun m => ?_, fun m v' hm hne => ?_⟩
    · rw [declaredValues_addValue, ← ht.keys_values]
      exact OrderedDict.keys_set_of_not_mem hv v
    · rw [declaredStorage_addValue]
      exact ht.keys_storage
    · rw [declaredValues_addValue, declaredStorage_addValue, List.append_assoc,
        List.singleton_append, List.nodup_middle, List.nodup_cons]
      exact ⟨by simp [hd, hd'], ht.nodup_declared⟩
    · rw [consumed_addValue]
      exact ht.nodup_consumed
    · rw [consumed_addValue, ht.mem_consumed_iff, hget]
      -- The new value is live, and was not known before.
      by_cases h : m = n
      · subst h
        simp [OrderedDict.get?_eq_none_iff.2 hv, hl]
      · rw [if_neg h]
    · rw [hget] at hm
      split at hm
      · exact absurd (Option.some.inj hm ▸ hl) hne
      · exact ht.owned_of_not_live m v' hm hne
  | @setStorage n c hs hv =>
    have hd : n ∉ t.declaredValues := ht.keys_values ▸ hv
    have hd' : n ∉ t.declaredStorage := ht.keys_storage ▸ hs
    refine ⟨?_, ?_, ?_, ?_, fun m => ?_, fun m v' => ht.owned_of_not_live m v'⟩
    · rw [declaredValues_setStorage]
      exact ht.keys_values
    · rw [declaredStorage_setStorage, ← ht.keys_storage]
      exact OrderedDict.keys_set_of_not_mem hs c
    · rw [declaredValues_setStorage, declaredStorage_setStorage, ← List.append_assoc,
        List.nodup_append_comm, List.singleton_append, List.nodup_cons]
      exact ⟨by simp [hd, hd'], ht.nodup_declared⟩
    · rw [consumed_setStorage]
      exact ht.nodup_consumed
    · rw [consumed_setStorage]
      exact ht.mem_consumed_iff m
  | @consume n v s hv ho hs =>
    have hget : ∀ m, (t.consumeValue n { v with state := s }).values.get? m =
        if m = n then some { v with state := s } else t.values.get? m :=
      fun m => t.values.get?_set n m _
    refine ⟨?_, ?_, ?_, ?_, fun m => ?_, fun m v' hm hne => ?_⟩
    · rw [declaredValues_consumeValue, ← ht.keys_values]
      exact OrderedDict.keys_set_of_mem (OrderedDict.mem_of_get? hv) _
    · rw [declaredStorage_consumeValue]
      exact ht.keys_storage
    · rw [declaredValues_consumeValue, declaredStorage_consumeValue]
      exact ht.nodup_declared
    · -- What is consumed now was live, so not consumed before.
      rw [consumed_consumeValue, List.nodup_append_comm, List.singleton_append, List.nodup_cons,
        ht.mem_consumed_iff]
      refine ⟨?_, ht.nodup_consumed⟩
      rintro ⟨v', hv', hne⟩
      exact hne (Option.some.inj (hv.symm.trans hv') ▸ ho.2)
    · rw [consumed_consumeValue, List.mem_append, List.mem_singleton, hget]
      by_cases h : m = n
      · simp [h, hs]
      · rw [if_neg h, ht.mem_consumed_iff]
        simp [h]
    · rw [hget] at hm
      split at hm
      · exact Option.some.inj hm ▸ ho.1
      · exact ht.owned_of_not_live m v' hm hne

theorem Steps.consistent {t t' : HandleStateTracker ν} (h : Steps t t') (ht : t.Consistent) :
    t'.Consistent := by
  induction h with
  | refl => exact ht
  | tail _ hs ih => exact hs.consistent ih

/-- A name does not denote both a value and a storage. -/
theorem Consistent.not_mem_storage {t : HandleStateTracker ν} (ht : t.Consistent) {n : ν}
    (hn : n ∈ t.values) : n ∉ t.storage := by
  intro hs
  rw [OrderedDict.mem_def, ht.keys_values] at hn
  rw [OrderedDict.mem_def, ht.keys_storage] at hs
  exact (List.nodup_append'.1 ht.nodup_declared).2.2 hn hs

/-- Borrowed and immortal values stay live. -/
theorem Consistent.live_of_not_owned {t : HandleStateTracker ν} (ht : t.Consistent) {n : ν}
    {v : HandleValue} (hv : t.values.get? n = some v) (ho : v.ownership ≠ .owned) :
    v.state = .live :=
  by_contra fun hne => ho (ht.owned_of_not_live n v hv hne)

/-! ## What is known is not withdrawn -/

/-- `t'` knows what `t` knows: the storage and the ownership of values stay the same, and values
    moved or closed stay so. -/
structure Later (t t' : HandleStateTracker ν) : Prop where
  get?_storage : ∀ n c, t.storage.get? n = some c → t'.storage.get? n = some c
  get?_values : ∀ n v, t.values.get? n = some v → ∃ v', t'.values.get? n = some v' ∧
    v'.storage = v.storage ∧ v'.ownership = v.ownership ∧ (v.state ≠ .live → v'.state = v.state)

theorem Later.refl (t : HandleStateTracker ν) : Later t t where
  get?_storage _ _ h := h
  get?_values _ v h := ⟨v, h, rfl, rfl, fun _ => rfl⟩

theorem Later.trans {t₁ t₂ t₃ : HandleStateTracker ν} (h : Later t₁ t₂) (h' : Later t₂ t₃) :
    Later t₁ t₃ where
  get?_storage n c hc := h'.get?_storage n c (h.get?_storage n c hc)
  get?_values n v hv := by
    obtain ⟨v₂, hv₂, hs₂, ho₂, hl₂⟩ := h.get?_values n v hv
    obtain ⟨v₃, hv₃, hs₃, ho₃, hl₃⟩ := h'.get?_values n v₂ hv₂
    refine ⟨v₃, hv₃, hs₃.trans hs₂, ho₃.trans ho₂, fun hne => ?_⟩
    rw [hl₃ (by rwa [hl₂ hne]), hl₂ hne]

/-- The steps withdraw nothing. -/
theorem Step.later {t t' : HandleStateTracker ν} (h : Step t t') : Later t t' := by
  cases h with
  | @addValue n v hs hv hl =>
    refine ⟨fun _ _ h => h, fun m v' hm => ⟨v', ?_, rfl, rfl, fun _ => rfl⟩⟩
    have hne : m ≠ n := fun h => hv (h ▸ OrderedDict.mem_of_get? hm)
    exact (t.values.get?_set_of_ne hne v).trans hm
  | @setStorage n c hs hv =>
    refine ⟨fun m c' hm => ?_, (Later.refl t).get?_values⟩
    have hne : m ≠ n := fun h => hs (h ▸ OrderedDict.mem_of_get? hm)
    exact (t.storage.get?_set_of_ne hne c).trans hm
  | @consume n v s hv ho hs =>
    refine ⟨fun _ _ h => h, fun m v' hm => ?_⟩
    by_cases h : m = n
    · subst h
      obtain rfl : v = v' := Option.some.inj (hv.symm.trans hm)
      exact ⟨_, t.values.get?_set_self m _, rfl, rfl, fun hne => absurd ho.2 hne⟩
    · exact ⟨v', (t.values.get?_set_of_ne h _).trans hm, rfl, rfl, fun _ => rfl⟩

theorem Steps.later {t t' : HandleStateTracker ν} (h : Steps t t') : Later t t' := by
  induction h with
  | refl => exact .refl t
  | tail _ hs ih => exact ih.trans hs.later

/-! ## Cleaning up -/

/-- `t` knows `n` as a live owned value. -/
def IsLiveOwned (t : HandleStateTracker ν) (n : ν) : Prop :=
  ∃ v, t.values.get? n = some v ∧ LiveOwned v

instance (t : HandleStateTracker ν) (n : ν) : Decidable (t.IsLiveOwned n) :=
  decidable_of_iff (∃ v ∈ t.values.get? n, LiveOwned v) <| by simp [IsLiveOwned]

/-- The names of the entries that satisfy `p`, as a filter of the keys. -/
theorem filterMap_entries (t : HandleStateTracker ν) (preserveNames : List ν) :
    (t.values.entries.filterMap fun (n, v) =>
      if LiveOwned v ∧ n ∉ preserveNames then some n else none) =
    t.values.keys.filter fun n => t.IsLiveOwned n ∧ n ∉ preserveNames := by
  rw [OrderedDict.keys, List.filter_map, ← List.filterMap_eq_filter, List.map_filterMap]
  refine List.filterMap_congr fun ⟨n, v⟩ he => ?_
  have hv : t.IsLiveOwned n ↔ LiveOwned v :=
    ⟨fun ⟨v', hv', h⟩ =>
      OrderedDict.eq_of_mem_entries (OrderedDict.get?_eq_some_iff.1 hv') he ▸ h,
      fun h => ⟨v, OrderedDict.get?_eq_some_iff.2 he, h⟩⟩
  by_cases h : LiveOwned v ∧ n ∉ preserveNames <;> simp [Option.guard, hv, h]

/-- The plan closes the live owned values that are not preserved, the last declared first, and
    making it changes nothing. -/
theorem closeNames_of_cleanupPlan {t t' : HandleStateTracker ν} (ht : t.Consistent)
    {exitKind : HandleExitKind} {preserveNames : List ν} {plan : HandleCleanupPlan ν}
    (h : cleanupPlan exitKind preserveNames t = .ok plan t') :
    t' = t ∧ plan.closeNames =
      (t.declaredValues.filter fun n => t.IsLiveOwned n ∧ n ∉ preserveNames).reverse := by
  have hk := keeps_useAll Eq preserveNames t
  simp only [cleanupPlan, bind, EStateM.bind] at h
  cases hr : useAll preserveNames t with
  | error e t₁ =>
    rw [hr] at h
    cases h
  | ok _ t₁ =>
    rw [hr] at hk h
    obtain rfl : t = t₁ := hk
    cases h
    exact ⟨rfl, by rw [← ht.keys_values, ← filterMap_entries, ← List.filterMap_reverse]⟩

/-- Closing distinct live owned values closes these and nothing else. -/
theorem closeAll_run {t : HandleStateTracker ν} {names : List ν} (hn : names.Nodup)
    (h : ∀ n ∈ names, t.IsLiveOwned n) :
    ∃ t', closeAll names t = .ok () t' ∧ t'.consumed = t.consumed ++ names ∧
      t'.storage = t.storage ∧ ∀ n, t'.values.get? n =
        if n ∈ names then (t.values.get? n).map ({ · with state := .closed })
        else t.values.get? n := by
  induction names generalizing t with
  | nil => exact ⟨t, rfl, by simp, rfl, fun n => by simp⟩
  | cons m l ih =>
    obtain ⟨v, hv, ho⟩ := h m List.mem_cons_self
    rw [List.nodup_cons] at hn
    have hget : ∀ n, (t.consumeValue m { v with state := .closed }).values.get? n =
        if n = m then some { v with state := .closed } else t.values.get? n :=
      fun n => t.values.get?_set m n _
    have hl : ∀ n ∈ l, (t.consumeValue m { v with state := .closed }).IsLiveOwned n := by
      intro n hnl
      have hne : n ≠ m := fun h => hn.1 (h ▸ hnl)
      obtain ⟨v', hv', ho'⟩ := h n (List.mem_cons_of_mem m hnl)
      exact ⟨v', by rw [hget, if_neg hne, hv'], ho'⟩
    obtain ⟨t', ht', hc, hs, hvals⟩ := ih hn.2 hl
    refine ⟨t', ?_, ?_, hs, fun n => ?_⟩
    · simp only [closeAll, bind, EStateM.bind, close, consumeOwned_of_liveOwned hv ho]
      exact ht'
    · rw [hc, consumed_consumeValue, List.append_assoc, List.singleton_append]
    · rw [hvals, hget]
      by_cases hnm : n = m
      · subst hnm
        simp [hn.1, hv]
      · simp [hnm]

section Assert

variable [LE ν] [DecidableLE ν]

/-- The assertion fails exactly if an owned value is live. -/
theorem assertNoLiveOwnedHandles_run (t : HandleStateTracker ν) :
    (∃ e, assertNoLiveOwnedHandles t = .error e t) ↔ ∃ n, t.IsLiveOwned n := by
  have hmem : ∀ n, n ∈ t.liveOwnedHandles ↔ t.IsLiveOwned n := fun n => by
    simp [liveOwnedHandles, IsLiveOwned, OrderedDict.get?_eq_some_iff]
  simp only [← hmem, assertNoLiveOwnedHandles, bind, EStateM.bind, get, getThe, MonadStateOf.get,
    EStateM.get]
  by_cases h : t.liveOwnedHandles = []
  · simp only [h, ne_eq, not_true, if_false, List.not_mem_nil, exists_false, iff_false]
    exact nofun
  · obtain ⟨n, hn⟩ := List.exists_mem_of_ne_nil _ h
    exact ⟨fun _ => ⟨n, hn⟩, fun _ => ⟨.ownedRemainLive t.liveOwnedHandles, by
      simp only [ne_eq, h, not_false_eq_true, if_true]
      rfl⟩⟩

end Assert

/-- Cleaning up: a plan just made closes the live owned values that are not preserved, the last
    declared first, and then the assertion fails exactly if an owned value is preserved. -/
structure CleansUp [LE ν] [DecidableLE ν] (t : HandleStateTracker ν) (preserveNames : List ν)
    (plan : HandleCleanupPlan ν) (t' : HandleStateTracker ν) : Prop where
  closeNames : plan.closeNames =
    (t.declaredValues.filter fun n => t.IsLiveOwned n ∧ n ∉ preserveNames).reverse
  run : applyCleanupPlan plan t = .ok () t'
  consumed : t'.consumed = t.consumed ++ plan.closeNames
  storage : t'.storage = t.storage
  get?_values : ∀ n, t'.values.get? n =
    if n ∈ plan.closeNames then (t.values.get? n).map ({ · with state := .closed })
    else t.values.get? n
  assert : (∃ e, assertNoLiveOwnedHandles t' = .error e t') ↔
    ∃ n ∈ preserveNames, t'.IsLiveOwned n

theorem Consistent.cleansUp [LE ν] [DecidableLE ν] {t t₁ : HandleStateTracker ν}
    (ht : t.Consistent) {exitKind : HandleExitKind} {preserveNames : List ν}
    {plan : HandleCleanupPlan ν} (h : cleanupPlan exitKind preserveNames t = .ok plan t₁) :
    t₁ = t ∧ ∃ t', CleansUp t preserveNames plan t' := by
  obtain ⟨rfl, hclose⟩ := closeNames_of_cleanupPlan ht h
  have hmem : ∀ n, n ∈ plan.closeNames ↔ t₁.IsLiveOwned n ∧ n ∉ preserveNames := fun n => by
    rw [hclose, ← ht.keys_values]
    simp only [List.mem_reverse, List.mem_filter, decide_eq_true_eq, and_iff_right_iff_imp]
    exact fun ⟨⟨v, hv, _⟩, _⟩ => OrderedDict.mem_of_get? hv
  have hnodup : plan.closeNames.Nodup := by
    rw [hclose, List.nodup_reverse]
    exact (List.nodup_append'.1 ht.nodup_declared).1.filter _
  obtain ⟨t', hrun, hc, hs, hvals⟩ := closeAll_run hnodup fun n hn => ((hmem n).1 hn).1
  refine ⟨rfl, t', hclose, hrun, hc, hs, hvals, ?_⟩
  rw [assertNoLiveOwnedHandles_run]
  refine ⟨fun ⟨n, v, hv, ho⟩ => ?_, fun ⟨n, _, hn⟩ => ⟨n, hn⟩⟩
  -- What is still live was not closed, although it was live and owned before.
  refine ⟨n, by_contra fun hp => ?_, v, hv, ho⟩
  rw [hvals] at hv
  split at hv
  next hn =>
    obtain ⟨v', _, rfl⟩ := Option.map_eq_some_iff.1 hv
    cases ho.2
  next hn => exact hn ((hmem n).2 ⟨⟨v, hv, ho⟩, hp⟩)

/-! ## Forks and merges -/

theorem later_fork (t : HandleStateTracker ν) : Later t t.fork := .refl t

theorem Consistent.fork {t : HandleStateTracker ν} (ht : t.Consistent) : t.fork.Consistent := ht

/-- A loop of checks succeeds only if every check does. -/
theorem eq_ok_of_forM {α ε : Type} {f : α → Except ε Unit} {l : List α} (h : l.forM f = .ok ()) :
    ∀ a ∈ l, f a = .ok () := by
  induction l with
  | nil => exact fun _ h => absurd h List.not_mem_nil
  | cons b l ih =>
    change (f b).bind (fun _ => l.forM f) = .ok () at h
    cases hb : f b with
    | error e =>
      rw [hb] at h
      cases h
    | ok u =>
      rw [hb] at h
      intro a ha
      rcases List.mem_cons.1 ha with rfl | ha
      · exact hb
      · exact ih h a ha

/-- A branch that agrees with the first has the same storage and the same values. -/
theorem similar_of_checkBranch {first branch : HandleStateTracker ν}
    (h : checkBranch first branch = .ok ()) :
    branch.storage.Similar first.storage ∧ branch.values.Similar first.values := by
  simp only [checkBranch] at h
  split_ifs at h with hs hk
  refine ⟨by simpa using hs, fun n => ?_⟩
  cases hv : first.values.get? n with
  | none =>
    rw [OrderedDict.get?_eq_none_iff] at hv ⊢
    exact fun hb => hv (hk.1 hb)
  | some v =>
    have hn := eq_ok_of_forM h (n, v) (OrderedDict.get?_eq_some_iff.1 hv)
    cases hb : branch.values.get? n with
    | none =>
      simp only [hb] at hn
      cases hn
    | some v' =>
      simp only [hb] at hn
      split_ifs at hn with he
      rw [not_not.1 he]

/-- A merge is its first branch, and has the storage and the values of all of them. -/
theorem merge_eq_ok {branches : List (HandleStateTracker ν)} {t : HandleStateTracker ν}
    (h : merge branches = .ok t) :
    t ∈ branches ∧
      ∀ branch ∈ branches, branch.storage.Similar t.storage ∧ branch.values.Similar t.values := by
  cases branches with
  | nil => cases h
  | cons first rest =>
    change (rest.forM (checkBranch first)).bind (fun _ => .ok first.fork) = .ok t at h
    cases hr : rest.forM (checkBranch first) with
    | error e =>
      rw [hr] at h
      cases h
    | ok u =>
      rw [hr] at h
      cases h
      refine ⟨List.mem_cons_self, fun branch hb => ?_⟩
      rcases List.mem_cons.1 hb with rfl | hb
      · exact ⟨fun _ => rfl, fun _ => rfl⟩
      · exact similar_of_checkBranch (eq_ok_of_forM hr branch hb)

/-- The merge knows what every branch knows. -/
theorem later_merge {branches : List (HandleStateTracker ν)} {t : HandleStateTracker ν}
    (h : merge branches = .ok t) : ∀ branch ∈ branches, Later branch t := by
  intro branch hb
  obtain ⟨hs, hv⟩ := (merge_eq_ok h).2 branch hb
  exact ⟨fun n c hc => (hs n).symm.trans hc,
    fun n v hv' => ⟨v, (hv n).symm.trans hv', rfl, rfl, fun _ => rfl⟩⟩

end HandleStateTracker

/-! ## Pools of trackers -/

/-- The calls of the methods of a tracker. -/
inductive TrackerCall (ν : Type) where
  | declareStorage (name : ν) (kind : HandleStorageKind) (cTypeCname : Option String)
  | declareValue (name : ν) (storageKind : HandleStorageKind) (ownership : HandleOwnership)
    (cTypeCname : Option String)
  | use (name : ν)
  | close (name : ν)
  | move (name : ν)
  | duplicate (sourceName targetName : ν)
  | applyOperation (operation : HandleOperation) (argumentNames : List ν) (resultName : Option ν)
  | loadStorage (storageName targetName : ν)
  | storeStorage (storageName valueName : ν)
  | prepareReturn (name : ν)
  | cleanupPlan (exitKind : HandleExitKind) (preserveNames : List ν)
  | applyCleanupPlan (plan : HandleCleanupPlan ν)

namespace TrackerCall

open HandleStateTracker

variable {ν : Type} [DecidableEq ν]

/-- The effect of a call on the tracker, whether it returns or throws. -/
def effect (t : HandleStateTracker ν) : TrackerCall ν → HandleStateTracker ν
  | declareStorage n k c => finalState (HandleStateTracker.declareStorage n k c t)
  | declareValue n k o c => finalState (HandleStateTracker.declareValue n k o c t)
  | use n => finalState (HandleStateTracker.use n t)
  | close n => finalState (HandleStateTracker.close n t)
  | move n => finalState (HandleStateTracker.move n t)
  | duplicate n m => finalState (HandleStateTracker.duplicate n m t)
  | applyOperation op args r => finalState (HandleStateTracker.applyOperation op args r t)
  | loadStorage n m => finalState (HandleStateTracker.loadStorage n m t)
  | storeStorage n m => finalState (HandleStateTracker.storeStorage n m t)
  | prepareReturn n => finalState (HandleStateTracker.prepareReturn n t)
  | cleanupPlan k ns => finalState (HandleStateTracker.cleanupPlan k ns t)
  | applyCleanupPlan p => finalState (HandleStateTracker.applyCleanupPlan p t)

/-- A call takes steps. -/
theorem steps_effect (t : HandleStateTracker ν) (c : TrackerCall ν) : Steps t (c.effect t) := by
  cases c with
  | declareStorage n k c => exact keeps_declareStorage n k c t
  | declareValue n k o c => exact keeps_declareValue n k o c t
  | use n => exact keeps_use Steps n t
  | close n => exact keeps_close n t
  | move n => exact keeps_move n t
  | duplicate n m => exact keeps_duplicate n m t
  | applyOperation op args r => exact keeps_applyOperation op args r t
  | loadStorage n m => exact keeps_loadStorage n m t
  | storeStorage n m => exact keeps_storeStorage n m t
  | prepareReturn n => exact keeps_prepareReturn n t
  | cleanupPlan k ns => exact keeps_cleanupPlan k ns t
  | applyCleanupPlan p => exact keeps_applyCleanupPlan p t

end TrackerCall

/-- What happens to a pool of trackers. -/
inductive PoolCall (ν : Type) where
  | new
  | call (i : ℕ) (c : TrackerCall ν)
  | fork (i : ℕ)
  | merge (branches : List ℕ)

/-- The trackers there are, the newest last. -/
abbrev Pool (ν : Type) := List (HandleStateTracker ν)

namespace Pool

open HandleStateTracker

variable {ν : Type} [DecidableEq ν]

/-- The tracker a call adds to the pool, if any. -/
def added (p : Pool ν) : PoolCall ν → Option (HandleStateTracker ν)
  | .new => some .empty
  | .call _ _ => none
  | .fork i => (p[i]?).map .fork
  | .merge branches => (branches.mapM (p[·]?)).bind fun ts => (HandleStateTracker.merge ts).toOption

/-- The trackers of the pool after a call. -/
def updated (p : Pool ν) : PoolCall ν → Pool ν
  | .call i c => p.modify i (c.effect ·)
  | _ => p

/-- The pool after a call. -/
def step (p : Pool ν) (c : PoolCall ν) : Pool ν := p.updated c ++ (p.added c).toList

theorem getElem?_updated {p : Pool ν} (c : PoolCall ν) {i : ℕ} {t : HandleStateTracker ν}
    (h : p[i]? = some t) : ∃ t', (p.updated c)[i]? = some t' ∧ Steps t t' := by
  cases c with
  | call j c =>
    rw [updated, List.getElem?_modify, h]
    refine ⟨_, rfl, ?_⟩
    split
    · exact TrackerCall.steps_effect t c
    · exact .refl
  | new => exact ⟨t, h, .refl⟩
  | fork j => exact ⟨t, h, .refl⟩
  | merge branches => exact ⟨t, h, .refl⟩

theorem length_updated (p : Pool ν) (c : PoolCall ν) : (p.updated c).length = p.length := by
  cases c <;> simp [updated]

/-- The pool after calls. -/
def run (p : Pool ν) (calls : List (PoolCall ν)) : Pool ν := calls.foldl step p

/-- A call makes the tracker `k` from the tracker `i`: by keeping it, or by forking or merging
    it. -/
def StepDescends (p : Pool ν) (c : PoolCall ν) (i k : ℕ) : Prop :=
  k = i ∨ k = p.length ∧ match c with
    | .fork j => i = j
    | .merge branches => i ∈ branches
    | _ => False

/-- The tracker `j` after `calls` descends from the tracker `i` before. -/
def Descends (p : Pool ν) : List (PoolCall ν) → ℕ → ℕ → Prop
  | [], i, j => i = j
  | c :: calls, i, j => ∃ k, k < (p.step c).length ∧ StepDescends p c i k ∧
      Descends (p.step c) calls k j

omit [DecidableEq ν] in
/-- The trackers of a merge are those of the pool. -/
theorem mem_of_mapM {p : Pool ν} {branches : List ℕ} {ts : List (HandleStateTracker ν)}
    (h : branches.mapM (p[·]?) = some ts) :
    (∀ t ∈ ts, t ∈ p) ∧ ∀ i ∈ branches, ∃ t ∈ ts, p[i]? = some t := by
  induction branches generalizing ts with
  | nil =>
    cases h
    exact ⟨fun _ h => absurd h List.not_mem_nil, fun _ h => absurd h List.not_mem_nil⟩
  | cons i l ih =>
    rw [List.mapM_cons, Option.bind_eq_bind, Option.bind_eq_some_iff] at h
    obtain ⟨t, ht, h⟩ := h
    rw [Option.bind_eq_bind, Option.bind_eq_some_iff] at h
    obtain ⟨ts', hts, h⟩ := h
    cases h
    obtain ⟨hmem, hl⟩ := ih hts
    refine ⟨fun t' ht' => ?_, fun j hj => ?_⟩
    · rcases List.mem_cons.1 ht' with rfl | ht'
      · exact List.mem_of_getElem? ht
      · exact hmem t' ht'
    · rcases List.mem_cons.1 hj with rfl | hj
      · exact ⟨t, List.mem_cons_self, ht⟩
      · obtain ⟨t', ht', h'⟩ := hl j hj
        exact ⟨t', List.mem_cons_of_mem t ht', h'⟩

/-- The tracker a call adds is consistent. -/
theorem consistent_added {p : Pool ν} (hp : ∀ t ∈ p, t.Consistent) {c : PoolCall ν}
    {t : HandleStateTracker ν} (h : p.added c = some t) : t.Consistent := by
  cases c with
  | new => exact Option.some.inj h ▸ consistent_empty
  | call i c => cases h
  | fork i =>
    obtain ⟨t', ht', rfl⟩ := Option.map_eq_some_iff.1 h
    exact (hp t' (List.mem_of_getElem? ht')).fork
  | merge branches =>
    obtain ⟨ts, hts, h⟩ := Option.bind_eq_some_iff.1 h
    cases hm : HandleStateTracker.merge ts with
    | error e =>
      rw [hm] at h
      cases h
    | ok t' =>
      rw [hm] at h
      exact Option.some.inj h ▸ hp t' ((mem_of_mapM hts).1 t' (merge_eq_ok hm).1)

/-- A call keeps the trackers consistent. -/
theorem consistent_step {p : Pool ν} (hp : ∀ t ∈ p, t.Consistent) (c : PoolCall ν) :
    ∀ t ∈ p.step c, t.Consistent := by
  intro t ht
  rcases List.mem_append.1 ht with ht | ht
  · obtain ⟨k, hk⟩ := List.mem_iff_getElem?.1 ht
    have hlt : k < p.length := length_updated p c ▸ (List.getElem?_eq_some_iff.1 hk).1
    obtain ⟨t', ht', hs⟩ := getElem?_updated c (List.getElem?_eq_getElem hlt)
    obtain rfl : t' = t := Option.some.inj (ht'.symm.trans hk)
    exact hs.consistent (hp _ (List.getElem_mem hlt))
  · exact consistent_added hp (by simpa using ht)

/-- A tracker made by a call knows what it is made from knows. -/
theorem later_step {p : Pool ν} {c : PoolCall ν} {i k : ℕ} (h : StepDescends p c i k)
    {t t' : HandleStateTracker ν} (ht : p[i]? = some t) (ht' : (p.step c)[k]? = some t') :
    Later t t' := by
  rcases h with rfl | ⟨rfl, h⟩
  · have hlt : k < (p.updated c).length := length_updated p c ▸ (List.getElem?_eq_some_iff.1 ht).1
    rw [step, List.getElem?_append_left hlt] at ht'
    obtain ⟨t₁, ht₁, hs⟩ := getElem?_updated c ht
    exact Option.some.inj (ht₁.symm.trans ht') ▸ hs.later
  · rw [step, List.getElem?_append_right (Nat.le_of_eq (length_updated p c)), length_updated,
      Nat.sub_self] at ht'
    have hadd : p.added c = some t' := by
      cases ha : p.added c <;> simp_all
    cases c with
    | new => cases h
    | call j c => cases h
    | fork j =>
      obtain rfl : i = j := h
      obtain ⟨t₀, ht₀, rfl⟩ := Option.map_eq_some_iff.1 hadd
      exact Option.some.inj (ht₀.symm.trans ht) ▸ later_fork t₀
    | merge branches =>
      obtain ⟨ts, hts, hm⟩ := Option.bind_eq_some_iff.1 hadd
      obtain ⟨t₀, ht₀, hi⟩ := (mem_of_mapM hts).2 i h
      obtain rfl : t₀ = t := Option.some.inj (hi.symm.trans ht)
      cases hr : HandleStateTracker.merge ts with
      | error e =>
        rw [hr] at hm
        cases hm
      | ok t₁ =>
        rw [hr] at hm
        exact Option.some.inj hm ▸ later_merge hr t₀ ht₀

/-- The trackers of a run are consistent. -/
theorem consistent_run {p : Pool ν} (hp : ∀ t ∈ p, t.Consistent) (calls : List (PoolCall ν)) :
    ∀ t ∈ p.run calls, t.Consistent := by
  induction calls generalizing p with
  | nil => exact hp
  | cons c calls ih => exact ih (consistent_step hp c)

/-- A tracker knows what the trackers it descends from knew. -/
theorem later_of_descends {p : Pool ν} {calls : List (PoolCall ν)} {i j : ℕ}
    (h : Descends p calls i j) {t t' : HandleStateTracker ν} (ht : p[i]? = some t)
    (ht' : (p.run calls)[j]? = some t') : Later t t' := by
  induction calls generalizing p i t with
  | nil =>
    obtain rfl : i = j := h
    exact Option.some.inj (ht.symm.trans ht') ▸ .refl t
  | cons c calls ih =>
    obtain ⟨k, hk, hs, h⟩ := h
    have hk' : (p.step c)[k]? = some (p.step c)[k] := List.getElem?_eq_getElem hk
    exact (later_step hs ht hk').trans (ih h hk' ht')

end Pool

open HandleStateTracker in
/-- In every run of a pool of trackers:
    every tracker is consistent with what happened to it, so that names are declared once, as a
    value or as storage, and values are consumed at most once, while owned, and are live
    otherwise; the values it knows as moved or closed stay so, in it and in all that descend from
    it; and a plan just made closes what it should. -/
theorem handleStateTracker_lifecycle {ν : Type} [DecidableEq ν] [LE ν] [DecidableLE ν]
    (calls : List (PoolCall ν)) :
    (∀ t ∈ Pool.run [] calls, t.Consistent ∧ (∀ n ∈ t.values, n ∉ t.storage) ∧
      (∀ n v, t.values.get? n = some v → v.ownership ≠ .owned → v.state = .live) ∧
      ∀ exitKind preserveNames plan t₁, cleanupPlan exitKind preserveNames t = .ok plan t₁ →
        t₁ = t ∧ ∃ t', CleansUp t preserveNames plan t') ∧
    ∀ calls' i j t t', (Pool.run [] calls).Descends calls' i j →
      (Pool.run [] calls)[i]? = some t → (Pool.run [] (calls ++ calls'))[j]? = some t' →
        Later t t' := by
  have hc : ∀ t ∈ Pool.run ([] : Pool ν) calls, t.Consistent :=
    Pool.consistent_run (fun _ h => absurd h List.not_mem_nil) calls
  refine ⟨fun t ht => ⟨hc t ht, fun _ => (hc t ht).not_mem_storage,
    fun _ _ => (hc t ht).live_of_not_owned, fun _ _ _ _ h => (hc t ht).cleansUp h⟩, ?_⟩
  intro calls' i j t t' h ht ht'
  rw [Pool.run, List.foldl_append] at ht'
  exact Pool.later_of_descends h ht ht'

end AHPy
