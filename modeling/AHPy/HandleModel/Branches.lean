import AHPy.HandleModel.Atomicity

/-!
# Branches that agree

Two trackers are similar if their maps have the same values at the same names
(`HandleStateTracker.Similar`), in whatever order the names were declared. No
method can tell similar trackers apart, up to the order in which a plan closes
handles: `observe_similar`.

* `merge_isOk_iff`: branches merge exactly if they are similar to each other;
* `Consistent.cleansUp_similar`: the plans of similar trackers close the same
  handles, and leave similar trackers.
-/

namespace AHPy.HandleStateTracker

variable {ν : Type} [DecidableEq ν]

/-- The same storage and the same values, under the same names. -/
structure Similar (t t' : HandleStateTracker ν) : Prop where
  storage : t.storage.Similar t'.storage
  values : t.values.Similar t'.values

instance (t t' : HandleStateTracker ν) : Decidable (t.Similar t') :=
  decidable_of_iff (t.storage.Similar t'.storage ∧ t.values.Similar t'.values)
    ⟨fun h => ⟨h.1, h.2⟩, fun h => ⟨h.1, h.2⟩⟩

namespace Similar

theorem refl (t : HandleStateTracker ν) : t.Similar t := ⟨fun _ => rfl, fun _ => rfl⟩

theorem symm {t t' : HandleStateTracker ν} (h : t.Similar t') : t'.Similar t :=
  ⟨fun n => (h.storage n).symm, fun n => (h.values n).symm⟩

theorem trans {t t' t'' : HandleStateTracker ν} (h : t.Similar t') (h' : t'.Similar t'') :
    t.Similar t'' :=
  ⟨fun n => (h.storage n).trans (h'.storage n), fun n => (h.values n).trans (h'.values n)⟩

variable {t t' : HandleStateTracker ν}

theorem isLiveOwned_iff (h : t.Similar t') (n : ν) : t.IsLiveOwned n ↔ t'.IsLiveOwned n := by
  rw [IsLiveOwned, IsLiveOwned, h.values n]

theorem addValue (h : t.Similar t') (n : ν) (v : HandleValue) :
    (t.addValue n v).Similar (t'.addValue n v) := by
  refine ⟨h.storage, fun m => ?_⟩
  rw [HandleStateTracker.addValue, HandleStateTracker.addValue, OrderedDict.get?_set,
    OrderedDict.get?_set, h.values m]

theorem consumeValue (h : t.Similar t') (n : ν) (v : HandleValue) :
    (t.consumeValue n v).Similar (t'.consumeValue n v) :=
  ⟨(h.addValue n v).storage, (h.addValue n v).values⟩

theorem setStorage (h : t.Similar t') (n : ν) (c : HandleStorage) :
    (t.setStorage n c).Similar (t'.setStorage n c) := by
  refine ⟨fun m => ?_, h.values⟩
  rw [HandleStateTracker.setStorage, HandleStateTracker.setStorage, OrderedDict.get?_set,
    OrderedDict.get?_set, h.storage m]

theorem keys_perm (h : t.Similar t') : t.values.keys.Perm t'.values.keys := by
  rw [List.perm_ext_iff_of_nodup t.values.nodup_keys t'.values.nodup_keys]
  exact h.values.mem_iff

/-- Similar trackers have the same values to close. -/
theorem closeNames_perm (h : t.Similar t') (names : List ν) :
    (t.values.entries.filterMap fun (n, v) =>
      if LiveOwned v ∧ n ∉ names then some n else none).Perm
    (t'.values.entries.filterMap fun (n, v) =>
      if LiveOwned v ∧ n ∉ names then some n else none) := by
  rw [filterMap_entries, filterMap_entries]
  have hp := h.keys_perm.filter fun n => decide (t.IsLiveOwned n ∧ n ∉ names)
  have heq : t'.values.keys.filter (fun n => decide (t.IsLiveOwned n ∧ n ∉ names)) =
      t'.values.keys.filter fun n => decide (t'.IsLiveOwned n ∧ n ∉ names) :=
    List.filter_congr fun n _ => by simp only [h.isLiveOwned_iff n]
  rwa [heq] at hp

end Similar

/-! ## The methods respect similarity -/

theorem respects_requireNewName (n : ν) : Respects Similar Eq (requireNewName n) := by
  intro t t' h
  simp only [requireNewName_run, h.storage.mem_iff n, h.values.mem_iff n]
  split
  · exact .error h
  · exact .ok rfl h

omit [DecidableEq ν] in
theorem respects_ofExcept [DecidableEq ν] {α : Type} (x : Except (HandleModelError ν) α) :
    Respects Similar Eq (MonadExcept.ofExcept x : TrackerM ν α) := by
  intro t t' h
  rw [ofExcept_run, ofExcept_run]
  cases x with
  | ok a => exact .ok rfl h
  | error e => exact .error h

theorem respects_declareStorage (n : ν) (k : HandleStorageKind) (c : Option String) :
    Respects Similar Eq (declareStorage n k c) :=
  (respects_requireNewName n).bind fun _ => (respects_ofExcept _).bind fun contract =>
    (Respects.modify fun _ _ h => h.setStorage n contract).bind fun _ => .pure rfl

theorem respects_declareValue (n : ν) (k : HandleStorageKind) (o : HandleOwnership)
    (c : Option String) : Respects Similar Eq (declareValue n k o c) :=
  (respects_requireNewName n).bind fun _ => (respects_ofExcept _).bind fun _ =>
    .ite (.throw _) <| .ite (.throw _) <|
      (Respects.modify fun _ _ h => h.addValue n _).bind fun _ => .pure rfl

theorem respects_value (n : ν) : Respects Similar Eq (value n) := by
  intro t t' h
  simp only [value, bind, EStateM.bind, get, getThe, MonadStateOf.get, EStateM.get]
  rw [h.values n]
  cases t'.values.get? n with
  | none => exact .error h
  | some v => exact .ok rfl h

theorem respects_storageOf (n : ν) : Respects Similar Eq (storageOf n) := by
  intro t t' h
  simp only [storageOf, bind, EStateM.bind, get, getThe, MonadStateOf.get, EStateM.get]
  rw [h.storage n]
  cases t'.storage.get? n with
  | none => exact .error h
  | some c => exact .ok rfl h

theorem respects_use (n : ν) : Respects Similar Eq (use n) :=
  (respects_value n).bind fun _ => .ite (.throw _) (.pure rfl)

theorem respects_useAll (names : List ν) : Respects Similar Eq (useAll names) := by
  induction names with
  | nil => exact .pure rfl
  | cons n l ih => exact (respects_use n).bind fun _ => ih

theorem respects_consumeOwned (n : ν) (s : HandleState) (op : String) :
    Respects Similar Eq (consumeOwned n s op) :=
  (respects_use n).bind fun v => .ite (.throw _) <|
    (Respects.modify fun _ _ h => h.consumeValue n { v with state := s }).bind fun _ => .pure rfl

theorem respects_close (n : ν) : Respects Similar Eq (close n) := respects_consumeOwned n _ _

theorem respects_move (n : ν) : Respects Similar Eq (move n) := respects_consumeOwned n _ _

theorem respects_closeAll (names : List ν) : Respects Similar Eq (closeAll names) := by
  induction names with
  | nil => exact .pure rfl
  | cons n l ih => exact (respects_close n).bind fun _ => ih

theorem respects_duplicate (source target : ν) : Respects Similar Eq (duplicate source target) :=
  (respects_use source).bind fun _ => respects_declareValue target _ _ _

theorem respects_declareResult (contract : HandleOperationContract) (result : Option ν) :
    Respects Similar Eq (declareResult contract result) := by
  unfold declareResult
  split
  · exact (respects_declareValue _ _ _ _).map fun _ _ h => congrArg some h
  · exact .throw _
  · exact .throw _
  · exact .pure rfl

theorem respects_applyOperation (op : HandleOperation) (args : List ν) (result : Option ν) :
    Respects Similar Eq (applyOperation op args result) := by
  unfold applyOperation
  dsimp only
  split
  · exact (respects_close _).bind fun _ => respects_declareResult _ _
  · exact (Respects.throw _ : Respects Similar Eq _).bind fun _ => respects_declareResult _ _
  · exact (respects_useAll _).bind fun _ => respects_declareResult _ _

theorem respects_loadStorage (source target : ν) :
    Respects Similar Eq (loadStorage source target) :=
  (respects_storageOf source).bind fun _ => .ite (respects_declareValue target _ _ _) (.throw _)

theorem respects_storeStorage (n target : ν) : Respects Similar Eq (storeStorage n target) :=
  (respects_storageOf n).bind fun _ => .ite (respects_use target) (.throw _)

theorem respects_prepareReturn (n : ν) : Respects Similar Eq (prepareReturn n) :=
  (respects_use n).bind fun _ =>
    .ite ((respects_move n).bind fun _ => .pure rfl) (.pure rfl)

end HandleStateTracker

/-- Plans that close the same handles. -/
structure HandleCleanupPlan.Agrees {ν : Type} (p p' : HandleCleanupPlan ν) : Prop where
  exitKind : p.exitKind = p'.exitKind
  closeNames : p.closeNames.Perm p'.closeNames

namespace HandleStateTracker

variable {ν : Type} [DecidableEq ν]

/-- The plans of similar trackers may close the handles in different orders. -/
theorem respects_cleanupPlan (k : HandleExitKind) (names : List ν) :
    Respects Similar HandleCleanupPlan.Agrees (cleanupPlan k names) := by
  refine (respects_useAll names).bind fun _ => ?_
  refine (Respects.get : Respects Similar Similar _).bind_rel fun s s' hs t t' ht => ?_
  refine .ok ⟨rfl, ?_⟩ ht
  simp only [List.filterMap_reverse]
  exact (List.reverse_perm _).trans ((hs.closeNames_perm names).trans (List.reverse_perm _).symm)

end HandleStateTracker

/-! ## Observations -/

/-- The same results, except that plans may close the same handles in different orders. -/
inductive TrackerResult.Agrees {ν : Type} : TrackerResult ν → TrackerResult ν → Prop
  | refl (r : TrackerResult ν) : Agrees r r
  | plan {p p' : HandleCleanupPlan ν} : p.Agrees p' → Agrees (.plan p) (.plan p')

namespace TrackerCall

open HandleStateTracker

variable {ν : Type} [DecidableEq ν]

theorem respects_perform (c : TrackerCall ν) :
    Respects HandleStateTracker.Similar TrackerResult.Agrees c.perform := by
  have heq : ∀ {α : Type} (f : α → TrackerResult ν) (a b : α), a = b →
      TrackerResult.Agrees (f a) (f b) := fun f a b h => h ▸ .refl _
  cases c with
  | declareStorage n k c => exact (respects_declareStorage n k c).map (heq _)
  | declareValue n k o c => exact (respects_declareValue n k o c).map (heq _)
  | use n => exact (respects_use n).map (heq _)
  | close n => exact (respects_close n).map (heq _)
  | move n => exact (respects_move n).map (heq _)
  | duplicate n m => exact (respects_duplicate n m).map (heq _)
  | applyOperation op args r => exact (respects_applyOperation op args r).map (heq _)
  | loadStorage n m => exact (respects_loadStorage n m).map (heq _)
  | storeStorage n m => exact (respects_storeStorage n m).map (heq _)
  | prepareReturn n => exact (respects_prepareReturn n).map (heq _)
  | cleanupPlan k ns => exact (respects_cleanupPlan k ns).map fun _ _ h => TrackerResult.Agrees.plan h
  | applyCleanupPlan p => exact (respects_closeAll p.closeNames).map (heq _)

/-- What calls one after the other return or raise. -/
def observe (t : HandleStateTracker ν) :
    List (TrackerCall ν) → List (Except (HandleModelError ν) (TrackerResult ν))
  | [] => []
  | c :: cs =>
    (match c.perform t with
      | .ok r _ => .ok r
      | .error e _ => .error e) :: observe (c.effect t) cs

/-- The same errors, and results that agree. -/
inductive Agree : Except (HandleModelError ν) (TrackerResult ν) →
    Except (HandleModelError ν) (TrackerResult ν) → Prop
  | ok {r r' : TrackerResult ν} : r.Agrees r' → Agree (.ok r) (.ok r')
  | error (e : HandleModelError ν) : Agree (.error e) (.error e)

/-- No calls tell similar trackers apart. -/
theorem observe_similar {t t' : HandleStateTracker ν} (h : t.Similar t')
    (cs : List (TrackerCall ν)) : List.Forall₂ Agree (observe t cs) (observe t' cs) := by
  induction cs generalizing t t' with
  | nil => exact .nil
  | cons c cs ih =>
    have hr := respects_perform c t t' h
    have he : (c.effect t).Similar (c.effect t') := by
      rw [← finalState_perform, ← finalState_perform]
      exact hr.finalState
    refine .cons ?_ (ih he)
    generalize c.perform t = r at hr
    generalize c.perform t' = r' at hr
    cases hr with
    | ok ha _ => exact .ok ha
    | error _ => exact .error _

end TrackerCall

/-! ## Merging -/

namespace HandleStateTracker

variable {ν : Type} [DecidableEq ν]

theorem forM_eq_ok_iff {α ε : Type} {f : α → Except ε Unit} {l : List α} :
    l.forM f = .ok () ↔ ∀ a ∈ l, f a = .ok () := by
  refine ⟨eq_ok_of_forM, fun h => ?_⟩
  induction l with
  | nil => rfl
  | cons b l ih =>
    change (f b).bind (fun _ => l.forM f) = .ok ()
    rw [h b List.mem_cons_self]
    exact ih fun a ha => h a (List.mem_cons_of_mem b ha)

/-- The check of a branch passes exactly if it is similar to the first. -/
theorem checkBranch_eq_ok_iff {first branch : HandleStateTracker ν} :
    checkBranch first branch = .ok () ↔ branch.Similar first := by
  refine ⟨fun h => ⟨(similar_of_checkBranch h).1, (similar_of_checkBranch h).2⟩, fun h => ?_⟩
  have hk : branch.values.keys ⊆ first.values.keys ∧ first.values.keys ⊆ branch.values.keys :=
    ⟨fun n hn => (h.values.mem_iff n).1 hn, fun n hn => (h.values.mem_iff n).2 hn⟩
  rw [checkBranch, if_neg (not_not.2 h.storage), if_neg (not_not.2 hk), forM_eq_ok_iff]
  rintro ⟨n, v⟩ hn
  have hv : branch.values.get? n = some v :=
    (h.values n).trans (OrderedDict.get?_eq_some_iff.2 hn)
  simp [hv]

/-- Branches merge, into a copy of the first, exactly if the others are similar to it. -/
theorem merge_cons_eq_ok_iff {first t : HandleStateTracker ν}
    {rest : List (HandleStateTracker ν)} :
    merge (first :: rest) = .ok t ↔ t = first.fork ∧ ∀ branch ∈ rest, branch.Similar first := by
  change (rest.forM (checkBranch first)).bind (fun _ => .ok first.fork) = .ok t ↔ _
  simp only [← checkBranch_eq_ok_iff, ← forM_eq_ok_iff]
  cases hr : rest.forM (checkBranch first) with
  | error e => simp [Except.bind]
  | ok u => simp [Except.bind, eq_comm]

/-- Branches merge exactly if there are some and they are similar to each other. -/
theorem merge_isOk_iff {branches : List (HandleStateTracker ν)} :
    (∃ t, merge branches = .ok t) ↔
      branches ≠ [] ∧ ∀ t ∈ branches, ∀ t' ∈ branches, t.Similar t' := by
  cases branches with
  | nil => exact iff_of_false (fun ⟨_, h⟩ => nomatch h) fun h => h.1 rfl
  | cons first rest =>
    simp only [merge_cons_eq_ok_iff]
    constructor
    · rintro ⟨_, _, h⟩
      have hall : ∀ t ∈ first :: rest, t.Similar first := fun t ht =>
        (List.mem_cons.1 ht).elim (fun he => he ▸ .refl t) (h t)
      exact ⟨List.cons_ne_nil _ _, fun t ht t' ht' => (hall t ht).trans (hall t' ht').symm⟩
    · rintro ⟨_, h⟩
      exact ⟨_, rfl, fun branch hb => h branch (List.mem_cons_of_mem _ hb) first List.mem_cons_self⟩

/-- The plans of similar trackers close the same handles, and leave similar trackers. -/
theorem Consistent.cleansUp_similar [LE ν] [DecidableLE ν] {t t' : HandleStateTracker ν}
    (h : t.Similar t') (ht : t.Consistent) (ht' : t'.Consistent) {names : List ν}
    {k : HandleExitKind} {p p' : HandleCleanupPlan ν}
    (hp : cleanupPlan k names t = .ok p t) (hp' : cleanupPlan k names t' = .ok p' t') :
    p.closeNames.Perm p'.closeNames ∧ ∃ t₁ t₁', applyCleanupPlan p t = .ok () t₁ ∧
      applyCleanupPlan p' t' = .ok () t₁' ∧ t₁.Similar t₁' := by
  have hperm : p.closeNames.Perm p'.closeNames := by
    have hr := respects_cleanupPlan k names t t' h
    rw [hp, hp'] at hr
    cases hr with
    | ok ha _ => exact ha.closeNames
  obtain ⟨_, t₁, hc⟩ := ht.cleansUp hp
  obtain ⟨_, t₁', hc'⟩ := ht'.cleansUp hp'
  refine ⟨hperm, t₁, t₁', hc.run, hc'.run, fun n => ?_, fun n => ?_⟩
  · rw [hc.storage, hc'.storage, h.storage n]
  · rw [hc.get?_values, hc'.get?_values, h.values n]
    simp only [hperm.mem_iff]

/-- Similar trackers report the same values yet to be closed. -/
theorem Similar.liveOwnedHandles_eq {ν : Type} [LinearOrder ν] {t t' : HandleStateTracker ν}
    (h : t.Similar t') : t.liveOwnedHandles = t'.liveOwnedHandles := by
  have hp := h.closeNames_perm []
  simp only [List.not_mem_nil, not_false_eq_true, and_true] at hp
  have hsort := (List.mergeSort_perm _ (· ≤ ·)).trans (hp.trans (List.mergeSort_perm _ (· ≤ ·)).symm)
  exact hsort.eq_of_sortedLE List.sortedLE_mergeSort List.sortedLE_mergeSort

end AHPy.HandleStateTracker
