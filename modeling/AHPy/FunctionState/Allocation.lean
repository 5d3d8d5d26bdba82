import AHPy.FunctionState.Temps

/-!
# Allocation of temporaries

What `allocate_temp` and `release_temp` do to the temporaries of a function, after any
calls of its methods (`Sound`): a name is in the set of the free list of its type if it
has been released, and in the list as well if it may be used again.

* `safe_run`: names in use are not handed out, and `temps_in_use` knows which ones are.
-/

namespace AHPy

open PoolEvent (InUse Disciplined)

/-! ## Names -/

theorem toList_tempName (counter : ℕ) :
    (tempName counter).toList = "__pyx_t_".toList ++ Nat.toDigits 10 counter := by
  simp [tempName, String.toList_append]

theorem tempName_injective : Function.Injective tempName := by
  intro i j h
  have hl := congrArg String.toList h
  rw [toList_tempName, toList_tempName] at hl
  exact NumberedNames.toDigits_inj (List.append_cancel_left hl)

theorem tempName_ne_labelName (counter n : ℕ) (name : Option String) :
    tempName counter ≠ labelName n name := by
  intro h
  have hl := congrArg String.toList h
  rw [toList_tempName, labelName, String.toList_append, String.toList_append] at hl
  have hchar := congrArg (fun l => l[6]?) hl
  simp at hchar

namespace FunctionState

/-- A name that is not taken is among more names than are taken. -/
theorem exists_not_mem (namesTaken : Finset String) (counter : ℕ) :
    ∃ k ≤ namesTaken.card, tempName (counter + 1 + k) ∉ namesTaken := by
  by_contra hall
  push Not at hall
  have hsub : (Finset.range (namesTaken.card + 1)).image (fun k => tempName (counter + 1 + k)) ⊆
      namesTaken := by
    intro name hname
    obtain ⟨k, hk, rfl⟩ := Finset.mem_image.1 hname
    exact hall k (by simpa [Nat.lt_succ_iff] using hk)
  have hcard := Finset.card_le_card hsub
  have hinj : Function.Injective fun k => tempName (counter + 1 + k) := by
    intro i j h
    exact Nat.add_left_cancel (tempName_injective h)
  rw [Finset.card_image_of_injective _ hinj, Finset.card_range] at hcard
  exact absurd hcard (Nat.not_succ_le_self _)

theorem nextCounter_spec {namesTaken : Finset String} {fuel counter : ℕ}
    (h : ∃ k ≤ fuel, tempName (counter + 1 + k) ∉ namesTaken) :
    tempName (nextCounter namesTaken fuel counter) ∉ namesTaken ∧
      counter < nextCounter namesTaken fuel counter := by
  induction fuel generalizing counter with
  | zero =>
    obtain ⟨k, hk, hnew⟩ := h
    obtain rfl := Nat.le_zero.1 hk
    exact ⟨hnew, Nat.lt_succ_self counter⟩
  | succ fuel ih =>
    rw [nextCounter]
    by_cases htaken : tempName (counter + 1) ∈ namesTaken
    · rw [if_pos htaken]
      obtain ⟨k, hk, hnew⟩ := h
      obtain _ | k := k
      · exact absurd htaken hnew
      have hadd : counter + 1 + 1 + k = counter + 1 + (k + 1) := by omega
      obtain ⟨hnot, hlt⟩ := ih ⟨k, by omega, by rwa [hadd]⟩
      exact ⟨hnot, by omega⟩
    · rw [if_neg htaken]
      exact ⟨htaken, Nat.lt_succ_self counter⟩

end FunctionState

variable {τ κ : Type} {t : TempTypes τ κ}

/-- What a temporary is shared by. -/
def AllocatedTemp.key (t : TempTypes τ κ) (a : AllocatedTemp τ) : κ × Bool :=
  (t.key a.type, a.manageRef)

namespace Temps

variable [DecidableEq κ] {taken : Finset String} {s : Temps τ κ}
  {history : List (PoolEvent String (κ × Bool))}

/-- What the attributes say of the history. -/
structure Sound (t : TempTypes τ κ) (taken : Finset String) (s : Temps τ κ)
    (history : List (PoolEvent String (κ × Bool))) : Prop where
  namesTaken : s.namesTaken = taken
  counter : ∀ a ∈ s.tempsAllocated, ∃ k ≤ s.tempCounter, a.name = tempName k
  notTaken : ∀ a ∈ s.tempsAllocated, a.name ∉ taken
  nodup : (s.tempsAllocated.map AllocatedTemp.name).Nodup
  managed : ∀ a ∈ s.tempsAllocated, a.manageRef = true → t.needsRefcounting a.type = true
  usedType : ∀ name type manageRef, s.tempsUsedType.get? name = some (type, manageRef) →
    ∃ a ∈ s.tempsAllocated, a.name = name ∧ a.key t = (t.key type, manageRef)
  mem_usedType : ∀ a ∈ s.tempsAllocated, a.name ∈ s.tempsUsedType
  free : ∀ key freelist, s.tempsFree.get? key = some freelist → freelist.names.Nodup ∧
    (∀ n, n ∈ freelist.names ↔ n ∈ freelist.set ∧ n ∉ s.zombieTemps) ∧
    ∀ n ∈ freelist.set, ∃ a ∈ s.tempsAllocated, a.name = n ∧ a.key t = key
  disciplined : Disciplined history
  allocated_iff : ∀ n key, (∃ reusable, .allocated n key reusable ∈ history) ↔
    ∃ a ∈ s.tempsAllocated, a.name = n ∧ a.key t = key
  zombie_iff : ∀ n, n ∈ s.zombieTemps ↔ ∃ key, .allocated n key false ∈ history
  inUse_iff : ∀ a ∈ s.tempsAllocated,
    InUse a.name history ↔ FunctionState.isFree s (a.key t) a.name = false

theorem isFree_eq_true {key : κ × Bool} {name : String} :
    FunctionState.isFree s key name = true ↔
      ∃ freelist, s.tempsFree.get? key = some freelist ∧ name ∈ freelist.set := by
  simp [FunctionState.isFree, Option.any_eq_true]

theorem sound_init (namesTaken : Finset String) :
    Sound t namesTaken (⟨namesTaken, [], .empty, .empty, ∅, 0⟩ : Temps τ κ) [] where
  namesTaken := rfl
  counter := by simp
  notTaken := by simp
  nodup := List.nodup_nil
  managed := by simp
  usedType := by simp
  mem_usedType := by simp
  free := by simp
  disciplined := .nil
  allocated_iff := by simp
  zombie_iff := by simp
  inUse_iff := by simp

namespace Sound

/-- A name is that of one temporary. -/
theorem eq_of_name (h : Sound t taken s history) {a b : AllocatedTemp τ} (ha : a ∈ s.tempsAllocated)
    (hb : b ∈ s.tempsAllocated) (hname : a.name = b.name) : a = b :=
  List.inj_on_of_nodup_map h.nodup ha hb hname

/-- Nothing was done with a name that is not allocated. -/
theorem not_inUse (h : Sound t taken s history) {name : String}
    (hname : name ∉ s.tempsAllocated.map AllocatedTemp.name) : ¬InUse name history := by
  intro huse
  obtain ⟨key, reusable, hmem⟩ := PoolEvent.mem_of_inUse huse
  obtain ⟨a, ha, rfl, -⟩ := (h.allocated_iff name key).1 ⟨reusable, hmem⟩
  exact hname (List.mem_map_of_mem ha)

/-- The number of a new name is larger than those of the others. -/
theorem not_mem_of_counter (h : Sound t taken s history) {counter : ℕ}
    (hcounter : s.tempCounter < counter) :
    tempName counter ∉ s.tempsAllocated.map AllocatedTemp.name := by
  intro hmem
  obtain ⟨a, ha, hname⟩ := List.mem_map.1 hmem
  obtain ⟨k, hk, hk'⟩ := h.counter a ha
  have := tempName_injective (hk'.symm.trans hname)
  omega

/-- A new temporary. -/
theorem new (h : Sound t taken s history) {counter : ℕ} (hcounter : s.tempCounter < counter)
    (hnew : tempName counter ∉ s.namesTaken) {type : τ} {manageRef : Bool}
    (hmanage : manageRef = true → t.needsRefcounting type = true) (static reusable : Bool) :
    Sound t taken { s with
      tempCounter := counter
      tempsAllocated := s.tempsAllocated ++ [⟨tempName counter, type, manageRef, static⟩]
      zombieTemps := if reusable then s.zombieTemps else insert (tempName counter) s.zombieTemps
      tempsUsedType := s.tempsUsedType.set (tempName counter) (type, manageRef) }
      (.allocated (tempName counter) (t.key type, manageRef) reusable :: history) := by
  have hfresh := h.not_mem_of_counter hcounter
  have hne : ∀ a ∈ s.tempsAllocated, a.name ≠ tempName counter := fun a ha heq =>
    hfresh (heq ▸ List.mem_map_of_mem ha)
  have hbefore : ∀ key reusable, .allocated (tempName counter) key reusable ∉ history := by
    intro key reusable hmem
    obtain ⟨a, ha, heq, -⟩ := (h.allocated_iff _ key).1 ⟨reusable, hmem⟩
    exact hne a ha heq
  constructor
  case namesTaken => exact h.namesTaken
  case counter =>
    intro a ha
    rcases List.mem_append.1 ha with ha | ha
    · obtain ⟨k, hk, heq⟩ := h.counter a ha
      exact ⟨k, hk.trans hcounter.le, heq⟩
    · obtain rfl := List.mem_singleton.1 ha
      exact ⟨counter, le_rfl, rfl⟩
  case notTaken =>
    intro a ha
    rcases List.mem_append.1 ha with ha | ha
    · exact h.notTaken a ha
    · obtain rfl := List.mem_singleton.1 ha
      exact h.namesTaken ▸ hnew
  case nodup =>
    rw [List.map_append, List.nodup_append']
    refine ⟨h.nodup, List.nodup_singleton _, ?_⟩
    intro name hname hname'
    obtain rfl := List.mem_singleton.1 hname'
    exact hfresh hname
  case managed =>
    intro a ha
    rcases List.mem_append.1 ha with ha | ha
    · exact h.managed a ha
    · obtain rfl := List.mem_singleton.1 ha
      exact hmanage
  case usedType =>
    intro name type' manageRef' hget
    dsimp only at hget
    rcases OrderedDict.get?_set_cases hget with ⟨rfl, hpair⟩ | ⟨-, hget⟩
    · cases hpair
      exact ⟨_, List.mem_append_right _ List.mem_cons_self, rfl, rfl⟩
    · obtain ⟨a, ha, hname, hkey⟩ := h.usedType name type' manageRef' hget
      exact ⟨a, List.mem_append_left _ ha, hname, hkey⟩
  case mem_usedType =>
    intro a ha
    rw [OrderedDict.mem_set_iff]
    rcases List.mem_append.1 ha with ha | ha
    · exact .inr (h.mem_usedType a ha)
    · obtain rfl := List.mem_singleton.1 ha
      exact .inl rfl
  case free =>
    intro key freelist hget
    obtain ⟨hnodup, hnames, hset⟩ := h.free key freelist hget
    have hset' : ∀ n ∈ freelist.set, n ≠ tempName counter := by
      intro n hn
      obtain ⟨a, ha, rfl, -⟩ := hset n hn
      exact hne a ha
    refine ⟨hnodup, fun n => ?_, fun n hn => ?_⟩
    · rw [hnames]
      refine and_congr_right fun hn => ?_
      split
      · rfl
      · rw [Finset.mem_insert, or_iff_right (hset' n hn)]
    · obtain ⟨a, ha, hname, hkey⟩ := hset n hn
      exact ⟨a, List.mem_append_left _ ha, hname, hkey⟩
  case disciplined =>
    exact .allocated h.disciplined (h.not_inUse hfresh) fun key' reusable' hmem =>
      absurd hmem (hbefore key' reusable')
  case allocated_iff =>
    intro n key
    simp only [List.mem_cons, PoolEvent.allocated.injEq, List.mem_append, List.not_mem_nil,
      or_false, or_and_right, exists_or, exists_eq_left]
    rw [h.allocated_iff, or_comm]
    refine or_congr_right ⟨?_, ?_⟩
    · rintro ⟨_, rfl, rfl, -⟩
      exact ⟨rfl, rfl⟩
    · rintro ⟨rfl, rfl⟩
      exact ⟨reusable, rfl, rfl, rfl⟩
  case zombie_iff =>
    intro n
    simp only [List.mem_cons, PoolEvent.allocated.injEq, exists_or]
    rw [← h.zombie_iff]
    cases reusable <;> simp
  case inUse_iff =>
    intro a ha
    have hfree : ∀ key name, FunctionState.isFree { s with
        tempCounter := counter
        tempsAllocated := s.tempsAllocated ++ [⟨tempName counter, type, manageRef, static⟩]
        zombieTemps := if reusable then s.zombieTemps else insert (tempName counter) s.zombieTemps
        tempsUsedType := s.tempsUsedType.set (tempName counter) (type, manageRef) } key name =
          FunctionState.isFree s key name := fun _ _ => rfl
    rw [hfree, InUse]
    rcases List.mem_append.1 ha with ha | ha
    · rw [h.inUse_iff a ha, or_iff_right (hne a ha)]
    · obtain rfl := List.mem_singleton.1 ha
      refine iff_of_true (.inl rfl) ?_
      rw [Bool.eq_false_iff, Ne, isFree_eq_true]
      rintro ⟨freelist, hget, hmem⟩
      obtain ⟨a, ha, heq, -⟩ := (h.free _ freelist hget).2.2 _ hmem
      exact hne a ha heq

/-- A name handed out again: the last one in the list of its key. -/
theorem reused (h : Sound t taken s history) {type : τ} {manageRef : Bool} {freelist : FreeList}
    {name : String} (hget : s.tempsFree.get? (t.key type, manageRef) = some freelist)
    (hlast : freelist.names.getLast? = some name) :
    Sound t taken { s with
      tempsFree := s.tempsFree.set (t.key type, manageRef)
        ⟨freelist.names.dropLast, freelist.set.erase name⟩
      tempsUsedType := s.tempsUsedType.set name (type, manageRef) }
      (.allocated name (t.key type, manageRef) true :: history) := by
  obtain ⟨hnodup, hnames, hset⟩ := h.free _ _ hget
  obtain ⟨names, hsplit⟩ := List.getLast?_eq_some_iff.1 hlast
  have hdrop : freelist.names.dropLast = names := by rw [hsplit, List.dropLast_concat]
  obtain ⟨hmem, hzombie⟩ := (hnames name).1 (hsplit ▸ List.mem_append_right _ List.mem_cons_self)
  obtain ⟨a, ha, haname, hakey⟩ := hset name hmem
  have hnotin : name ∉ names := by
    rw [hsplit, List.nodup_append'] at hnodup
    exact fun hin => hnodup.2.2 hin List.mem_cons_self
  have hunused : ¬InUse name history := by
    rw [← haname, h.inUse_iff a ha, Bool.not_eq_false, isFree_eq_true]
    exact ⟨freelist, hakey ▸ hget, haname ▸ hmem⟩
  have hkey : ∀ key' reusable', .allocated name key' reusable' ∈ history →
      key' = (t.key type, manageRef) := by
    intro key' reusable' hmem'
    obtain ⟨b, hb, hbname, hbkey⟩ := (h.allocated_iff name key').1 ⟨reusable', hmem'⟩
    rw [← hbkey, ← hakey, h.eq_of_name ha hb (haname.trans hbname.symm)]
  constructor
  case namesTaken => exact h.namesTaken
  case counter => exact h.counter
  case notTaken => exact h.notTaken
  case nodup => exact h.nodup
  case managed => exact h.managed
  case usedType =>
    intro name' type' manageRef' hget'
    dsimp only at hget'
    rcases OrderedDict.get?_set_cases hget' with ⟨rfl, hpair⟩ | ⟨-, hget'⟩
    · cases hpair
      exact ⟨a, ha, haname, hakey⟩
    · exact h.usedType name' type' manageRef' hget'
  case mem_usedType =>
    intro b hb
    rw [OrderedDict.mem_set_iff]
    exact .inr (h.mem_usedType b hb)
  case free =>
    intro key freelist' hget'
    dsimp only at hget'
    rw [OrderedDict.get?_set] at hget'
    split at hget'
    next heq =>
      cases hget'
      subst heq
      rw [hdrop]
      refine ⟨?_, fun n => ?_, fun n hn => hset n (Finset.mem_of_mem_erase hn)⟩
      · rw [hsplit] at hnodup
        exact (List.nodup_append'.1 hnodup).1
      · have hn := hnames n
        rw [hsplit, List.mem_append, List.mem_singleton] at hn
        rw [Finset.mem_erase, and_assoc, ← hn]
        constructor
        · intro hin
          exact ⟨fun heq => hnotin (heq ▸ hin), .inl hin⟩
        · rintro ⟨hne, hin⟩
          exact hin.resolve_right hne
    next => exact h.free key freelist' hget'
  case disciplined =>
    refine .allocated h.disciplined hunused fun key' reusable' hmem' => ⟨?_, hkey _ _ hmem'⟩
    rw [← Bool.not_eq_false]
    rintro rfl
    exact hzombie ((h.zombie_iff name).2 ⟨key', hmem'⟩)
  case allocated_iff =>
    intro n key
    simp only [List.mem_cons, PoolEvent.allocated.injEq, exists_or]
    rw [h.allocated_iff, or_iff_right_iff_imp]
    rintro ⟨_, rfl, rfl, -⟩
    exact ⟨a, ha, haname, hakey⟩
  case zombie_iff =>
    intro n
    simp only [List.mem_cons, PoolEvent.allocated.injEq, exists_or]
    rw [← h.zombie_iff]
    simp
  case inUse_iff =>
    intro b hb
    rw [InUse, Bool.eq_false_iff, Ne, isFree_eq_true]
    dsimp only
    by_cases hname : b.name = name
    · refine iff_of_true (.inl hname) ?_
      obtain rfl := h.eq_of_name hb ha (hname.trans haname.symm)
      rintro ⟨freelist', hget', hmem'⟩
      rw [hakey, OrderedDict.get?_set_self] at hget'
      cases hget'
      exact Finset.ne_of_mem_erase hmem' hname
    · rw [or_iff_right hname, h.inUse_iff b hb, Bool.eq_false_iff, Ne, isFree_eq_true, not_iff_not]
      by_cases hbkey : b.key t = (t.key type, manageRef)
      · rw [hbkey, OrderedDict.get?_set_self, hget]
        simp [hname]
      · rw [OrderedDict.get?_set_of_ne _ hbkey]

/-- A name taken back. -/
theorem released (h : Sound t taken s history) {name : String} {type : τ} {manageRef : Bool}
    (hused : s.tempsUsedType.get? name = some (type, manageRef))
    (hfree : FunctionState.isFree s (t.key type, manageRef) name = false)
    {freelist : FreeList} {tempsFree : OrderedDict (κ × Bool) FreeList}
    (hfreelist : (s.tempsFree.get? (t.key type, manageRef)).getD ⟨[], ∅⟩ = freelist)
    (hget : ∀ key, tempsFree.get? key = if key = (t.key type, manageRef) then
      some ⟨if name ∈ s.zombieTemps then freelist.names else freelist.names ++ [name],
        insert name freelist.set⟩
      else s.tempsFree.get? key) :
    Sound t taken { s with tempsFree := tempsFree } (.released name :: history) := by
  obtain ⟨names, set⟩ := freelist
  obtain ⟨a, ha, haname, hakey⟩ := h.usedType name type manageRef hused
  have hold : names.Nodup ∧ (∀ n, n ∈ names ↔ n ∈ set ∧ n ∉ s.zombieTemps) ∧
      (∀ n ∈ set, ∃ b ∈ s.tempsAllocated, b.name = n ∧ b.key t = (t.key type, manageRef)) ∧
      name ∉ set ∧ ∀ n, FunctionState.isFree s (t.key type, manageRef) n = true ↔ n ∈ set := by
    rw [FunctionState.isFree] at hfree
    cases heq : s.tempsFree.get? (t.key type, manageRef) with
    | none =>
      rw [heq] at hfreelist
      cases hfreelist
      simp [FunctionState.isFree, heq]
    | some freelist =>
      rw [heq] at hfreelist hfree
      obtain rfl : freelist = ⟨names, set⟩ := hfreelist
      obtain ⟨hnodup, hnames, hset⟩ := h.free _ _ heq
      refine ⟨hnodup, hnames, hset, by simpa using hfree, fun n => ?_⟩
      simp [FunctionState.isFree, heq]
  obtain ⟨hnodup, hnames, hset, hnotin, hisFree⟩ := hold
  constructor
  case namesTaken => exact h.namesTaken
  case counter => exact h.counter
  case notTaken => exact h.notTaken
  case nodup => exact h.nodup
  case managed => exact h.managed
  case usedType => exact h.usedType
  case mem_usedType => exact h.mem_usedType
  case free =>
    intro key freelist hget'
    dsimp only at hget'
    rw [hget] at hget'
    split at hget'
    next heq =>
      cases hget'
      subst heq
      refine ⟨?_, fun n => ?_, fun n hn => ?_⟩
      · dsimp only
        split
        · exact hnodup
        · rw [List.nodup_append']
          refine ⟨hnodup, List.nodup_singleton _, fun n hn hn' => ?_⟩
          obtain rfl := List.mem_singleton.1 hn'
          exact hnotin ((hnames n).1 hn).1
      · dsimp only
        rw [Finset.mem_insert]
        split
        next hzombie =>
          rw [hnames]
          refine and_congr_left fun hn => (or_iff_right ?_).symm
          rintro rfl
          exact hn hzombie
        next hzombie =>
          rw [List.mem_append, hnames, List.mem_singleton]
          constructor
          · rintro (⟨hn, hz⟩ | rfl)
            · exact ⟨.inr hn, hz⟩
            · exact ⟨.inl rfl, hzombie⟩
          · rintro ⟨rfl | hn, hz⟩
            · exact .inr rfl
            · exact .inl ⟨hn, hz⟩
      · rcases Finset.mem_insert.1 hn with rfl | hn
        · exact ⟨a, ha, haname, hakey⟩
        · exact hset n hn
    next => exact h.free key freelist hget'
  case disciplined =>
    refine .released h.disciplined ?_
    rw [← haname, h.inUse_iff a ha, hakey, haname]
    exact hfree
  case allocated_iff =>
    intro n key
    simp only [List.mem_cons, reduceCtorEq, false_or]
    exact h.allocated_iff n key
  case zombie_iff =>
    intro n
    simp only [List.mem_cons, reduceCtorEq, false_or]
    exact h.zombie_iff n
  case inUse_iff =>
    intro b hb
    simp only [InUse, h.inUse_iff b hb, Bool.eq_false_iff, ne_eq, isFree_eq_true]
    by_cases hname : b.name = name
    · obtain rfl := h.eq_of_name hb ha (hname.trans haname.symm)
      refine iff_of_false (fun hand => hand.1 hname) (not_not.2 ?_)
      exact ⟨_, (hget _).trans (if_pos hakey), hname ▸ Finset.mem_insert_self _ _⟩
    · rw [and_iff_right hname, not_iff_not]
      by_cases hbkey : b.key t = (t.key type, manageRef)
      · rw [← isFree_eq_true, hbkey, hisFree, hget, if_pos rfl]
        simp [hname]
      · rw [hget, if_neg hbkey]

end Sound

end Temps

end AHPy
