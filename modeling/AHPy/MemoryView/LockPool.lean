import AHPy.Lib.Lists
import AHPy.Lib.Runs

/-!
# The locks of memoryviews

Without atomics, a memoryview has a lock: the next one of an array allocated with the module, or
one of its own when none is left. The GIL is held while a lock is taken or given back.

* `sound_of_reaches`: the locks taken from the array are those that live memoryviews hold of it,
  and the others are freed once, as long as no creation comes to an entry that is `NULL`;
* `not_sound_of_null`: such a creation takes the entry away without holding it.
-/

namespace AHPy.MemoryView

/-- Addresses of locks. -/
abbrev Lock := ℕ

/-- The array as the module initialises it: different locks, `NULL` where the allocation failed. -/
structure Preallocated where
  locks : List (Option Lock)
  nodup : locks.reduceOption.Nodup

/-- The array, the number of its locks that are used, the locks of the live memoryviews; and all
    calls to allocate or free a single lock. -/
structure LockPool where
  threadLocks : List (Option Lock)
  used : ℕ
  live : List Lock
  allocated : List Lock
  freed : List Lock
  deriving DecidableEq

/-- What happens to memoryviews: one is created, with what `PyThread_allocate_lock` returns if it
    is called; none is, as there is no buffer; one is deallocated. -/
inductive ViewEvent
  | cinit (lock : Option Lock)
  | noBuffer
  | dealloc (view : ℕ)

inductive ViewOutcome
  | done
  | bufferError
  | memoryError
  deriving DecidableEq

namespace LockPool

variable (s : LockPool)

/-- When the module is initialised. -/
def init (pool : Preallocated) : LockPool := ⟨pool.locks, 0, [], [], []⟩

/-- The lock of the array that is next, if there is one. -/
def entry : Option Lock :=
  if s.used < s.threadLocks.length then s.threadLocks.getD s.used none else none

/-- It counts as used. -/
def takeEntry : LockPool :=
  if s.used < s.threadLocks.length then { s with used := s.used + 1 } else s

/-- The lock of `__cinit__`, from the array or else allocated. -/
def cinit (lock : Option Lock) : LockPool × ViewOutcome :=
  match s.entry with
  | some l => ({ s.takeEntry with live := s.live ++ [l] }, .done)
  | none =>
    match lock with
    | some l =>
      ({ s.takeEntry with live := s.live ++ [l], allocated := l :: s.allocated }, .done)
    | none => (s.takeEntry, .memoryError)

/-- The lock of `__dealloc__`, back to the array or else freed. -/
def release (lock : Lock) : LockPool :=
  match (s.threadLocks.take s.used).findIdx? (· == some lock) with
  | some i =>
    let used := s.used - 1
    { s with
      used := used
      threadLocks := if i ≠ used then swapAt s.threadLocks i used else s.threadLocks }
  | none => { s with freed := lock :: s.freed }

/-- A lock that is allocated is none of those that are. -/
def Fresh : Option Lock → Prop
  | none => True
  | some l => some l ∉ s.threadLocks ∧ l ∉ s.live

instance (lock : Option Lock) : Decidable (s.Fresh lock) :=
  match lock with
  | none => .isTrue trivial
  | some _ => inferInstanceAs (Decidable (_ ∧ _))

def step (s : LockPool) : ViewEvent → Option (LockPool × ViewOutcome)
  | .cinit lock => if s.Fresh lock then some (s.cinit lock) else none
  | .noBuffer => some (s, .bufferError)
  | .dealloc view =>
    s.live[view]?.map fun lock =>
      ({ s with live := s.live.eraseIdx view }.release lock, .done)

/-- A creation does not come to an entry of the array that is `NULL`. -/
def FindsLock (s : LockPool) : ViewEvent → Prop
  | .cinit _ => s.threadLocks[s.used]? ≠ some none
  | _ => True

/-- The locks of live memoryviews that come from the array, and the others. -/
def pooled (pool : Preallocated) : List Lock := s.live.filter fun l => some l ∈ pool.locks

def single (pool : Preallocated) : List Lock := s.live.filter fun l => some l ∉ pool.locks

/-- What holds of the locks. -/
structure Sound (pool : Preallocated) (s : LockPool) : Prop where
  locks_perm : s.threadLocks.Perm pool.locks
  used_le : s.used ≤ s.threadLocks.length
  used_perm : (s.threadLocks.take s.used).Perm ((s.pooled pool).map some)
  live_nodup : s.live.Nodup
  not_freed : ∀ l ∈ s.freed, some l ∉ pool.locks
  freed_once : ∀ l, s.allocated.count l = s.freed.count l + (s.single pool).count l

/-! ## Creation -/

variable {s} {pool : Preallocated} {lock : Option Lock} {l : Lock}

theorem entry_eq : s.entry = s.threadLocks[s.used]?.join := by
  rw [entry, List.getD_eq_getElem?_getD]
  split
  next h => rw [List.getElem?_eq_getElem h]; rfl
  next h => rw [List.getElem?_eq_none (Nat.not_lt.1 h)]; rfl

theorem cinit_of_entry (h : s.threadLocks[s.used]? = some (some l)) :
    s.cinit lock = ({ s with used := s.used + 1, live := s.live ++ [l] }, .done) := by
  obtain ⟨hlt, -⟩ := List.getElem?_eq_some_iff.1 h
  unfold cinit
  rw [entry_eq, h, takeEntry, if_pos hlt]
  rfl

theorem cinit_of_null (lock : Option Lock) (h : s.threadLocks[s.used]? = some none) :
    (s.cinit lock).1.threadLocks = s.threadLocks ∧ (s.cinit lock).1.used = s.used + 1 := by
  obtain ⟨hlt, -⟩ := List.getElem?_eq_some_iff.1 h
  unfold cinit
  rw [entry_eq, h, takeEntry, if_pos hlt]
  cases lock <;> exact ⟨rfl, rfl⟩

theorem cinit_of_full (h : s.threadLocks.length ≤ s.used) :
    s.cinit (some l) =
        ({ s with live := s.live ++ [l], allocated := l :: s.allocated }, .done) ∧
      s.cinit none = (s, .memoryError) := by
  unfold cinit
  rw [entry_eq, List.getElem?_eq_none h, takeEntry, if_neg (Nat.not_lt.2 h)]
  exact ⟨rfl, rfl⟩

theorem init_sound (pool : Preallocated) : Sound pool (init pool) where
  locks_perm := .refl _
  used_le := Nat.zero_le _
  used_perm := .refl _
  live_nodup := .nil
  not_freed _ h := absurd h List.not_mem_nil
  freed_once _ := rfl

namespace Sound

variable (h : Sound pool s)

include h

/-- The array has each of its locks once. -/
theorem reduceOption_nodup : s.threadLocks.reduceOption.Nodup :=
  (h.locks_perm.filterMap id).nodup_iff.2 pool.nodup

/-- A live memoryview holds a lock of the array exactly if that is used. -/
theorem mem_take_iff (hl : l ∈ s.live) :
    some l ∈ s.threadLocks.take s.used ↔ some l ∈ pool.locks := by
  rw [h.used_perm.mem_iff, List.mem_map_of_injective (Option.some_injective _), pooled,
    List.mem_filter, decide_eq_true_iff]
  exact and_iff_right hl

/-- The next lock of the array is not held. -/
theorem next_not_mem (hentry : s.threadLocks[s.used]? = some (some l)) : l ∉ s.live := by
  intro hl
  obtain ⟨hlt, hget⟩ := List.getElem?_eq_some_iff.1 hentry
  have htake : some l ∈ s.threadLocks.take s.used :=
    (h.mem_take_iff hl).2 (h.locks_perm.mem_iff.1 (List.mem_of_getElem? hentry))
  have hdrop : some l ∈ s.threadLocks.drop s.used := by
    rw [List.drop_eq_getElem_cons hlt, hget]
    exact List.mem_cons_self
  have hnodup := h.reduceOption_nodup
  rw [← List.take_append_drop s.used s.threadLocks, List.reduceOption_append,
    List.nodup_append] at hnodup
  exact hnodup.2.2 l (List.reduceOption_mem_iff.2 htake) l (List.reduceOption_mem_iff.2 hdrop) rfl

theorem cinit_entry (hentry : s.threadLocks[s.used]? = some (some l)) :
    Sound pool (s.cinit lock).1 := by
  obtain ⟨hlt, hget⟩ := List.getElem?_eq_some_iff.1 hentry
  have hpool : some l ∈ pool.locks := h.locks_perm.mem_iff.1 (List.mem_of_getElem? hentry)
  rw [cinit_of_entry hentry]
  exact
    { locks_perm := h.locks_perm
      used_le := hlt
      used_perm := by
        rw [pooled, List.filter_append, List.filter_singleton, decide_eq_true hpool,
          List.map_append, List.take_add_one, hentry]
        exact h.used_perm.append (.refl _)
      live_nodup := by
        rw [List.nodup_append]
        refine ⟨h.live_nodup, List.nodup_singleton l, fun a ha b hb hab => ?_⟩
        rw [List.mem_singleton.1 hb] at hab
        exact h.next_not_mem hentry (hab ▸ ha)
      not_freed := h.not_freed
      freed_once := fun l' => by
        rw [single, List.filter_append, List.filter_singleton, decide_eq_false (not_not.2 hpool)]
        exact (h.freed_once l').trans (by rw [single]; simp) }

theorem cinit_single (hfull : s.threadLocks.length ≤ s.used) (hfresh : s.Fresh lock) :
    Sound pool (s.cinit lock).1 := by
  cases lock with
  | none =>
    rw [(cinit_of_full (l := 0) hfull).2]
    exact h
  | some l =>
    obtain ⟨hthread, hlive⟩ := hfresh
    have hpool : some l ∉ pool.locks := fun hmem => hthread (h.locks_perm.mem_iff.2 hmem)
    rw [(cinit_of_full hfull).1]
    exact
      { locks_perm := h.locks_perm
        used_le := h.used_le
        used_perm := by
          rw [pooled, List.filter_append, List.filter_singleton, decide_eq_false hpool]
          exact h.used_perm.trans (.of_eq (by rw [pooled]; simp))
        live_nodup := by
          rw [List.nodup_append]
          refine ⟨h.live_nodup, List.nodup_singleton l, fun a ha b hb hab => ?_⟩
          rw [List.mem_singleton.1 hb] at hab
          exact hlive (hab ▸ ha)
        not_freed := h.not_freed
        freed_once := fun l' => by
          rw [single, List.filter_append, List.filter_singleton, decide_eq_true hpool,
            List.count_append, List.count_cons, h.freed_once l', single]
          simp [List.count_singleton]
          omega }

/-! ## Deallocation -/

omit h in
/-- The locks of the views that stay, for a view that has a lock of the array or one of its
    own. -/
theorem live_perm {view : ℕ} (hview : s.live[view]? = some l) :
    (l :: s.live.eraseIdx view).Perm s.live := by
  obtain ⟨hlt, rfl⟩ := List.getElem?_eq_some_iff.1 hview
  exact List.getElem_cons_eraseIdx_perm hlt

theorem release_pooled {view i : ℕ} (hview : s.live[view]? = some l)
    (hi : (s.threadLocks.take s.used).findIdx? (· == some l) = some i) :
    Sound pool ({ s with live := s.live.eraseIdx view }.release l) := by
  obtain ⟨hlt, heq, -⟩ := List.findIdx?_eq_some_iff_getElem.1 hi
  rw [beq_iff_eq, List.getElem_take] at heq
  rw [List.length_take, lt_min_iff] at hlt
  have hperm := live_perm hview
  have hpool : some l ∈ pool.locks :=
    (h.mem_take_iff (List.mem_of_getElem? hview)).1 (List.mem_of_getElem? (i := i) (by
      rw [List.getElem?_take_of_lt hlt.1, List.getElem?_eq_getElem hlt.2, heq]))
  have hused := h.used_le
  -- Without an exchange the array is that after an exchange of the entry with itself.
  have hlocks : (if i ≠ s.used - 1 then swapAt s.threadLocks i (s.used - 1) else s.threadLocks) =
      swapAt s.threadLocks i (s.used - 1) := by
    split
    next => rfl
    next hne =>
      obtain rfl : i = s.used - 1 := not_not.1 hne
      rw [swapAt_eq hlt.2 hlt.2, List.set_getElem_self, List.set_getElem_self]
  have hswap : (swapAt s.threadLocks i (s.used - 1)).Perm s.threadLocks :=
    swapAt_perm hlt.2 (by omega)
  have hfilter : ∀ p : Lock → Bool,
      ((l :: s.live.eraseIdx view).filter p).Perm (s.live.filter p) := fun p => hperm.filter p
  have htake := cons_take_swapAt_perm (l := s.threadLocks) (show i ≤ s.used - 1 by omega)
    (by omega)
  rw [heq, Nat.sub_add_cancel (by omega)] at htake
  rw [release]
  dsimp only
  rw [hi]
  dsimp only
  rw [hlocks]
  exact
    { locks_perm := hswap.trans h.locks_perm
      used_le := by
        rw [hswap.length_eq]
        exact (Nat.sub_le _ _).trans hused
      used_perm := by
        have hpooled := (hfilter fun l => decide (some l ∈ pool.locks)).map some
        rw [List.filter_cons_of_pos (by simpa using hpool), List.map_cons] at hpooled
        exact (List.perm_cons _).1 ((htake.trans h.used_perm).trans hpooled.symm)
      live_nodup := (List.nodup_cons.1 (hperm.nodup_iff.2 h.live_nodup)).2
      not_freed := h.not_freed
      freed_once := fun l' => by
        have hsingle := (hfilter fun l => decide (some l ∉ pool.locks)).count_eq l'
        rw [List.filter_cons_of_neg (by simpa using hpool)] at hsingle
        rw [h.freed_once l', single, single, hsingle] }

theorem release_single {view : ℕ} (hview : s.live[view]? = some l)
    (hi : (s.threadLocks.take s.used).findIdx? (· == some l) = none) :
    Sound pool ({ s with live := s.live.eraseIdx view }.release l) := by
  have hperm := live_perm hview
  have hpool : some l ∉ pool.locks := by
    rw [← h.mem_take_iff (List.mem_of_getElem? hview)]
    intro hmem
    have := List.findIdx?_eq_none_iff.1 hi _ hmem
    simp at this
  have hfilter : ∀ p : Lock → Bool,
      ((l :: s.live.eraseIdx view).filter p).Perm (s.live.filter p) := fun p => hperm.filter p
  rw [release]
  dsimp only
  rw [hi]
  exact
    { locks_perm := h.locks_perm
      used_le := h.used_le
      used_perm := by
        have hpooled := (hfilter fun l => decide (some l ∈ pool.locks)).map some
        rw [List.filter_cons_of_neg (by simpa using hpool)] at hpooled
        exact h.used_perm.trans hpooled.symm
      live_nodup := (List.nodup_cons.1 (hperm.nodup_iff.2 h.live_nodup)).2
      not_freed := fun l' hl' => by
        rcases List.mem_cons.1 hl' with rfl | hl'
        · exact hpool
        · exact h.not_freed l' hl'
      freed_once := fun l' => by
        have hsingle := (hfilter fun l => decide (some l ∉ pool.locks)).count_eq l'
        rw [List.filter_cons_of_pos (by simpa using hpool), List.count_cons] at hsingle
        change s.allocated.count l' = (l :: s.freed).count l' + _
        rw [h.freed_once l', single, single, ← hsingle, List.count_cons]
        dsimp only
        omega }

/-! ## Runs -/

theorem step_sound {s' : LockPool} {e : ViewEvent} {out : ViewOutcome} (hfinds : s.FindsLock e)
    (hstep : step s e = some (s', out)) : Sound pool s' := by
  cases e with
  | cinit lock =>
    rw [step] at hstep
    split at hstep
    next hfresh =>
      obtain rfl : (s.cinit lock).1 = s' := congrArg Prod.fst (Option.some.inj hstep)
      rcases hentry : s.threadLocks[s.used]? with - | - | l
      · exact h.cinit_single (List.getElem?_eq_none_iff.1 hentry) hfresh
      · exact absurd hentry hfinds
      · exact h.cinit_entry hentry
    next => cases hstep
  | noBuffer =>
    obtain rfl : s = s' := congrArg Prod.fst (Option.some.inj hstep)
    exact h
  | dealloc view =>
    obtain ⟨l, hview, heq⟩ := Option.map_eq_some_iff.1 hstep
    obtain rfl := congrArg Prod.fst heq
    rcases hi : (s.threadLocks.take s.used).findIdx? (· == some l) with - | i
    · exact h.release_single hview hi
    · exact h.release_pooled hview hi

end Sound

/-- In runs in which no creation comes to an entry of the array that is `NULL`, the locks are as
    they should be in every state. -/
theorem sound_of_reaches (h : Reaches step FindsLock (init pool) s) : Sound pool s :=
  h.invariant (init_sound pool) fun _ _ _ _ hs hfinds hstep => hs.step_sound hfinds hstep

theorem nodup_one : [some (1 : Lock)].reduceOption.Nodup := List.nodup_singleton 1

/-- An array with one lock. -/
def onePool : Preallocated := ⟨[some 1], nodup_one⟩

/-- Two memoryviews, the second with a lock of its own; the first is deallocated. -/
theorem sound_secondView : Sound onePool ⟨[some 1], 0, [2], [2], []⟩ := by
  have hfirst : Reaches step FindsLock (init onePool) ⟨[some 1], 1, [1], [], []⟩ :=
    Reaches.init.step (show FindsLock _ (.cinit none) by unfold FindsLock; decide)
      (show step _ _ = some (_, .done) from rfl)
  have hsecond : Reaches step FindsLock (init onePool) ⟨[some 1], 1, [1, 2], [2], []⟩ :=
    hfirst.step (show FindsLock _ (.cinit (some 2)) by unfold FindsLock; decide)
      (show step _ _ = some (_, .done) by decide)
  exact sound_of_reaches (hsecond.step (show FindsLock _ (.dealloc 0) from trivial)
    (show step _ _ = some (_, .done) by decide))

/-- A creation that comes to such an entry counts it as used, and no memoryview holds it. -/
theorem not_sound_of_null (h : s.threadLocks[s.used]? = some none) :
    ¬Sound pool (s.cinit lock).1 := by
  intro hsound
  obtain ⟨hlocks, hused⟩ := cinit_of_null lock h
  have hmem : none ∈ (s.cinit lock).1.threadLocks.take (s.cinit lock).1.used := by
    rw [hlocks, hused, List.take_add_one, h]
    exact List.mem_append_right _ List.mem_cons_self
  obtain ⟨l, -, hl⟩ := List.mem_map.1 (hsound.used_perm.mem_iff.1 hmem)
  cases hl

theorem nodup_null : ([none] : List (Option Lock)).reduceOption.Nodup := List.nodup_nil

/-- An array whose lock could not be allocated. -/
def nullPool : Preallocated := ⟨[none], nodup_null⟩

/-- The first memoryview gets a lock of its own, and the entry stays used after it. -/
theorem not_sound_nullPool :
    ∃ s s', step (init nullPool) (.cinit (some 1)) = some (s, .done) ∧ ¬Sound nullPool s ∧
      step s (.dealloc 0) = some (s', .done) ∧ s'.live = [] ∧ s'.used = 1 :=
  ⟨((init nullPool).cinit (some 1)).1, ⟨[none], 1, [], [1], [1]⟩, by decide,
    not_sound_of_null rfl, by decide, rfl, rfl⟩

end LockPool

end AHPy.MemoryView
