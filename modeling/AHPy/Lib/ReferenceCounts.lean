import Mathlib

/-!
# Reference counts

Increments and decrements of the reference counts of objects, in order.

* `refsAfter_exchange`: the counts after references are exchanged for others;
* `reachesZero_exchange_iff`: an object is freed meanwhile exactly if the references that are given
  up are all there are.
-/

namespace AHPy

/-- An operation on a reference count. -/
inductive RefOp (α : Type) where
  | incref (o : α)
  | decref (o : α)

variable {α : Type} [DecidableEq α]

namespace RefOp

/-- The counts after an operation. -/
def apply (refs : α → ℤ) : RefOp α → α → ℤ
  | incref o => Function.update refs o (refs o + 1)
  | decref o => Function.update refs o (refs o - 1)

end RefOp

/-- The counts after some operations. -/
def refsAfter (refs : α → ℤ) (ops : List (RefOp α)) : α → ℤ := ops.foldl RefOp.apply refs

/-- The number of references to an object. -/
def referencesTo (o : α) (held : List α) : ℕ := held.count o

/-- A reference is given up, and no other is left. -/
def ReachesZero (refs : α → ℤ) (ops : List (RefOp α)) (o : α) : Prop :=
  ∃ before after, ops = before ++ .decref o :: after ∧
    refsAfter refs (before ++ [.decref o]) o ≤ 0

section

variable {refs : α → ℤ} {olds news : List α} {o : α}

theorem refsAfter_append (refs : α → ℤ) (ops ops' : List (RefOp α)) :
    refsAfter refs (ops ++ ops') = refsAfter (refsAfter refs ops) ops' :=
  List.foldl_append

/-- The counts after the same operation on some objects. -/
theorem refsAfter_map {op : α → RefOp α} {d : ℤ}
    (hop : ∀ refs x, (op x).apply refs = Function.update refs x (refs x + d))
    (refs : α → ℤ) (l : List α) (o : α) :
    refsAfter refs (l.map op) o = refs o + l.count o * d := by
  induction l generalizing refs with
  | nil => simp [refsAfter]
  | cons x l ih =>
    have hstep : refsAfter refs ((x :: l).map op) = refsAfter ((op x).apply refs) (l.map op) := rfl
    rw [hstep, ih, hop]
    by_cases h : x = o
    · rw [h, Function.update_self, List.count_cons_self]
      push_cast
      ring
    · rw [Function.update_of_ne (Ne.symm h), List.count_cons_of_ne h]

theorem refsAfter_decrefs (refs : α → ℤ) (olds : List α) (o : α) :
    refsAfter refs (olds.map .decref) o = refs o - olds.count o := by
  rw [refsAfter_map fun _ _ => rfl, mul_neg_one, sub_eq_add_neg]

theorem refsAfter_increfs (refs : α → ℤ) (news : List α) (o : α) :
    refsAfter refs (news.map .incref) o = refs o + news.count o := by
  rw [refsAfter_map fun _ _ => rfl, mul_one]

/-- References to objects are exchanged for others. -/
theorem refsAfter_exchange (refs : α → ℤ) (olds news : List α) (o : α) :
    refsAfter refs (olds.map .decref ++ news.map .incref) o =
      refs o - referencesTo o olds + referencesTo o news := by
  rw [refsAfter_append, refsAfter_increfs, refsAfter_decrefs]
  rfl

omit [DecidableEq α] in
/-- A decrement is among the first operations. -/
theorem exists_of_map_append {before after : List (RefOp α)}
    (h : olds.map .decref ++ news.map .incref = before ++ .decref o :: after) :
    ∃ xs ys, olds = xs ++ o :: ys ∧ before = xs.map .decref := by
  induction olds generalizing before with
  | nil =>
    exfalso
    have hmem : RefOp.decref o ∈ news.map .incref := by
      have hmem : RefOp.decref o ∈ before ++ .decref o :: after := by simp
      rwa [← h] at hmem
    simp at hmem
  | cons x olds ih =>
    cases before with
    | nil =>
      obtain ⟨hx, -⟩ := List.cons.inj h
      obtain rfl := RefOp.decref.inj hx
      exact ⟨[], olds, rfl, rfl⟩
    | cons op before =>
      obtain ⟨rfl, hrest⟩ := List.cons.inj h
      obtain ⟨xs, ys, rfl, rfl⟩ := ih hrest
      exact ⟨x :: xs, ys, rfl, rfl⟩

/-- An object is freed when the last of its references is given up, before there are new ones. -/
theorem reachesZero_exchange_iff : ReachesZero refs (olds.map .decref ++ news.map .incref) o ↔
    o ∈ olds ∧ refs o ≤ referencesTo o olds := by
  rw [referencesTo]
  have hdecrefs (xs : List α) : refsAfter refs (xs.map .decref ++ [.decref o]) o =
      refs o - xs.count o - 1 := by
    have hmap : xs.map RefOp.decref ++ [.decref o] = (xs ++ [o]).map RefOp.decref := by simp
    rw [hmap, refsAfter_decrefs, List.count_append, List.count_singleton_self]
    push_cast
    ring
  constructor
  · rintro ⟨before, after, heq, hle⟩
    obtain ⟨xs, ys, rfl, rfl⟩ := exists_of_map_append heq
    rw [hdecrefs] at hle
    refine ⟨by simp, ?_⟩
    rw [List.count_append, List.count_cons_self]
    push_cast
    omega
  · rintro ⟨hmem, hle⟩
    -- The last one of the references.
    obtain ⟨xs, ys, rfl, hys⟩ : ∃ xs ys, olds = xs ++ o :: ys ∧ o ∉ ys := by
      obtain ⟨ys, xs, heq, hys⟩ := List.eq_append_cons_of_mem (List.mem_reverse.2 hmem)
      refine ⟨xs.reverse, ys.reverse, ?_, fun h => hys (List.mem_reverse.1 h)⟩
      rw [← List.reverse_reverse olds, heq]
      simp
    refine ⟨xs.map .decref, ys.map .decref ++ news.map .incref, by simp, ?_⟩
    rw [hdecrefs]
    rw [List.count_append, List.count_cons_self, List.count_eq_zero_of_not_mem hys] at hle
    push_cast at hle
    omega

theorem referencesTo_perm {held held' : List α} (h : held.Perm held') :
    referencesTo o held = referencesTo o held' :=
  h.count_eq o

theorem referencesTo_le_one {held : List α} (h : held.Nodup) : referencesTo o held ≤ 1 :=
  List.nodup_iff_count_le_one.1 h o

end

end AHPy
