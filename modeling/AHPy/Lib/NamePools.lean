import Mathlib

/-!
# Pools of names

A pool hands out names, each for a key, and takes them back to hand them out again. What
has happened to the names is a history, that goes back from what was last.

* `InUse`: a name was handed out, and has not been taken back;
* `Disciplined`: only names that are not in use are handed out, again only for the same key
  and if they are reusable, and only names in use are taken back.
-/

namespace AHPy

/-- What happens to a name. -/
inductive PoolEvent (ν κ : Type*) where
  | allocated (name : ν) (key : κ) (reusable : Bool)
  | released (name : ν)

namespace PoolEvent

variable {ν κ : Type*} {name : ν} {key key' : κ} {reusable reusable' : Bool}
  {history : List (PoolEvent ν κ)}

/-- The name was handed out, and has not been taken back. -/
def InUse (name : ν) : List (PoolEvent ν κ) → Prop
  | [] => False
  | .allocated name' _ _ :: history => name = name' ∨ InUse name history
  | .released name' :: history => name ≠ name' ∧ InUse name history

/-- The pool keeps to its rules. -/
inductive Disciplined : List (PoolEvent ν κ) → Prop
  | nil : Disciplined []
  | allocated {history : List (PoolEvent ν κ)} {name : ν} {key : κ} {reusable : Bool} :
      Disciplined history → ¬InUse name history →
      (∀ key' reusable', .allocated name key' reusable' ∈ history →
        reusable' = true ∧ key' = key) →
      Disciplined (.allocated name key reusable :: history)
  | released {history : List (PoolEvent ν κ)} {name : ν} : Disciplined history →
      InUse name history → Disciplined (.released name :: history)

theorem mem_of_inUse (h : InUse name history) :
    ∃ key reusable, .allocated name key reusable ∈ history := by
  induction history with
  | nil => exact h.elim
  | cons event history ih =>
    cases event with
    | allocated name' key reusable =>
      rcases h with rfl | h
      · exact ⟨key, reusable, List.mem_cons_self⟩
      · obtain ⟨key, reusable, hmem⟩ := ih h
        exact ⟨key, reusable, List.mem_cons_of_mem _ hmem⟩
    | released name' =>
      obtain ⟨key, reusable, hmem⟩ := ih h.2
      exact ⟨key, reusable, List.mem_cons_of_mem _ hmem⟩

end PoolEvent

end AHPy
