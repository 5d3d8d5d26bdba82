import Mathlib

/-!
# Overwritten memory

A memory is a map of addresses to values. Steps that copy from addresses that none
of them writes to can be composed without looking at their order: each writes its
part of the values that are to be there in the end.

* `Overwrites v W m m'`: `m'` is `m`, but with the values of `v` at the addresses `W`;
* `Writes v D m B step`: wherever some of the addresses `D` are overwritten with the
  values of `v`, `step` overwrites those in `B` too;
* `Writes.seq`, `Writes.iterate`: the rules for sequences and loops.
-/

namespace AHPy

universe u v

variable {α : Type u} {β : Type v} {v : α → β} {D B B' W : Set α} {m m' : α → β}
  {step step' : (α → β) → Option (α → β)}

/-- `m'` is `m` with the values of `v` at the addresses `W`. -/
structure Overwrites (v : α → β) (W : Set α) (m m' : α → β) : Prop where
  written : ∀ a ∈ W, m' a = v a
  frame : ∀ a ∉ W, m' a = m a

theorem Overwrites.refl (v : α → β) (m : α → β) : Overwrites v ∅ m m :=
  ⟨fun _ ha => absurd ha (Set.notMem_empty _), fun _ _ => rfl⟩

/-- A step overwrites the addresses `B`, when only addresses in `D` are overwritten. -/
structure Writes (v : α → β) (D : Set α) (m : α → β) (B : Set α)
    (step : (α → β) → Option (α → β)) : Prop where
  subset : B ⊆ D
  step : ∀ W m', W ⊆ D → Overwrites v W m m' →
    ∃ m'', step m' = some m'' ∧ Overwrites v (W ∪ B) m m''

theorem Writes.skip (v : α → β) (D : Set α) (m : α → β) : Writes v D m ∅ some where
  subset := Set.empty_subset D
  step := fun W m' _ h => ⟨m', rfl, by rwa [Set.union_empty]⟩

theorem Writes.seq (h : Writes v D m B step) (h' : Writes v D m B' step') :
    Writes v D m (B ∪ B') fun m => (step m).bind step' where
  subset := Set.union_subset h.subset h'.subset
  step := by
    intro W m₀ hW h₀
    obtain ⟨m₁, hs₁, h₁⟩ := h.step W m₀ hW h₀
    obtain ⟨m₂, hs₂, h₂⟩ := h'.step (W ∪ B) m₁ (Set.union_subset hW h.subset) h₁
    refine ⟨m₂, ?_, by rwa [← Set.union_assoc]⟩
    rw [hs₁]
    exact hs₂

/-- Steps one after the other. -/
def iterateSteps (f : Nat → (α → β) → Option (α → β)) : Nat → (α → β) → Option (α → β)
  | 0, m => some m
  | n + 1, m => (f 0 m).bind (iterateSteps (fun i => f (i + 1)) n)

theorem Writes.iterate {f : Nat → (α → β) → Option (α → β)} {B : Nat → Set α} {n : Nat}
    (h : ∀ i < n, Writes v D m (B i) (f i)) :
    Writes v D m {a | ∃ i < n, a ∈ B i} (iterateSteps f n) := by
  induction n generalizing f B with
  | zero =>
    have hempty : {a | ∃ i < 0, a ∈ B i} = ∅ := by
      ext a
      simp
    rw [hempty]
    exact Writes.skip v D m
  | succ n ih =>
    have hunion : {a | ∃ i < n + 1, a ∈ B i} = B 0 ∪ {a | ∃ i < n, a ∈ B (i + 1)} := by
      ext a
      constructor
      · rintro ⟨_ | i, hi, ha⟩
        · exact .inl ha
        · exact .inr ⟨i, Nat.lt_of_succ_lt_succ hi, ha⟩
      · rintro (ha | ⟨i, hi, ha⟩)
        · exact ⟨0, Nat.succ_pos n, ha⟩
        · exact ⟨i + 1, Nat.succ_lt_succ hi, ha⟩
    rw [hunion]
    exact (h 0 (Nat.succ_pos n)).seq (ih fun i hi => h (i + 1) (Nat.succ_lt_succ hi))

/-- What a step writes into the memory that it is about. -/
theorem Writes.run (h : Writes v D m B step) : ∃ m', step m = some m' ∧ Overwrites v B m m' := by
  obtain ⟨m', hs, h'⟩ := h.step ∅ m (Set.empty_subset D) (.refl v m)
  exact ⟨m', hs, by rwa [Set.empty_union] at h'⟩

end AHPy
