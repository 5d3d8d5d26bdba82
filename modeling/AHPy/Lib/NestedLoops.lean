import Mathlib

/-!
# Nested loops

The numbers that nested loops go through, each loop by a stride of its own, as a multiset.

* `nestedLoops_snoc`: the last loop can be the outermost one;
* `nestedLoops_reverse`: the loops can be nested the other way.
-/

namespace AHPy

/-- The numbers of `n` nested loops, from the outermost one. -/
def nestedLoops (extents : ℕ → ℕ) (strides : ℕ → ℤ) : ℕ → ℤ → List ℤ
  | 0, start => [start]
  | n + 1, start => (List.range (extents 0)).flatMap fun i : ℕ =>
    nestedLoops (fun j => extents (j + 1)) (fun j => strides (j + 1)) n (start + i * strides 0)

section

variable {extents extents' : ℕ → ℕ} {strides strides' : ℕ → ℤ} {n m : ℕ} {start : ℤ}

theorem nestedLoops_congr (hextents : ∀ i < n, extents i = extents' i)
    (hstrides : ∀ i < n, strides i = strides' i) :
    nestedLoops extents strides n start = nestedLoops extents' strides' n start := by
  induction n generalizing extents extents' strides strides' start with
  | zero => rfl
  | succ n ih =>
    rw [nestedLoops, nestedLoops, hextents 0 n.succ_pos, hstrides 0 n.succ_pos]
    congr 1
    funext i
    exact ih (fun j hj => hextents _ (Nat.succ_lt_succ hj)) fun j hj =>
      hstrides _ (Nat.succ_lt_succ hj)

/-- Loops that go through one number only. -/
theorem nestedLoops_append_of_one (hextents : ∀ i < n, extents i = 1) :
    nestedLoops extents strides (n + m) start =
      nestedLoops (fun j => extents (n + j)) (fun j => strides (n + j)) m start := by
  induction n generalizing extents strides start with
  | zero => simp only [Nat.zero_add]
  | succ n ih =>
    have hone : List.range (extents 0) = [0] := by
      rw [hextents 0 n.succ_pos]
      rfl
    rw [Nat.succ_add, nestedLoops, hone, List.flatMap_singleton,
      ih fun i hi => hextents _ (Nat.succ_lt_succ hi)]
    simp only [Nat.cast_zero, zero_mul, add_zero]
    exact nestedLoops_congr (fun j _ => congrArg extents (by omega))
      fun j _ => congrArg strides (by omega)

/-- The numbers in any order. -/
theorem coe_nestedLoops_succ (extents : ℕ → ℕ) (strides : ℕ → ℤ) (n : ℕ) (start : ℤ) :
    (nestedLoops extents strides (n + 1) start : Multiset ℤ) =
      (Multiset.range (extents 0)).bind fun i =>
        (nestedLoops (fun j => extents (j + 1)) (fun j => strides (j + 1)) n
          (start + i * strides 0) : Multiset ℤ) := by
  rw [nestedLoops, ← Multiset.coe_range, Multiset.coe_bind]

/-- The last loop is the outermost one: by induction on the loops, two of which change places. -/
theorem nestedLoops_snoc (extents : ℕ → ℕ) (strides : ℕ → ℤ) (n : ℕ) (start : ℤ) :
    (nestedLoops extents strides (n + 1) start : Multiset ℤ) =
      (Multiset.range (extents n)).bind fun i =>
        (nestedLoops extents strides n (start + i * strides n) : Multiset ℤ) := by
  induction n generalizing extents strides start with
  | zero => exact coe_nestedLoops_succ extents strides 0 start
  | succ n ih =>
    have hinner (i : ℕ) := ih (fun j => extents (j + 1)) (fun j => strides (j + 1))
      (start + i * strides 0)
    have houter (i : ℕ) := coe_nestedLoops_succ extents strides n (start + i * strides (n + 1))
    rw [coe_nestedLoops_succ]
    simp only [hinner, houter]
    rw [Multiset.bind_bind]
    simp only [add_right_comm]

/-- The loops from the innermost to the outermost. -/
theorem nestedLoops_reverse (extents : ℕ → ℕ) (strides : ℕ → ℤ) (n : ℕ) (start : ℤ) :
    (nestedLoops (fun i => extents (n - 1 - i)) (fun i => strides (n - 1 - i)) n start :
      Multiset ℤ) = nestedLoops extents strides n start := by
  induction n generalizing start with
  | zero => rfl
  | succ n ih =>
    rw [coe_nestedLoops_succ, nestedLoops_snoc]
    refine Multiset.bind_congr fun i _ => ?_
    rw [← ih]
    congr 1
    exact nestedLoops_congr (fun j _ => congrArg extents (by omega))
      fun j _ => congrArg strides (by omega)

/-- The outer loops, and the inner ones from each of their numbers. -/
theorem nestedLoops_append (extents : ℕ → ℕ) (strides : ℕ → ℤ) (n m : ℕ) (start : ℤ) :
    nestedLoops extents strides (n + m) start =
      (nestedLoops extents strides n start).flatMap
        (nestedLoops (fun j => extents (n + j)) (fun j => strides (n + j)) m) := by
  induction n generalizing extents strides start with
  | zero => simp [nestedLoops]
  | succ n ih =>
    rw [Nat.succ_add, nestedLoops, nestedLoops, List.flatMap_assoc]
    congr 1
    funext i
    rw [ih]
    simp only [Nat.add_right_comm n 1]

/-- Some of the outer loops are nested the other way. -/
theorem nestedLoops_reverse_outer (extents : ℕ → ℕ) (strides : ℕ → ℤ) (n m : ℕ) (start : ℤ) :
    (nestedLoops (fun i => extents (if i < n then n - 1 - i else i))
      (fun i => strides (if i < n then n - 1 - i else i)) (n + m) start : Multiset ℤ) =
        nestedLoops extents strides (n + m) start := by
  have houter : nestedLoops (fun i => extents (if i < n then n - 1 - i else i))
      (fun i => strides (if i < n then n - 1 - i else i)) n start =
        nestedLoops (fun i => extents (n - 1 - i)) (fun i => strides (n - 1 - i)) n start :=
    nestedLoops_congr (fun i hi => by rw [if_pos hi]) fun i hi => by rw [if_pos hi]
  have hinner (j : ℕ) : (if n + j < n then n - 1 - (n + j) else n + j) = n + j :=
    if_neg (by omega)
  rw [nestedLoops_append, nestedLoops_append, ← Multiset.coe_bind, ← Multiset.coe_bind, houter,
    nestedLoops_reverse]
  simp only [hinner]

end

end AHPy
