import Mathlib

/-!
# Lexicographic order

* `compareLex_take`: two lists are compared by what they have in common, then by their
  lengths;
* `compare_add_mul`: two numbers with a leading digit are compared by it first.
-/

namespace AHPy

universe u

variable {α : Type u} {cmp : α → α → Ordering}

/-- Lists are compared up to the length of the shorter one, then by their lengths. -/
theorem compareLex_take (as bs : List α) {n : Nat} (hn : n = min as.length bs.length) :
    List.compareLex cmp as bs = (List.compareLex cmp (as.take n) (bs.take n)).then
      (compare as.length bs.length) := by
  subst hn
  induction as generalizing bs with
  | nil =>
    rcases bs with _ | ⟨b, bs⟩
    · rfl
    · have hlt : compare ([] : List α).length (b :: bs).length = .lt :=
        compare_lt_iff_lt.2 (Nat.succ_pos _)
      rw [hlt]
      rfl
  | cons a as ih =>
    rcases bs with _ | ⟨b, bs⟩
    · have hgt : compare (a :: as).length ([] : List α).length = .gt :=
        compare_gt_iff_gt.2 (Nat.succ_pos _)
      rw [hgt]
      rfl
    · have hmin : min (a :: as).length (b :: bs).length = min as.length bs.length + 1 :=
        Nat.succ_min_succ _ _
      have hcompare : compare (a :: as).length (b :: bs).length =
          compare as.length bs.length := by
        rw [List.length_cons, List.length_cons]
        rcases lt_trichotomy as.length bs.length with h | h | h
        · rw [compare_lt_iff_lt.2 h, compare_lt_iff_lt.2 (Nat.succ_lt_succ h)]
        · rw [compare_eq_iff_eq.2 h, compare_eq_iff_eq.2 (congrArg Nat.succ h)]
        · rw [compare_gt_iff_gt.2 h, compare_gt_iff_gt.2 (Nat.succ_lt_succ h)]
      rw [hmin, List.take_succ_cons, List.take_succ_cons, List.compareLex_cons_cons,
        List.compareLex_cons_cons, ih, hcompare]
      rcases cmp a b <;> rfl

theorem compareLex_self (hcmp : ∀ a, cmp a a = .eq) (as : List α) :
    List.compareLex cmp as as = .eq := by
  induction as with
  | nil => rfl
  | cons a as ih => rw [List.compareLex_cons_cons, hcmp, ih]; rfl

theorem eq_of_compareLex_eq (hcmp : ∀ a b, cmp a b = .eq → a = b) {as bs : List α}
    (h : List.compareLex cmp as bs = .eq) : as = bs := by
  induction as generalizing bs with
  | nil =>
    rcases bs with _ | ⟨b, bs⟩
    · rfl
    · exact absurd h (by rw [List.compareLex_nil_cons]; decide)
  | cons a as ih =>
    rcases bs with _ | ⟨b, bs⟩
    · exact absurd h (by rw [List.compareLex_cons_nil]; decide)
    · rw [List.compareLex_cons_cons, Ordering.then_eq_eq] at h
      rw [hcmp a b h.1, ih h.2]

/-- Numbers are compared by their leading digits first. -/
theorem compare_add_mul {a a' p d d' : Nat} (ha : a < p) (ha' : a' < p) :
    compare (a + p * d) (a' + p * d') = (compare d d').then (compare a a') := by
  rcases lt_trichotomy d d' with h | rfl | h
  · rw [compare_lt_iff_lt.2 h]
    refine compare_lt_iff_lt.2 ?_
    have := Nat.mul_le_mul_left p (Nat.succ_le_of_lt h)
    rw [Nat.mul_succ] at this
    omega
  · rw [compare_eq_iff_eq.2 rfl]
    show _ = compare a a'
    rcases lt_trichotomy a a' with h | rfl | h
    · rw [compare_lt_iff_lt.2 h, compare_lt_iff_lt.2 (Nat.add_lt_add_right h _)]
    · rw [compare_eq_iff_eq.2 rfl, compare_eq_iff_eq.2 rfl]
    · rw [compare_gt_iff_gt.2 h, compare_gt_iff_gt.2 (Nat.add_lt_add_right h _)]
  · rw [compare_gt_iff_gt.2 h]
    refine compare_gt_iff_gt.2 ?_
    have := Nat.mul_le_mul_left p (Nat.succ_le_of_lt h)
    rw [Nat.mul_succ] at this
    show a' + p * d' < a + p * d
    omega

end AHPy
