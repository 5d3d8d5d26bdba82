import Mathlib

/-!
# Longest matches

Scanning for the longest prefix of a word that is accepted, each accepted word with
a value: a *longest match* (`LongestMatch`) is the length of that prefix with a
value of it, or nothing if no prefix, not even the empty one, is accepted.

A deterministic machine that may block finds it (`munch`): it remembers the last
state with a value and reads on until it blocks or the word is over.

* `munch_spec`: what it finds is a longest match;
* `LongestMatch.congr`: a longest match for one notion of acceptance is one for
  another that accepts the same words.
-/

namespace AHPy

variable {Q α β : Type*}

/-- The longest prefix that is accepted, by its length and a value of it. -/
def LongestMatch (accepts : List α → β → Prop) (w : List α) : Option (β × Nat) → Prop
  | none => ∀ k ≤ w.length, ∀ b, ¬accepts (w.take k) b
  | some (b, k) => k ≤ w.length ∧ accepts (w.take k) b ∧
      ∀ j, k < j → j ≤ w.length → ∀ b', ¬accepts (w.take j) b'

theorem LongestMatch.congr {accepts accepts' : List α → β → Prop} {w : List α}
    {r : Option (β × Nat)} (h : LongestMatch accepts w r)
    (hsound : ∀ v b, accepts v b → accepts' v b)
    (hcomplete : ∀ v b, accepts' v b → ∃ b', accepts v b') : LongestMatch accepts' w r := by
  rcases r with _ | ⟨b, k⟩
  · intro k hk b hb
    obtain ⟨b', hb'⟩ := hcomplete _ b hb
    exact h k hk b' hb'
  · obtain ⟨hk, hb, hmax⟩ := h
    refine ⟨hk, hsound _ b hb, fun j hj hle b' hb' => ?_⟩
    obtain ⟨b'', hb''⟩ := hcomplete _ b' hb'
    exact hmax j hj hle b'' hb''

variable (step : Q → α → Option Q) (value : Q → Option β)

/-- The match with the empty prefix. -/
def here (q : Q) : Option (β × Nat) := (value q).map (·, 0)

/-- The longest match that a machine finds. -/
def munch : Q → List α → Option (β × Nat)
  | q, [] => here value q
  | q, a :: w =>
    (((step q a).bind fun q' => munch q' w).map fun r => (r.1, r.2 + 1)).or (here value q)

variable {step value}

/-- A word that a machine reads to a state with a value. -/
def Reads (step : Q → α → Option Q) (value : Q → Option β) (q : Q) (w : List α) (b : β) : Prop :=
  ∃ q', w.foldlM step q = some q' ∧ value q' = some b

theorem reads_nil {q : Q} {b : β} : Reads step value q [] b ↔ value q = some b :=
  ⟨fun ⟨_, hq, hb⟩ => Option.some.inj hq ▸ hb, fun hb => ⟨q, rfl, hb⟩⟩

theorem reads_cons {q : Q} {a : α} {w : List α} {b : β} :
    Reads step value q (a :: w) b ↔ ∃ q', step q a = some q' ∧ Reads step value q' w b := by
  simp only [Reads, List.foldlM_cons, Option.bind_eq_bind, Option.bind_eq_some_iff]
  constructor
  · rintro ⟨q'', ⟨q', hs, hr⟩, hb⟩
    exact ⟨q', hs, q'', hr, hb⟩
  · rintro ⟨q', hs, q'', hr, hb⟩
    exact ⟨q'', ⟨q', hs, hr⟩, hb⟩

theorem longestMatch_here {q : Q} {w : List α}
    (h : ∀ j, 0 < j → j ≤ w.length → ∀ b, ¬Reads step value q (w.take j) b) :
    LongestMatch (Reads step value q) w (here value q) := by
  rcases hq : value q with _ | b
  · rw [here, hq]
    rintro (_ | k) hk b hb
    · rw [List.take_zero, reads_nil, hq] at hb
      exact Option.some_ne_none b hb.symm
    · exact h (k + 1) (Nat.zero_lt_succ k) hk b hb
  · rw [here, hq]
    exact ⟨Nat.zero_le _, reads_nil.2 hq, h⟩

theorem munch_spec (q : Q) (w : List α) :
    LongestMatch (Reads step value q) w (munch step value q w) := by
  induction w generalizing q with
  | nil => exact longestMatch_here fun j hj hle => absurd hj (not_lt.2 hle)
  | cons a w ih =>
    -- The prefixes that are not empty are those of the rest, after a step.
    have hcons : ∀ j, 0 < j → ∀ b, Reads step value q ((a :: w).take j) b ↔
        ∃ q', step q a = some q' ∧ Reads step value q' (w.take (j - 1)) b := by
      rintro (_ | j) hj b
      · exact absurd hj (lt_irrefl 0)
      · rw [List.take_succ_cons, reads_cons, Nat.add_sub_cancel]
    rw [munch]
    rcases hs : step q a with _ | q'
    · refine longestMatch_here fun j hj _ b hb => ?_
      obtain ⟨q', hq', -⟩ := (hcons j hj b).1 hb
      exact Option.some_ne_none q' (hq'.symm.trans hs)
    · have hrest := ih q'
      rw [Option.bind_some]
      rcases hm : munch step value q' w with _ | ⟨b, k⟩
      · rw [hm] at hrest
        refine longestMatch_here fun j hj hle b hb => ?_
        obtain ⟨q'', hq'', hb⟩ := (hcons j hj b).1 hb
        obtain rfl := Option.some.inj (hs.symm.trans hq'')
        rw [List.length_cons] at hle
        exact hrest (j - 1) (by omega) b hb
      · rw [hm] at hrest
        obtain ⟨hk, hb, hmax⟩ := hrest
        refine ⟨Nat.succ_le_succ hk, (hcons (k + 1) (Nat.zero_lt_succ k) b).2 ⟨q', hs, hb⟩,
          fun j hj hle b' hb' => ?_⟩
        obtain ⟨q'', hq'', hb'⟩ := (hcons j (by omega) b').1 hb'
        obtain rfl := Option.some.inj (hs.symm.trans hq'')
        rw [List.length_cons] at hle
        exact hmax (j - 1) (by omega) (by omega) b' hb'

end AHPy
