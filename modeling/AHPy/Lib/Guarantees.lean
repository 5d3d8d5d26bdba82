import AHPy.Lib.Outcomes
import AHPy.Lib.OrderedDict

/-!
# Computations that keep an invariant

Two properties of a computation with state and exceptions (`EStateM`), with one rule
for each way to put computations together:

* it *ensures* a property of its results, and keeps an invariant of the states whether
  it returns or throws (`Ensures`);
* it *succeeds* in the states of the invariant (`Succeeds`).

`memoised` is a computation whose results are stored: an invariant that says that what
is stored are right results makes it as good as the computation itself.
-/

namespace AHPy

universe u

variable {ε σ α β κ : Type u} {I : σ → Prop} {P : α → Prop} {Q : β → Prop}

/-- `x` keeps `I`, and its results have the property `P`. -/
def Ensures (I : σ → Prop) (P : α → Prop) (x : EStateM ε σ α) : Prop :=
  ∀ s, I s → I (finalState (x s)) ∧ ∀ a s', x s = .ok a s' → P a

/-- In states with `I`, `x` returns. -/
def Succeeds (I : σ → Prop) (x : EStateM ε σ α) : Prop := ∀ s, I s → ∃ a s', x s = .ok a s'

namespace Ensures

theorem pure {a : α} (h : P a) : Ensures I P (pure a : EStateM ε σ α) := by
  refine fun s hs => ⟨hs, fun a' s' heq => ?_⟩
  cases heq
  exact h

theorem throw (e : ε) : Ensures I P (throw e : EStateM ε σ α) := by
  refine fun s hs => ⟨hs, fun a' s' heq => ?_⟩
  cases heq

theorem imp {P' : α → Prop} {x : EStateM ε σ α} (h : Ensures I P x) (hP : ∀ a, P a → P' a) :
    Ensures I P' x := fun s hs => ⟨(h s hs).1, fun a s' heq => hP a ((h s hs).2 a s' heq)⟩

theorem bind {x : EStateM ε σ α} {f : α → EStateM ε σ β} (hx : Ensures I P x)
    (hf : ∀ a, P a → Ensures I Q (f a)) : Ensures I Q (x >>= f) := by
  intro s hs
  obtain ⟨hkeep, hres⟩ := hx s hs
  change I (finalState (EStateM.bind x f s)) ∧ ∀ b s', EStateM.bind x f s = .ok b s' → Q b
  rw [EStateM.bind]
  cases hr : x s with
  | ok a s' =>
    rw [hr] at hkeep
    exact hf a (hres a s' hr) s' hkeep
  | error e s' =>
    rw [hr] at hkeep
    refine ⟨hkeep, fun b s'' heq => ?_⟩
    cases heq

/-- A loop, with what is the case after a part of the list. -/
theorem foldlM {l done : List β} {P : List β → α → Prop} {f : α → β → EStateM ε σ α} {a : α}
    (hstep : ∀ done b a, b ∈ l → P done a → Ensures I (P (done ++ [b])) (f a b)) (ha : P done a) :
    Ensures I (P (done ++ l)) (l.foldlM f a) := by
  induction l generalizing done a with
  | nil =>
    rw [List.append_nil]
    exact .pure ha
  | cons b l ih =>
    rw [List.foldlM_cons, List.append_cons]
    refine (hstep done b a List.mem_cons_self ha).bind fun a' ha' => ?_
    exact ih (fun done b a hb => hstep done b a (List.mem_cons_of_mem _ hb)) ha'

end Ensures

namespace Succeeds

theorem pure (a : α) : Succeeds I (pure a : EStateM ε σ α) := fun s _ => ⟨a, s, rfl⟩

theorem bind {x : EStateM ε σ α} {f : α → EStateM ε σ β} (he : Ensures I P x)
    (hx : Succeeds I x) (hf : ∀ a, P a → Succeeds I (f a)) : Succeeds I (x >>= f) := by
  intro s hs
  obtain ⟨a, s', heq⟩ := hx s hs
  obtain ⟨hkeep, hres⟩ := he s hs
  rw [heq] at hkeep
  obtain ⟨b, s'', heq'⟩ := hf a (hres a s' heq) s' hkeep
  refine ⟨b, s'', ?_⟩
  change EStateM.bind x f s = _
  rw [EStateM.bind, heq]
  exact heq'

theorem foldlM {l done : List β} {P : List β → α → Prop} {f : α → β → EStateM ε σ α} {a : α}
    (hstep : ∀ done b a, b ∈ l → P done a →
      Ensures I (P (done ++ [b])) (f a b) ∧ Succeeds I (f a b)) (ha : P done a) :
    Succeeds I (l.foldlM f a) := by
  induction l generalizing done a with
  | nil => exact .pure a
  | cons b l ih =>
    rw [List.foldlM_cons]
    obtain ⟨he, hx⟩ := hstep done b a List.mem_cons_self ha
    refine Succeeds.bind he hx fun a' ha' => ?_
    exact ih (fun done b a hb => hstep done b a (List.mem_cons_of_mem _ hb)) ha'

end Succeeds

/-! ## Stored results -/

variable [DecidableEq κ]

/-- The result for `k` if it is stored; else that of `x`, which is stored then. -/
def memoised (cache : σ → OrderedDict κ α) (store : OrderedDict κ α → σ → σ) (k : κ)
    (x : EStateM ε σ α) : EStateM ε σ α := fun s =>
  match (cache s).get? k with
  | some a => .ok a s
  | none =>
    match x s with
    | .ok a s' => .ok a (store ((cache s').set k a) s')
    | .error e s' => .error e s'

variable {cache : σ → OrderedDict κ α} {store : OrderedDict κ α → σ → σ} {k : κ}
  {x : EStateM ε σ α}

theorem Ensures.memoised (hx : Ensures I P x)
    (hget : ∀ s, I s → ∀ a, (cache s).get? k = some a → P a)
    (hstore : ∀ s a, I s → P a → I (store ((cache s).set k a) s)) :
    Ensures I P (memoised cache store k x) := by
  intro s hs
  rw [AHPy.memoised]
  rcases hk : (cache s).get? k with _ | a
  · obtain ⟨hkeep, hres⟩ := hx s hs
    cases hr : x s with
    | ok a s' =>
      rw [hr] at hkeep
      refine ⟨hstore s' a hkeep (hres a s' hr), fun a' s'' heq => ?_⟩
      cases heq
      exact hres a s' hr
    | error e s' =>
      rw [hr] at hkeep
      refine ⟨hkeep, fun a' s'' heq => ?_⟩
      cases heq
  · refine ⟨hs, fun a' s'' heq => ?_⟩
    cases heq
    exact hget s hs a hk

theorem Succeeds.memoised (hx : Succeeds I x) : Succeeds I (memoised cache store k x) := by
  intro s hs
  rw [AHPy.memoised]
  rcases (cache s).get? k with _ | a
  · obtain ⟨a, s', hr⟩ := hx s hs
    rw [hr]
    exact ⟨a, _, rfl⟩
  · exact ⟨a, s, rfl⟩

end AHPy
