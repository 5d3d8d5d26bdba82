import Mathlib

/-!
# Computations that keep a relation

A computation with state and exceptions (`EStateM`) *keeps* a relation if it
takes every state to a related one, whether it returns or throws (`Keeps`):
what a computation did before it threw stays done. For a reflexive and
transitive relation this follows from its parts, with one rule for each way to
put them together.
-/

namespace AHPy

universe u

variable {ε σ α β : Type u}

/-- The state a run ends in, whether it returned or threw. -/
def finalState : EStateM.Result ε σ α → σ
  | .ok _ s => s
  | .error _ s => s

@[simp] theorem finalState_ok (a : α) (s : σ) :
    finalState (.ok a s : EStateM.Result ε σ α) = s := rfl

@[simp] theorem finalState_error (e : ε) (s : σ) :
    finalState (.error e s : EStateM.Result ε σ α) = s := rfl

/-- What follows starts in the state, and with the result, that came before. -/
theorem bind_of_ok {x : EStateM ε σ α} {s s' : σ} {a : α} (h : x s = .ok a s')
    (f : α → EStateM ε σ β) : (x >>= f) s = f a s' := by
  change EStateM.bind x f s = f a s'
  rw [EStateM.bind, h]

theorem bind_of_error {x : EStateM ε σ α} {s s' : σ} {e : ε} (h : x s = .error e s')
    (f : α → EStateM ε σ β) : (x >>= f) s = .error e s' := by
  change EStateM.bind x f s = _
  rw [EStateM.bind, h]

theorem map_of_ok {x : EStateM ε σ α} {s s' : σ} {a : α} (h : x s = .ok a s') (f : α → β) :
    (f <$> x) s = .ok (f a) s' := by
  change EStateM.map f x s = _
  rw [EStateM.map, h]

theorem map_of_error {x : EStateM ε σ α} {s s' : σ} {e : ε} (h : x s = .error e s')
    (f : α → β) : (f <$> x) s = .error e s' := by
  change EStateM.map f x s = _
  rw [EStateM.map, h]

theorem finalState_map (f : α → β) (x : EStateM ε σ α) (s : σ) :
    finalState ((f <$> x) s) = finalState (x s) := by
  cases h : x s with
  | ok a s' => rw [map_of_ok h, finalState_ok, finalState_ok]
  | error e s' => rw [map_of_error h, finalState_error, finalState_error]

/-- `x` takes every state to an `R`-related one. -/
def Keeps (R : σ → σ → Prop) (x : EStateM ε σ α) : Prop := ∀ s, R s (finalState (x s))

namespace Keeps

variable {R : σ → σ → Prop}

theorem pure [Std.Refl R] (a : α) : Keeps R (pure a : EStateM ε σ α) := fun s => Std.Refl.refl s

theorem throw [Std.Refl R] (e : ε) : Keeps R (throw e : EStateM ε σ α) := fun s => Std.Refl.refl s

theorem get [Std.Refl R] : Keeps R (get : EStateM ε σ σ) := fun s => Std.Refl.refl s

theorem bind [IsTrans σ R] {x : EStateM ε σ α} {f : α → EStateM ε σ β} (hx : Keeps R x)
    (hf : ∀ a, Keeps R (f a)) : Keeps R (x >>= f) := by
  intro s
  have h := hx s
  change R s (finalState (EStateM.bind x f s))
  rw [EStateM.bind]
  cases hr : x s with
  | ok a s' =>
    rw [hr] at h
    exact IsTrans.trans _ _ _ h (hf a s')
  | error e s' =>
    rw [hr] at h
    exact h

theorem ite {p : Prop} [Decidable p] {x y : EStateM ε σ α} (hx : Keeps R x)
    (hy : Keeps R y) : Keeps R (if p then x else y) := by
  split
  · exact hx
  · exact hy

theorem map {x : EStateM ε σ α} (hx : Keeps R x) (f : α → β) :
    Keeps R (f <$> x) := by
  intro s
  have h := hx s
  change R s (finalState (EStateM.map f x s))
  rw [EStateM.map]
  cases hr : x s with
  | ok a s' => rwa [hr] at h
  | error e s' => rwa [hr] at h

end Keeps

/-!
## Failures and related outcomes

Two properties of a computation with state and exceptions (`EStateM`), with one
rule for each way to put computations together:

* it *fails cleanly* if it leaves the state as it was whenever it throws
  (`FailsClean`);
* it *respects* a relation of states if, from related states, it throws the same
  error or returns related results, and ends in related states (`Respects`).
-/

/-! ## Clean failures -/

/-- `x` leaves the state as it was when it throws. -/
def FailsClean (x : EStateM ε σ α) : Prop := ∀ s e s', x s = .error e s' → s' = s

namespace FailsClean

theorem pure (a : α) : FailsClean (pure a : EStateM ε σ α) := fun _ _ _ h => nomatch h

theorem throw (e : ε) : FailsClean (throw e : EStateM ε σ α) := by
  intro s e' s' h
  cases h
  rfl

/-- What changes nothing may come first. -/
theorem bind_of_keeps {x : EStateM ε σ α} {f : α → EStateM ε σ β} (hx : Keeps Eq x)
    (hf : ∀ a, FailsClean (f a)) : FailsClean (x >>= f) := by
  intro s e s' h
  change EStateM.bind x f s = .error e s' at h
  have hs := hx s
  rw [EStateM.bind] at h
  cases hr : x s with
  | ok a s₁ =>
    rw [hr] at h hs
    have hs₁ : s = s₁ := hs
    rw [← hs₁] at h
    exact hf a s e s' h
  | error e₁ s₁ =>
    rw [hr] at h hs
    cases h
    exact hs.symm

theorem map {x : EStateM ε σ α} (hx : FailsClean x) (f : α → β) : FailsClean (f <$> x) := by
  intro s e s' h
  change EStateM.map f x s = .error e s' at h
  rw [EStateM.map] at h
  cases hr : x s with
  | ok a s₁ =>
    rw [hr] at h
    cases h
  | error e₁ s₁ =>
    rw [hr] at h
    cases h
    exact hx s e s' hr

/-- What does not throw may come last. -/
theorem bind_pure {x : EStateM ε σ α} (hx : FailsClean x) (f : α → β) :
    FailsClean (x >>= fun a => Pure.pure (f a)) :=
  hx.map f

theorem ite {p : Prop} [Decidable p] {x y : EStateM ε σ α} (hx : FailsClean x)
    (hy : FailsClean y) : FailsClean (if p then x else y) := by
  split
  · exact hx
  · exact hy

end FailsClean

/-! ## Related outcomes -/

/-- The same error or results related by `S`, in states related by `R`. -/
inductive OutcomeRel (R : σ → σ → Prop) (S : α → α → Prop) :
    EStateM.Result ε σ α → EStateM.Result ε σ α → Prop
  | ok {a b : α} {s s' : σ} : S a b → R s s' → OutcomeRel R S (.ok a s) (.ok b s')
  | error {e : ε} {s s' : σ} : R s s' → OutcomeRel R S (.error e s) (.error e s')

theorem OutcomeRel.finalState {R : σ → σ → Prop} {S : α → α → Prop}
    {r r' : EStateM.Result ε σ α} (h : OutcomeRel R S r r') :
    R (AHPy.finalState r) (AHPy.finalState r') := by
  cases h with
  | ok _ h => exact h
  | error h => exact h

/-- From related states, `x` has related outcomes. -/
def Respects (R : σ → σ → Prop) (S : α → α → Prop) (x : EStateM ε σ α) : Prop :=
  ∀ s s', R s s' → OutcomeRel R S (x s) (x s')

namespace Respects

variable {R : σ → σ → Prop} {S : α → α → Prop} {T : β → β → Prop}

theorem pure {a : α} (ha : S a a) : Respects R S (pure a : EStateM ε σ α) :=
  fun _ _ h => .ok ha h

theorem throw (e : ε) : Respects R S (throw e : EStateM ε σ α) := fun _ _ h => .error h

theorem get : Respects R R (get : EStateM ε σ σ) := fun _ _ h => .ok h h

theorem modify {f : σ → σ} (hf : ∀ s s', R s s' → R (f s) (f s')) :
    Respects R Eq (modify f : EStateM ε σ PUnit) := fun s s' h => .ok rfl (hf s s' h)

/-- The rest has to make up for related results that differ. -/
theorem bind_rel {x : EStateM ε σ α} {f : α → EStateM ε σ β} (hx : Respects R S x)
    (hf : ∀ a b, S a b → ∀ s s', R s s' → OutcomeRel R T (f a s) (f b s')) :
    Respects R T (x >>= f) := by
  intro s s' h
  have hr := hx s s' h
  change OutcomeRel R T (EStateM.bind x f s) (EStateM.bind x f s')
  rw [EStateM.bind, EStateM.bind]
  generalize x s = r at hr
  generalize x s' = r' at hr
  cases hr with
  | ok ha hs => exact hf _ _ ha _ _ hs
  | error hs => exact .error hs

theorem bind {x : EStateM ε σ α} {f : α → EStateM ε σ β} (hx : Respects R Eq x)
    (hf : ∀ a, Respects R T (f a)) : Respects R T (x >>= f) := by
  refine hx.bind_rel fun a b hab => ?_
  rw [hab]
  exact hf b

theorem map {x : EStateM ε σ α} (hx : Respects R S x) {f : α → β}
    (hf : ∀ a b, S a b → T (f a) (f b)) : Respects R T (f <$> x) := by
  intro s s' h
  have hr := hx s s' h
  change OutcomeRel R T (EStateM.map f x s) (EStateM.map f x s')
  rw [EStateM.map, EStateM.map]
  generalize x s = r at hr
  generalize x s' = r' at hr
  cases hr with
  | ok ha hs => exact .ok (hf _ _ ha) hs
  | error hs => exact .error hs

theorem ite {p : Prop} [Decidable p] {x y : EStateM ε σ α} (hx : Respects R S x)
    (hy : Respects R S y) : Respects R S (if p then x else y) := by
  split
  · exact hx
  · exact hy

end Respects

end AHPy
