import Mathlib

/-!
# Transition systems
-/

/-!
## Runs of a system

The states that a system reaches when every event on the way meets a condition.

* `Reaches.invariant`: what holds at first, and is kept by every event that meets the
  condition, holds in every such state;
* `MeetsAll.foldlM_rel`: two systems that every such event leads from related states to related
  states are in related states after a run.
-/

namespace AHPy

variable {State Event Output : Type*}

/-- The states reached from `init` by events that meet the condition. -/
inductive Reaches (step : State → Event → Option (State × Output)) (meets : State → Event → Prop)
    (init : State) : State → Prop
  | init : Reaches step meets init init
  | step {s s' : State} {e : Event} {out : Output} : Reaches step meets init s → meets s e →
      step s e = some (s', out) → Reaches step meets init s'

variable {step : State → Event → Option (State × Output)} {meets : State → Event → Prop}
  {init : State}

/-- An invariant holds in every state of a run. -/
theorem Reaches.invariant {P : State → Prop} (h₀ : P init)
    (h : ∀ s e s' out, P s → meets s e → step s e = some (s', out) → P s') {s : State}
    (hs : Reaches step meets init s) : P s := by
  induction hs with
  | init => exact h₀
  | step _ hm hstep ih => exact h _ _ _ _ ih hm hstep

/-- Events that always meet the condition lead to such a state. -/
theorem Reaches.foldlM {es : List Event} (hes : ∀ s, ∀ e ∈ es, meets s e) {s s' : State}
    (hs : Reaches step meets init s)
    (hrun : es.foldlM (fun s e => (step s e).map Prod.fst) s = some s') :
    Reaches step meets init s' := by
  induction es generalizing s with
  | nil =>
    cases hrun
    exact hs
  | cons e es ih =>
    rw [List.foldlM_cons] at hrun
    obtain ⟨s₁, hs₁, hrun⟩ := Option.bind_eq_some_iff.1 hrun
    obtain ⟨⟨s₂, out⟩, hstep, rfl⟩ := Option.map_eq_some_iff.1 hs₁
    exact ih (fun s e he => hes s e (List.mem_cons_of_mem _ he))
      (hs.step (hes s e List.mem_cons_self) hstep) hrun

/-! ## Two systems -/

section

variable {State' : Type*} {step : State → Event → Option State} {step' : State' → Event → Option State'}
  {meets : State → Event → Prop}

/-- All steps of a run meet the condition. -/
def MeetsAll (step : State → Event → Option State) (meets : State → Event → Prop) :
    List Event → State → Prop
  | [], _ => True
  | e :: es, s => meets s e ∧ ∀ s', step s e = some s' → MeetsAll step meets es s'

theorem MeetsAll.cons {e : Event} {es : List Event} {s s' : State} (he : meets s e)
    (hs' : step s e = some s') (h : MeetsAll step meets es s') : MeetsAll step meets (e :: es) s := by
  refine ⟨he, fun s'' hs'' => ?_⟩
  obtain rfl : s' = s'' := Option.some.inj (hs'.symm.trans hs'')
  exact h

theorem MeetsAll.append {es es' : List Event} {s : State} (h : MeetsAll step meets (es ++ es') s) :
    MeetsAll step meets es s ∧ ∀ s', es.foldlM step s = some s' → MeetsAll step meets es' s' := by
  induction es generalizing s with
  | nil =>
    refine ⟨trivial, fun s' hs' => ?_⟩
    cases hs'
    exact h
  | cons e es ih =>
    refine ⟨⟨h.1, fun s' hs' => (ih (h.2 s' hs')).1⟩, fun s'' hs'' => ?_⟩
    rw [List.foldlM_cons] at hs''
    obtain ⟨s', hs', hrun⟩ := Option.bind_eq_some_iff.1 hs''
    exact (ih (h.2 s' hs')).2 s'' hrun

/-- Both systems make the same steps, and stay related. -/
theorem MeetsAll.foldlM_rel {R : State → State' → Prop}
    (h : ∀ s t e, R s t → meets s e → Option.Rel R (step s e) (step' t e)) {es : List Event}
    {s : State} {t : State'} (hm : MeetsAll step meets es s) (hR : R s t) :
    Option.Rel R (es.foldlM step s) (es.foldlM step' t) := by
  induction es generalizing s t with
  | nil => exact .some hR
  | cons e es ih =>
    have hstep := h s t e hR hm.1
    have hrest := hm.2
    rw [List.foldlM_cons, List.foldlM_cons]
    generalize step s e = a at hstep hrest
    generalize step' t e = b at hstep
    cases hstep with
    | none => exact .none
    | some hR' => exact ih (hrest _ rfl) hR'

end

end AHPy

/-!
## Machines

A machine makes steps until it ends. `Leads` says that a run ends with a result that meets a
condition, or reaches a state that meets one; `Ends` that it ends so.

* `Leads.bind`: runs one after the other;
* `Ends.of_visits`: the states on the way end in the same way;
* `not_ends_of_step_self`: a step that is repeated for ever.
-/

namespace AHPy

/-- What a step leads to. -/
inductive Status (State Result : Type*)
  | running (s : State)
  | ended (r : Result)

variable {State Result : Type*} {step : State → Status State Result}

/-- The states of a run from `s`. -/
inductive Visits (step : State → Status State Result) : State → State → Prop
  | refl (s : State) : Visits step s s
  | next {s s' s'' : State} : step s = .running s' → Visits step s' s'' → Visits step s s''

/-- A run ends with a good result, or reaches one of some states. -/
inductive Leads (step : State → Status State Result) (good : Result → Prop)
    (target : State → Prop) : State → Prop
  | here {s : State} : target s → Leads step good target s
  | ended {s : State} {r : Result} : step s = .ended r → good r → Leads step good target s
  | next {s s' : State} : step s = .running s' → Leads step good target s' →
      Leads step good target s

/-- A run ends with a good result. -/
def Ends (step : State → Status State Result) (good : Result → Prop) : State → Prop :=
  Leads step good fun _ => False

variable {good : Result → Prop} {target target' : State → Prop} {s s' s'' : State}

theorem Visits.trans (h : Visits step s s') (h' : Visits step s' s'') : Visits step s s'' := by
  induction h with
  | refl => exact h'
  | next hstep _ ih => exact .next hstep (ih h')

theorem Visits.of_step (h : step s = .running s') : Visits step s s' := .next h (.refl s')

/-- Runs one after the other. -/
theorem Leads.bind (h : Leads step good target s)
    (h' : ∀ s', Visits step s s' → target s' → Leads step good target' s') :
    Leads step good target' s := by
  induction h with
  | here ht => exact h' _ (.refl _) ht
  | ended hstep hgood => exact .ended hstep hgood
  | next hstep _ ih =>
    exact .next hstep (ih fun s'' hvisits ht => h' s'' (.next hstep hvisits) ht)

theorem Leads.mono (h : Leads step good target s) (h' : ∀ s', target s' → target' s') :
    Leads step good target' s :=
  h.bind fun s' _ ht => .here (h' s' ht)

/-- The states of a run that ends lead to the same end. -/
theorem Ends.of_visits (h : Ends step good s) (hvisits : Visits step s s') : Ends step good s' := by
  induction hvisits with
  | refl => exact h
  | next hstep _ ih =>
    refine ih ?_
    cases h with
    | here ht => exact ht.elim
    | ended hended _ =>
      rw [hstep] at hended
      cases hended
    | next hnext h =>
      rw [hstep] at hnext
      cases hnext
      exact h

/-- A step that changes nothing is repeated for ever. -/
theorem not_ends_of_step_self (h : step s = .running s) : ¬Ends step good s := by
  intro hends
  have hne (s' : State) (hends : Ends step good s') : s' ≠ s := by
    induction hends with
    | here ht => exact ht.elim
    | ended hended _ =>
      rintro rfl
      rw [h] at hended
      cases hended
    | next hnext _ ih =>
      rintro rfl
      rw [h] at hnext
      cases hnext
      exact ih rfl
  exact hne s hends rfl

theorem not_ends_of_step_ended {r : Result} (h : step s = .ended r) (hr : ¬good r) :
    ¬Ends step good s := by
  intro hends
  cases hends with
  | here ht => exact ht
  | ended hended hgood =>
    rw [h] at hended
    cases hended
    exact hr hgood
  | next hnext _ =>
    rw [h] at hnext
    cases hnext

/-! ## Steps -/

/-- So many steps. -/
def runSteps (step : State → Status State Result) : ℕ → State → Status State Result
  | 0, s => .running s
  | n + 1, s =>
    match step s with
    | .running s' => runSteps step n s'
    | .ended r => .ended r

theorem Ends.of_run {n : ℕ} {r : Result} (h : runSteps step n s = .ended r) (hgood : good r) :
    Ends step good s := by
  induction n generalizing s with
  | zero => cases h
  | succ n ih =>
    rw [runSteps] at h
    cases hstep : step s with
    | running s' =>
      rw [hstep] at h
      exact .next hstep (ih h)
    | ended r' =>
      rw [hstep] at h
      cases h
      exact .ended hstep hgood

end AHPy

/-!
## Reductions of lists

The results of combining the members of a list in pairs, for all orders and groupings of them
(`Reduces`).

* `reduces_foldl`: folding from the left is one of them.
-/

namespace AHPy

variable {α : Type*} {op : α → α → α}

/-- A result of combining the members of a list, in any order and grouping. -/
inductive Reduces (op : α → α → α) : List α → α → Prop
  | single (x : α) : Reduces op [x] x
  | node {l l' l'' : List α} {a b : α} : Reduces op l a → Reduces op l' b → l''.Perm (l ++ l') →
      Reduces op l'' (op a b)

theorem Reduces.ne_nil {l : List α} {a : α} (h : Reduces op l a) : l ≠ [] := by
  induction h with
  | single x => exact List.cons_ne_nil _ _
  | node _ _ hperm ih _ =>
    rintro rfl
    exact ih (List.append_eq_nil_iff.1 hperm.symm.eq_nil).1

/-- `functools.reduce` of a list that is not empty. -/
theorem reduces_foldl (x : α) (xs : List α) : Reduces op (x :: xs) (xs.foldl op x) := by
  induction xs using List.reverseRecOn with
  | nil => exact .single x
  | append_singleton xs y ih =>
    rw [List.foldl_append]
    exact ih.node (.single y) (by rw [List.cons_append])

end AHPy
