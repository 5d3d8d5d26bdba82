import AHPy.AsyncGen.Steps
import AHPy.Lib.Runs

/-!
# Awaitables exclude each other

* `step_ne_wrapped`: no wrapped value escapes;
* `exclusive_of_reaches`: the awaitables of every run exclude each other, but for the exits
  that leave an awaitable open;
* `athrow_counterexample`: one of these.
-/

namespace AHPy.AsyncGen

variable {α : Type}

/-! ## Runs -/

/-- An awaitable that is started while another one is active. -/
theorem drive_running {g : Gen} {o : Awaitable α} (ho : o.state = .init)
    (hg : g.agRunningAsync = true) (hf : g.finished = false) (d : Drive α) :
    ∃ c, drive g o d =
      .returns g { o with state := .closed } (.raises (.runtimeError (.alreadyRunning c))) := by
  cases hk : o.kind <;> cases d <;>
    simp [drive, hk, ho, hg, hf, asendSendImpl, asendThrow, athrowSendImpl, athrowThrow,
      Action.close, finishClose, Exc.ends, Exc.isStopIteration]

/-- A new `asend()` of a generator that has finished. -/
theorem act_asend_finished {s : State α} {o : Awaitable α} (ho : o.state = .init)
    (hg : s.gen.agRunningAsync = false) (hf : s.gen.finished = true)
    (hrun : s.gen.isRunning = false) (i : ℕ) (sendval : Option (Option α)) (arg : Option α) :
    (s.act i (asendSendImpl s.gen o sendval arg)).2 = some (.raises .stopAsyncIteration) := by
  simp [asendSendImpl, ho, hg, State.act, coroutineSend, hf, hrun, State.calls, State.returns,
    finish, finishLabel, unwrapValue]

/-- A closed awaitable does not resume the generator. -/
theorem drive_closed {g : Gen} {o : Awaitable α} (ho : o.state = .closed) (d : Drive α) :
    ∃ out, drive g o d = .returns g o out := by
  cases hk : o.kind <;> cases d <;>
    simp [drive, hk, ho, asendSendImpl, asendThrow, athrowSendImpl, athrowThrow]

/-! ### Values -/

theorem finishClose_ne_value (out : Output α) (y : Yielded α) : finishClose out ≠ .value y := by
  cases out with
  | null e =>
    simp only [finishClose]
    split_ifs <;> simp
  | _ => simp [finishClose]

/-- A wrapped value does not escape. -/
theorem finish_ne_wrapped (g : Gen) (o : Awaitable α) (r : Reply α) (after : After)
    (v : Option α) : (finish g o r after).2.2 ≠ .value (.wrapped v) := by
  have h : (finishLabel g o r after.label).2.2 ≠ .value (.wrapped v) := by
    rcases r with (w | w) | e
    · cases after.label <;> simp [finishLabel, unwrapValue, yieldClose]
    · cases after.label <;> simp [finishLabel, unwrapValue]
    · cases after.label <;> simp [finishLabel, unwrapValue, checkError]
  simp only [finish]
  split_ifs
  · exact finishClose_ne_value _ _
  · exact h

/-- An action without a value of its own. -/
def Action.Silent : Action α → Prop
  | .returns _ _ out => ∀ y, out ≠ .value y
  | _ => True

theorem Action.Silent.close {a : Action α} (h : a.Silent) : a.close.Silent := by
  cases a with
  | returns g o out => exact finishClose_ne_value out
  | sends => exact h
  | throws => exact h

section

variable (g : Gen) (o : Awaitable α)

theorem asendThrow_silent (args : ThrowArgs α) (closing : Bool) :
    (asendThrow g o args closing).Silent := by
  cases ho : o.state <;> cases hg : g.agRunningAsync <;>
    simp [asendThrow, ho, hg, Action.Silent]

theorem athrowThrow_silent (args : Option (ThrowArgs α)) (throwArgs : ThrowArgs α)
    (closing : Bool) : (athrowThrow g o args throwArgs closing).Silent := by
  cases ho : o.state <;> cases hg : g.agRunningAsync <;>
    simp [athrowThrow, ho, hg, Action.Silent]

theorem asendSendImpl_silent (sendval : Option (Option α)) (arg : Option α) :
    (asendSendImpl g o sendval arg).Silent := by
  cases ho : o.state <;> cases hg : g.agRunningAsync <;>
    simp [asendSendImpl, ho, hg, Action.Silent]

theorem athrowSendImpl_silent (args : Option (ThrowArgs α)) (arg : Option α) :
    (athrowSendImpl g o args arg).Silent := by
  unfold athrowSendImpl
  cases args with
  | none => split_ifs <;> simp [Action.Silent]
  | some args => cases hw : args.wellFormed <;> split_ifs <;> simp [hw, Action.Silent]

/-- The methods have no values of their own. -/
theorem drive_silent (d : Drive α) : (drive g o d).Silent := by
  have hclose : ∀ {a : Action α}, a.Silent →
      (if o.state = .closed then .returns g o .none else a.close).Silent := by
    intro a ha
    split_ifs
    · simp [Action.Silent]
    · exact ha.close
  cases hk : o.kind <;> cases d <;> simp only [drive, hk]
  all_goals
    first
    | exact hclose (asendThrow_silent g o _ _)
    | exact hclose (athrowThrow_silent g o _ _ _)
    | exact asendThrow_silent g o _ _
    | exact athrowThrow_silent g o _ _ _
    | exact asendSendImpl_silent g o _ _
    | exact athrowSendImpl_silent g o _ _

end

/-- A wrapped value does not escape from a step. -/
theorem step_ne_wrapped {s s' : State α} {e : Event α} {out : Output α}
    (hs : step s e = some (s', some out)) (v : Option α) : out ≠ .value (.wrapped v) := by
  have hcalls : ∀ {i g o r after throws}, (s.calls i g o r after throws).2 = some out →
      out ≠ .value (.wrapped v) := by
    intro i g o r after throws h
    cases r with
    | none => cases h
    | some r =>
      obtain rfl := Option.some.inj h
      exact finish_ne_wrapped g o r after v
  cases e with
  | create kind => simp [step] at hs
  | drive i d =>
    obtain ⟨o, -, hs⟩ := Option.map_eq_some_iff.1 hs
    have hs : (s.act i (drive s.gen o d)).2 = some out := congrArg Prod.snd hs
    have hsilent := drive_silent s.gen o d
    cases ha : drive s.gen o d with
    | returns g' o' out' =>
      rw [ha] at hs hsilent
      obtain rfl := Option.some.inj hs
      exact hsilent _
    | sends => exact hcalls (ha ▸ hs)
    | throws => exact hcalls (ha ▸ hs)
  | resumed outcome =>
    obtain ⟨f, -, hs⟩ := Option.bind_eq_some_iff.1 hs
    obtain ⟨o, -, hs⟩ := Option.bind_eq_some_iff.1 hs
    split_ifs at hs
    obtain rfl := Option.some.inj (congrArg Prod.snd (Option.some.inj hs))
    exact finish_ne_wrapped _ o _ _ v

/-! ### Exclusion -/

/-- The awaitables exclude each other: in this state, and in the next step. -/
structure Exclusive (s : State α) : Prop where
  unique : ∀ i j, s.Iter i → s.Iter j → i = j
  running : s.gen.agRunningAsync = true ↔ ∃ i, s.Iter i
  /-- An awaitable that has returned `NULL` is closed. -/
  failed : ∀ (i : ℕ) (o : Awaitable α), s.awaitables[i]? = some o → o.failed = true →
    o.state = .closed
  /-- It does not resume the generator. -/
  resumes : ∀ (i : ℕ) (o : Awaitable α) d s' out, s.awaitables[i]? = some o → o.failed = true →
    step s (.drive i d) = some (s', out) → s'.gen = s.gen ∧ s'.frame = s.frame
  /-- An attempt to start another awaitable leaves the active one unaffected. -/
  starts : ∀ (i j : ℕ) (o : Awaitable α) d s' out, s.Iter i → s.awaitables[j]? = some o →
    o.state = .init → step s (.drive j d) = some (s', out) →
      (∃ c, out = some (.raises (.runtimeError (.alreadyRunning c)))) ∧
        s'.gen = s.gen ∧ s'.frame = s.frame ∧ ∀ k, k ≠ j → s'.awaitables[k]? = s.awaitables[k]?
  wrapped : ∀ e s' out v, step s e = some (s', some out) → out ≠ .value (.wrapped v)
  /-- After an `aclose()`, a new `asend()` or `__anext__()` raises `StopAsyncIteration`. -/
  aclosed : s.aclosed = true → ∀ (i : ℕ) (o : Awaitable α) sendval d s' out,
    s.awaitables[i]? = some o → o.kind = .asend sendval → o.state = .init → d.sends = true →
      step s (.drive i d) = some (s', out) → out = some (.raises .stopAsyncIteration)

theorem Inv.exclusive {s : State α} (h : Inv s) : Exclusive s where
  unique := h.unique
  running := h.running
  failed := h.failed
  resumes i o d s' out ho hf hs := by
    obtain ⟨out', hd⟩ := drive_closed (g := s.gen) (h.failed i o ho hf) d
    simp only [step, ho, Option.map_some, hd, State.act, State.returns, Option.some.injEq,
      Prod.mk.injEq] at hs
    obtain ⟨rfl, -⟩ := hs
    exact ⟨rfl, rfl⟩
  starts i j o d s' out hi ho hinit hs := by
    have hg : s.gen.agRunningAsync = true := h.running.2 ⟨i, hi⟩
    have hf : s.gen.finished = false := by
      by_contra hf
      simp [(h.finished (by simpa using hf)).2] at hg
    obtain ⟨c, hd⟩ := drive_running hinit hg hf d
    simp only [step, ho, Option.map_some, hd, State.act, State.returns, Option.some.injEq,
      Prod.mk.injEq] at hs
    obtain ⟨rfl, rfl⟩ := hs
    exact ⟨⟨c, rfl⟩, rfl, rfl, fun k hk => List.getElem?_set_ne (Ne.symm hk)⟩
  wrapped e s' out v hs := step_ne_wrapped hs v
  aclosed ha i o sendval d s' out ho hk hinit hd hs := by
    have hf := h.aclosed ha
    obtain ⟨hrun, hg⟩ := h.finished hf
    have hact : drive s.gen o d = asendSendImpl s.gen o sendval d.arg := by
      cases d with
      | send arg => simp only [drive, hk]
      | iternext => simp only [drive, hk]
      | throw args => cases hd
      | close => cases hd
    simp only [step, ho, Option.map_some, hact, Option.some.injEq] at hs
    rw [← act_asend_finished hinit hg hf hrun i sendval d.arg]
    exact (congrArg Prod.snd hs).symm

/-- In every run that takes none of the exits that leave an awaitable open, the awaitables
    exclude each other. -/
theorem exclusive_of_reaches {s : State α} (hs : Reaches step Meets .init s) : Exclusive s :=
  (hs.invariant inv_init fun _ _ _ _ h hm hstep => inv_step h hm hstep).exclusive

/-- `await agen.asend(None)`, with one `yield`. -/
theorem exclusive_asend : Exclusive (⟨⟨false, false, false, false⟩,
    [⟨.asend (some none), .closed, true⟩], none, false⟩ : State ℕ) := by
  refine exclusive_of_reaches ?_
  have h₁ : Reaches step Meets .init
      (⟨⟨false, false, false, false⟩, [⟨.asend (some none), .init, false⟩], none, false⟩ :
        State ℕ) :=
    .step (e := .create (.asend (some none))) .init trivial rfl
  have h₂ : Reaches step Meets .init
      (⟨⟨false, true, false, true⟩, [⟨.asend (some none), .iter, false⟩],
        some ⟨0, ⟨.asend, false⟩, false⟩, false⟩ : State ℕ) := by
    refine .step (e := .drive 0 (.send none)) h₁ (fun o ho => ?_) rfl
    obtain rfl := Option.some.inj ho
    exact ⟨nofun, nofun, nofun⟩
  refine .step (e := .resumed (.yields (.wrapped (some 1)))) h₂ (fun f hf o ho => ?_) rfl
  obtain rfl := Option.some.inj hf
  obtain rfl := Option.some.inj ho
  exact ⟨nofun, nofun, nofun⟩

/-- `await agen.athrow()`: the `TypeError` leaves the generator running. -/
theorem athrow_counterexample :
    ¬∀ s : State ℕ, Reaches step (fun _ _ => True) .init s → Exclusive s := by
  intro h
  have h₁ : Reaches step (fun _ _ => True) .init
      (⟨⟨false, false, false, false⟩, [⟨.athrow ⟨0, .typeError⟩, .init, false⟩], none, false⟩ :
        State ℕ) :=
    .step (e := .create (.athrow ⟨0, .typeError⟩)) .init trivial rfl
  have hs : Reaches step (fun _ _ => True) .init
      (⟨⟨false, false, false, true⟩, [⟨.athrow ⟨0, .typeError⟩, .iter, true⟩], none, false⟩ :
        State ℕ) :=
    .step (e := .drive 0 (.send none)) h₁ trivial rfl
  have hc := (h _ hs).failed 0 _ rfl rfl
  cases hc

end AHPy.AsyncGen
