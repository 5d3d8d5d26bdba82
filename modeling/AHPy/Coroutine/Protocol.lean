import AHPy.Coroutine.Simulation
import AHPy.Lib.Runs

/-!
# The generator protocol

* `Agrees`: what can be seen of compiled generators and of those of Python is the same;
* `run_generators`: it is, after every run whose steps the code is right for.
-/

namespace AHPy.Coroutine

variable {Obj V E : Type}

/-- The state of a compiled generator, as `inspect` shows it. -/
def CoroutineObject.state (c : CoroutineObject Obj) : GenState Obj :=
  if c.isRunning then .running c.yieldfrom
  else if c.resumeLabel = 0 then .created
  else if c.resumeLabel = -1 then .closed
  else .suspended c.yieldfrom

/-- Compiled generators and generators of Python, after the same events. -/
structure Agrees (s : CompiledState Obj V E) (p : PyState Obj V E) : Prop where
  /-- User code goes on at the same time, with the same values and exceptions. -/
  input : ∀ i, s.control = .user i ↔ p.control = .user i
  /-- Calls have the same results; `PYGEN_RETURN` is a `StopIteration`. -/
  result : ∀ r, s.control = .ret r → p.control = .ret r.plain
  /-- The same calls are being made. -/
  calls : p.stack = s.stack.map Frame.plain
  /-- Generators are in the same state, and delegate to the same iterator. -/
  state : ∀ g, (s.gens g).state = p.gens g
  /-- `is_running` is set exactly while a function of the generator runs. -/
  isRunning : ∀ g, (s.gens g).isRunning = true ↔ ∃ f ∈ s.stack, f.owner = some g
  /-- No body runs while its generator delegates. -/
  undelegated : ∀ g caller, .body g caller ∈ s.stack → (s.gens g).yieldfrom = none

variable {st : Setting Obj} {s : CompiledState Obj V E} {p : PyState Obj V E}

theorem Corresponds.state {c : CoroutineObject Obj} {t : GenState Obj} (h : Corresponds st c t) :
    c.state = t := by
  cases h with
  | created => rfl
  | @suspended label yf h =>
    have h₁ : label ≠ -1 := by omega
    simp only [CoroutineObject.state, Bool.false_eq_true, if_false, if_neg h.ne', if_neg h₁]
  | running yf h₀ h₁ => rfl
  | closed => rfl

theorem Corresponds.yieldfrom {c : CoroutineObject Obj} {t : GenState Obj} (h : Corresponds st c t) :
    c.yieldfrom = t.yieldfrom := by
  cases h <;> rfl

theorem Frame.owner_plain (f : Frame Obj V E) : f.plain.owner = f.owner := by cases f <;> rfl

theorem Related.agrees (h : Related st s p) (hp : Activated p.gens p.stack) : Agrees s p where
  input i := by
    have hcontrol := h.control
    generalize s.control = control at hcontrol
    generalize p.control = control' at hcontrol
    cases hcontrol with
    | user i' hawaits => exact Iff.rfl
    | call o ham hop => exact ⟨fun hi => (by cases hi), fun hi => (by cases hi)⟩
    | ret hr => exact ⟨fun hi => (by cases hi), fun hi => (by cases hi)⟩
  result r hr := by
    have hcontrol := h.control
    rw [hr] at hcontrol
    generalize p.control = control' at hcontrol
    cases hcontrol with
    | ret hfits => rfl
  calls := h.stack
  state g := (h.gens g).state
  isRunning g := by
    have howners : g ∈ owners p.stack ↔ ∃ f ∈ s.stack, f.owner = some g := by
      rw [mem_owners, h.stack]
      simp only [List.mem_map, exists_exists_and_eq_and, Frame.owner_plain]
    rw [(h.gens g).isRunning, ← howners]
    exact ⟨hp.running g, hp.isRunning⟩
  undelegated g caller hmem := by
    have hmem' : Frame.body g caller.plain ∈ p.stack := by
      rw [h.stack]
      exact List.mem_map_of_mem hmem
    have hfits : p.gens g = .running none := hp.fits _ hmem'
    rw [(h.gens g).yieldfrom, hfits]
    rfl

theorem related_init (st : Setting Obj) :
    Related st (State.init .new : CompiledState Obj V E) (State.init .created) :=
  ⟨⟨fun _ => .created, rfl, trivial⟩, .user _ rfl⟩

theorem activated_init :
    Activated (fun _ => .created : Obj → GenState Obj) ([] : List (Frame Obj V E)) where
  fits f hf := by cases hf
  nodup := List.nodup_nil
  running g hg := by cases hg

variable [DecidableEq Obj]

/-- A run from related states. -/
theorem run_related (hst : st.generatorStop = true) {events : List (Option (Event Obj V E))}
    (h : Related st s p) (hp : Activated p.gens p.stack)
    (hm : MeetsAll ((generators st).step st.kind) (Meets st) events s) :
    Option.Rel (fun s' p' => Related st s' p' ∧ Kept p.gens p')
      ((generators st).run st.kind events s) ((pyGenerators st.kind).run st.kind events p) := by
  refine hm.foldlM_rel (fun s' p' event hR hmeets => ?_) ⟨h, hp, fun _ hg => hg⟩
  have hstep := step_related hst hR.1 hR.2.activated hmeets
  have hkept : ∀ p'', (pyGenerators st.kind).step st.kind p' event = some p'' →
      Kept p'.gens p'' := fun p'' => pyStep_kept hR.2.activated
  generalize (generators st).step st.kind s' event = a at hstep
  generalize (pyGenerators st.kind).step st.kind p' event = b at hstep hkept
  cases hstep with
  | none => exact .none
  | some hrelated =>
    have hnext := hkept _ rfl
    exact .some ⟨hrelated, hnext.activated, fun g hg => hnext.closed g (hR.2.closed g hg)⟩

/-- A generator that has finished stays finished. -/
theorem closed_of_run (hst : st.generatorStop = true) (h : Related st s p)
    (hp : Activated p.gens p.stack) {events : List (Option (Event Obj V E))}
    (hm : MeetsAll ((generators st).step st.kind) (Meets st) events s) {s' : CompiledState Obj V E}
    (hs' : (generators st).run st.kind events s = some s') {g : Obj}
    (hg : (s.gens g).state = .closed) : (s'.gens g).state = .closed := by
  have hrun := run_related hst h hp hm
  rw [hs'] at hrun
  generalize (pyGenerators st.kind).run st.kind events p = o at hrun
  cases hrun with
  | some hrun =>
    rw [(h.gens g).state] at hg
    rw [(hrun.1.gens g).state, hrun.2.closed g hg]

/-- In a run whose steps all meet the condition, compiled generators do what generators of Python
    do, and those that have finished stay finished. -/
theorem run_generators (st : Setting Obj) (hst : st.generatorStop = true)
    (events : List (Option (Event Obj V E)))
    (hm : MeetsAll ((generators st).step st.kind) (Meets st) events (State.init .new)) :
    Option.Rel Agrees ((generators st).run st.kind events (State.init .new))
      ((pyGenerators st.kind).run st.kind events (State.init .created)) ∧
    ∀ before after s s', events = before ++ after →
      (generators st).run st.kind before (State.init .new) = some s →
      (generators st).run st.kind events (State.init .new) = some s' →
      ∀ g, (s.gens g).state = .closed → (s'.gens g).state = .closed := by
  refine ⟨?_, fun before after s s' hevents hs hs' g hg => ?_⟩
  · have hrun := run_related hst (related_init st) activated_init hm
    generalize (generators st).run st.kind events (State.init .new) = a at hrun
    generalize (pyGenerators st.kind).run st.kind events (State.init .created) = b at hrun
    cases hrun with
    | none => exact .none
    | some h => exact .some (h.1.agrees h.2.activated)
  · subst hevents
    obtain ⟨hbefore, hafter⟩ := hm.append
    have hrun := run_related hst (related_init st) activated_init hbefore
    rw [hs] at hrun
    generalize (pyGenerators st.kind).run st.kind before (State.init .created) = b at hrun
    rw [Machine.run, List.foldlM_append, ← Machine.run, hs] at hs'
    cases hrun with
    | some h => exact closed_of_run hst h.1 h.2.activated (hafter s hs) hs' hg

/-! ## Runs -/

/-- Two generators, one of which delegates to the other, and an object without methods. -/
inductive Name
  | outer
  | inner
  | other
deriving DecidableEq

def Name.kind : Name → Kind
  | .other => .object false false false false
  | _ => .generator

def setting : Setting Name := ⟨Name.kind, true, true⟩

/-- `outer` delegates to `inner`, which yields a value, gets one, and returns. -/
def delegation : List (Option (Event Name ℕ Empty)) :=
  [some (.call .outer .next), none, some (.yieldFrom 0 .inner), none, some (.yield 0 (some 1)), none,
    none, some (.call .outer (.send (some 2))), none, none, some (.return none), none,
    some (.return none), none]

omit [DecidableEq Obj] in
theorem Meets.of_user {event : Event Obj V E} {i : Input V E} (h : s.control = .user i)
    (hevent : ∀ v, event ≠ .return (some v)) : Meets st s (some event) where
  started g op hcall := by
    rw [h] at hcall
    cases hcall
  resumed g op hcall := by
    rw [h] at hcall
    cases hcall
  closed g stack v _ hv := by
    cases v with
    | none => rfl
    | some v => exact absurd (Option.some.inj hv) (hevent v)

omit [DecidableEq Obj] in
theorem Meets.of_ret {r : Res V E} (h : s.control = .ret r) : Meets st s none where
  started g op hcall := by
    rw [h] at hcall
    cases hcall
  resumed g op hcall := by
    rw [h] at hcall
    cases hcall
  closed g stack v _ hv := by cases hv

omit [DecidableEq Obj] in
theorem Meets.of_call {g : Obj} {op : Op V E} (h : s.control = .call g op)
    (hsends : (s.gens g).resumeLabel = 0 → op.sends = none)
    (hfinished : (s.gens g).resumeLabel ≠ -1) : Meets st s none where
  started g' op' hcall _ _ hlabel := by
    obtain ⟨rfl, rfl⟩ : g = g' ∧ op = op' := by
      rw [h] at hcall
      cases hcall
      exact ⟨rfl, rfl⟩
    exact hsends hlabel
  resumed g' op' hcall _ _ hlabel := by
    obtain ⟨rfl, rfl⟩ : g = g' ∧ op = op' := by
      rw [h] at hcall
      cases hcall
      exact ⟨rfl, rfl⟩
    exact absurd hlabel hfinished
  closed g stack v _ hv := by cases hv

theorem run_generators_delegation :
    Option.Rel Agrees ((generators setting).run setting.kind delegation (State.init .new))
      ((pyGenerators setting.kind).run setting.kind delegation (State.init .created)) := by
  refine (run_generators setting rfl delegation ?_).1
  refine .cons (.of_user rfl (by simp)) rfl ?_
  refine .cons (.of_call rfl (by decide) (by decide)) rfl ?_
  refine .cons (.of_user rfl (by simp)) rfl ?_
  refine .cons (.of_call rfl (by decide) (by decide)) rfl ?_
  refine .cons (.of_user rfl (by simp)) rfl ?_
  refine .cons (.of_ret rfl) rfl ?_
  refine .cons (.of_ret rfl) rfl ?_
  refine .cons (.of_user rfl (by simp)) rfl ?_
  refine .cons (.of_call rfl (by decide) (by decide)) rfl ?_
  refine .cons (.of_call rfl (by decide) (by decide)) rfl ?_
  refine .cons (.of_user rfl (by simp)) rfl ?_
  refine .cons (.of_ret rfl) rfl ?_
  refine .cons (.of_user rfl (by simp)) rfl ?_
  exact .cons (.of_ret rfl) rfl trivial

/-- A value sent to a generator that has not started: the compiled generator has finished. -/
theorem run_generators_sent : ¬ Option.Rel Agrees
    ((generators setting).run setting.kind
      [some (.call .outer (.send (some 7))), none] (State.init .new : CompiledState Name ℕ Empty))
    ((pyGenerators setting.kind).run setting.kind
      [some (.call .outer (.send (some 7))), none] (State.init .created)) := by
  intro h
  have hs : (generators setting).run setting.kind
      [some (.call .outer (.send (some 7))), none]
      (State.init .new : CompiledState Name ℕ Empty) = some _ := rfl
  have hp : (pyGenerators setting.kind).run setting.kind
      [some (.call .outer (.send (some 7))), none]
      (State.init .created : PyState Name ℕ Empty) = some _ := rfl
  rw [hs, hp] at h
  cases h with
  | some h => exact absurd (h.state .outer) (by decide)

end AHPy.Coroutine
