import AHPy.AsyncGen.Awaitables

/-!
# Steps of the awaitables

What the methods of the awaitables do to the invariant. Some of their exits leave an
awaitable open; `Meets` says that an event takes none of these.

* `drive_does`: what the methods do until they resume the generator;
* `finish_immediate`, `finish_resumed`: what they do with its reply;
* `inv_step`: the invariant is kept.
-/

namespace AHPy.AsyncGen

variable {α : Type}

/-! ## What they do -/

/-- A call of the generator that does not resume it. -/
def Immediate (g : Gen) (r : Reply α) : Prop :=
  ∃ e, r = .null (some e) ∧ (g.finished = true ∨ e = .valueError ∨ e = .typeError)

theorem coroutineSend_immediate {g : Gen} {r : Reply α} (h : coroutineSend g = some r) :
    Immediate g r := by
  unfold coroutineSend at h
  split_ifs at h with hr hf
  · exact ⟨_, (Option.some.inj h).symm, .inr (.inl rfl)⟩
  · exact ⟨_, (Option.some.inj h).symm, .inl hf⟩

theorem coroutineThrow_immediate {g : Gen} {args : ThrowArgs α} {r : Reply α}
    (h : coroutineThrow g args = some r) : Immediate g r := by
  unfold coroutineThrow at h
  split_ifs at h with hw hr hf
  · exact ⟨_, (Option.some.inj h).symm, .inr (.inl rfl)⟩
  · exact ⟨_, (Option.some.inj h).symm, .inl hf⟩
  · exact ⟨_, (Option.some.inj h).symm, .inr (.inr rfl)⟩

/-- Only a generator that neither runs nor has finished is resumed. -/
theorem coroutineSend_eq_none {g : Gen} :
    (coroutineSend g : Option (Reply α)) = none ↔ g.isRunning = false ∧ g.finished = false := by
  unfold coroutineSend
  split_ifs with hr hf <;> simp_all

theorem coroutineThrow_eq_none {g : Gen} {args : ThrowArgs α}
    (h : coroutineThrow g args = none) : g.isRunning = false ∧ g.finished = false := by
  unfold coroutineThrow at h
  split_ifs at h with hw hr hf
  simp_all

/-- What the generator replies, but for a value that an awaited object passes on. -/
structure Ends (g : Gen) (o : Awaitable α) (label : Label) (x : Gen × Awaitable α × Output α) :
    Prop where
  running : x.1.agRunningAsync = false
  isRunning : x.1.isRunning = g.isRunning
  finished : x.1.finished = g.finished
  awaitable : x.2.1 = { o with state := .closed } ∨ (label = .athrowNext ∧ x.2.1 = o)

section

variable {g : Gen} {o : Awaitable α} {r : Reply α} {after : After}

theorem finishLabel_ends (hr : ∀ v, r ≠ .value (.plain v)) (label : Label) :
    Ends g o label (finishLabel g o r label) := by
  rcases r with (v | v) | e
  · cases label <;> exact ⟨rfl, rfl, rfl, by simp [finishLabel, unwrapValue, yieldClose,
      Output.isNull]⟩
  · exact absurd rfl (hr v)
  · cases label <;> exact ⟨rfl, rfl, rfl, by simp [finishLabel, unwrapValue, checkError,
      Output.isNull]⟩

theorem finish_ends (hr : ∀ v, r ≠ .value (.plain v)) : Ends g o after.label (finish g o r after) :=
  have h := finishLabel_ends (g := g) (o := o) hr after.label
  ⟨h.running, h.isRunning, h.finished, h.awaitable⟩

/-- An awaited object passes on a value. -/
theorem finish_plain (v : Option α) :
    finish g o (.value (.plain v)) after =
      (g, o, if after.closing then .raises (.runtimeError .coroutineIgnoredExit)
        else .value (.plain v)) := by
  rcases after with ⟨label, closing⟩
  cases label <;> rfl

theorem finish_kind : (finish g o r after).2.1.kind = o.kind := by
  by_cases hr : ∃ v, r = .value (.plain v)
  · obtain ⟨v, rfl⟩ := hr
    rw [finish_plain]
  · have ends : Ends g o after.label (finish g o r after) := finish_ends fun v hv => hr ⟨v, hv⟩
    rcases ends.awaitable with h | ⟨-, h⟩ <;> rw [h]

theorem completes_iff {out : Output α} :
    completes o out = true ↔ o.kind = .aclose ∧ ∃ v, out = .null (some (.stopIteration v)) := by
  unfold completes
  split <;> simp_all

/-- An `aclose()` completes when the generator ends. -/
theorem completes_finish (hl : o.kind = .aclose → after.label = .aclose)
    (h : completes (finish g o r after).2.1 (finish g o r after).2.2 = true) :
    ∃ e, r = .null (some e) ∧ (e.ends = true ∨ e.isStopIteration = true) := by
  obtain ⟨hk, v, hout⟩ := completes_iff.1 h
  rw [finish_kind] at hk
  obtain ⟨label, closing⟩ := after
  obtain rfl : label = .aclose := hl hk
  rcases r with (w | w) | (- | e)
  -- A `yield` is an error.
  · cases closing <;> cases hout
  · cases closing <;> cases hout
  · cases closing <;> cases hout
  · refine ⟨e, rfl, ?_⟩
    cases e <;> cases closing <;> simp_all [finish, finishLabel, checkError, finishClose, Exc.ends,
      Exc.isStopIteration]

/-- The reply of a generator that is not resumed. -/
theorem finish_immediate {g₀ : Gen} {o₀ : Awaitable α} (starts : Starts g₀ o₀ g o after)
    (hr : Immediate g r) (hn : after.label ≠ .athrowNext) :
    Fits g₀ o₀ (finish g o r after).1 (finish g o r after).2.1 (finish g o r after).2.2 := by
  obtain ⟨e, rfl, he⟩ := hr
  have ends : Ends g o after.label (finish g o (.null (some e)) after) := finish_ends (by simp)
  have hc : (finish g o (.null (some e)) after).2.1 = { o with state := .closed } :=
    ends.awaitable.resolve_right fun h => hn h.1
  refine ⟨?_, ?_, ?_, fun hi => ?_, fun hi => ?_, fun _ => ?_, ?_, fun _ => ?_, fun h => ?_⟩
  · rw [finish_kind, starts.kind]
  · rw [hc, starts.failed]
  · simp [hc]
  · simp [hc, ends.running]
  · rw [ends.running]
    exact ((starts.before.resolve_left hi).2).symm
  · rw [hc]
  · simp [hc]
  · rw [hc]
  · -- `ValueError` and `TypeError` are not the end.
    obtain ⟨e', he', hends⟩ := completes_finish (fun hk => starts.label (starts.kind ▸ hk)) h
    obtain rfl : e = e' := by simpa using he'
    rw [ends.finished]
    rcases he with he | rfl | rfl
    · exact he
    · simp [Exc.ends, Exc.isStopIteration] at hends
    · simp [Exc.ends, Exc.isStopIteration] at hends

end

/-! ## The exits that leave an awaitable open -/

/-- `send()` and `__next__()` -/
def Drive.sends : Drive α → Bool
  | .send _ => true
  | .iternext => true
  | _ => false

/-- Nothing prevents the start of an `athrow()` or an `aclose()`. -/
def Gen.startable (g : Gen) : Bool := ¬g.finished ∧ ¬g.agRunningAsync ∧ ¬g.agClosed

/-- The exits of `athrow_send_impl` before the generator is resumed. -/
structure Closes (g : Gen) (o : Awaitable α) (d : Drive α) : Prop where
  /-- Malformed arguments of `athrow()` are found after it has become active. -/
  arguments : ∀ args, o.kind = .athrow args → o.state = .init → d.sends = true →
    d.arg = none → g.startable = true → args.wellFormed = true
  /-- A value sent to a new `athrow()` or `aclose()` does not close it. -/
  value : o.kind.isAsend = false → o.state = .init → d.sends = true → g.startable = true →
    d.arg = none
  /-- A generator that is executing clears the flag of an `athrow()`. -/
  reentrant : ∀ args, o.kind = .athrow args → o.state = .iter → d.sends = true →
    g.isRunning = false

/-- The exits after the generator has replied. -/
structure Replies (f : Frame) (o : Awaitable α) (outcome : Outcome α) : Prop where
  /-- `athrow_send_impl` does not close an `athrow()` that was suspended. -/
  next : f.after.label = .athrowNext → o.state = .iter → ∃ v, outcome = .yields (.plain v)
  /-- `close()` does not close an awaitable that goes on awaiting. -/
  closing : f.after.closing = true → o.state = .iter → ∀ v, outcome ≠ .yields (.plain v)
  /-- A failing `throw` attribute of an awaited object looks like the end to `aclose()`. -/
  lookup : o.kind = .aclose → ∀ e, outcome = .fails e →
    e.ends = false ∧ e.isStopIteration = false

/-- The event takes none of these exits. -/
def Meets (s : State α) : Event α → Prop
  | .create _ => True
  | .drive i d => ∀ o, s.awaitables[i]? = some o → Closes s.gen o d
  | .resumed outcome => ∀ f ∈ s.frame, ∀ o, s.awaitables[f.index]? = some o →
      Replies f o outcome

/-! ## Steps -/

/-- A method of an awaitable that is not active, and that is closed now. -/
structure Returns (g : Gen) (o o' : Awaitable α) (out : Output α) : Prop where
  inactive : o.state ≠ .iter
  closed : o' = { o with state := .closed }
  output : ∀ y, out ≠ .value y
  completes : ∀ v, out = .raises (.stopIteration v) → g.finished = true

/-- What an action of an awaitable does. -/
def Does (g : Gen) (o : Awaitable α) : Action α → Prop
  | .returns g' o' out => g' = g ∧ Returns g o o' out
  | .sends g' o' _ after => Starts g o g' o' after ∧
      (after.label = .athrowNext → g'.isRunning = false ∧ g'.finished = false)
  | .throws g' o' _ after => Starts g o g' o' after ∧ after.label ≠ .athrowNext

section

variable {g : Gen} {o o' : Awaitable α} {out : Output α}

theorem Returns.fits (h : Returns g o o' out) : Fits g o g o' out := by
  obtain rfl := h.closed
  refine ⟨rfl, rfl, fun hi => (by cases hi), fun hi => absurd hi h.inactive, fun _ => rfl,
    fun _ => rfl, fun hi => (by cases hi), fun _ => rfl, fun hc => ?_⟩
  obtain ⟨-, v, hv⟩ := completes_iff.1 hc
  exact h.completes v hv

/-- An error of a closed awaitable. -/
theorem returns_closed (ho : o.state = .closed) {e : Exc α} (he : e.isStopIteration = false) :
    Does g o (.returns g o (.raises e)) := by
  refine ⟨rfl, by simp [ho], by rw [← ho], by simp, fun v hv => ?_⟩
  cases hv
  cases he

/-- An awaitable that is closed before it starts. -/
theorem returns_init (ho : o.state = .init) {e : Exc α}
    (he : e.isStopIteration = true → g.finished = true) :
    Does g o (.returns g { o with state := .closed } (.raises e)) := by
  refine ⟨rfl, by simp [ho], rfl, by simp, fun v hv => ?_⟩
  cases hv
  exact he rfl

/-- The rest of `close()` -/
theorem close_does {a : Action α} (h : Does g o a) : Does g o a.close := by
  cases a with
  | returns g' o' out =>
    refine ⟨h.1, h.2.inactive, h.2.closed, fun y => ?_, fun v => ?_⟩
    · cases out with
      | null e =>
        simp only [finishClose]
        split_ifs <;> simp
      | _ => simp [finishClose]
    · cases out with
      | null e =>
        rcases e with _ | e
        · simp [finishClose]
        · cases e <;> simp [finishClose, Exc.ends, Exc.isStopIteration]
      | _ => simp [finishClose]
  | sends => exact h
  | throws => exact h

variable (hflag : o.state = .iter → g.agRunningAsync = true)

theorem asendSendImpl_does (hk : o.kind ≠ .aclose) (sendval : Option (Option α))
    (arg : Option α) : Does g o (asendSendImpl g o sendval arg) := by
  cases ho : o.state with
  | closed =>
    simp only [asendSendImpl, ho]
    exact returns_closed ho rfl
  | init =>
    by_cases hg : g.agRunningAsync = true
    · simp only [asendSendImpl, ho, if_pos hg]
      exact returns_init ho nofun
    · simp only [asendSendImpl, ho, if_neg hg]
      exact ⟨⟨rfl, rfl, .inr ⟨ho, by simpa using hg⟩, rfl, rfl, rfl, rfl, fun h => absurd h hk⟩,
        by simp⟩
  | iter =>
    simp only [asendSendImpl, ho]
    exact ⟨⟨rfl, rfl, .inl ho, ho, rfl, rfl, rfl, fun h => absurd h hk⟩, by simp⟩

include hflag

theorem asendThrow_does (hk : o.kind ≠ .aclose) (args : ThrowArgs α) (closing : Bool) :
    Does g o (asendThrow g o args closing) := by
  cases ho : o.state with
  | closed =>
    simp only [asendThrow, ho]
    exact returns_closed ho rfl
  | init =>
    by_cases hg : g.agRunningAsync = true
    · simp only [asendThrow, ho, if_pos hg]
      exact returns_init ho nofun
    · simp only [asendThrow, ho, if_neg hg]
      exact ⟨⟨rfl, rfl, .inr ⟨ho, by simpa using hg⟩, rfl, rfl, rfl, rfl, fun h => absurd h hk⟩,
        by simp⟩
  | iter =>
    simp only [asendThrow, ho]
    exact ⟨⟨rfl, rfl, .inl ho, ho, hflag ho, rfl, rfl, fun h => absurd h hk⟩, by simp⟩

theorem athrowThrow_does {args : Option (ThrowArgs α)} (hk : o.kind = .aclose → args = none)
    (throwArgs : ThrowArgs α) (closing : Bool) :
    Does g o (athrowThrow g o args throwArgs closing) := by
  have hlabel : o.kind = .aclose →
      (if args.isSome then Label.athrowThrow else Label.aclose) = Label.aclose := by
    intro h
    simp [hk h]
  have hnext : (if args.isSome then Label.athrowThrow else Label.aclose) ≠ Label.athrowNext := by
    split_ifs <;> simp
  cases ho : o.state with
  | closed =>
    simp only [athrowThrow, ho]
    exact returns_closed ho rfl
  | init =>
    by_cases hg : g.agRunningAsync = true
    · simp only [athrowThrow, ho, if_pos hg]
      exact returns_init ho nofun
    · simp only [athrowThrow, ho, if_neg hg]
      exact ⟨⟨rfl, rfl, .inr ⟨ho, by simpa using hg⟩, rfl, rfl, rfl, rfl, hlabel⟩, hnext⟩
  | iter =>
    simp only [athrowThrow, ho]
    exact ⟨⟨rfl, rfl, .inl ho, ho, hflag ho, rfl, rfl, hlabel⟩, hnext⟩

theorem athrowSendImpl_does (hfin : g.finished = true → o.state ≠ .iter)
    {args : Option (ThrowArgs α)} (hk : o.kind = .aclose → args = none) (arg : Option α)
    (hmal : ∀ a, args = some a → o.state = .init → arg = none → g.startable = true →
      a.wellFormed = true)
    (hval : o.state = .init → g.startable = true → arg = none)
    (hre : args.isSome = true → o.state = .iter → g.isRunning = false) :
    Does g o (athrowSendImpl g o args arg) := by
  unfold athrowSendImpl
  by_cases hc : o.state = .closed
  · rw [if_pos hc]
    exact returns_closed hc rfl
  rw [if_neg hc]
  by_cases hf : g.finished = true
  · -- The generator has finished: `aclose()` has nothing to do.
    rw [if_pos hf]
    cases ho : o.state with
    | init => exact returns_init ho fun _ => hf
    | iter => exact absurd ho (hfin hf)
    | closed => exact absurd ho hc
  rw [if_neg hf]
  by_cases ho : o.state = .init
  · rw [if_pos ho]
    by_cases hg : g.agRunningAsync = true
    · rw [if_pos hg]
      exact returns_init ho nofun
    rw [if_neg hg]
    by_cases ha : g.agClosed = true
    · rw [if_pos ha]
      exact returns_init ho nofun
    have hs : g.startable = true := by simp [Gen.startable, hf, hg, ha]
    rw [if_neg ha, if_neg (not_not.2 (hval ho hs))]
    have hg : g.agRunningAsync = false := by simpa using hg
    rcases args with _ | args
    · exact ⟨⟨rfl, rfl, .inr ⟨ho, hg⟩, rfl, rfl, rfl, rfl, fun _ => rfl⟩, by simp⟩
    · have hw := hmal args rfl ho (hval ho hs) hs
      simp only [hw, if_true]
      exact ⟨⟨rfl, rfl, .inr ⟨ho, hg⟩, rfl, rfl, rfl, rfl, fun h => nomatch hk h⟩, by simp⟩
  · have ho : o.state = .iter := by
      cases h : o.state <;> simp_all
    rw [if_neg (by simp [ho])]
    rcases args with _ | args
    · exact ⟨⟨rfl, rfl, .inl ho, ho, hflag ho, rfl, rfl, fun _ => rfl⟩, by simp⟩
    · exact ⟨⟨rfl, rfl, .inl ho, ho, hflag ho, rfl, rfl, fun h => nomatch hk h⟩,
        fun _ => ⟨hre rfl ho, by simpa using hf⟩⟩

/-- What the methods do until they resume the generator. -/
theorem drive_does (hfin : g.finished = true → o.state ≠ .iter) {d : Drive α}
    (hm : Closes g o d) : Does g o (drive g o d) := by
  have hclose : ∀ {a}, Does g o a →
      Does g o (if o.state = .closed then .returns g o .none else a.close) := by
    intro a ha
    split_ifs with hc
    · exact ⟨rfl, by simp [hc], by rw [← hc], by simp, by simp⟩
    · exact close_does ha
  cases hk : o.kind with
  | asend sendval =>
    have hk' : o.kind ≠ .aclose := by simp [hk]
    cases d with
    | send arg =>
      simp only [drive, hk]
      exact asendSendImpl_does hk' _ _
    | iternext =>
      simp only [drive, hk]
      exact asendSendImpl_does hk' _ _
    | throw args =>
      simp only [drive, hk]
      exact asendThrow_does hflag hk' _ _
    | close =>
      simp only [drive, hk]
      exact hclose (asendThrow_does hflag hk' _ _)
  | athrow args =>
    have hk' : o.kind = .aclose → some args = none := by simp [hk]
    have hsend : d.sends = true → Does g o (athrowSendImpl g o (some args) d.arg) := fun hd =>
      athrowSendImpl_does hflag hfin hk' d.arg
        (fun a ha hi harg => hm.arguments a (by rw [hk, Option.some.inj ha]) hi hd harg)
        (fun hi => hm.value (by simp [hk, Kind.isAsend]) hi hd)
        (fun _ hi => hm.reentrant args hk hi hd)
    cases d with
    | send arg =>
      simp only [drive, hk]
      exact hsend rfl
    | iternext =>
      simp only [drive, hk]
      exact hsend rfl
    | throw throwArgs =>
      simp only [drive, hk]
      exact athrowThrow_does hflag hk' _ _
    | close =>
      simp only [drive, hk]
      exact hclose (athrowThrow_does hflag hk' _ _)
  | aclose =>
    have hk' : o.kind = .aclose → (none : Option (ThrowArgs α)) = none := fun _ => rfl
    have hsend : d.sends = true → Does g o (athrowSendImpl g o none d.arg) := fun hd =>
      athrowSendImpl_does hflag hfin hk' d.arg nofun
        (fun hi => hm.value (by simp [hk, Kind.isAsend]) hi hd) nofun
    cases d with
    | send arg =>
      simp only [drive, hk]
      exact hsend rfl
    | iternext =>
      simp only [drive, hk]
      exact hsend rfl
    | throw throwArgs =>
      simp only [drive, hk]
      exact athrowThrow_does hflag hk' _ _
    | close =>
      simp only [drive, hk]
      exact hclose (athrowThrow_does hflag hk' _ _)

end

/-- The reply of the generator that was resumed. -/
theorem finish_resumed {g : Gen} {o : Awaitable α} {f : Frame} {outcome : Outcome α}
    (hflag : g.agRunningAsync = true ↔ o.state = .iter) (hw : Waits f o)
    (hm : Replies f o outcome) {g' : Gen} (hrun : g'.agRunningAsync = g.agRunningAsync)
    (hfin : outcome.isTerminates = true → g'.finished = true) :
    Fits g o (finish g' o outcome.reply f.after).1 (finish g' o outcome.reply f.after).2.1
      (finish g' o outcome.reply f.after).2.2 := by
  have hcompletes : completes (finish g' o outcome.reply f.after).2.1
      (finish g' o outcome.reply f.after).2.2 = true →
      (finish g' o outcome.reply f.after).1.finished = true := by
    intro h
    obtain ⟨e, he, hends⟩ := completes_finish hw.label h
    have hk : o.kind = .aclose := by rw [← finish_kind]; exact (completes_iff.1 h).1
    rw [(finish_ends (by simp [he])).finished]
    cases outcome with
    | yields y => cases he
    | terminates e' => exact hfin rfl
    | fails e' =>
      obtain rfl : e' = e := by simpa [Outcome.reply] using he
      have := hm.lookup hk e' rfl
      simp_all
  by_cases hp : ∃ v, outcome = .yields (.plain v)
  · obtain ⟨v, rfl⟩ := hp
    refine ⟨finish_kind, ?_, ?_, ?_, ?_, ?_, ?_, ?_, hcompletes⟩ <;>
      rw [Outcome.reply, finish_plain]
    · exact id
    · exact fun _ => hrun ▸ hflag
    · exact fun _ => hrun
    · exact id
    · exact id
    · -- It is an error of `close()`: then the awaitable is not active.
      intro hnull
      have hc : f.after.closing = true := by
        by_contra hc
        simp [hc, Output.isNull] at hnull
      cases hs : o.state with
      | init => exact absurd hs hw.started
      | iter => exact absurd rfl (hm.closing hc hs v)
      | closed => rfl
  · have ends : Ends g' o f.after.label (finish g' o outcome.reply f.after) :=
      finish_ends fun v hv => hp ⟨v, by cases outcome <;> simp_all [Outcome.reply]⟩
    have hc : (finish g' o outcome.reply f.after).2.1 = { o with state := .closed } := by
      rcases ends.awaitable with h | ⟨hn, h⟩
      · exact h
      · -- It is not active: the generator would pass on a value.
        rw [h]
        cases hs : o.state with
        | init => exact absurd hs hw.started
        | iter => exact absurd (hm.next hn hs) hp
        | closed => rw [← hs]
    refine ⟨finish_kind, ?_, ?_, fun _ => ?_, fun hi => ?_, fun _ => ?_, ?_, fun _ => ?_,
      hcompletes⟩
    · rw [hc]
    · simp [hc]
    · simp [hc, ends.running]
    · rw [ends.running]
      exact (Bool.eq_false_iff.2 fun h => hi (hflag.1 h)).symm
    · rw [hc]
    · simp [hc]
    · rw [hc]

section

variable {s : State α} {i : ℕ} {o : Awaitable α}

/-- A call of a generator that is not resumed. -/
theorem inv_immediate (h : Inv s) (ho : s.awaitables[i]? = some o) {g : Gen} {o' : Awaitable α}
    {r : Reply α} {after : After} (starts : Starts s.gen o g o' after) (hr : Immediate g r)
    (hn : after.label ≠ .athrowNext) : Inv (s.returns i (finish g o' r after)).1 := by
  have ends : Ends g o' after.label (finish g o' r after) := by
    obtain ⟨e, rfl, -⟩ := hr
    exact finish_ends (by simp)
  have hfin : (finish g o' r after).1.finished = s.gen.finished := by
    rw [ends.finished, starts.finished]
  have hrun : (finish g o' r after).1.isRunning = s.gen.isRunning := by
    rw [ends.isRunning, starts.isRunning]
  exact inv_returns h ho (finish_immediate starts hr hn) (by rw [hrun, h.frame])
    (fun _ => id) (fun hf => by rw [hfin, hf])
    fun hf => ⟨by rw [hrun]; exact (h.finished (hfin ▸ hf)).1, ends.running⟩

theorem inv_act (h : Inv s) (ho : s.awaitables[i]? = some o) {a : Action α}
    (does : Does s.gen o a) : Inv (s.act i a).1 := by
  cases a with
  | returns g' o' out =>
    obtain ⟨rfl, hret⟩ := does
    exact inv_returns h ho hret.fits h.frame (fun _ => id) id h.finished
  | sends g' o' arg after =>
    obtain ⟨starts, hnext⟩ := does
    cases hr : (coroutineSend g' : Option (Reply α)) with
    | none =>
      simp only [State.act, hr]
      exact inv_calls h ho starts (starts.finished ▸ (coroutineSend_eq_none.1 hr).2) _
    | some r =>
      simp only [State.act, hr, State.calls]
      refine inv_immediate h ho starts (coroutineSend_immediate hr) fun hn => ?_
      rw [coroutineSend_eq_none.2 (hnext hn)] at hr
      cases hr
  | throws g' o' args after =>
    obtain ⟨starts, hnext⟩ := does
    cases hr : coroutineThrow g' args with
    | none =>
      simp only [State.act, hr]
      exact inv_calls h ho starts (starts.finished ▸ (coroutineThrow_eq_none hr).2) _
    | some r =>
      simp only [State.act, hr, State.calls]
      exact inv_immediate h ho starts (coroutineThrow_immediate hr) hnext

/-- The return of the generator. -/
theorem inv_resumed (h : Inv s) {f : Frame} (hf : s.frame = some f)
    (ho : s.awaitables[f.index]? = some o) {outcome : Outcome α} (hm : Replies f o outcome) :
    Inv ({ s with frame := none }.returns f.index
      (finish { s.gen with
        isRunning := false, finished := s.gen.finished || outcome.isTerminates } o
        outcome.reply f.after)).1 := by
  -- If an awaitable is active, then it is the one that waits.
  have hflag : s.gen.agRunningAsync = true ↔ o.state = .iter := by
    rw [h.running, ← State.iter_iff ho]
    exact ⟨fun ⟨j, hj⟩ => h.active f hf j hj ▸ hj, fun hi => ⟨_, hi⟩⟩
  have hnf : s.gen.finished = false := by
    by_contra hnf
    have hrun : s.gen.isRunning = true := by rw [← h.frame, hf]; rfl
    rw [(h.finished (by simpa using hnf)).1] at hrun
    cases hrun
  set g' : Gen := { s.gen with
    isRunning := false, finished := s.gen.finished || outcome.isTerminates } with hg'
  obtain ⟨a, ha, hw⟩ := h.waits f hf
  obtain rfl : o = a := Option.some.inj (ho ▸ ha)
  have hfit := @finish_resumed _ _ _ _ _ hflag hw hm g' rfl fun ht => by simp [hg', ht]
  have hrun : (finish g' o outcome.reply f.after).1.isRunning = false := by
    by_cases hp : ∃ v, outcome.reply = .value (.plain v)
    · obtain ⟨v, hv⟩ := hp
      rw [hv, finish_plain]
    · exact (finish_ends fun v hv => hp ⟨v, hv⟩).isRunning
  refine inv_returns h ho hfit (by rw [hrun]; rfl) nofun
    (fun hf' => by simp [hnf] at hf') fun hfin => ⟨hrun, ?_⟩
  -- A generator that ends has not passed on a value.
  by_cases hp : ∃ v, outcome.reply = .value (.plain v)
  · obtain ⟨v, hv⟩ := hp
    rw [hv, finish_plain] at hfin
    have ht : outcome.isTerminates = true := by simpa [hg', hnf] using hfin
    cases outcome <;> simp_all [Outcome.isTerminates, Outcome.reply]
  · exact (finish_ends fun v hv => hp ⟨v, hv⟩).running

end

theorem inv_create {s : State α} (h : Inv s) (kind : Kind α) :
    Inv { s with awaitables := s.awaitables ++ [⟨kind, .init, false⟩] } := by
  have hget : ∀ (j : ℕ) (a : Awaitable α),
      (s.awaitables ++ [⟨kind, .init, false⟩])[j]? = some a →
        s.awaitables[j]? = some a ∨ a = ⟨kind, .init, false⟩ := by
    intro j a ha
    rw [List.getElem?_append] at ha
    split_ifs at ha with hj
    · exact .inl ha
    · exact .inr (by simpa using List.mem_of_getElem? ha)
  have hiter : ∀ j, State.Iter { s with
      awaitables := s.awaitables ++ [⟨kind, .init, false⟩] } j ↔ s.Iter j := by
    refine fun j => ⟨fun ⟨a, ha, hi⟩ => ?_, fun ⟨a, ha, hi⟩ => ⟨a, ?_, hi⟩⟩
    · rcases hget j a ha with ha | rfl
      · exact ⟨a, ha, hi⟩
      · cases hi
    · exact List.getElem?_append_left (List.getElem?_eq_some_iff.1 ha).1 ▸ ha
  refine ⟨fun j k hj hk => h.unique j k ((hiter j).1 hj) ((hiter k).1 hk), ?_, ?_, h.finished,
    h.frame, fun f hf j hj => h.active f hf j ((hiter j).1 hj), ?_, h.aclosed⟩
  · rw [h.running]
    exact exists_congr fun j => (hiter j).symm
  · intro j a ha hf
    rcases hget j a ha with ha | rfl
    · exact h.failed j a ha hf
    · cases hf
  · intro f hf
    obtain ⟨a, ha, hw⟩ := h.waits f hf
    exact ⟨a, List.getElem?_append_left (List.getElem?_eq_some_iff.1 ha).1 ▸ ha, hw⟩

/-- The invariant is kept, but for the exits that leave an awaitable open. -/
theorem inv_step {s s' : State α} {e : Event α} {out : Option (Output α)}
    (h : Inv s) (hm : Meets s e) (hs : step s e = some (s', out)) : Inv s' := by
  cases e with
  | create kind =>
    obtain ⟨rfl, rfl⟩ := by simpa [step] using hs
    exact inv_create h kind
  | drive i d =>
    obtain ⟨o, ho, hs⟩ := Option.map_eq_some_iff.1 hs
    have does : Does s.gen o (drive s.gen o d) :=
      drive_does (h.running_of_iter ho) (fun hf hi => by
        have := h.running_of_iter ho hi
        simp [(h.finished hf).2] at this) (hm o ho)
    obtain rfl : _ = s' := congrArg Prod.fst hs
    exact inv_act h ho does
  | resumed outcome =>
    obtain ⟨f, hf, hs⟩ := Option.bind_eq_some_iff.1 hs
    obtain ⟨o, ho, hs⟩ := Option.bind_eq_some_iff.1 hs
    split_ifs at hs
    obtain rfl : _ = s' := congrArg Prod.fst (Option.some.inj hs)
    exact inv_resumed h hf ho (hm f hf o ho)


end AHPy.AsyncGen
