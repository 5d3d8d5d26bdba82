import Mathlib

/-!
# Awaitables of asynchronous generators

The awaitables that `asend()`, `__anext__()`, `athrow()` and `aclose()` return, as in
`AsyncGen.c`. Each drives the generator that it belongs to; what the generator does when it
is resumed is up to its body.

* `asendSendImpl`, `asendThrow`, `athrowSendImpl`, `athrowThrow`: what the functions do until
  they resume the generator;
* `finish`: what they do with the result (`PyErr_GivenExceptionMatches` is 0 without an
  exception);
* `step`: one call, or the return of the generator. While it runs, its body can use the
  awaitables as well.
-/

namespace AHPy.AsyncGen

/-! ## Objects and exceptions -/

variable {α : Type}

/-- The texts of the errors. -/
inductive Message where
  | alreadyRunning (context : String)
  | cannotReuseSend
  | cannotReuseClose
  | nonInitCoroutine
  | asyncGenIgnoredExit
  | coroutineIgnoredExit

def Message.text : Message → String
  | .alreadyRunning context => context ++ "(): asynchronous generator is already running"
  | .cannotReuseSend => "cannot reuse already awaited __anext__()/asend()"
  | .cannotReuseClose => "cannot reuse already awaited aclose()/athrow()"
  | .nonInitCoroutine => "can't send non-None value to a just-started coroutine"
  | .asyncGenIgnoredExit => "async generator ignored GeneratorExit"
  | .coroutineIgnoredExit => "coroutine ignored GeneratorExit"

/-- An exception, of one of these classes or of a subclass. -/
inductive Exc (α : Type) where
  | stopIteration (value : Option α)
  | stopAsyncIteration
  | generatorExit
  | runtimeError (message : Message)
  /-- "async generator already executing" -/
  | valueError
  | typeError
  | other (exception : α)

/-- `StopAsyncIteration` or `GeneratorExit` -/
def Exc.ends : Exc α → Bool
  | .stopAsyncIteration => true
  | .generatorExit => true
  | _ => false

def Exc.isStopIteration : Exc α → Bool
  | .stopIteration _ => true
  | _ => false

/-- The arguments of a `throw()`: how many they are, and what is raised if they are one to
    three. -/
structure ThrowArgs (α : Type) where
  count : ℕ
  raises : Exc α

def ThrowArgs.wellFormed (args : ThrowArgs α) : Bool := 1 ≤ args.count ∧ args.count ≤ 3

/-- What a resumed generator returns, if it does not fail: the value of a `yield`, wrapped,
    or one that an awaited object passes on. -/
inductive Yielded (α : Type) where
  | wrapped (value : Option α)
  | plain (value : Option α)

/-- The result of resuming the generator. `null` may be without an exception. -/
inductive Reply (α : Type) where
  | value (y : Yielded α)
  | null (e : Option (Exc α))

/-- What a method of an awaitable returns. -/
inductive Output (α : Type) where
  | value (y : Yielded α)
  | none
  | null (e : Option (Exc α))

/-- `NULL`, with an exception. -/
abbrev Output.raises (e : Exc α) : Output α := .null (some e)

def Output.isNull : Output α → Bool
  | .null _ => true
  | _ => false

/-! ## Generators and awaitables -/

/-- The generator. -/
structure Gen where
  /-- `resume_label == -1` -/
  finished : Bool
  /-- `is_running` -/
  isRunning : Bool
  /-- `ag_closed` -/
  agClosed : Bool
  /-- `ag_running_async` -/
  agRunningAsync : Bool

inductive AwaitableState where
  | init
  | iter
  | closed
deriving DecidableEq

inductive Kind (α : Type) where
  /-- `asend(sendval)`, or `__anext__()` -/
  | asend (sendval : Option (Option α))
  | athrow (args : ThrowArgs α)
  | aclose

def Kind.isAsend : Kind α → Bool
  | .asend _ => true
  | _ => false

structure Awaitable (α : Type) where
  kind : Kind α
  state : AwaitableState
  /-- It has returned `NULL` (not in the source). -/
  failed : Bool

/-- The methods of awaitables. -/
inductive Drive (α : Type) where
  | send (arg : Option α)
  /-- `__next__()` -/
  | iternext
  | throw (args : ThrowArgs α)
  | close

/-- What is sent. -/
def Drive.arg : Drive α → Option α
  | .send arg => arg
  | _ => none

/-- Where a function goes on, when the generator has returned. -/
inductive Label where
  /-- `asend_send_impl` and `asend_throw` -/
  | asend
  /-- `athrow_send_impl`, at first -/
  | athrowFirst
  /-- `athrow_send_impl`, later -/
  | athrowNext
  | athrowThrow
  /-- `athrow_send_impl` and `athrow_throw`, for `aclose()` -/
  | aclose

/-- A label, and whether `close()` goes on after it. -/
structure After where
  label : Label
  closing : Bool

/-- What a function does until it resumes the generator. -/
inductive Action (α : Type) where
  | returns (g : Gen) (o : Awaitable α) (out : Output α)
  /-- `__Pyx_Coroutine_Send` -/
  | sends (g : Gen) (o : Awaitable α) (arg : Option α) (after : After)
  /-- `__Pyx_Coroutine_Throw` -/
  | throws (g : Gen) (o : Awaitable α) (args : ThrowArgs α) (after : After)

/-! ## Results of the generator -/

/-- `__Pyx_async_gen_unwrap_value` -/
def unwrapValue (g : Gen) : Reply α → Gen × Output α
  | .null e =>
    let closed := e.elim true Exc.ends
    ({ g with agClosed := g.agClosed || closed, agRunningAsync := false },
      .raises (e.getD .stopAsyncIteration))
  | .value (.wrapped v) => ({ g with agRunningAsync := false }, .raises (.stopIteration v))
  | .value (.plain v) => (g, .value (.plain v))

/-- The end of an `aclose()`: it does not propagate `StopAsyncIteration` or
    `GeneratorExit`. -/
def checkError (g : Gen) (o : Awaitable α) (e : Option (Exc α)) : Gen × Awaitable α × Output α :=
  ({ g with agRunningAsync := false }, { o with state := .closed },
    .null (if e.elim false Exc.ends then some (.stopIteration none) else e))

/-- A `yield` in reply to an `aclose()`. -/
def yieldClose (g : Gen) (o : Awaitable α) : Gen × Awaitable α × Output α :=
  ({ g with agRunningAsync := false }, { o with state := .closed },
    .raises (.runtimeError .asyncGenIgnoredExit))

/-- What the functions do with the result. -/
def finishLabel (g : Gen) (o : Awaitable α) (r : Reply α) : Label → Gen × Awaitable α × Output α
  | .asend | .athrowThrow | .athrowFirst =>
    let (g, out) := unwrapValue g r
    (g, if out.isNull then { o with state := .closed } else o, out)
  | .athrowNext =>
    let (g, out) := unwrapValue g r
    (g, o, out)
  | .aclose =>
    match r with
    | .value (.wrapped _) => yieldClose g o
    | .value (.plain v) => (g, o, .value (.plain v))
    | .null e => checkError g o e

/-- `close()`, after the `throw()`. -/
def finishClose : Output α → Output α
  | .null e => if e.elim false fun e => e.ends || e.isStopIteration then .none else .null e
  | _ => .raises (.runtimeError .coroutineIgnoredExit)

def finish (g : Gen) (o : Awaitable α) (r : Reply α) (after : After) :
    Gen × Awaitable α × Output α :=
  let (g, o, out) := finishLabel g o r after.label
  (g, o, if after.closing then finishClose out else out)

/-! ## Methods of awaitables -/

section

variable (g : Gen) (o : Awaitable α)

/-- `__Pyx_async_gen_asend_send_impl` -/
def asendSendImpl (sendval : Option (Option α)) (arg : Option α) : Action α :=
  match o.state with
  | .closed => .returns g o (.raises (.runtimeError .cannotReuseSend))
  | .init =>
    if g.agRunningAsync then
      .returns g { o with state := .closed } (.raises (.runtimeError (.alreadyRunning "anext")))
    else
      let arg := if arg = none then sendval.getD none else arg
      .sends { g with agRunningAsync := true } { o with state := .iter } arg ⟨.asend, false⟩
  | .iter => .sends { g with agRunningAsync := true } o arg ⟨.asend, false⟩

/-- `__Pyx_async_gen_asend_throw` -/
def asendThrow (args : ThrowArgs α) (closing : Bool) : Action α :=
  match o.state with
  | .closed => .returns g o (.raises (.runtimeError .cannotReuseSend))
  | .init =>
    if g.agRunningAsync then
      .returns g { o with state := .closed } (.raises (.runtimeError (.alreadyRunning "anext")))
    else
      .throws { g with agRunningAsync := true } { o with state := .iter } args ⟨.asend, closing⟩
  | .iter => .throws g o args ⟨.asend, closing⟩

/-- The name that errors of `athrow()` and `aclose()` start with. -/
def context (args : Option (ThrowArgs α)) : String := if args.isNone then "aclose" else "athrow"

/-- `__Pyx_async_gen_athrow_send_impl`, without arguments for `aclose()` -/
def athrowSendImpl (args : Option (ThrowArgs α)) (arg : Option α) : Action α :=
  if o.state = .closed then .returns g o (.raises (.runtimeError .cannotReuseClose))
  else if g.finished then
    .returns g { o with state := .closed } (.raises (.stopIteration none))
  else if o.state = .init then
    if g.agRunningAsync then
      .returns g { o with state := .closed }
        (.raises (.runtimeError (.alreadyRunning (context args))))
    else if g.agClosed then .returns g { o with state := .closed } (.raises .stopAsyncIteration)
    else if arg ≠ none then .returns g o (.raises (.runtimeError .nonInitCoroutine))
    else
      let g := { g with agRunningAsync := true }
      let o := { o with state := .iter }
      match args with
      | none => .throws { g with agClosed := true } o ⟨1, .generatorExit⟩ ⟨.aclose, false⟩
      | some args =>
        if args.wellFormed then .throws g o args ⟨.athrowFirst, false⟩
        else .returns g o (.raises .typeError)
  else if args.isSome then .sends g o arg ⟨.athrowNext, false⟩
  else .sends g o arg ⟨.aclose, false⟩

/-- `__Pyx_async_gen_athrow_throw` -/
def athrowThrow (args : Option (ThrowArgs α)) (throwArgs : ThrowArgs α) (closing : Bool) :
    Action α :=
  let label := if args.isSome then Label.athrowThrow else Label.aclose
  match o.state with
  | .closed => .returns g o (.raises (.runtimeError .cannotReuseClose))
  | .init =>
    if g.agRunningAsync then
      .returns g { o with state := .closed }
        (.raises (.runtimeError (.alreadyRunning (context args))))
    else
      .throws { g with agRunningAsync := true } { o with state := .iter } throwArgs
        ⟨label, closing⟩
  | .iter => .throws g o throwArgs ⟨label, closing⟩

/-- What `close()` throws. -/
def generatorExit : ThrowArgs α := ⟨1, .generatorExit⟩

/-- The rest of `close()` for a `throw()` that returned at once. -/
def Action.close : Action α → Action α
  | .returns g o out => .returns g o (finishClose out)
  | action => action

/-- A method of an awaitable. -/
def drive (d : Drive α) : Action α :=
  match o.kind, d with
  | .asend _, .throw args => asendThrow g o args false
  | .asend _, .close =>
    if o.state = .closed then .returns g o .none else (asendThrow g o generatorExit true).close
  | .asend sendval, d => asendSendImpl g o sendval d.arg
  | .athrow args, .throw throwArgs => athrowThrow g o (some args) throwArgs false
  | .athrow args, .close =>
    if o.state = .closed then .returns g o .none
    else (athrowThrow g o (some args) generatorExit true).close
  | .athrow args, d => athrowSendImpl g o (some args) d.arg
  | .aclose, .throw throwArgs => athrowThrow g o none throwArgs false
  | .aclose, .close =>
    if o.state = .closed then .returns g o .none
    else (athrowThrow g o none generatorExit true).close
  | .aclose, d => athrowSendImpl g o none d.arg

end

/-! ## Runs -/

/-- What the body of a resumed generator does. -/
inductive Outcome (α : Type) where
  /-- It is suspended, with a value. -/
  | yields (y : Yielded α)
  /-- It returns (`StopAsyncIteration`) or raises an exception. -/
  | terminates (e : Option (Exc α))
  /-- It is not resumed: looking up `throw` on the awaited object failed. -/
  | fails (e : Exc α)

def Outcome.reply : Outcome α → Reply α
  | .yields y => .value y
  | .terminates e => .null e
  | .fails e => .null (some e)

def Outcome.isTerminates : Outcome α → Bool
  | .terminates _ => true
  | _ => false

def Outcome.isFails : Outcome α → Bool
  | .fails _ => true
  | _ => false

/-- A call that waits for the generator. -/
structure Frame where
  index : ℕ
  after : After
  /-- It is a call of `__Pyx_Coroutine_Throw`. -/
  throws : Bool

structure State (α : Type) where
  gen : Gen
  awaitables : List (Awaitable α)
  frame : Option Frame
  /-- An `aclose()` has completed normally (not in the source). -/
  aclosed : Bool

/-- A new generator. -/
def State.init : State α := ⟨⟨false, false, false, false⟩, [], none, false⟩

/-- `__Pyx_Coroutine_Send`, if it does not resume the generator -/
def coroutineSend (g : Gen) : Option (Reply α) :=
  if g.isRunning then some (.null (some .valueError))
  else if g.finished then some (.null (some .stopAsyncIteration))
  else none

/-- `__Pyx_Coroutine_Throw`, if it does not resume the generator -/
def coroutineThrow (g : Gen) (args : ThrowArgs α) : Option (Reply α) :=
  if ¬args.wellFormed then some (.null (some .typeError))
  else if g.isRunning then some (.null (some .valueError))
  else if g.finished then some (.null (some args.raises))
  else none

/-- An `aclose()` completes normally with `StopIteration`. -/
def completes (o : Awaitable α) (out : Output α) : Bool :=
  match o.kind, out with
  | .aclose, .null (some (.stopIteration _)) => true
  | _, _ => false

/-- The return of a method of an awaitable. -/
def State.returns (s : State α) (i : ℕ) : Gen × Awaitable α × Output α → State α × Option (Output α)
  | (g, o, out) =>
    ({ s with
        gen := g
        awaitables := s.awaitables.set i { o with failed := o.failed || out.isNull }
        aclosed := s.aclosed || completes o out }, some out)

/-- A call of the generator: it returns at once, or the method waits for it. -/
def State.calls (s : State α) (i : ℕ) (g : Gen) (o : Awaitable α) (r : Option (Reply α))
    (after : After) (throws : Bool) : State α × Option (Output α) :=
  match r with
  | some r => s.returns i (finish g o r after)
  | none =>
    ({ s with
        gen := { g with isRunning := true }
        awaitables := s.awaitables.set i o
        frame := some ⟨i, after, throws⟩ }, none)

/-- What can happen. -/
inductive Event (α : Type) where
  /-- a call of `asend()`, `__anext__()`, `athrow()` or `aclose()` -/
  | create (kind : Kind α)
  /-- a call of a method of an awaitable -/
  | drive (i : ℕ) (d : Drive α)
  /-- the return of the generator -/
  | resumed (outcome : Outcome α)

/-- An action of an awaitable. -/
def State.act (s : State α) (i : ℕ) : Action α → State α × Option (Output α)
  | .returns g o out => s.returns i (g, o, out)
  | .sends g o _ after => s.calls i g o (coroutineSend g) after false
  | .throws g o args after => s.calls i g o (coroutineThrow g args) after true

/-- An event, if it is possible, and what a method returns. -/
def step (s : State α) : Event α → Option (State α × Option (Output α))
  | .create kind =>
    some ({ s with awaitables := s.awaitables ++ [⟨kind, .init, false⟩] }, none)
  | .drive i d => s.awaitables[i]?.map fun o => s.act i (drive s.gen o d)
  | .resumed outcome =>
    s.frame.bind fun frame =>
      s.awaitables[frame.index]?.bind fun o =>
        if outcome.isFails ∧ ¬frame.throws then none
        else
          let g := { s.gen with
            isRunning := false, finished := s.gen.finished || outcome.isTerminates }
          some ({ s with frame := none }.returns frame.index
            (finish g o outcome.reply frame.after))

/-!
## The invariant of the awaitables

At most one awaitable of an asynchronous generator is active, and the generator knows
whether one is.

* `Inv`: the invariant, for all of the state;
* `inv_returns`: a method that returns keeps it, if it fits it (`Fits`);
* `inv_calls`: so does one that resumes the generator (`Starts`).
-/

/-! ## The invariant -/

/-- The awaitable `i` is active. -/
def State.Iter (s : State α) (i : ℕ) : Prop :=
  ∃ o, s.awaitables[i]? = some o ∧ o.state = .iter

/-- An awaitable that waits for the generator. -/
structure Waits (f : Frame) (o : Awaitable α) : Prop where
  started : o.state ≠ .init
  label : o.kind = .aclose → f.after.label = .aclose

structure Inv (s : State α) : Prop where
  unique : ∀ i j, s.Iter i → s.Iter j → i = j
  running : s.gen.agRunningAsync = true ↔ ∃ i, s.Iter i
  failed : ∀ (i : ℕ) (o : Awaitable α), s.awaitables[i]? = some o → o.failed = true →
    o.state = .closed
  finished : s.gen.finished = true → s.gen.isRunning = false ∧ s.gen.agRunningAsync = false
  frame : s.frame.isSome = s.gen.isRunning
  active : ∀ f ∈ s.frame, ∀ i, s.Iter i → i = f.index
  waits : ∀ f ∈ s.frame, ∃ o, s.awaitables[f.index]? = some o ∧ Waits f o
  aclosed : s.aclosed = true → s.gen.finished = true

theorem inv_init : Inv (State.init : State α) where
  unique _ _ h := by simp [State.Iter, State.init] at h
  running := by simp [State.Iter, State.init]
  failed _ _ h := by simp [State.init] at h
  finished h := by simp [State.init] at h
  frame := rfl
  active _ h := by simp [State.init] at h
  waits _ h := by simp [State.init] at h
  aclosed h := by simp [State.init] at h

section

variable {s : State α} {i : ℕ} {o : Awaitable α}

theorem State.iter_iff (ho : s.awaitables[i]? = some o) : s.Iter i ↔ o.state = .iter := by
  simp [State.Iter, ho]

/-- An active awaitable has set the flag. -/
theorem Inv.running_of_iter (h : Inv s) (ho : s.awaitables[i]? = some o) (hi : o.state = .iter) :
    s.gen.agRunningAsync = true :=
  h.running.2 ⟨i, (State.iter_iff ho).2 hi⟩

end

/-! ## What functions owe to it -/

/-- The return of a method. -/
structure Fits (g : Gen) (o : Awaitable α) (g' : Gen) (o' : Awaitable α) (out : Output α) :
    Prop where
  kind : o'.kind = o.kind
  failed : o'.failed = o.failed
  iter : o'.state = .iter → o.state = .iter
  running : o.state = .iter → (g'.agRunningAsync = true ↔ o'.state = .iter)
  other : o.state ≠ .iter → g'.agRunningAsync = g.agRunningAsync
  closed : o.state = .closed → o'.state = .closed
  started : o'.state = .init → o.state = .init
  null : out.isNull = true → o'.state = .closed
  completes : completes o' out = true → g'.finished = true

/-- A call of the generator. -/
structure Starts (g : Gen) (o : Awaitable α) (g' : Gen) (o' : Awaitable α) (after : After) :
    Prop where
  kind : o'.kind = o.kind
  failed : o'.failed = o.failed
  before : o.state = .iter ∨ (o.state = .init ∧ g.agRunningAsync = false)
  iter : o'.state = .iter
  running : g'.agRunningAsync = true
  isRunning : g'.isRunning = g.isRunning
  finished : g'.finished = g.finished
  label : o.kind = .aclose → after.label = .aclose

section

variable {s : State α} {i : ℕ} {o : Awaitable α} {g' : Gen} {o' : Awaitable α} {out : Output α}

/-- The awaitables after a change of one of them. -/
theorem iter_set (ho : s.awaitables[i]? = some o) {t : State α}
    (ht : t.awaitables = s.awaitables.set i o') (j : ℕ) :
    t.Iter j ↔ if j = i then o'.state = .iter else s.Iter j := by
  have hi : i < s.awaitables.length := (List.getElem?_eq_some_iff.1 ho).1
  rw [State.Iter, ht, List.getElem?_set]
  by_cases hj : j = i
  · subst hj
    simp [hi]
  · rw [if_neg (Ne.symm hj), if_neg hj]
    rfl

theorem failed_set (h : Inv s) {t : State α}
    (ht : t.awaitables = s.awaitables.set i o')
    (ho' : o'.failed = true → o'.state = .closed) :
    ∀ (j : ℕ) (a : Awaitable α), t.awaitables[j]? = some a → a.failed = true →
      a.state = .closed := by
  intro j a ha
  rw [ht, List.getElem?_set] at ha
  split_ifs at ha with hj
  · obtain rfl := Option.some.inj ha
    exact ho'
  · exact h.failed j a ha

/-- The return of a method keeps the invariant. -/
theorem inv_returns (h : Inv s) (ho : s.awaitables[i]? = some o)
    (fits : Fits s.gen o g' o' out) {frame : Option Frame}
    (hframe : frame.isSome = g'.isRunning) (hsub : ∀ f ∈ frame, f ∈ s.frame)
    (hfin : s.gen.finished = true → g'.finished = true)
    (hfin' : g'.finished = true → g'.isRunning = false ∧ g'.agRunningAsync = false) :
    Inv ({ s with frame := frame }.returns i (g', o', out)).1 := by
  have hiter := fun j => @iter_set _ s i o { o' with failed := o'.failed || out.isNull } ho
    ({ s with frame := frame }.returns i (g', o', out)).1 rfl j
  -- A step makes no awaitable active.
  have hsubset : ∀ j, ({ s with frame := frame }.returns i (g', o', out)).1.Iter j → s.Iter j := by
    intro j hj
    rw [hiter] at hj
    split_ifs at hj with hji
    · rw [hji, State.iter_iff ho]
      exact fits.iter hj
    · exact hj
  refine ⟨fun j k hj hk => h.unique j k (hsubset j hj) (hsubset k hk), ?_, ?_, hfin', hframe,
    fun f hf j hj => h.active f (hsub f hf) j (hsubset j hj), ?_, ?_⟩
  · change g'.agRunningAsync = true ↔ _
    by_cases hi : o.state = .iter
    · -- It was the active one: no other awaitable is active.
      rw [fits.running hi]
      refine ⟨fun h' => ⟨i, (hiter i).2 (by simpa using h')⟩, fun ⟨j, hj⟩ => ?_⟩
      have hji : j = i := h.unique j i (hsubset j hj) ((State.iter_iff ho).2 hi)
      simpa [hji] using (hiter j).1 hj
    · rw [fits.other hi, h.running]
      refine ⟨fun ⟨j, hj⟩ => ⟨j, (hiter j).2 ?_⟩, fun ⟨j, hj⟩ => ⟨j, hsubset j hj⟩⟩
      have hji : j ≠ i := fun hji => hi ((State.iter_iff ho).1 (hji ▸ hj))
      rwa [if_neg hji]
  · refine @failed_set _ s i { o' with failed := o'.failed || out.isNull } h _ rfl fun hf => ?_
    rcases Bool.or_eq_true_iff.1 hf with hf | hf
    · exact fits.closed (h.failed i o ho (fits.failed ▸ hf))
    · exact fits.null hf
  · intro f hf
    obtain ⟨a, ha, hw⟩ := h.waits f (hsub f hf)
    have hget := List.getElem?_set (l := s.awaitables) (i := i) (j := f.index)
      (a := { o' with failed := o'.failed || out.isNull })
    split_ifs at hget with hj hi
    · obtain rfl : o = a := Option.some.inj (ho ▸ hj ▸ ha)
      exact ⟨_, hget, fun hinit => hw.started (fits.started hinit),
        fun hk => hw.label (fits.kind ▸ hk)⟩
    · exact absurd (List.getElem?_eq_some_iff.1 ho).1 hi
    · exact ⟨a, hget.trans ha, hw⟩
  · intro ha
    rcases Bool.or_eq_true_iff.1 ha with ha | ha
    · exact hfin (h.aclosed ha)
    · exact fits.completes ha

/-- A call of the generator keeps the invariant. -/
theorem inv_calls (h : Inv s) (ho : s.awaitables[i]? = some o) {after : After}
    (starts : Starts s.gen o g' o' after)
    (hfin : s.gen.finished = false) (throws : Bool) :
    Inv (s.calls i g' o' none after throws).1 := by
  have hiter := fun j => @iter_set _ s i o o' ho (s.calls i g' o' none after throws).1 rfl j
  -- No other awaitable is active.
  have hother : ∀ j, s.Iter j → j = i := by
    intro j hj
    rcases starts.before with hi | ⟨-, hg⟩
    · exact h.unique j i hj ((State.iter_iff ho).2 hi)
    · exact absurd (h.running.2 ⟨j, hj⟩) (by simp [hg])
  have honly : ∀ j, (s.calls i g' o' none after throws).1.Iter j ↔ j = i := by
    intro j
    rw [hiter]
    split_ifs with hj
    · simp [hj, starts.iter]
    · exact ⟨hother j, fun h' => absurd h' hj⟩
  refine ⟨fun j k hj hk => ((honly j).1 hj).trans ((honly k).1 hk).symm, ?_, ?_, ?_, rfl, ?_, ?_,
    ?_⟩
  · exact ⟨fun _ => ⟨i, (honly i).2 rfl⟩, fun _ => starts.running⟩
  · refine failed_set h rfl fun hf => ?_
    have hc := h.failed i o ho (starts.failed ▸ hf)
    rcases starts.before with hi | ⟨hi, -⟩ <;> rw [hc] at hi <;> cases hi
  · intro hf
    have hf : g'.finished = true := hf
    rw [starts.finished, hfin] at hf
    cases hf
  · rintro f hf j hj
    obtain rfl := Option.some.inj hf
    exact (honly j).1 hj
  · intro f hf
    obtain rfl := Option.some.inj hf
    have hi : i < s.awaitables.length := (List.getElem?_eq_some_iff.1 ho).1
    exact ⟨o', List.getElem?_set_self hi, by simp [starts.iter],
      fun hk => starts.label (starts.kind ▸ hk)⟩
  · intro ha
    have hf := h.aclosed ha
    rw [hfin] at hf
    cases hf

end

end AHPy.AsyncGen
