import AHPy.Coroutine.Calls

/-!
# Generators of a compiled module

The functions of `Coroutine.c` for generators, each until it calls user code or another object,
and from there on. They work on the fields of one generator, and write them at the end.

* `sendEx`, `amSend`, `generatorNext`, `close`, `throw`: what a call does at first;
* `returnTo`: what a function does with the result of what it has called;
* `bodyStep`: what the body of a generator does.
-/

namespace AHPy.Coroutine

variable {Obj V E : Type}

/-- `__pyx_CoroutineObject` -/
structure CoroutineObject (Obj : Type) where
  /-- 0 at first, -1 at the end -/
  resumeLabel : ℤ
  isRunning : Bool
  yieldfrom : Option Obj
  /-- whether `yieldfrom_am_send` is set -/
  yieldfromAmSend : Bool

/-- A new generator. -/
def CoroutineObject.new : CoroutineObject Obj := ⟨0, false, none, false⟩

/-- The objects, and how the module was compiled. -/
structure Setting (Obj : Type) where
  kind : Obj → Kind
  /-- `CYTHON_USE_AM_SEND` -/
  useAmSend : Bool
  /-- whether `generator_stop` is in effect, as with language level 3 -/
  generatorStop : Bool

/-- `__Pyx_Coroutine_Undelegate` -/
def CoroutineObject.undelegate (c : CoroutineObject Obj) : CoroutineObject Obj :=
  { c with yieldfrom := none, yieldfromAmSend := false }

/-- What the caller makes of the result of `__Pyx_Coroutine_SendEx`. -/
def Caller.result : Caller → Res V E → Res V E
  | .amSend, r => r
  | .method, r => r.plain
  | .close, .returned none => .value none
  | .close, .raised e =>
    if e.isGeneratorExit || e.isStopIteration then .value none else .raised e
  | .close, _ => .raised ignoredGeneratorExit

variable (st : Setting Obj)

/-- The slot `am_send` of an object. -/
def Setting.amSendSlot (d : Obj) : Bool :=
  st.useAmSend && match st.kind d with
    | .generator => true
    | .object _ _ _ amSend => amSend

/-- `__Pyx_Coroutine_Set_Owned_Yield_From` -/
def CoroutineObject.setYieldFrom (c : CoroutineObject Obj) (d : Obj) : CoroutineObject Obj :=
  { c with yieldfrom := some d, yieldfromAmSend := st.amSendSlot d }

/-- `__Pyx_Generator_Replace_StopIteration`, with `generator_stop` -/
def Setting.replaceStopIteration (e : Exc V E) : Exc V E :=
  if st.generatorStop && e.isStopIteration then raisedStopIteration else e

variable [DecidableEq Obj]

abbrev CompiledState (Obj V E : Type) := State Obj V E (CoroutineObject Obj)

/-- The function returns, and the generator does not run any more. -/
def leave (g : Obj) (c : CoroutineObject Obj) (caller : Caller) (r : Res V E)
    (s : CompiledState Obj V E) : CompiledState Obj V E :=
  s.reply g { c with isRunning := false } (caller.result r)

/-! ## Functions -/

/-- The exit of a body: its label is -1 then. -/
def exitBody (g : Obj) (c : CoroutineObject Obj) (caller : Caller) (r : Res V E)
    (s : CompiledState Obj V E) : CompiledState Obj V E :=
  leave g { c.undelegate with resumeLabel := -1 } caller r s

/-- The exit of a body by an error. -/
def exitError (g : Obj) (c : CoroutineObject Obj) (caller : Caller) (e : Exc V E)
    (s : CompiledState Obj V E) : CompiledState Obj V E :=
  exitBody g c caller (.raised (st.replaceStopIteration e)) s

/-- `__Pyx_Coroutine_SendEx`, with a value or with an exception that has been set, and the switch
    of the body. -/
def sendEx (g : Obj) (c : CoroutineObject Obj) (caller : Caller)
    (sent : Except (Exc V E) (Value V)) (s : CompiledState Obj V E) : CompiledState Obj V E :=
  if c.resumeLabel = -1 then
    match sent with
    | .ok _ => leave g c caller (.raised (.stopIteration none)) s
    | .error e => leave g c caller (.raised e) s
  else if c.resumeLabel = 0 then
    match sent with
    | .ok none => s.runBody g c caller (.value none)
    | .ok (some _) => exitError st g c caller justStarted s
    | .error e => exitError st g c caller e s
  else s.runBody g c caller (sentInput sent)

/-- `__Pyx_Coroutine_FinishDelegation` -/
def finishDelegation (g : Obj) (c : CoroutineObject Obj) (caller : Caller) (r : Res V E)
    (s : CompiledState Obj V E) : CompiledState Obj V E :=
  sendEx st g c.undelegate caller r.fetchStopIterationValue s

/-- `__Pyx_Coroutine_AmSend`, and `__Pyx_Coroutine_Send` -/
def amSend (g : Obj) (c : CoroutineObject Obj) (caller : Caller) (v : Value V)
    (s : CompiledState Obj V E) : CompiledState Obj V E :=
  match c.yieldfromAmSend, c.yieldfrom with
  | true, some d => s.callObject g c (.delegate g caller true) d (.amSend v)
  | false, some d =>
    let op := if (st.kind d).isGenerator then .send v else v.elim .next fun v => .send (some v)
    s.callObject g c (.delegate g caller false) d op
  | _, none => sendEx st g c caller (.ok v) s

/-- `__Pyx_Generator_Next` -/
def generatorNext (g : Obj) (c : CoroutineObject Obj) (s : CompiledState Obj V E) :
    CompiledState Obj V E :=
  match c.yieldfromAmSend, c.yieldfrom with
  | true, some d => s.callObject g c (.delegate g .method true) d (.amSend none)
  | false, some d => s.callObject g c (.delegate g .method false) d .next
  | _, none => sendEx st g c .method (.ok none) s

/-- `__Pyx_Coroutine_Close`, where `__Pyx_Coroutine_CloseIter` calls `close` if there is one -/
def close (g : Obj) (c : CoroutineObject Obj) (s : CompiledState Obj V E) :
    CompiledState Obj V E :=
  match c.yieldfrom with
  | some d =>
    if (st.kind d).hasClose then s.callObject g c (.closing g none) d .close
    else sendEx st g c.undelegate .close (.error .generatorExit) s
  | none => sendEx st g c .close (.error .generatorExit) s

/-- `__Pyx__Coroutine_Throw` -/
def throw (g : Obj) (c : CoroutineObject Obj) (e : Exc V E) (s : CompiledState Obj V E) :
    CompiledState Obj V E :=
  match c.yieldfrom with
  | some d =>
    if e.isGeneratorExit then
      if (st.kind d).hasClose then s.callObject g c (.closing g (some e)) d .close
      else sendEx st g c.undelegate .method (.error e) s
    else if (st.kind d).hasThrow then s.callObject g c (.throwing g) d (.throw e)
    else sendEx st g c.undelegate .method (.error e) s
  | none => sendEx st g c .method (.error e) s

/-- A call of a generator: `__Pyx_Coroutine_test_and_set_is_running`, and the function. -/
def callGenerator (g : Obj) (op : Op V E) (s : CompiledState Obj V E) : CompiledState Obj V E :=
  if (s.gens g).isRunning then { s with control := .ret (.raised alreadyExecuting) }
  else
    let c := { s.gens g with isRunning := true }
    match op with
    | .next => generatorNext st g c s
    | .send v => amSend st g c .method v s
    | .amSend v => amSend st g c .amSend v s
    | .throw e => throw st g c e s
    | .close => close st g c s

/-- A result of what a function has called: the rest of the function. Its frame is gone. -/
def returnTo (f : Frame Obj V E) (r : Res V E) (s : CompiledState Obj V E) :
    CompiledState Obj V E :=
  match f with
  | .object _ _ => s
  | .body _ _ => s
  | .starting g caller label d =>
    -- `__Pyx_Generator_Yield_From`
    match r with
    | .value v =>
      leave g { (s.gens g).setYieldFrom st d with resumeLabel := label + 1 } caller (.value v) s
    | r => s.runBody g (s.gens g) caller (sentInput r.fetchStopIterationValue)
  | .delegate g caller true =>
    -- `__Pyx_Coroutine_SendToDelegate`
    match r with
    | .value v => leave g (s.gens g) caller (.value v) s
    | .returned v => sendEx st g (s.gens g).undelegate caller (.ok v) s
    | .raised e => sendEx st g (s.gens g).undelegate caller (.error e) s
  | .delegate g caller false =>
    match r with
    | .value v => leave g (s.gens g) caller (.value v) s
    | r => finishDelegation st g (s.gens g) caller r s
  | .throwing g =>
    match r with
    | .value v => leave g (s.gens g) .method (.value v) s
    | r => finishDelegation st g (s.gens g) .method r s
  | .closing g none =>
    match r with
    | .raised e => sendEx st g (s.gens g).undelegate .close (.error e) s
    | _ => sendEx st g (s.gens g).undelegate .close (.error .generatorExit) s
  | .closing g (some e) =>
    match r with
    | .raised e' => sendEx st g (s.gens g).undelegate .method (.error e') s
    | _ => sendEx st g (s.gens g).undelegate .method (.error e) s

/-- What the body of a generator does, whose frame is gone. -/
def bodyStep (g : Obj) (caller : Caller) (event : Event Obj V E) (s : CompiledState Obj V E) :
    Option (CompiledState Obj V E) :=
  match event with
  | .yield label v => some (leave g { s.gens g with resumeLabel := label + 1 } caller (.value v) s)
  | .yieldFrom label d => some (s.callObject g (s.gens g) (.starting g caller label d) d .next)
  | .return v => some (exitBody g (s.gens g) caller (.returned v) s)
  | .raise e => some (exitError st g (s.gens g) caller e s)
  | .call _ _ => none

/-- The generators of a compiled module. -/
def generators : Machine Obj V E (CoroutineObject Obj) where
  call := callGenerator st
  returnTo := returnTo st
  bodyStep := bodyStep st

/-!
## Generators of Python

What the methods of generators do in Python, where `yield from` calls `__next__`, `send`,
`throw` and `close` of the iterator that it delegates to.

* `GenState`: whether a generator has started, runs or is closed;
* `pyGenerators`: generators as the language defines them.
-/

variable {Obj V E : Type}

/-- The state of a generator, with the iterator that it delegates to. -/
inductive GenState (Obj : Type)
  | created
  | suspended (yf : Option Obj)
  | running (yf : Option Obj)
  | closed
deriving DecidableEq

abbrev PyState (Obj V E : Type) := State Obj V E (GenState Obj)

/-- What the caller gets when a generator yields, returns or raises. -/
def pyResult : Caller → Res V E → Res V E
  | .close, .value _ => .raised ignoredGeneratorExit
  | .close, .returned _ => .value none
  | .close, .raised e => if e.isGeneratorExit || e.isStopIteration then .value none else .raised e
  | _, r => r.plain

/-- A `StopIteration` does not leave a generator. -/
def pep479 (e : Exc V E) : Exc V E := if e.isStopIteration then raisedStopIteration else e

variable (kind : Obj → Kind) [DecidableEq Obj]

/-- `send(v)`, and `__next__` for `None` -/
def pySend (g : Obj) (v : Value V) (s : PyState Obj V E) : PyState Obj V E :=
  match s.gens g with
  | .created =>
    match v with
    | none => s.runBody g (.running none) .method (.value none)
    | some _ => { s with control := .ret (.raised justStarted) }
  | .suspended none => s.runBody g (.running none) .method (.value v)
  | .suspended (some d) =>
    s.callObject g (.running (some d)) (.delegate g .method false) d
      (v.elim .next fun v => .send (some v))
  | .running _ => { s with control := .ret (.raised alreadyExecuting) }
  | .closed => { s with control := .ret (.raised (.stopIteration none)) }

/-- `throw(e)` -/
def pyThrow (g : Obj) (e : Exc V E) (s : PyState Obj V E) : PyState Obj V E :=
  match s.gens g with
  | .created => s.reply g .closed (.raised (pep479 e))
  | .suspended none => s.runBody g (.running none) .method (.exc e)
  | .suspended (some d) =>
    if e.isGeneratorExit then
      if (kind d).hasClose then s.callObject g (.running (some d)) (.closing g (some e)) d .close
      else s.runBody g (.running none) .method (.exc e)
    else if (kind d).hasThrow then s.callObject g (.running (some d)) (.throwing g) d (.throw e)
    else s.runBody g (.running none) .method (.exc e)
  | .running _ => { s with control := .ret (.raised alreadyExecuting) }
  | .closed => { s with control := .ret (.raised e) }

/-- `close()` -/
def pyClose (g : Obj) (s : PyState Obj V E) : PyState Obj V E :=
  match s.gens g with
  | .created => s.reply g .closed (.value none)
  | .suspended none => s.runBody g (.running none) .close (.exc .generatorExit)
  | .suspended (some d) =>
    if (kind d).hasClose then s.callObject g (.running (some d)) (.closing g none) d .close
    else s.runBody g (.running none) .close (.exc .generatorExit)
  | .running _ => { s with control := .ret (.raised alreadyExecuting) }
  | .closed => { s with control := .ret (.value none) }

def pyCall (g : Obj) (op : Op V E) (s : PyState Obj V E) : PyState Obj V E :=
  match op with
  | .next => pySend g none s
  | .send v => pySend g v s
  | .amSend v => pySend g v s
  | .throw e => pyThrow kind g e s
  | .close => pyClose kind g s

/-- The iterator that a generator delegates to, while it runs. -/
def GenState.yieldfrom : GenState Obj → Option Obj
  | .suspended yf => yf
  | .running yf => yf
  | _ => none

/-- The rest of `yield from`, after a method of the iterator has been called: it yields a value,
    or the body goes on. -/
def pyReturnTo (f : Frame Obj V E) (r : Res V E) (s : PyState Obj V E) : PyState Obj V E :=
  match f with
  | .object _ _ => s
  | .body _ _ => s
  | .starting g caller _ d =>
    match r with
    | .value v => s.reply g (.suspended (some d)) (pyResult caller (.value v))
    | r => s.runBody g (.running none) caller (sentInput r.fetchStopIterationValue)
  | .delegate g caller _ =>
    match r with
    | .value v => s.reply g (.suspended (s.gens g).yieldfrom) (pyResult caller (.value v))
    | r => s.runBody g (.running none) caller (sentInput r.fetchStopIterationValue)
  | .throwing g =>
    match r with
    | .value v => s.reply g (.suspended (s.gens g).yieldfrom) (pyResult .method (.value v))
    | r => s.runBody g (.running none) .method (sentInput r.fetchStopIterationValue)
  | .closing g e =>
    -- What `close()` of the iterator raises takes the place of the exception.
    let caller := e.elim .close fun _ => .method
    match r with
    | .raised e' => s.runBody g (.running none) caller (.exc e')
    | _ => s.runBody g (.running none) caller (.exc (e.getD .generatorExit))

/-- What a body does. -/
def pyBodyStep (g : Obj) (caller : Caller) (event : Event Obj V E) (s : PyState Obj V E) :
    Option (PyState Obj V E) :=
  match event with
  | .yield _ v => some (s.reply g (.suspended none) (pyResult caller (.value v)))
  | .yieldFrom label d =>
    some (s.callObject g (.running none) (.starting g caller label d) d .next)
  | .return v => some (s.reply g .closed (pyResult caller (.returned v)))
  | .raise e => some (s.reply g .closed (pyResult caller (.raised (pep479 e))))
  | .call _ _ => none

/-- The generators of Python. -/
def pyGenerators : Machine Obj V E (GenState Obj) where
  call := pyCall kind
  returnTo := pyReturnTo
  bodyStep := pyBodyStep

end AHPy.Coroutine
