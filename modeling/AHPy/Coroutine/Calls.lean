import Mathlib

/-!
# Calls of generators

Generators among other iterators. The code of users (the bodies of generators, the methods of
other objects, and code outside of both) calls methods, also those of generators that run at
that time; what it does is up to the user. A call that is not finished is a frame on a stack.

* `Op`, `Res`: calls and their results;
* `Frame`, `Control`: calls that are not finished, and what happens next;
* `Event`: what user code does;
* `Machine`, `Machine.step`: an implementation of generators, and its steps.
-/

namespace AHPy.Coroutine

variable {Obj V E G : Type}

/-! ## Values and exceptions -/

/-- A value; `None` is `none`. -/
abbrev Value (V : Type) := Option V

/-- An exception, of one of these classes or of a subclass. -/
inductive Exc (V E : Type)
  | stopIteration (value : Value V)
  | generatorExit
  | typeError (message : String)
  | valueError (message : String)
  | runtimeError (message : String)
  | attributeError (name : String)
  | other (e : E)

def Exc.isStopIteration : Exc V E → Bool
  | .stopIteration _ => true
  | _ => false

def Exc.isGeneratorExit : Exc V E → Bool
  | .generatorExit => true
  | _ => false

def alreadyExecuting : Exc V E := .valueError "generator already executing"

def justStarted : Exc V E :=
  .typeError "can't send non-None value to a just-started generator"

def ignoredGeneratorExit : Exc V E := .runtimeError "generator ignored GeneratorExit"

def raisedStopIteration : Exc V E := .runtimeError "generator raised StopIteration"

/-! ## Objects -/

/-- What an object is, and which methods it has. All objects have `__next__`. -/
inductive Kind
  /-- a generator of the module -/
  | generator
  /-- another iterator: a Python generator has all of these. -/
  | object (send throw close amSend : Bool)

def Kind.isGenerator : Kind → Bool
  | .generator => true
  | .object _ _ _ _ => false

def Kind.hasThrow : Kind → Bool
  | .generator => true
  | .object _ throw _ _ => throw

def Kind.hasClose : Kind → Bool
  | .generator => true
  | .object _ _ close _ => close

/-! ## Calls -/

/-- A call of a method, or of the slot `am_send`. -/
inductive Op (V E : Type)
  | next
  | send (v : Value V)
  | throw (e : Exc V E)
  | close
  | amSend (v : Value V)

def Op.isAmSend : Op V E → Bool
  | .amSend _ => true
  | _ => false

/-- The method that does what `am_send` of an object does. -/
def Op.plain : Op V E → Op V E
  | .amSend none => .next
  | .amSend (some v) => .send (some v)
  | op => op

/-- The result of a call: a value, the value that a generator returned (`PYGEN_RETURN`), or an
    exception. -/
inductive Res (V E : Type)
  | value (v : Value V)
  | returned (v : Value V)
  | raised (e : Exc V E)

/-- Methods raise `StopIteration` for `PYGEN_RETURN`. -/
def Res.plain : Res V E → Res V E
  | .returned v => .raised (.stopIteration v)
  | r => r

/-- `__Pyx_PyGen__FetchStopIterationValue` -/
def Res.fetchStopIterationValue : Res V E → Except (Exc V E) (Value V)
  | .value v => .ok v
  | .returned v => .ok v
  | .raised (.stopIteration v) => .ok v
  | .raised e => .error e

/-- Who called. -/
inductive Caller
  | amSend
  | method
  /-- `close()` -/
  | close

def Caller.isAmSend : Caller → Bool
  | .amSend => true
  | _ => false

/-- A call that is not finished. -/
inductive Frame (Obj V E : Type)
  /-- a method of another object -/
  | object (o : Obj) (caller : Caller)
  /-- the body of a generator -/
  | body (g : Obj) (caller : Caller)
  /-- a body that takes the first value of what it delegates to -/
  | starting (g : Obj) (caller : Caller) (label : ℕ) (d : Obj)
  /-- a generator that resumes what it delegates to, maybe by its `am_send` -/
  | delegate (g : Obj) (caller : Caller) (amSend : Bool)
  | throwing (g : Obj)
  /-- a generator that closes what it delegates to, for `close()` or for an exception -/
  | closing (g : Obj) (e : Option (Exc V E))

/-- Whether the frame is one of user code. -/
def Frame.runsUser : Frame Obj V E → Bool
  | .object _ _ => true
  | .body _ _ => true
  | _ => false

/-- What user code gets to see. -/
inductive Input (V E : Type)
  | start
  | value (v : Value V)
  | exc (e : Exc V E)
  | called (op : Op V E)

/-- The result of a call, for user code. -/
def Res.input : Res V E → Input V E
  | .value v => .value v
  | .returned v => .exc (.stopIteration v)
  | .raised e => .exc e

/-- What a body is resumed with. -/
def sentInput : Except (Exc V E) (Value V) → Input V E
  | .ok v => .value v
  | .error e => .exc e

/-- What happens next. -/
inductive Control (Obj V E : Type)
  /-- user code goes on: that of the upper frame -/
  | user (i : Input V E)
  | call (o : Obj) (op : Op V E)
  /-- a result for the upper frame -/
  | ret (r : Res V E)

/-- What user code does. -/
inductive Event (Obj V E : Type)
  | call (o : Obj) (op : Op V E)
  | yield (label : ℕ) (v : Value V)
  | yieldFrom (label : ℕ) (d : Obj)
  | return (v : Value V)
  | raise (e : Exc V E)

/-! ## Steps -/

/-- The states of generators, and the calls that are being made. -/
structure State (Obj V E G : Type) where
  gens : Obj → G
  stack : List (Frame Obj V E)
  control : Control Obj V E

/-- No call is being made. -/
def State.init (gen : G) : State Obj V E G := ⟨fun _ => gen, [], .user .start⟩

section

variable [DecidableEq Obj]

/-- A function of a generator returns. -/
def State.reply (s : State Obj V E G) (g : Obj) (c : G) (r : Res V E) : State Obj V E G where
  gens := Function.update s.gens g c
  stack := s.stack
  control := .ret r

/-- The body of a generator goes on. -/
def State.runBody (s : State Obj V E G) (g : Obj) (c : G) (caller : Caller) (i : Input V E) :
    State Obj V E G where
  gens := Function.update s.gens g c
  stack := .body g caller :: s.stack
  control := .user i

/-- A function of a generator calls a method of an object. -/
def State.callObject (s : State Obj V E G) (g : Obj) (c : G) (f : Frame Obj V E) (d : Obj)
    (op : Op V E) : State Obj V E G where
  gens := Function.update s.gens g c
  stack := f :: s.stack
  control := .call d op

end

/-- The code of an object is entered, if it has the method. -/
def State.enterObject (s : State Obj V E G) (o : Obj) (op : Op V E) (send throw close : Bool) :
    State Obj V E G :=
  let caller := if op.isAmSend then .amSend else .method
  let enter : State Obj V E G :=
    { s with stack := .object o caller :: s.stack, control := .user (.called op.plain) }
  let missing (name : String) : State Obj V E G :=
    { s with control := .ret (.raised (.attributeError name)) }
  match op.plain with
  | .send _ => if send then enter else missing "send"
  | .throw _ => if throw then enter else missing "throw"
  | .close => if close then enter else missing "close"
  | _ => enter

/-- The result of the code of an object: `am_send` does not raise `StopIteration`. -/
def objectResult : Caller → Event Obj V E → Option (Res V E)
  | _, .return v => some (.value v)
  | .amSend, .raise (.stopIteration v) => some (.returned v)
  | _, .raise e => some (.raised e)
  | _, _ => none

/-- An implementation of generators. -/
structure Machine (Obj V E G : Type) where
  call : Obj → Op V E → State Obj V E G → State Obj V E G
  /-- a result of what a function has called, whose frame is gone -/
  returnTo : Frame Obj V E → Res V E → State Obj V E G → State Obj V E G
  /-- what a body does, whose frame is gone -/
  bodyStep : Obj → Caller → Event Obj V E → State Obj V E G → Option (State Obj V E G)

namespace Machine

variable (m : Machine Obj V E G) (kind : Obj → Kind)

/-- A call. -/
def stepCall (o : Obj) (op : Op V E) (s : State Obj V E G) : State Obj V E G :=
  match kind o with
  | .generator => m.call o op s
  | .object send throw close _ => s.enterObject o op send throw close

/-- A result, for the upper frame. -/
def stepReturn (r : Res V E) (s : State Obj V E G) : State Obj V E G :=
  match s.stack with
  | .starting g caller label d :: stack =>
    m.returnTo (.starting g caller label d) r { s with stack }
  | .delegate g caller amSend :: stack => m.returnTo (.delegate g caller amSend) r { s with stack }
  | .throwing g :: stack => m.returnTo (.throwing g) r { s with stack }
  | .closing g e :: stack => m.returnTo (.closing g e) r { s with stack }
  | _ => { s with control := .user r.input }

/-- What user code does. -/
def stepUser (event : Event Obj V E) (s : State Obj V E G) : Option (State Obj V E G) :=
  match event, s.stack with
  | .call o op, _ => if op.isAmSend then none else some { s with control := .call o op }
  | event, .body g caller :: stack => m.bodyStep g caller event { s with stack }
  | event, .object _ caller :: stack =>
    (objectResult caller event).map fun r => { s with stack, control := .ret r }
  | _, _ => none

section

variable {m} {event : Event Obj V E} {s : State Obj V E G} {stack : List (Frame Obj V E)}
  {caller : Caller}

theorem stepUser_body {g : Obj} (he : ∀ o op, event ≠ .call o op)
    (hs : s.stack = .body g caller :: stack) :
    m.stepUser event s = m.bodyStep g caller event { s with stack } := by
  cases event with
  | call o op => exact absurd rfl (he o op)
  | _ => simp only [stepUser, hs]

theorem stepUser_object {o : Obj} (he : ∀ o op, event ≠ .call o op)
    (hs : s.stack = .object o caller :: stack) :
    m.stepUser event s =
      (objectResult caller event).map fun r => { s with stack, control := .ret r } := by
  cases event with
  | call o op => exact absurd rfl (he o op)
  | _ => simp only [stepUser, hs]

/-- No user code goes on at other frames. -/
theorem stepUser_none (he : ∀ o op, event ≠ .call o op)
    (hs : ∀ f ∈ s.stack.head?, f.runsUser = false) : m.stepUser event s = none := by
  cases event with
  | call o op => exact absurd rfl (he o op)
  | _ =>
    cases hstack : s.stack with
    | nil => simp only [stepUser, hstack]
    | cons f stack =>
      have hf : f.runsUser = false := hs f (by rw [hstack]; rfl)
      cases f with
      | body g caller => cases hf
      | object o caller => cases hf
      | _ => simp only [stepUser, hstack]

end

/-- One step, which an event leads to if user code goes on. -/
def step (s : State Obj V E G) (event : Option (Event Obj V E)) : Option (State Obj V E G) :=
  match s.control, event with
  | .user _, some event => m.stepUser event s
  | .call o op, none => some (m.stepCall kind o op s)
  | .ret r, none => some (m.stepReturn r s)
  | _, _ => none

/-- The state after some steps. -/
def run (events : List (Option (Event Obj V E))) (s : State Obj V E G) : Option (State Obj V E G) :=
  events.foldlM (m.step kind) s

end Machine

end AHPy.Coroutine
