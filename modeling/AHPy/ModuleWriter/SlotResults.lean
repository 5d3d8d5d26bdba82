import AHPy.Lib.HandleCode
import AHPy.Lib.CInteger

/-!
# Native results of slots

Methods such as `__len__` return an object, and their slots a number of C, where
`-1` says that there is an exception. The conversion of the object depends on
the kind of the slot; each of its failures leaves through the failure exit,
which closes what is still open. A return statement may be under a failure
scope, to whose label failures go, with the handles that the scope preserves.

* `returnNative`: the emitted conversion and return;
* `nativeValue`: the number, or the exception.
-/

namespace AHPy.ModuleWriter

open HandleCode

/-- `native_return_kind` -/
inductive NativeReturnKind
  /-- `__len__` -/
  | ssize
  /-- `__bool__`, `__contains__` -/
  | bool
  /-- `__hash__` -/
  | hash

inductive NativeExc
  | overflowError
  | typeError
  | valueError
  | other
deriving DecidableEq

inductive NativeVar
  /-- Owned handles, by their numbers. -/
  | handle (n : ℕ)
  /-- Arguments that end with the tracker. -/
  | argument (n : ℕ)
  | tracker
  /-- The variables for the converted numbers, and the number that is returned. -/
  | converted
  | hash
  | returned
  | label
deriving DecidableEq

inductive NativeOp
  /-- `HPyLong_AsSsize_t` -/
  | ssizeFromPython
  /-- `HPyLong_AsLong` -/
  | signedLongFromPython
  /-- `HPy_TypeCheck` with `h_LongType` -/
  | isLong
  /-- `HPy_Hash` -/
  | objectHash
  /-- `HPyErr_Occurred` -/
  | errorOccurred
  /-- `HPyErr_ExceptionMatches` -/
  | exceptionMatches (exc : NativeExc)
  /-- `HPyErr_SetString` -/
  | errorSetString (exc : NativeExc) (message : String)
  /-- `HPyErr_Clear` -/
  | errorClear

abbrev NativeCode := Code NativeVar NativeOp

/-! ## The emitted conversion -/

/-- A failure scope: what failures leave open. -/
structure NativeScope where
  handles : List ℕ
  tracker : Bool

/-- What is open where a method returns. -/
structure OpenHandles where
  /-- `_handle_order` -/
  handles : List ℕ
  /-- The returned handle. -/
  value : ℕ
  /-- The arguments of the tracker, if it is live. -/
  tracker : Option (List ℕ)
  scope : Option NativeScope
  nodup : handles.Nodup
  value_mem : value ∈ handles
  /-- The returned handle is newer than the failure scope. -/
  value_notMem : ∀ s ∈ scope, value ∉ s.handles

/-- `return r;` for a number. -/
def returnNumber (r : IntExpr NativeVar) : NativeCode :=
  .seq (.set false .returned r) (.ret none)

def closeHandles (handles : List ℕ) : NativeCode :=
  .seqs (handles.map fun n => .close (.handle n) [])

def closeTracker : Option (List ℕ) → NativeCode
  | none => .skip
  | some arguments => .close .tracker (arguments.map .argument)

/-- `_emit_failure_exit`, which closes the handles that are still owned. -/
def emitFailureExit (live : OpenHandles) (owned : List ℕ) : NativeCode :=
  match live.scope with
  | none =>
    .seq (closeHandles owned.reverse)
      (.seq (closeTracker live.tracker) (returnNumber (.lit (-1))))
  | some s =>
    .seq (closeHandles (owned.reverse.filter (· ∉ s.handles)))
      (.seq (if s.tracker then .skip else closeTracker live.tracker) (.jump .label))

/-- `if ((x == -1) && HPyErr_Occurred()) { ... }` -/
def conversionFailed (x : NativeVar) : Test NativeVar NativeOp :=
  .and (.zero (.add (.var x) (.lit 1))) (.call .errorOccurred [])

/-- `close_owned_handle` of the returned handle, `_close_remaining_owned_handles`,
    `_close_argument_tracker`, and the return of the number. -/
def closeAndReturn (live : OpenHandles) (owned : List ℕ) (r : IntExpr NativeVar) : NativeCode :=
  .seq (closeHandles owned.reverse) (.seq (closeTracker live.tracker) (returnNumber r))

/-- An error is set, and the failure exit is taken. -/
def failWith (live : OpenHandles) (owned : List ℕ) (exc : NativeExc) (message : String) :
    NativeCode :=
  .seq (.effect (.errorSetString exc message) []) (emitFailureExit live owned)

/-- `_return_native_from_owned_handle`; `intType` is the type `int`. -/
def returnNative (intType : CIntType) (live : OpenHandles) : NativeReturnKind → NativeCode
  | .ssize =>
    .seqs [
      .status .converted .ssizeFromPython [.handle (.handle live.value)],
      .ite (conversionFailed .converted) (emitFailureExit live live.handles) .skip,
      .close (.handle live.value) [],
      .ite (.negative .converted)
        (failWith live (live.handles.erase live.value) .valueError
          "__len__() should return >= 0") .skip,
      closeAndReturn live (live.handles.erase live.value) (.var .converted)]
  | .bool =>
    .seqs [
      .status .converted .signedLongFromPython [.handle (.handle live.value)],
      .ite (conversionFailed .converted) (emitFailureExit live live.handles) .skip,
      .ite (.or (.rel .lt (.var .converted) (.lit intType.lo))
          (.rel .gt (.var .converted) (.lit (intType.lo + 2 ^ intType.width - 1))))
        (failWith live live.handles .overflowError "value too large to convert to C int") .skip,
      .close (.handle live.value) [],
      closeAndReturn live (live.handles.erase live.value) (.var .converted)]
  | .hash =>
    .seqs [
      .ite (.call .isLong [.handle (.handle live.value)]) .skip
        (failWith live live.handles .typeError "__hash__ method should return an integer"),
      .status .converted .ssizeFromPython [.handle (.handle live.value)],
      .ite (conversionFailed .converted)
        (.seqs [
          .ite (.call (.exceptionMatches .overflowError) []) .skip
            (emitFailureExit live live.handles),
          .effect .errorClear [],
          .status .hash .objectHash [.handle (.handle live.value)],
          .ite (conversionFailed .hash) (emitFailureExit live live.handles) .skip])
        (.set false .hash (.var .converted)),
      .ite (.zero (.add (.var .hash) (.lit 1))) (.set false .hash (.lit (-2))) .skip,
      .close (.handle live.value) [],
      closeAndReturn live (live.handles.erase live.value) (.var .hash)]

/-! ## The interpreter -/

/-- The functions of the interpreter that convert objects; they may run code of the object. -/
structure NumberInterpreter (Obj W : Type) where
  asSsize : Obj → W → Except NativeExc ℤ × W
  asLong : Obj → W → Except NativeExc ℤ × W
  isLong : Obj → Bool
  hash : Obj → W → Except NativeExc ℤ × W

/-- The pending exception, and the rest of the state. -/
structure NativeWorld (W : Type) where
  pending : Option NativeExc
  state : W

variable {Obj W : Type}

/-- A function of C with an error value. -/
def withErrorValue (r : Except NativeExc ℤ × W) (pending : Option NativeExc) : ℤ × NativeWorld W :=
  match r.1 with
  | .ok v => (v, ⟨pending, r.2⟩)
  | .error e => (-1, ⟨some e, r.2⟩)

/-- What the emitted code runs on. -/
def NumberInterpreter.runtime (I : NumberInterpreter Obj W) :
    Runtime NativeOp Obj (NativeWorld W) where
  eval op _ w :=
    match op with
    | .errorSetString exc _ => (none, { w with pending := some exc })
    | .errorClear => (none, { w with pending := none })
    | _ => (none, w)
  test op args w :=
    match op, args with
    | .ssizeFromPython, [.handle (some o)] => withErrorValue (I.asSsize o w.state) w.pending
    | .signedLongFromPython, [.handle (some o)] => withErrorValue (I.asLong o w.state) w.pending
    | .isLong, [.handle (some o)] => (if I.isLong o then 1 else 0, w)
    | .objectHash, [.handle (some o)] => withErrorValue (I.hash o w.state) w.pending
    | .errorOccurred, [] => (if w.pending.isSome then 1 else 0, w)
    | .exceptionMatches exc, [] => (if w.pending = some exc then 1 else 0, w)
    | _, _ => (0, w)

/-- The number that a slot returns for an object, or the exception. -/
def nativeValue (I : NumberInterpreter Obj W) (intType : CIntType) (o : Obj) (s : W) :
    NativeReturnKind → Except NativeExc ℤ × W
  | .ssize =>
    match I.asSsize o s with
    | (.error e, s') => (.error e, s')
    | (.ok v, s') => if v < 0 then (.error .valueError, s') else (.ok v, s')
  | .bool =>
    match I.asLong o s with
    | (.error e, s') => (.error e, s')
    | (.ok v, s') => if intType.InRange v then (.ok v, s') else (.error .overflowError, s')
  | .hash =>
    if I.isLong o then
      match I.asSsize o s with
      | (.error .overflowError, s') =>
        match I.hash o s' with
        | (.error e, s'') => (.error e, s'')
        | (.ok h, s'') => (.ok (if h = -1 then -2 else h), s'')
      | (.error e, s') => (.error e, s')
      | (.ok v, s') => (.ok (if v = -1 then -2 else v), s')
    else (.error .typeError, s)

end AHPy.ModuleWriter
