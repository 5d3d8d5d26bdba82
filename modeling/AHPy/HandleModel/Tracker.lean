import AHPy.HandleModel.Contract
import AHPy.Lib.OrderedDict
import AHPy.Lib.Outcomes

/-!
# The handle state tracker

The handles that one control-flow state of the compiler knows: the values
declared so far, each with its storage, its ownership and what has become of
it, and the indirect storage they are loaded from (`HandleStateTracker`). The
methods are computations with exceptions (`TrackerM`): one that throws leaves
what it did before in place, as `applyOperation` closes its argument before it
looks at the name of its result.

Every method is a sequence of three kinds of steps (`Step`): a new value, a new
storage, or the consumption of a live owned value. The methods are shown to
`Keeps` the runs of such steps here, so that what holds of the steps holds of
the methods.

A tracker also records its declarations and consumptions (`log`); no method
reads the record.
-/

namespace AHPy

/-- A handle known to a tracker. -/
structure HandleValue where
  storage : HandleStorage
  ownership : HandleOwnership
  state : HandleState := .live
  deriving DecidableEq

/-- The handles to close on leaving a scope. -/
structure HandleCleanupPlan (ν : Type) where
  exitKind : HandleExitKind
  closeNames : List ν

/-- What a tracker records: the declaration of a value or of a storage, and the
    consumption (closing or moving) of a value. -/
inductive HandleEvent (ν : Type) where
  | declareValue (name : ν)
  | declareStorage (name : ν)
  | consume (name : ν)

/-- The values and the indirect storage of a control-flow state. The record
    `log` is not part of the compiler: it is what its states are compared to. -/
structure HandleStateTracker (ν : Type) where
  storage : OrderedDict ν HandleStorage
  values : OrderedDict ν HandleValue
  log : List (HandleEvent ν)

/-- The methods of a tracker. -/
abbrev TrackerM (ν : Type) := EStateM (HandleModelError ν) (HandleStateTracker ν)

namespace HandleStateTracker

variable {ν : Type}

/-- A tracker that knows nothing. -/
def empty : HandleStateTracker ν := ⟨.empty, .empty, []⟩

/-- The values declared so far, in this order. -/
def declaredValues (t : HandleStateTracker ν) : List ν :=
  t.log.filterMap fun | .declareValue n => some n | _ => none

/-- The indirect storage declared so far, in this order. -/
def declaredStorage (t : HandleStateTracker ν) : List ν :=
  t.log.filterMap fun | .declareStorage n => some n | _ => none

/-- The values consumed so far, in this order. -/
def consumed (t : HandleStateTracker ν) : List ν :=
  t.log.filterMap fun | .consume n => some n | _ => none

variable [DecidableEq ν]

/-! ## Methods -/

/-- `t.storage[n] = contract`. -/
def setStorage (t : HandleStateTracker ν) (n : ν) (contract : HandleStorage) :
    HandleStateTracker ν :=
  { t with storage := t.storage.set n contract, log := t.log ++ [.declareStorage n] }

/-- `t.values[n] = value`, for a new value. -/
def addValue (t : HandleStateTracker ν) (n : ν) (value : HandleValue) : HandleStateTracker ν :=
  { t with values := t.values.set n value, log := t.log ++ [.declareValue n] }

/-- `t.values[n] = value`, for a consumed value. -/
def consumeValue (t : HandleStateTracker ν) (n : ν) (value : HandleValue) :
    HandleStateTracker ν :=
  { t with values := t.values.set n value, log := t.log ++ [.consume n] }

def requireNewName (name : ν) : TrackerM ν Unit := do
  let t ← get
  if name ∈ t.storage ∨ name ∈ t.values then
    throw (.alreadyDeclared name)

/-- `cTypeCname or default`. -/
def cTypeCnameOr (cTypeCname : Option String) (default : String) : String :=
  match cTypeCname with
  | some c => if c = "" then default else c
  | none => default

def declareStorage (name : ν) (kind : HandleStorageKind) (cTypeCname : Option String := none) :
    TrackerM ν HandleStorage := do
  requireNewName name
  let contract := storageContract kind
  let contract ← MonadExcept.ofExcept <|
    validateStorageDeclaration kind (cTypeCnameOr cTypeCname contract.cTypeCname) false
      contract.longLived
  modify (·.setStorage name contract)
  return contract

def declareValue (name : ν) (storageKind : HandleStorageKind) (ownership : HandleOwnership)
    (cTypeCname : Option String := none) : TrackerM ν HandleValue := do
  requireNewName name
  let contract := storageContract storageKind
  let _ ← MonadExcept.ofExcept <|
    validateStorageDeclaration storageKind (cTypeCnameOr cTypeCname contract.cTypeCname) true false
  if storageKind = .local_ ∧ ownership = .immortal then
    throw .immortalLocal
  else if storageKind = .contextConstant ∧ ownership ≠ .immortal then
    throw .mortalConstant
  else do
    let value : HandleValue := { storage := contract, ownership := ownership }
    modify (·.addValue name value)
    return value

def value (name : ν) : TrackerM ν HandleValue := do
  match (← get).values.get? name with
  | some value => return value
  | none => throw (.unknownValue name)

def storageOf (name : ν) : TrackerM ν HandleStorage := do
  match (← get).storage.get? name with
  | some contract => return contract
  | none => throw (.unknownStorage name)

def use (name : ν) : TrackerM ν HandleValue := do
  let value ← value name
  if value.state ≠ .live then
    throw (.notLive value.state name)
  else
    return value

/-- `for name in names: use(name)`. -/
def useAll : List ν → TrackerM ν Unit
  | [] => return ()
  | name :: names => do
    let _ ← use name
    useAll names

def consumeOwned (name : ν) (targetState : HandleState) (operation : String) :
    TrackerM ν HandleValue := do
  let value ← use name
  if value.ownership ≠ .owned then
    throw (.notOwned operation value.ownership name)
  else do
    let value := { value with state := targetState }
    modify (·.consumeValue name value)
    return value

def close (name : ν) : TrackerM ν HandleValue := consumeOwned name .closed "close"

/-- `for name in names: close(name)`. -/
def closeAll : List ν → TrackerM ν Unit
  | [] => return ()
  | name :: names => do
    let _ ← close name
    closeAll names

def move (name : ν) : TrackerM ν HandleValue := consumeOwned name .moved "move"

def duplicate (sourceName targetName : ν) : TrackerM ν HandleValue := do
  let _ ← use sourceName
  declareValue targetName .local_ .owned

/-- Declare the result of an operation under the name given for it. -/
def declareResult (contract : HandleOperationContract) (resultName : Option ν) :
    TrackerM ν (Option HandleValue) :=
  match contract.resultOwnership, contract.resultStorage, resultName with
  | some ownership, some storage, some resultName =>
    some <$> declareValue resultName storage ownership
  | some _, _, _ => throw (.missingResult contract.operation)
  | none, _, some _ => throw (.noResult contract.operation)
  | none, _, none => return none

/-- Apply the contract of an operation to values. The arguments are used (or
    closed) before the name of the result is checked. -/
def applyOperation (operation : HandleOperation) (argumentNames : List ν)
    (resultName : Option ν) : TrackerM ν (Option HandleValue) := do
  let contract := operationContract operation
  match contract.argumentEffect, argumentNames with
  | .close, [argumentName] => let _ ← close argumentName
  | .close, _ => throw (.argumentCount operation)
  | .borrow, _ => useAll argumentNames
  declareResult contract resultName

def loadStorage (storageName targetName : ν) : TrackerM ν HandleValue := do
  let contract ← storageOf storageName
  if contract.loadReturnsOwnedLocal then
    declareValue targetName .local_ .owned
  else
    throw (.noOwnedLoad contract.kind)

def storeStorage (storageName valueName : ν) : TrackerM ν HandleValue := do
  let contract ← storageOf storageName
  if contract.kind = .field ∨ contract.kind = .global then
    use valueName
  else
    throw (.noLongLivedStore contract.kind)

def prepareReturn (name : ν) : TrackerM ν HandleTransfer := do
  let value ← use name
  if value.ownership = .owned then
    let _ ← move name
    return .move
  else
    return .duplicate

/-- A value to close on leaving a scope. -/
def LiveOwned (value : HandleValue) : Prop := value.ownership = .owned ∧ value.state = .live

instance (value : HandleValue) : Decidable (LiveOwned value) :=
  inferInstanceAs (Decidable (_ ∧ _))

/-- The plan to close the live owned values other than `preserveNames`, which
    have to be live, the last declared first. -/
def cleanupPlan (exitKind : HandleExitKind) (preserveNames : List ν) :
    TrackerM ν (HandleCleanupPlan ν) := do
  useAll preserveNames
  let closeNames := (← get).values.entries.reverse.filterMap fun (name, value) =>
    if LiveOwned value ∧ name ∉ preserveNames then some name else none
  return ⟨exitKind, closeNames⟩

def applyCleanupPlan (plan : HandleCleanupPlan ν) : TrackerM ν Unit :=
  closeAll plan.closeNames

/-- A tracker that goes its own way from here on. -/
def fork (t : HandleStateTracker ν) : HandleStateTracker ν :=
  { storage := t.storage, values := t.values, log := t.log }

/-- Check that two branches agree before they are merged. -/
def checkBranch (first branch : HandleStateTracker ν) : Except (HandleModelError ν) Unit :=
  if ¬ branch.storage.Similar first.storage then
    .error .storageDiffers
  else if ¬ (branch.values.keys ⊆ first.values.keys ∧ first.values.keys ⊆ branch.values.keys) then
    .error .valuesDiffer
  else
    first.values.entries.forM fun (name, firstValue) =>
      match branch.values.get? name with
      | some branchValue =>
        if branchValue ≠ firstValue then
          .error (.incompatibleStates name firstValue.state branchValue.state)
        else .ok ()
      | none => .error (.unknownValue name)

/-- The state after branches of the control flow meet. -/
def merge : List (HandleStateTracker ν) → Except (HandleModelError ν) (HandleStateTracker ν)
  | [] => .error .noBranches
  | first :: rest => do
    rest.forM (checkBranch first)
    return first.fork

/-- The names of the values yet to be closed, sorted. -/
def liveOwnedHandles [LE ν] [DecidableLE ν] (t : HandleStateTracker ν) : List ν :=
  (t.values.entries.filterMap fun (name, value) =>
    if LiveOwned value then some name else none).mergeSort

def assertNoLiveOwnedHandles [LE ν] [DecidableLE ν] : TrackerM ν Unit := do
  let live := (← get).liveOwnedHandles
  if live ≠ [] then
    throw (.ownedRemainLive live)

end HandleStateTracker

end AHPy
