import Mathlib

/-!
# Ownership and storage of handles

The vocabulary of the handle model of the compiler: where a handle is stored,
who owns it, what has become of it, and what the operations of the HPy API do
to their handle arguments and results.

* `storageContract`: what each kind of storage is declared as, and whether
  reading it returns a handle of its own;
* `operationContract`: the effect of each operation, checked when it is built
  (`HandleOperationContract.result_isSome`, `HandleOperationContract.builder`);
* `validateStorageDeclaration`: the declarations that keep plain handles within
  a call.
-/

namespace AHPy

/-- Where a handle is stored. -/
inductive HandleStorageKind where
  | local_
  | field
  | global
  | contextConstant
  deriving DecidableEq

/-- The name of a kind of storage in messages. -/
def HandleStorageKind.value : HandleStorageKind → String
  | local_ => "local"
  | field => "field"
  | global => "global"
  | contextConstant => "context-constant"

/-- Who has to close a handle. -/
inductive HandleOwnership where
  | owned
  | borrowedArgument
  | immortal
  deriving DecidableEq

/-- The name of an ownership in messages. -/
def HandleOwnership.value : HandleOwnership → String
  | owned => "owned"
  | borrowedArgument => "borrowed-argument"
  | immortal => "immortal"

/-- What has become of a handle. -/
inductive HandleState where
  | live
  | moved
  | closed
  deriving DecidableEq

/-- The name of a state in messages. -/
def HandleState.value : HandleState → String
  | live => "live"
  | moved => "moved"
  | closed => "closed"

/-- How a handle is returned from a function. -/
inductive HandleTransfer where
  | move
  | duplicate

/-- How the control flow leaves a scope. -/
inductive HandleExitKind where
  | normal
  | return
  | break
  | continue
  | goto
  | exception

/-- What an operation does to its handle arguments. -/
inductive HandleArgumentEffect where
  | borrow
  | close

/-- The operations of the HPy API on handles. -/
inductive HandleOperation where
  | duplicate
  | close
  | call
  | callMethod
  | sequenceBuilderNew
  | sequenceBuilderSet
  | sequenceBuilderBuild
  | sequenceBuilderCancel
  | sequenceFromArray
  | sequencePack
  | dictNew
  | dictSetItem
  | dictSetItemString
  | dictCopy
  | toPython
  | fromPython
  | errorSetObject
  | errorSetNone
  | errorFormat
  | exceptionMatches
  | nameLookup
  | globalLoad
  | globalStore
  | fieldLoad
  | fieldStore
  | importModule
  | moduleSetAttr
  | moduleSetAttrString
  deriving DecidableEq

/-- The name of an operation in messages. -/
def HandleOperation.value : HandleOperation → String
  | duplicate => "duplicate"
  | close => "close"
  | call => "call"
  | callMethod => "call-method"
  | sequenceBuilderNew => "sequence-builder-new"
  | sequenceBuilderSet => "sequence-builder-set"
  | sequenceBuilderBuild => "sequence-builder-build"
  | sequenceBuilderCancel => "sequence-builder-cancel"
  | sequenceFromArray => "sequence-from-array"
  | sequencePack => "sequence-pack"
  | dictNew => "dict-new"
  | dictSetItem => "dict-set-item"
  | dictSetItemString => "dict-set-item-string"
  | dictCopy => "dict-copy"
  | toPython => "to-python"
  | fromPython => "from-python"
  | errorSetObject => "error-set-object"
  | errorSetNone => "error-set-none"
  | errorFormat => "error-format"
  | exceptionMatches => "exception-matches"
  | nameLookup => "name-lookup"
  | globalLoad => "global-load"
  | globalStore => "global-store"
  | fieldLoad => "field-load"
  | fieldStore => "field-store"
  | importModule => "import-module"
  | moduleSetAttr => "module-set-attr"
  | moduleSetAttrString => "module-set-attr-string"

/-! ## Errors -/

/-- The errors of the handle model about handles named by `ν`. -/
inductive HandleModelError (ν : Type*) where
  | alreadyDeclared (name : ν)
  | unknownValue (name : ν)
  | unknownStorage (name : ν)
  | argumentCount (operation : HandleOperation)
  | noResult (operation : HandleOperation)
  | missingResult (operation : HandleOperation)
  | noBranches
  | wrongCType (kind : HandleStorageKind) (expected actual : String)
  | functionLocal (cTypeCname : String)
  | plainHandleLongLived
  | wrongLifetime (kind : HandleStorageKind) (longLived : Bool)
  | immortalLocal
  | mortalConstant
  | noOwnedLoad (kind : HandleStorageKind)
  | noLongLivedStore (kind : HandleStorageKind)
  | notLive (state : HandleState) (name : ν)
  | notOwned (operation : String) (ownership : HandleOwnership) (name : ν)
  | storageDiffers
  | valuesDiffer
  | incompatibleStates (name : ν) (first branch : HandleState)
  | ownedRemainLive (names : List ν)

/-- The class of an error: the two others derive from `handleModel`. -/
inductive HandleErrorClass where
  | handleModel
  | invalidHandleStorage
  | invalidHandleTransition

namespace HandleModelError

variable {ν : Type*}

/-- The class an error is raised as. -/
def errorClass : HandleModelError ν → HandleErrorClass
  | alreadyDeclared _ | unknownValue _ | unknownStorage _ | argumentCount _ | noResult _
  | missingResult _ | noBranches => .handleModel
  | wrongCType .. | functionLocal _ | plainHandleLongLived | wrongLifetime .. | immortalLocal
  | mortalConstant | noOwnedLoad _ | noLongLivedStore _ => .invalidHandleStorage
  | notLive .. | notOwned .. | storageDiffers | valuesDiffer | incompatibleStates ..
  | ownedRemainLive _ => .invalidHandleTransition

/-- The text of an error, for names printed by `repr` (`%r`) and by `str` (`%s`). -/
def message (repr str : ν → String) : HandleModelError ν → String
  | alreadyDeclared n => "handle name " ++ repr n ++ " is already declared"
  | unknownValue n => "unknown local handle " ++ repr n
  | unknownStorage n => "unknown indirect storage " ++ repr n
  | argumentCount op => op.value ++ " requires exactly one handle argument"
  | noResult op => op.value ++ " does not produce a handle result"
  | missingResult op => op.value ++ " requires a result handle name"
  | noBranches => "at least one handle-state branch is required"
  | wrongCType kind expected actual =>
    kind.value ++ " storage requires C type " ++ expected ++ ", not " ++ actual
  | functionLocal c => c ++ " cannot be declared as function-local storage"
  | plainHandleLongLived =>
    "plain HPy cannot be stored across calls; use HPyField or HPyGlobal"
  | wrongLifetime kind longLived =>
    kind.value ++ " storage must be declared " ++
      (if longLived then "long-lived" else "call-scoped")
  | immortalLocal => "immortal handles must be declared as context constants"
  | mortalConstant => "context constants must have immortal ownership"
  | noOwnedLoad kind => kind.value ++ " storage has no owned-load operation"
  | noLongLivedStore kind => kind.value ++ " storage has no long-lived store operation"
  | notLive state n => "cannot use " ++ state.value ++ " handle " ++ repr n
  | notOwned operation ownership n =>
    "cannot " ++ operation ++ " " ++ ownership.value ++ " handle " ++ repr n ++
      "; duplicate it first"
  | storageDiffers => "indirect handle storage differs across control-flow branches"
  | valuesDiffer => "handle values differ across control-flow branches"
  | incompatibleStates n first branch =>
    "handle " ++ repr n ++ " has incompatible branch states " ++ first.value ++ " and " ++
      branch.value ++ "; emit matching cleanup before merging"
  | ownedRemainLive names =>
    "owned handles remain live at control-flow exit: " ++ ", ".intercalate (names.map str)

end HandleModelError

/-! ## Storage contracts -/

/-- What a kind of storage is declared as, and how it is read. -/
structure HandleStorage where
  kind : HandleStorageKind
  cTypeCname : String
  longLived : Bool
  directlyUsable : Bool
  loadReturnsOwnedLocal : Bool
  requiresOwnerObject : Bool
  requiresModuleRegistration : Bool
  deriving DecidableEq

/-- The contract of each kind of storage. -/
def storageContract : HandleStorageKind → HandleStorage
  | .local_ =>
    { kind := .local_, cTypeCname := "HPy", longLived := false, directlyUsable := true,
      loadReturnsOwnedLocal := false, requiresOwnerObject := false,
      requiresModuleRegistration := false }
  | .field =>
    { kind := .field, cTypeCname := "HPyField", longLived := true, directlyUsable := false,
      loadReturnsOwnedLocal := true, requiresOwnerObject := true,
      requiresModuleRegistration := false }
  | .global =>
    { kind := .global, cTypeCname := "HPyGlobal", longLived := true, directlyUsable := false,
      loadReturnsOwnedLocal := true, requiresOwnerObject := false,
      requiresModuleRegistration := true }
  | .contextConstant =>
    { kind := .contextConstant, cTypeCname := "HPy", longLived := false, directlyUsable := true,
      loadReturnsOwnedLocal := false, requiresOwnerObject := false,
      requiresModuleRegistration := false }

/-- Check that storage of a kind may be declared with a C type, locally to a
    function or across calls. -/
def validateStorageDeclaration {ν : Type*} (kind : HandleStorageKind) (cTypeCname : String)
    (isFunctionLocal isLongLived : Bool) : Except (HandleModelError ν) HandleStorage :=
  let contract := storageContract kind
  if cTypeCname ≠ contract.cTypeCname then
    .error (.wrongCType kind contract.cTypeCname cTypeCname)
  else if isFunctionLocal ∧ (kind = .field ∨ kind = .global) then
    .error (.functionLocal cTypeCname)
  else if isLongLived ∧ cTypeCname = "HPy" then
    .error .plainHandleLongLived
  else if isLongLived ≠ contract.longLived then
    .error (.wrongLifetime kind contract.longLived)
  else
    .ok contract

/-- The declarations that are accepted: of the C type and the lifetime of the kind, and not of
    long-lived storage in a function. (Plain handles are never long-lived.) -/
theorem validateStorageDeclaration_eq_ok_iff {ν : Type*} {kind : HandleStorageKind}
    {cTypeCname : String} {isFunctionLocal isLongLived : Bool} {contract : HandleStorage} :
    (validateStorageDeclaration kind cTypeCname isFunctionLocal isLongLived :
        Except (HandleModelError ν) HandleStorage) = .ok contract ↔
      contract = storageContract kind ∧ cTypeCname = contract.cTypeCname ∧
        isLongLived = contract.longLived ∧ ¬(isFunctionLocal ∧ contract.longLived) := by
  constructor
  · intro h
    simp only [validateStorageDeclaration] at h
    split_ifs at h with hc hf hp hl
    cases h
    refine ⟨rfl, by simpa using hc, by simpa using hl, ?_⟩
    revert hf
    cases kind <;> cases isFunctionLocal <;> simp [storageContract]
  · rintro ⟨rfl, rfl, rfl, h⟩
    revert h
    cases kind <;> cases isFunctionLocal <;> simp [validateStorageDeclaration, storageContract]

/-! ## Operation contracts -/

/-- What an operation does to its handle arguments, and what it returns. -/
structure HandleOperationContract where
  operation : HandleOperation
  handleArguments : List String
  argumentEffect : HandleArgumentEffect := .borrow
  resultOwnership : Option HandleOwnership := none
  resultStorage : Option HandleStorageKind := none
  producesBuilder : Bool := false
  consumesBuilder : Bool := false
  /-- The ownership and the storage of the result are specified together. -/
  result_isSome : resultOwnership.isSome = resultStorage.isSome := by rfl
  /-- No operation both produces and consumes a builder. -/
  builder : ¬(producesBuilder ∧ consumesBuilder) := by simp

/-- An operation that borrows its arguments. -/
def borrowed (operation : HandleOperation) (arguments : List String)
    (returnsOwned producesBuilder consumesBuilder : Bool := false)
    (h : ¬(producesBuilder ∧ consumesBuilder) := by decide) : HandleOperationContract where
  operation := operation
  handleArguments := arguments
  resultOwnership := if returnsOwned then some .owned else none
  resultStorage := if returnsOwned then some .local_ else none
  producesBuilder := producesBuilder
  consumesBuilder := consumesBuilder
  result_isSome := by cases returnsOwned <;> rfl
  builder := h

/-- The contract of each operation. -/
def operationContract : HandleOperation → HandleOperationContract
  | .duplicate => borrowed .duplicate ["source"] true
  | .close =>
    { operation := .close, handleArguments := ["handle"], argumentEffect := .close }
  | .call => borrowed .call ["callable", "arguments", "keywords"] true
  | .callMethod => borrowed .callMethod ["name", "arguments"] true
  | .sequenceBuilderNew => borrowed .sequenceBuilderNew [] false true
  | .sequenceBuilderSet => borrowed .sequenceBuilderSet ["item"]
  | .sequenceBuilderBuild => borrowed .sequenceBuilderBuild [] true false true
  | .sequenceBuilderCancel => borrowed .sequenceBuilderCancel [] false false true
  | .sequenceFromArray => borrowed .sequenceFromArray ["items"] true
  | .sequencePack => borrowed .sequencePack ["items"] true
  | .dictNew => borrowed .dictNew [] true
  | .dictSetItem => borrowed .dictSetItem ["dictionary", "key", "value"]
  | .dictSetItemString => borrowed .dictSetItemString ["dictionary", "value"]
  | .dictCopy => borrowed .dictCopy ["dictionary"] true
  | .toPython => borrowed .toPython [] true
  | .fromPython => borrowed .fromPython ["source"]
  | .errorSetObject => borrowed .errorSetObject ["exception", "value"]
  | .errorSetNone => borrowed .errorSetNone ["exception", "none"]
  | .errorFormat => borrowed .errorFormat ["exception", "format-values"]
  | .exceptionMatches => borrowed .exceptionMatches ["pattern"]
  | .nameLookup => borrowed .nameLookup ["namespace", "name"] true
  | .globalLoad => borrowed .globalLoad [] true
  | .globalStore => borrowed .globalStore ["value"]
  | .fieldLoad => borrowed .fieldLoad ["owner"] true
  | .fieldStore => borrowed .fieldStore ["owner", "value"]
  | .importModule => borrowed .importModule [] true
  | .moduleSetAttr => borrowed .moduleSetAttr ["module", "name", "value"]
  | .moduleSetAttrString => borrowed .moduleSetAttrString ["module", "value"]

/-- Only closing a handle consumes an argument. -/
theorem argumentEffect_operationContract (op : HandleOperation) :
    (operationContract op).argumentEffect = .close ↔ op = .close := by
  cases op <;> simp [operationContract, borrowed]

/-- The results of operations are owned local handles. -/
theorem result_operationContract {op : HandleOperation} {o : HandleOwnership}
    (h : (operationContract op).resultOwnership = some o) :
    o = .owned ∧ (operationContract op).resultStorage = some .local_ := by
  cases op <;> simp_all [operationContract, borrowed]

end AHPy
