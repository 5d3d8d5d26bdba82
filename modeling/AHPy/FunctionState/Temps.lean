import AHPy.HandleModel.Resources
import AHPy.Lib.NamePools

/-!
# Temporaries of a function

How a `FunctionState` allocates the C variables of a function: temporaries are used again
for the same type when they have been released (`allocate_temp`, `release_temp`), those
that hold handles or builders are managed by a manager as well.

`FunctionCall` is a call of one of the methods, `Trace` what has happened after some calls.
-/

namespace AHPy

/-! ## Types -/

/-- What is asked of a type, and how it is told from others: equal types have the same
    `key` in a dictionary. -/
structure TempTypes (τ κ : Type) where
  key : τ → κ
  isCvQualified : τ → Bool
  isReference : τ → Bool
  isFakeReference : τ → Bool
  isCfunction : τ → Bool
  isCppClass : τ → Bool
  needsRefcounting : τ → Bool
  cvBaseType : τ → τ
  refBaseType : τ → τ
  cPtrType : τ → τ

namespace TempTypes

variable {τ κ : Type} (t : TempTypes τ κ)

/-- The type of a variable for values of a type. -/
def variableType (type : τ) : τ :=
  if t.isCvQualified type ∧ ¬t.isReference type then t.cvBaseType type
  else if t.isReference type ∧ ¬t.isFakeReference type then t.refBaseType type
  else if t.isCfunction type then t.cPtrType type
  else type

/-- Whether the variable is an optional of C++. -/
def usesOptionalLocals (cppLocals : Bool) (type : τ) : Prop :=
  ¬(t.isCvQualified type ∧ ¬t.isReference type) ∧
    ¬(t.isReference type ∧ ¬t.isFakeReference type) ∧ ¬t.isCfunction type ∧
    t.isCppClass type ∧ ¬t.isFakeReference type ∧ cppLocals

instance (cppLocals : Bool) (type : τ) : Decidable (t.usesOptionalLocals cppLocals type) :=
  inferInstanceAs (Decidable (_ ∧ _))

/-- What temporaries are shared by: the type, and whether a reference is managed. -/
def tempKey (type : τ) (manageRef : Bool) : κ × Bool :=
  (t.key (t.variableType type), manageRef && t.needsRefcounting (t.variableType type))

end TempTypes

/-! ## States -/

/-- Temporaries that have been released: those to be used again in a list, all in a set. -/
structure FreeList where
  names : List String
  set : Finset String

structure AllocatedTemp (τ : Type) where
  name : String
  type : τ
  manageRef : Bool
  static : Bool

/-- The attributes that are about temporaries. -/
structure Temps (τ κ : Type) where
  namesTaken : Finset String
  tempsAllocated : List (AllocatedTemp τ)
  tempsFree : OrderedDict (κ × Bool) FreeList
  tempsUsedType : OrderedDict String (τ × Bool)
  zombieTemps : Finset String
  tempCounter : ℕ

/-- The state of a function, with the utility code that its scope uses. -/
structure FunctionState (τ κ : Type) where
  temps : Temps τ κ
  labelCounter : ℕ
  collectTempsStack : List (OrderedDict (String × κ) τ)
  handleTemps : HandleTemporaryManager
  handleBuilders : ResourceManager HandleBuilderState
  cppLocals : Bool
  utilityCode : List (String × String)

/-- The errors of the methods. -/
inductive FunctionError where
  | keyError (name : String)
  | freedTwice (name : String)
  | indexError
  | handleTemps (error : TemporaryError)
  | handleBuilders (error : ResourceError HandleBuilderState)

/-- The text of a `RuntimeError`. -/
def FunctionError.message : FunctionError → Option String
  | freedTwice name => some ("Temp " ++ name ++ " freed twice!")
  | _ => none

/-- The methods of a `FunctionState`. -/
abbrev FunctionM (τ κ : Type) := EStateM FunctionError (FunctionState τ κ)

/-- `codewriter_temp_prefix` and a number. -/
def tempName (counter : ℕ) : String := "__pyx_t_" ++ toString counter

/-- `label_prefix`, a number, and a word. -/
def labelName (n : ℕ) (name : Option String) : String :=
  "__pyx_L" ++ toString n ++ name.elim "" fun name => "_" ++ name

namespace FunctionState

variable {τ κ : Type} [DecidableEq κ] (t : TempTypes τ κ)

/-- A new `FunctionState`: the labels for returning and for errors have been made. -/
def init (namesTaken : Finset String) (cppLocals : Bool) : FunctionState τ κ where
  temps := ⟨namesTaken, [], .empty, .empty, ∅, 0⟩
  labelCounter := 2
  collectTempsStack := []
  handleTemps := .empty
  handleBuilders := .empty
  cppLocals := cppLocals
  utilityCode := []

/-! ## Labels -/

def newLabel (name : Option String) : FunctionM τ κ String := do
  let n := (← get).labelCounter
  modify fun s => { s with labelCounter := n + 1 }
  return labelName n name

/-! ## Temporaries -/

/-- The number of the next name that is not taken; one more than the names that are taken
    are tried. -/
def nextCounter (namesTaken : Finset String) : ℕ → ℕ → ℕ
  | 0, counter => counter + 1
  | fuel + 1, counter =>
    if tempName (counter + 1) ∈ namesTaken then nextCounter namesTaken fuel (counter + 1)
    else counter + 1

def setFree (key : κ × Bool) (freelist : FreeList) : FunctionM τ κ Unit :=
  modify fun s => { s with temps.tempsFree := s.temps.tempsFree.set key freelist }

/-- `freelist[0].pop()`, and the same name removed from `freelist[1]`. -/
def popFree (key : κ × Bool) : FunctionM τ κ (Option String) := do
  match (← get).temps.tempsFree.get? key with
  | none => return none
  | some freelist =>
    match freelist.names.getLast? with
    | none => return none
    | some result =>
      if result ∈ freelist.set then
        setFree key ⟨freelist.names.dropLast, freelist.set.erase result⟩
        return some result
      else do
        setFree key ⟨freelist.names.dropLast, freelist.set⟩
        throw (.keyError result)

/-- A variable of its own. -/
def newTemp (type : τ) (manageRef static reusable : Bool) : FunctionM τ κ String := do
  let temps := (← get).temps
  let counter := nextCounter temps.namesTaken temps.namesTaken.card temps.tempCounter
  let result := tempName counter
  modify fun s => { s with
    temps.tempCounter := counter
    temps.tempsAllocated := s.temps.tempsAllocated ++ [⟨result, type, manageRef, static⟩]
    temps.zombieTemps :=
      if reusable then s.temps.zombieTemps else insert result s.temps.zombieTemps }
  return result

/-- What is used is collected. -/
def collect (result : String) (type : τ) : FunctionM τ κ Unit :=
  modify fun s => { s with
    collectTempsStack :=
      match s.collectTempsStack with
      | [] => []
      | top :: stack =>
        (if (result, t.key type) ∈ top then top else top.set (result, t.key type) type) :: stack }

/-- The branch of classes of C++. -/
def useOptionalLocals (type : τ) : FunctionM τ κ Unit := do
  if t.usesOptionalLocals (← get).cppLocals type then
    modify fun s => { s with
      utilityCode := s.utilityCode ++ [("OptionalLocals", "CppSupport.cpp")] }

/-- A variable that is free, or else a new one. -/
def takeTemp (type : τ) (manageRef static reusable : Bool) : FunctionM τ κ String := do
  match ← (if reusable then popFree (t.key type, manageRef) else pure none) with
  | some result => return result
  | none => newTemp type manageRef static reusable

def setUsedType (result : String) (type : τ) (manageRef : Bool) : FunctionM τ κ Unit :=
  modify fun s => { s with
    temps.tempsUsedType := s.temps.tempsUsedType.set result (type, manageRef) }

def allocateTemp (type : τ) (manageRef static reusable : Bool) : FunctionM τ κ String := do
  useOptionalLocals t type
  let type := t.variableType type
  let manageRef := manageRef && t.needsRefcounting type
  let result ← takeTemp t type manageRef static reusable
  setUsedType result type manageRef
  collect t result type
  return result

/-- The free list of a key, an empty one if there was none. -/
def freeListOf (key : κ × Bool) : FunctionM τ κ FreeList := do
  match (← get).temps.tempsFree.get? key with
  | some freelist => return freelist
  | none => do
    setFree key ⟨[], ∅⟩
    return ⟨[], ∅⟩

def releaseTemp (name : String) : FunctionM τ κ Unit := do
  match (← get).temps.tempsUsedType.get? name with
  | none => throw (.keyError name)
  | some (type, manageRef) => do
    let freelist ← freeListOf (t.key type, manageRef)
    if name ∈ freelist.set then
      throw (.freedTwice name)
    else do
      let zombieTemps := (← get).temps.zombieTemps
      setFree (t.key type, manageRef)
        ⟨if name ∈ zombieTemps then freelist.names else freelist.names ++ [name],
          insert name freelist.set⟩

/-- Whether a name is in the set of released temporaries of a key. -/
def isFree (temps : Temps τ κ) (key : κ × Bool) (name : String) : Bool :=
  (temps.tempsFree.get? key).any fun freelist => name ∈ freelist.set

/-- The names, types and managed references of the temporaries in use. -/
def tempsInUse (s : FunctionState τ κ) : List (String × τ × Bool) :=
  s.temps.tempsAllocated.filterMap fun a =>
    if isFree s.temps (t.key a.type, a.manageRef) a.name then none
    else some (a.name, a.type, a.manageRef && t.needsRefcounting a.type)

def startCollectingTemps : FunctionM τ κ Unit :=
  modify fun s => { s with collectTempsStack := .empty :: s.collectTempsStack }

def stopCollectingTemps : FunctionM τ κ (OrderedDict (String × κ) τ) := do
  match (← get).collectTempsStack with
  | [] => throw .indexError
  | top :: stack =>
    modify fun s => { s with collectTempsStack := stack }
    return top

/-! ## Handles and builders -/

/-- A method of `handle_temps`. -/
def onHandleTemps {α : Type} (x : TemporaryM α) : FunctionM τ κ α := fun s =>
  match x s.handleTemps with
  | .ok a m => .ok a { s with handleTemps := m }
  | .error e m => .error (.handleTemps e) { s with handleTemps := m }

/-- A method of `handle_builders`. -/
def onHandleBuilders {α : Type} (x : ResourceM HandleBuilderState α) : FunctionM τ κ α := fun s =>
  match x s.handleBuilders with
  | .ok a m => .ok a { s with handleBuilders := m }
  | .error e m => .error (.handleBuilders e) { s with handleBuilders := m }

def allocateHandleTemp (type : τ) (ownership : HandleOwnership) (static reusable : Bool) :
    FunctionM τ κ String := do
  let name ← allocateTemp t type false static reusable
  let _ ← onHandleTemps (HandleTemporaryManager.allocate name ownership)
  return name

def releaseHandleTemp (name : String) : FunctionM τ κ Unit := do
  let _ ← onHandleTemps (HandleTemporaryManager.release name)
  releaseTemp t name

def allocateHandleBuilderTemp (type : τ) (static reusable : Bool) : FunctionM τ κ String := do
  let name ← allocateTemp t type false static reusable
  let _ ← onHandleBuilders (ResourceManager.allocate builderKind name)
  return name

def releaseHandleBuilderTemp (name : String) : FunctionM τ κ Unit := do
  let _ ← onHandleBuilders (ResourceManager.release builderKind name)
  releaseTemp t name

end FunctionState

/-! ## Calls -/

/-- The calls of a `FunctionState`. -/
inductive FunctionCall (τ : Type) where
  | newLabel (name : Option String)
  | allocateTemp (type : τ) (manageRef static reusable : Bool)
  | releaseTemp (name : String)
  | allocateHandleTemp (type : τ) (ownership : HandleOwnership) (static reusable : Bool)
  | useHandleTemp (name : String)
  | closeHandleTemp (name : String)
  | moveHandleTemp (name : String)
  | releaseHandleTemp (name : String)
  | allocateHandleBuilderTemp (type : τ) (static reusable : Bool)
  | useHandleBuilderTemp (name : String)
  | buildHandleBuilderTemp (name : String)
  | cancelHandleBuilderTemp (name : String)
  | releaseHandleBuilderTemp (name : String)
  | startCollectingTemps
  | stopCollectingTemps

namespace FunctionCall

open FunctionState

variable {τ κ : Type} [DecidableEq κ] (t : TempTypes τ κ)

/-- A call, with the name it returns, if any. -/
def perform : FunctionCall τ → FunctionM τ κ (Option String)
  | .newLabel name => some <$> FunctionState.newLabel name
  | .allocateTemp type manageRef static reusable =>
    some <$> FunctionState.allocateTemp t type manageRef static reusable
  | .releaseTemp name => (fun _ => none) <$> FunctionState.releaseTemp t name
  | .allocateHandleTemp type ownership static reusable =>
    some <$> FunctionState.allocateHandleTemp t type ownership static reusable
  | .useHandleTemp name => (fun _ => none) <$> onHandleTemps (HandleTemporaryManager.use name)
  | .closeHandleTemp name => (fun _ => none) <$> onHandleTemps (HandleTemporaryManager.close name)
  | .moveHandleTemp name => (fun _ => none) <$> onHandleTemps (HandleTemporaryManager.move name)
  | .releaseHandleTemp name => (fun _ => none) <$> FunctionState.releaseHandleTemp t name
  | .allocateHandleBuilderTemp type static reusable =>
    some <$> FunctionState.allocateHandleBuilderTemp t type static reusable
  | .useHandleBuilderTemp name =>
    (fun _ => none) <$> onHandleBuilders (ResourceManager.use builderKind name)
  | .buildHandleBuilderTemp name =>
    (fun _ => none) <$> onHandleBuilders (ResourceManager.finish builderKind name .built)
  | .cancelHandleBuilderTemp name =>
    (fun _ => none) <$> onHandleBuilders (ResourceManager.finish builderKind name .cancelled)
  | .releaseHandleBuilderTemp name =>
    (fun _ => none) <$> FunctionState.releaseHandleBuilderTemp t name
  | .startCollectingTemps => (fun _ => none) <$> FunctionState.startCollectingTemps
  | .stopCollectingTemps => (fun _ => none) <$> FunctionState.stopCollectingTemps

/-- What `allocate_temp` hands out. -/
def allocation (s : FunctionState τ κ) (type : τ) (manageRef static reusable : Bool) :
    Option (PoolEvent String (κ × Bool)) :=
  match FunctionState.allocateTemp t type manageRef static reusable s with
  | .ok name _ => some (.allocated name (t.tempKey type manageRef) reusable)
  | .error .. => none

/-- What a call that returns takes back. -/
def release (s : FunctionState τ κ) (call : FunctionCall τ) (name : String) :
    Option (PoolEvent String (κ × Bool)) :=
  match call.perform t s with
  | .ok .. => some (.released name)
  | .error .. => none

/-- What a call, or `allocate_temp` and `release_temp` inside of it, does with a name. -/
def event (s : FunctionState τ κ) : FunctionCall τ → Option (PoolEvent String (κ × Bool))
  | .allocateTemp type manageRef static reusable =>
    allocation t s type manageRef static reusable
  | .allocateHandleTemp type _ static reusable => allocation t s type false static reusable
  | .allocateHandleBuilderTemp type static reusable => allocation t s type false static reusable
  | .releaseTemp name => release t s (.releaseTemp name) name
  | .releaseHandleTemp name => release t s (.releaseHandleTemp name) name
  | .releaseHandleBuilderTemp name => release t s (.releaseHandleBuilderTemp name) name
  | _ => none

/-- The label a call makes. -/
def label (s : FunctionState τ κ) : FunctionCall τ → Option String
  | .newLabel name => some (labelName s.labelCounter name)
  | _ => none

end FunctionCall

/-- The state after some calls, what has happened to the names of temporaries, and the
    labels that were made. -/
structure Trace (τ κ : Type) where
  state : FunctionState τ κ
  history : List (PoolEvent String (κ × Bool))
  labels : List String

namespace Trace

variable {τ κ : Type} [DecidableEq κ] (t : TempTypes τ κ)

/-- A new `FunctionState`, with its labels. -/
def init (namesTaken : Finset String) (cppLocals : Bool) : Trace τ κ :=
  ⟨.init namesTaken cppLocals, [], [labelName 1 (some "error"), labelName 0 none]⟩

/-- The next call, whether it returns or throws. -/
def next (r : Trace τ κ) (call : FunctionCall τ) : Trace τ κ where
  state := finalState (call.perform t r.state)
  history := (call.event t r.state).toList ++ r.history
  labels := (call.label r.state).toList ++ r.labels

/-- Calls, one after the other. -/
def run (r : Trace τ κ) (calls : List (FunctionCall τ)) : Trace τ κ := calls.foldl (next t) r

end Trace

end AHPy
