import AHPy.Lib.OrderedDict

/-!
# Methods of dataclasses

The methods that `Dataclass.py` generates for a `cdef` class:

* `processClassGetFields`: the fields, with those of the nearest base class that
  has any;
* `generateInitCode`, `generateMatchArgs`: `__init__` and `__match_args__`;
* `generateCmpCode`: `__eq__` and the ordering methods, as chains of tests on the
  fields;
* `generateHashCode`: what happens to `__hash__`, and the fields it hashes.

The classes define no such methods themselves.
-/

namespace AHPy.Dataclass

/-- The name of a field. -/
abbrev Name := String

variable {V Fac E σ : Type}

/-! ## Fields -/

/-- The arguments `default` and `default_factory` of a field. -/
inductive FieldDefault (V Fac : Type)
  | missing
  | value (v : V)
  | factory (f : Fac)

/-- A field. -/
structure Field (V Fac : Type) where
  default : FieldDefault V Fac
  init : Bool
  compare : Bool
  hash : Option Bool
  isInitvar : Bool

/-- A field without arguments. -/
def Field.plain : Field V Fac := ⟨.missing, true, true, none, false⟩

/-- An extension type, with the arguments of the decorator if it is a dataclass. -/
structure ClassNode (V Fac : Type) where
  isDataclass : Bool
  /-- The fields that the class declares, in order of their positions. -/
  varEntries : List (Name × Field V Fac)
  init : Bool
  eq : Bool
  order : Bool
  unsafeHash : Bool
  frozen : Bool
  kwOnly : Bool
  matchArgs : Bool
  /-- `__post_init__` is found in the scope. -/
  postInit : Bool

/-- The fields of the nearest class of a chain that has any. -/
def inheritedFields : List (ClassNode V Fac) → OrderedDict Name (Field V Fac)
  | [] => .empty
  | cls :: bases =>
    let dataclassFields :=
      if cls.isDataclass then
        cls.varEntries.foldl (fun fields e => fields.set e.1 e.2) (inheritedFields bases)
      else .empty
    if dataclassFields.entries.isEmpty then inheritedFields bases else dataclassFields

/-- `process_class_get_fields` -/
def processClassGetFields (cls : ClassNode V Fac) (bases : List (ClassNode V Fac)) :
    OrderedDict Name (Field V Fac) :=
  cls.varEntries.foldl (fun fields e => fields.set e.1 e.2) (inheritedFields bases)

/-! ## Initialization -/

/-- A parameter of `__init__`, with its default. -/
structure Param (V : Type) where
  name : Name
  default : Option V

/-- The right side of the line `self.name = …` for a field. -/
inductive InitExpr (V Fac : Type)
  /-- `name` -/
  | argument
  /-- the default value -/
  | value (v : V)
  /-- `factory() if name is _HAS_DEFAULT_FACTORY else name` -/
  | factoryOrArgument (f : Fac)
  /-- `factory()` -/
  | factory (f : Fac)

/-- The function `__init__`. -/
structure InitFunction (V Fac : Type) where
  positional : List (Param V)
  keywordOnly : List (Param V)
  /-- The fields that are no `InitVar`, with the lines that assign them. -/
  lines : List (Name × Option (InitExpr V Fac))
  /-- The arguments of the call of `__post_init__`. -/
  postInit : Option (List Name)

/-- The value of `_HAS_DEFAULT_FACTORY`, and the calls of factories. -/
structure Runtime (V Fac E σ : Type) where
  hasDefaultFactory : V
  callFactory : Fac → EStateM E σ V

section Init

variable (hasDefaultFactory : V)

/-- The default of the parameter for a field. -/
def paramDefault : FieldDefault V Fac → Option V
  | .missing => none
  | .value v => some v
  | .factory _ => some hasDefaultFactory

/-- The loop of `generate_init_code`: the parameters, or the field that the error
    "non-default argument '%s' follows default argument in dataclass __init__" names. -/
def initArguments (kwOnly : Bool) : List (Name × Field V Fac) → Bool →
    Except Name (List (Param V))
  | [], _ => .ok []
  | (name, field) :: fields, seenDefault =>
    match paramDefault hasDefaultFactory field.default with
    | some v => do
      let args ← initArguments kwOnly fields (seenDefault || field.init)
      return if field.init then ⟨name, some v⟩ :: args else args
    | none =>
      if seenDefault && !kwOnly && field.init then .error name
      else do
        let args ← initArguments kwOnly fields seenDefault
        return if field.init then ⟨name, none⟩ :: args else args

/-- The line of the loop for a field that is no `InitVar`. -/
def initLine (field : Field V Fac) : Option (InitExpr V Fac) :=
  match field.default with
  | .factory f => if field.init then some (.factoryOrArgument f) else some (.factory f)
  | .value v =>
    if field.init then some .argument
    -- not an argument to the function, but is still initialized
    else some (.value v)
  | .missing => if field.init then some .argument else none

/-- `generate_init_code`: no function if the argument `init` of the decorator is False. -/
def generateInitCode (cls : ClassNode V Fac) (fields : List (Name × Field V Fac)) :
    Except Name (Option (InitFunction V Fac)) :=
  if !cls.init then .ok none
  else do
    let args ← initArguments hasDefaultFactory cls.kwOnly fields false
    return some {
      positional := if cls.kwOnly then [] else args
      keywordOnly := if cls.kwOnly then args else []
      lines := (fields.filter fun e => !e.2.isInitvar).map fun e => (e.1, initLine e.2)
      postInit :=
        if cls.postInit then some ((fields.filter fun e => e.2.isInitvar).map Prod.fst)
        else none }

end Init

/-- `generate_match_args` -/
def generateMatchArgs (cls : ClassNode V Fac) (fields : List (Name × Field V Fac)) :
    Option (List Name) :=
  if !cls.matchArgs then none
  else some ((fields.filter fun _ => !cls.kwOnly).map Prod.fst)

/-! ## Calls of `__init__` -/

/-- The positional and keyword arguments of a call. -/
structure Call (V : Type) where
  args : List V
  kwargs : OrderedDict Name V

namespace InitFunction

variable (f : InitFunction V Fac) (call : Call V)

/-- The value of the parameter `name`. -/
def argument (name : Name) : Option V :=
  match ((f.positional.map Param.name).zip call.args).lookup name with
  | some v => some v
  | none =>
    match call.kwargs.get? name with
    | some v => some v
    | none => ((f.positional ++ f.keywordOnly).find? fun p => p.name = name).bind Param.default

/-- The binding of the arguments succeeds. -/
def accepts : Bool :=
  decide (call.args.length ≤ f.positional.length) &&
    (call.kwargs.keys.all fun name =>
      decide (name ∈ (f.positional.drop call.args.length ++ f.keywordOnly).map Param.name)) &&
    ((f.positional ++ f.keywordOnly).all fun p => (f.argument call p.name).isSome)

/-- The value that a line assigns, if the names have values. -/
def evalExpr [DecidableEq V] (R : Runtime V Fac E σ) (name : Name) :
    InitExpr V Fac → EStateM E σ (Option V)
  | .argument => pure (f.argument call name)
  | .value v => pure (some v)
  | .factoryOrArgument factory =>
    if f.argument call name = some R.hasDefaultFactory then some <$> R.callFactory factory
    else pure (f.argument call name)
  | .factory factory => some <$> R.callFactory factory

/-- The value that is assigned to a field, if it has a line. -/
def evalLine [DecidableEq V] (R : Runtime V Fac E σ) (name : Name)
    (line : Option (InitExpr V Fac)) : EStateM E σ (Option V) :=
  match line with
  | some expr => f.evalExpr call R name expr
  | none => pure none

/-- The lines in order: the values that are assigned to the fields. -/
def runLines [DecidableEq V] (R : Runtime V Fac E σ) :
    List (Name × Option (InitExpr V Fac)) → EStateM E σ (List (Name × Option V))
  | [] => pure []
  | (name, line) :: lines => do
    let v ← f.evalLine call R name line
    let rest ← runLines R lines
    return (name, v) :: rest

/-- The effect of a call that is accepted: the fields, and the arguments that
    `__post_init__` gets. -/
def run [DecidableEq V] (R : Runtime V Fac E σ) :
    EStateM E σ (List (Name × Option V) × Option (List (Option V))) := do
  let values ← f.runLines call R f.lines
  return (values, f.postInit.map fun names => names.map (f.argument call))

end InitFunction

/-! ## Comparison -/

/-- The comparison operators of the methods. -/
inductive CompareOp
  | eq | lt | le | gt | ge
  deriving DecidableEq

namespace CompareOp

/-- `op.replace('=', '')`, for the ordering operators. -/
def withoutEquals : CompareOp → CompareOp
  | eq => eq
  | lt => lt
  | le => lt
  | gt => gt
  | ge => gt

/-- `'=' in op` -/
def hasEquals : CompareOp → Bool
  | eq => true
  | lt => false
  | le => true
  | gt => false
  | ge => true

end CompareOp

/-- The comparisons of the values of a field: the truth of their results, or an exception. -/
structure Comparisons (V E : Type) where
  /-- The values are the same object. -/
  same : V → V → Bool
  same_self : ∀ v, same v v = true
  ne : V → V → Except E Bool
  op : CompareOp → V → V → Except E Bool

/-- The names of the fields that are compared. -/
def comparedNames (fields : List (Name × Field V Fac)) : List Name :=
  (fields.filter fun e => e.2.compare && !e.2.isInitvar).map Prod.fst

/-- The tests of `generate_cmp_code`, for the values of the compared fields. -/
def cmpTests (cmp : Name → Comparisons V E) (op : CompareOp) (self other : Name → V) :
    List Name → Except E Bool
  | [] => .ok op.hasEquals
  | name :: names => do
    -- tuple comparison rules - early elements take precedence
    let first ←
      if op ≠ .eq then (cmp name).op op.withoutEquals (self name) (other name) else pure false
    if first then return true
    let differ ← (cmp name).ne (self name) (other name)
    if differ then return false
    cmpTests cmp op self other names

/-- `generate_cmp_code`: none for `NotImplemented`, if the classes of the objects differ. -/
def generateCmpCode (fields : List (Name × Field V Fac)) (cmp : Name → Comparisons V E)
    (op : CompareOp) (sameClass : Bool) (self other : Name → V) : Except E (Option Bool) :=
  if !sameClass then .ok none
  else some <$> cmpTests cmp op self other (comparedNames fields)

/-! ## Hashes -/

/-- What happens to `__hash__`. -/
inductive HashAction
  | inherit
  | setNone
  | add (names : List Name)

/-- The names of the fields that are hashed. -/
def hashedNames (fields : List (Name × Field V Fac)) : List Name :=
  (fields.filter fun e => !e.2.isInitvar && e.2.hash.getD e.2.compare).map Prod.fst

/-- `generate_hash_code` -/
def generateHashCode (cls : ClassNode V Fac) (fields : List (Name × Field V Fac)) : HashAction :=
  if !cls.unsafeHash then
    if !cls.eq then .inherit
    else if !cls.frozen then .setNone
    else .add (hashedNames fields)
  else .add (hashedNames fields)

/-- `hash((self.a, self.b, …))`, from the hashes of the values. -/
def tupleHash (hash : V → Except E ℤ) (combine : List ℤ → ℤ) (names : List Name)
    (self : Name → V) : Except E ℤ :=
  combine <$> names.mapM fun name => hash (self name)

end AHPy.Dataclass
