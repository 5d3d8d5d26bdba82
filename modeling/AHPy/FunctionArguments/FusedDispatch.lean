import AHPy.Lib.OrderedDict

/-!
# Dispatch of fused functions

The function `__pyx_fused_cpdef` that `FusedNode.make_fused_cpdef` generates for
a `def` or `cpdef` function with fused types, and the lookups of
`FusedFunction.pyx`:

* `FusedFunction.unpacks`: the code of `_unpack_argument` for the first
  parameter of each fused type, with its index in the argument tuple and in the
  tuple of defaults;
* `FusedFunction.indexSignature`, `FusedFunction.matchSignatures`: the
  comparison of the type strings with the signatures, and its cache;
* `FusedFunction.fusedCpdef`: a call of the dispatcher.

The mappers of objects to type strings are part of a call: any functions of the
object, which may find other strings at another time.
-/

namespace AHPy.FusedDispatch

/-- The characters of a string. -/
abbrev Text := List Char

/-! ## Type strings -/

/-- The characters that `strip('()')` removes. -/
def isParenthesis (c : Char) : Bool := c = '(' || c = ')'

/-- `lstrip('()')` -/
def lstrip (t : Text) : Text := t.dropWhile isParenthesis

/-- `rstrip('()')` -/
def rstrip (t : Text) : Text := t.rdropWhile isParenthesis

/-- `strip('()')` -/
def strip (t : Text) : Text := rstrip (lstrip t)

/-- As many parentheses are opened as closed. -/
def Balanced (t : Text) : Prop := t.count '(' = t.count ')'

instance (t : Text) : Decidable (Balanced t) := inferInstanceAs (Decidable (_ = _))

/-- The `typeof_name()` of a C type. Names may begin or end with a parenthesis,
    as those of C tuples and of function types, which closes one inside of them
    or is closed there. -/
structure TypeName where
  text : Text
  noBar : '|' ∉ text
  left : lstrip text = text ∨ ¬ Balanced (lstrip text)
  right : rstrip text = text ∨ ¬ Balanced (rstrip text)
  deriving DecidableEq

/-- A string that a mapper returns: the name of a Python type, of a C number type
    or of a buffer. -/
structure TypeString where
  text : Text
  balanced : Balanced text
  left : lstrip text = text
  right : rstrip text = text
  deriving DecidableEq

/-- A name without `'|'`, and without parentheses at its ends. -/
def Plain (t : Text) : Prop := '|' ∉ t ∧ lstrip t = t ∧ rstrip t = t ∧ Balanced t

instance (t : Text) : Decidable (Plain t) :=
  inferInstanceAs (Decidable ('|' ∉ t ∧ lstrip t = t ∧ rstrip t = t ∧ Balanced t))

/-- The type name of a plain name. -/
def TypeName.plain (t : Text) (h : Plain t) : TypeName :=
  ⟨t, h.1, .inl h.2.1, .inl h.2.2.1⟩

/-- The type string of a plain name. -/
def TypeString.plain (t : Text) (h : Plain t) : TypeString :=
  ⟨t, h.2.2.2, h.2.1, h.2.2.1⟩

/-- `'|'.join(type_strings)` -/
def signatureString (types : List TypeName) : Text :=
  ['|'].intercalate (types.map TypeName.text)

/-! ## Fused functions -/

variable {F Obj Fn : Type}

/-- A parameter of the function. -/
structure Arg (F Obj : Type) where
  name : Text
  /-- The fused type that the type of the parameter is made of. -/
  fusedType : Option F
  /-- The object of the default value. -/
  default : Option Obj

/-- How calls may pass a parameter. -/
inductive ParameterKind
  | positionalOnly
  | positionalOrKeyword
  | keywordOnly

/-- The TypeErrors of the dispatcher. -/
inductive DispatchError
  /-- `Expected at least %zd argument%.1s, got %zd` -/
  | expectedAtLeast (minPositionalArgs argCount : Nat)
  /-- `Missing keyword-only argument: '%U'` -/
  | missingKeywordOnly (name : Text)
  /-- `No matching signature found` -/
  | noMatchingSignature
  /-- `Function call with ambiguous argument types` -/
  | ambiguous

/-- The code for one fused type: the indices of its first parameter in the
    argument tuple and, with a default, in the tuple of defaults. -/
structure Unpack (F : Type) where
  fusedType : F
  name : Text
  argTupleIdx : Nat
  defaultIdx : Option Nat

section Generator

variable [DecidableEq F]

/-- The loop of `make_fused_cpdef` over the parameters. -/
def unpackArguments : List (Arg F Obj) → Nat → Nat → List F → List (Unpack F)
  | [], _, _, _ => []
  | arg :: args, i, defaultIdx, seenFusedTypes =>
    let defaultIdx' := if arg.default.isSome then defaultIdx + 1 else defaultIdx
    match arg.fusedType with
    | some t =>
      if t ∈ seenFusedTypes then unpackArguments args (i + 1) defaultIdx' seenFusedTypes
      else
        { fusedType := t
          name := arg.name
          argTupleIdx := i
          defaultIdx := if arg.default.isSome then some defaultIdx else none } ::
            unpackArguments args (i + 1) defaultIdx' (t :: seenFusedTypes)
    | none => unpackArguments args (i + 1) defaultIdx' seenFusedTypes

end Generator

/-- The types of the parameters in the order of `_get_fused_base_types`. -/
def fusedTypesOf [DecidableEq F] (args : List (Arg F Obj)) : List F :=
  (unpackArguments args 0 0 []).map Unpack.fusedType

/-- A fused function: the node, and its `__signatures__`, with the type names
    that the keys are joined from. -/
structure FusedFunction (F Obj Fn : Type) [DecidableEq F] where
  args : List (Arg F Obj)
  numPosonlyArgs : Nat
  numKwonlyArgs : Nat
  kinds : numPosonlyArgs + numKwonlyArgs ≤ args.length
  names : (args.map Arg.name).Nodup
  /-- The function has `*args`. -/
  starArg : Bool
  /-- The function has `**kwargs`. -/
  starstarArg : Bool
  isDef : Bool
  /-- Some parameter is fused. -/
  fused : fusedTypesOf args ≠ []
  signatures : List (List TypeName × Fn)
  /-- A signature names one type for each fused type. -/
  lengths : ∀ s ∈ signatures, s.1.length = (fusedTypesOf args).length
  /-- The keys of a dict. -/
  keys : (signatures.map Prod.fst).Nodup

/-- A call: its arguments, and the type string that the mapper for a fused type
    finds for an object. -/
structure Call (F Obj : Type) where
  args : List Obj
  kwargs : Option (OrderedDict Text Obj)
  mapFusedType : F → Obj → Option TypeString

/-- The cache `_fused_sigindex`. -/
abbrev SigIndex (Fn : Type) := OrderedDict (List (Option TypeString)) Fn

namespace FusedFunction

section Matching

/-- `zip` and the loop over its pairs: no type string that is known differs. -/
def agreesWith : List Text → List (Option TypeString) → Bool
  | typeName :: types, destType :: destSig =>
    match destType with
    | none => agreesWith types destSig
    | some d => if d.text ≠ typeName then false else agreesWith types destSig
  | _, _ => true

/-- The loop of `index_signature` over the items of `signatures`. -/
def matchLoop (destSig : List (Option TypeString)) :
    List (Text × Fn) → Option Fn → Except DispatchError (Option Fn)
  | [], matchedFunction => .ok matchedFunction
  | (sig, function) :: signatures, matchedFunction =>
    if agreesWith ((strip sig).splitOn '|') destSig then
      match matchedFunction with
      | some _ => .error .ambiguous
      | none => matchLoop destSig signatures (some function)
    else matchLoop destSig signatures matchedFunction

/-- `index_signature`, without the entry in the cache. -/
def indexSignature (signatures : List (Text × Fn)) (destSig : List (Option TypeString)) :
    Except DispatchError Fn :=
  match matchLoop destSig signatures none with
  | .ok (some function) => .ok function
  | .ok none => .error .noMatchingSignature
  | .error e => .error e

/-- `match_signatures` -/
def matchSignatures (signatures : List (Text × Fn)) (destSig : List (Option TypeString))
    (sigindex : SigIndex Fn) : Except DispatchError Fn × SigIndex Fn :=
  match sigindex.get? destSig with
  | some function => (.ok function, sigindex)
  | none =>
    match indexSignature signatures destSig with
    | .ok function => (.ok function, sigindex.set destSig function)
    | .error e => (.error e, sigindex)

/-- `match_signatures_single`: `signatures.get(dest_type)`, where no key is None. -/
def matchSignaturesSingle (signatures : List (Text × Fn)) (destType : Option TypeString) :
    Except DispatchError Fn :=
  match destType with
  | none => .error .noMatchingSignature
  | some d =>
    match signatures.find? fun s => s.1 = d.text with
    | some s => .ok s.2
    | none => .error .noMatchingSignature

end Matching

variable [DecidableEq F] (f : FusedFunction F Obj Fn)

/-- The kind of the parameter at `i`. -/
def kind (i : Nat) : ParameterKind :=
  if i < f.numPosonlyArgs then .positionalOnly
  else if i < f.args.length - f.numKwonlyArgs then .positionalOrKeyword
  else .keywordOnly

/-- The statements of the dispatcher that look at arguments. -/
def unpacks : List (Unpack F) := unpackArguments f.args 0 0 []

/-- The fused types in the order of their first parameters. -/
def fusedTypes : List F := fusedTypesOf f.args

/-- The tuple of defaults. -/
def defaultsTuple : List Obj := f.args.filterMap Arg.default

/-- The items of the `signatures` dict. -/
def signatureItems : List (Text × Fn) := f.signatures.map fun s => (signatureString s.1, s.2)

/-- `min_positional_args` -/
def minPositionalArgs : Nat :=
  let required := (f.args.filter fun arg => arg.default.isNone).length
  if f.isDef then
    required - ((f.args.drop (f.args.length - f.numKwonlyArgs)).filter
      fun arg => arg.default.isNone).length
  else required

/-- `__Pyx_RaiseFusedFunctionArgTypeError` -/
def fusedFunctionArgTypeError (u : Unpack F) (argCount : Nat) : DispatchError :=
  if u.argTupleIdx < f.minPositionalArgs then .expectedAtLeast f.minPositionalArgs argCount
  else .missingKeywordOnly u.name

/-- The code of `_unpack_argument`. -/
def unpackArgument (call : Call F Obj) (u : Unpack F) : Except DispatchError Obj :=
  -- if kwargs is not None and not <dict> kwargs: kwargs = None
  let kwargs := call.kwargs.filter fun kwargs => !kwargs.entries.isEmpty
  match call.args[u.argTupleIdx]? with
  | some arg => .ok arg
  | none =>
    match kwargs.bind fun kwargs => kwargs.get? u.name with
    | some arg => .ok arg
    | none =>
      match u.defaultIdx.bind fun i => f.defaultsTuple[i]? with
      | some arg => .ok arg
      | none => .error (f.fusedFunctionArgTypeError u call.args.length)

/-- The statements that assign `dest_sig0`, `dest_sig1`, … -/
def destSig (call : Call F Obj) : List (Unpack F) →
    Except DispatchError (List (Option TypeString))
  | [] => .ok []
  | u :: us =>
    match f.unpackArgument call u with
    | .error e => .error e
    | .ok arg =>
      match destSig call us with
      | .error e => .error e
      | .ok rest => .ok (call.mapFusedType u.fusedType arg :: rest)

/-- `__pyx_fused_cpdef`, with the cache before and after the call. -/
def fusedCpdef (call : Call F Obj) (sigindex : SigIndex Fn) :
    Except DispatchError Fn × SigIndex Fn :=
  match f.destSig call f.unpacks with
  | .error e => (.error e, sigindex)
  | .ok [destSig0] => (matchSignaturesSingle f.signatureItems destSig0, sigindex)
  | .ok dest => matchSignatures f.signatureItems dest sigindex

/-- The cache after the calls of a history. -/
def sigindexAfter (history : List (Call F Obj)) : SigIndex Fn :=
  history.foldl (fun sigindex call => (f.fusedCpdef call sigindex).2) OrderedDict.empty

/-! ## What calls ask for -/

/-- The value of a keyword argument. -/
def keywordValue (call : Call F Obj) (name : Text) : Option Obj :=
  call.kwargs.bind fun kwargs => kwargs.get? name

/-- The object that Python binds to the parameter at `i`. -/
def boundArgument (call : Call F Obj) (i : Nat) : Option Obj :=
  f.args[i]?.bind fun arg =>
    match f.kind i with
    | .positionalOnly => call.args[i]?.or arg.default
    | .positionalOrKeyword => call.args[i]?.or ((keywordValue call arg.name).or arg.default)
    | .keywordOnly => (keywordValue call arg.name).or arg.default

/-- A call that Python's binding of arguments accepts. -/
structure Accepts (call : Call F Obj) : Prop where
  /-- No positional argument is left over. -/
  positional : f.starArg ∨ call.args.length ≤ f.args.length - f.numKwonlyArgs
  /-- No keyword argument is left over. -/
  keyword : f.starstarArg ∨ ∀ name, (keywordValue call name).isSome →
    ∃ i arg, f.args[i]? = some arg ∧ arg.name = name ∧ f.kind i ≠ .positionalOnly
  /-- No argument has two values. -/
  once : ∀ i arg, f.args[i]? = some arg → f.kind i = .positionalOrKeyword →
    i < call.args.length → keywordValue call arg.name = none
  /-- No argument is missing. -/
  bound : ∀ i, i < f.args.length → (f.boundArgument call i).isSome

/-- The index of the first parameter of a fused type. -/
def firstParameter (t : F) : Nat := f.args.findIdx fun arg => arg.fusedType = some t

/-- The object that the dispatcher looks at for a fused type. -/
def inspected (call : Call F Obj) (t : F) : Option Obj :=
  match f.unpacks.find? fun u => u.fusedType = t with
  | none => none
  | some u =>
    match f.unpackArgument call u with
    | .ok arg => some arg
    | .error _ => none

/-- The type strings of the bound objects. -/
def boundSig (call : Call F Obj) : List (Option TypeString) :=
  f.fusedTypes.map fun t => (f.boundArgument call (f.firstParameter t)).bind (call.mapFusedType t)

/-- The names agree with every type string that is determined. -/
def Agrees (types : List TypeName) (dest : List (Option TypeString)) : Prop :=
  ∀ (i : Nat) (t : TypeName) (d : TypeString),
    types[i]? = some t → dest[i]? = some (some d) → t.text = d.text

/-- `function` is the specialisation whose signature alone agrees with `dest`. -/
def OnlyMatch (dest : List (Option TypeString)) (function : Fn) : Prop :=
  ∃ types, (types, function) ∈ f.signatures ∧ Agrees types dest ∧
    ∀ s ∈ f.signatures, Agrees s.1 dest → s.1 = types

/-- What a dispatcher is to do for a call after the calls of a history. -/
structure Dispatches (history : List (Call F Obj)) (call : Call F Obj) : Prop where
  /-- The object for a fused type is the one bound to its first parameter. -/
  inspects : ∀ t ∈ f.fusedTypes,
    f.inspected call t = f.boundArgument call (f.firstParameter t)
  /-- The specialisation is the only one that agrees. -/
  selects : ∀ function, (f.fusedCpdef call (f.sigindexAfter history)).1 = .ok function ↔
    f.OnlyMatch (f.boundSig call) function
  /-- The cache does not change the result. -/
  memoised : (f.fusedCpdef call (f.sigindexAfter history)).1 =
    (f.fusedCpdef call OrderedDict.empty).1

end FusedFunction

end AHPy.FusedDispatch
