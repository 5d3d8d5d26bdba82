import AHPy.MatchCase.Patterns

/-!
# Class patterns

The class patterns of `match` statements, `ClassPatternNode` (`MatchCaseNodes.py`), with the C
functions that they call (`MatchCase.c`), and what Python does for the same pattern. Either of them
looks up an attribute of the subject at most once, so what that does is a function of its name.

* `ClassMatch.positionalCall`: the call of `__Pyx_MatchCase_ClassPositional`;
* `ClassMatch.run`: what the generated code does;
* `ClassMatch.pyRun`: what Python does.
-/

namespace AHPy.MatchCase

namespace ClassPattern

/-! ## Exceptions -/

/-- What a set finds an attribute by: a string, or another object. -/
inductive Key (Obj : Type)
  | name (name : Name)
  | object (o : Obj)
  deriving DecidableEq

/-- The exceptions of a class pattern. -/
inductive Exc (Obj ε : Type)
  /-- `called match pattern must be a class` -/
  | notClass
  /-- `__match_args__ must be a tuple` -/
  | matchArgsType
  /-- `accepts allowed positional sub-patterns (given given)` -/
  | accepts (allowed given : ℕ)
  /-- `got multiple sub-patterns for attribute` -/
  | multiple (attr : Key Obj)
  /-- `__match_args__ elements must be strings` -/
  | elementType
  /-- `unhashable type` -/
  | unhashable
  /-- one that the program raises -/
  | raised (e : ε)

/-- What an exception is, up to the text of a `TypeError`. -/
def Exc.kind {Obj ε : Type} : Exc Obj ε → Option ε
  | raised e => some e
  | _ => none

/-- The lookup of an attribute of the subject. -/
inductive Access (Obj ε : Type)
  | value (o : Obj)
  | attributeError
  | raises (e : ε)

/-! ## Classes -/

/-- The builtin types that match themselves, and the other ones. -/
inductive BuiltinType
  | bool
  | int
  | float
  | bytes
  | str
  | bytearray
  | tuple
  | list
  | dict
  | frozendict
  | set
  | frozenset
  | other
  deriving DecidableEq

/-- An element of `__match_args__`: a string, or another object with its hash. Hashable objects are
    equal if they have the same one. -/
inductive Item (Obj ε : Type)
  | str (name : Name)
  | object (hash : Except (Exc Obj ε) (Key Obj))

/-- What a set finds an element by. -/
def Item.key {Obj ε : Type} : Item Obj ε → Except (Exc Obj ε) (Key Obj)
  | str name => .ok (.name name)
  | object hash => hash

/-- `__match_args__` -/
inductive MatchArgs (Obj ε : Type)
  | missing
  | raises (e : ε)
  | notTuple
  | tuple (items : List (Item Obj ε))

structure ClassObject (Obj ε : Type) where
  /-- the builtin type that it is a subclass of -/
  builtin : BuiltinType
  matchArgs : MatchArgs Obj ε

/-- `_Py_TPFLAGS_MATCH_SELF`, which subclasses inherit. -/
def ClassObject.matchesSelf {Obj ε : Type} (c : ClassObject Obj ε) : Bool :=
  decide (c.builtin ≠ .other)

/-- `class_known_type` -/
inductive KnownType
  | builtin (t : BuiltinType)
  /-- An extension type: `is_external` for it and the extension types that it extends, whether it
      has a `method_table_cname`, and the builtin type that ends the chain, if one does. -/
  | extension (isExternal : List Bool) (hasMethodTable : Bool) (base : Option BuiltinType)

/-- What `_calculate_match_self` knows of a type: 1 is true, 0 is false, -1 is unknown. -/
def KnownType.matchSelf : KnownType → ℤ
  | builtin t => if t = .other then -1 else 1
  | extension isExternal hasMethodTable base =>
    if base = some .bool ∨ base = some .float ∨ base = some .int then 1
    else if isExternal.any id || !hasMethodTable || base.isSome then -1
    else 0

/-- What is known of the class at run time. Builtin types have no `__match_args__`. -/
def KnownType.Describes {Obj ε : Type} (c : ClassObject Obj ε) : KnownType → Prop
  | builtin t => c.builtin = t ∧ (t ≠ .other → c.matchArgs = .missing)
  | extension isExternal _ base =>
    (∀ t, base = some t → c.builtin = t) ∧
      (base = none → isExternal.any id = false → c.builtin = .other)

/-! ## Patterns -/

/-- A sub-pattern, with what its check does. -/
structure SubPattern (Obj ε : Type) where
  isIrrefutable : Bool
  /-- `get_targets()` is not empty -/
  hasTargets : Bool
  /-- the check evaluates something, unlike that of a wildcard or a capture -/
  evaluates : Bool
  verdict : Obj → Except ε Bool
  not_false : isIrrefutable = true → ∀ o, verdict o ≠ .ok false
  quiet : evaluates = false → isIrrefutable = true ∧ ∀ o, verdict o = .ok true

/-- Whether `generate_subjects` makes a temp for the sub-subject. -/
def SubPattern.hasTemp {Obj ε : Type} (p : SubPattern Obj ε) : Bool :=
  !(!p.hasTargets && p.isIrrefutable)

/-- A class pattern and the object that it is matched with. -/
structure ClassMatch (Obj ε : Type) where
  /-- `class_known_type` -/
  knownType : Option KnownType
  positional : List (SubPattern Obj ε)
  keywords : List (Name × SubPattern Obj ε)
  /-- `validate_keywords` -/
  distinct : (keywords.map Prod.fst).Nodup
  subject : Obj
  /-- the class, if what the pattern calls is one -/
  cls : Option (ClassObject Obj ε)
  isInstance : Except ε Bool
  getAttr : Name → Access Obj ε
  /-- `_Py_TPFLAGS_MATCH_SELF` is defined -/
  hasFlag : Bool
  /-- `frozendict` is on the list that is used if it is not -/
  listsFrozenDict : Bool
  described : ∀ t ∈ knownType, ∃ c, cls = some c ∧ t.Describes c

/-- Where a sub-pattern is. -/
inductive Place
  | positional (i : ℕ)
  | keyword (i : ℕ)

/-- The sub-patterns whose checks evaluated something, with their subjects. -/
abbrev Log (Obj : Type) := List (Place × Obj)

/-- How the match ends: it binds the subjects of the sub-patterns with targets, or does not match,
    or raises. -/
inductive Outcome (Obj χ : Type)
  | matched (subjects : List Obj)
  | unmatched
  | raised (e : χ)

def Outcome.map {Obj χ ψ : Type} (f : χ → ψ) : Outcome Obj χ → Outcome Obj ψ
  | matched subjects => matched subjects
  | unmatched => unmatched
  | raised e => raised (f e)

variable {Obj ε : Type}

/-! ## `MatchCase.c` -/

/-- The first loop of `__Pyx_MatchCase_ClassCheckDuplicateAttrs`: the set of the elements. -/
def checkItems [DecidableEq Obj] :
    List (Item Obj ε) → List (Key Obj) → Except (Exc Obj ε) (List (Key Obj))
  | [], attrsSet => .ok attrsSet
  | item :: items, attrsSet =>
    match item.key with
    | .error e => .error e
    | .ok attr =>
      if attr ∈ attrsSet then .error (.multiple attr) else checkItems items (attr :: attrsSet)

/-- The second loop. -/
def checkFixedNames [DecidableEq Obj] :
    List Name → List (Key Obj) → Except (Exc Obj ε) Unit
  | [], _ => .ok ()
  | attr :: fixedNames, attrsSet =>
    if .name attr ∈ attrsSet then .error (.multiple (.name attr))
    else checkFixedNames fixedNames attrsSet

/-- `__Pyx_MatchCase_ClassCheckDuplicateAttrs` -/
def classCheckDuplicateAttrs [DecidableEq Obj] (fixedNames : List Name)
    (matchArgs : List (Item Obj ε)) (numArgs : ℕ) : Except (Exc Obj ε) Unit :=
  if fixedNames = [] ∧ matchArgs.length = 1 then .ok ()
  else
    match checkItems (matchArgs.take (min matchArgs.length numArgs)) [] with
    | .error e => .error e
    | .ok attrsSet => checkFixedNames fixedNames attrsSet

/-- What `__Pyx_MatchCase_ClassPositional` returns, with the sub-subjects that it bound and the
    exception that is set. -/
structure CallResult (Obj ε : Type) where
  result : ℤ
  subjects : List (Option Obj)
  pending : Option (Exc Obj ε)

/-- A call that raises. -/
def CallResult.raise (e : Exc Obj ε) : CallResult Obj ε := ⟨-1, [], some e⟩

/-- The loop over the positional sub-patterns, with whether they want their subjects. A lookup that
    fails with another exception than `AttributeError` goes on with a null pointer. -/
def positionalLoop (getAttr : Name → Access Obj ε) :
    List (Item Obj ε × Bool) → List (Option Obj) → Option (Exc Obj ε) →
      Option (CallResult Obj ε)
  | [], bound, pending => some ⟨1, bound, pending⟩
  | (.object _, _) :: _, bound, _ => some ⟨-1, bound, some .elementType⟩
  | (.str name, requested) :: rest, bound, pending =>
    match getAttr name with
    | .value o =>
      positionalLoop getAttr rest (bound ++ [if requested then some o else none]) pending
    | .attributeError => some ⟨0, bound, none⟩
    | .raises e =>
      -- `Py_DECREF` of the null pointer, unless it is stored
      if requested then positionalLoop getAttr rest (bound ++ [none]) (some (.raised e)) else none

namespace ClassMatch

variable (m : ClassMatch Obj ε)

/-- The sub-patterns that want their subjects. -/
def requested : List Bool := m.positional.map SubPattern.hasTemp

def keywordNames : List Name := m.keywords.map Prod.fst

/-- `_calculate_match_self` -/
def calculateMatchSelf : ℤ :=
  if m.positional.length ≠ 1 ∨ m.keywordNames ≠ [] then 0
  else m.knownType.elim (-1) KnownType.matchSelf

/-- The list that is used without `_Py_TPFLAGS_MATCH_SELF`. -/
def isListed : BuiltinType → Bool
  | .frozendict => m.listsFrozenDict
  | .set => false
  | .other => false
  | _ => true

/-- `match_self`, for a class without `__match_args__`. -/
def decideMatchSelf (c : ClassObject Obj ε) (matchSelf : ℤ) : Bool :=
  if matchSelf = -1 then
    if m.hasFlag then c.matchesSelf else m.isListed c.builtin
  else decide (matchSelf ≠ 0)

/-- `__Pyx_MatchCase_ClassPositional`; none, if it crashes. -/
def classPositional [DecidableEq Obj] (c : ClassObject Obj ε) (fixedNames : List Name)
    (matchSelf : ℤ) (subjects : List Bool) : Option (CallResult Obj ε) :=
  match if matchSelf = 1 then .missing else c.matchArgs with
  | .raises e => some (.raise (.raised e))
  | .notTuple => some (.raise .matchArgsType)
  | .missing =>
    let allowed := if m.decideMatchSelf c matchSelf then 1 else 0
    if allowed < subjects.length then some (.raise (.accepts allowed subjects.length))
    else if m.decideMatchSelf c matchSelf then
      some ⟨1, subjects.map fun requested => if requested then some m.subject else none, none⟩
    else none
  | .tuple matchArgs =>
    if matchArgs.length < subjects.length then
      some (.raise (.accepts matchArgs.length subjects.length))
    else
      match classCheckDuplicateAttrs fixedNames matchArgs subjects.length with
      | .error e => some (.raise e)
      | .ok () => positionalLoop m.getAttr (matchArgs.zip subjects) [] none

/-! ## `ClassPatternNode` -/

/-- `make_positional_args_call` -/
def positionalCall [DecidableEq Obj] (c : ClassObject Obj ε) : Option (CallResult Obj ε) :=
  m.classPositional c m.keywordNames m.calculateMatchSelf m.requested

/-- `make_keyword_pattern_lookups`: the subjects, unless one is missing. -/
def keywordLookups : List Name → Except (Exc Obj ε) (Option (List Obj))
  | [] => .ok (some [])
  | name :: names =>
    match m.getAttr name with
    | .value o => (keywordLookups names).map (Option.map (o :: ·))
    | .attributeError => .ok none
    | .raises e => .error (.raised e)

def positionalPlaces : List (Place × SubPattern Obj ε) :=
  m.positional.mapIdx fun i p => (.positional i, p)

def keywordPlaces : List (Place × SubPattern Obj ε) :=
  (m.keywords.map Prod.snd).mapIdx fun i p => (.keyword i, p)

end ClassMatch

/-- A sub-pattern at its place, with the temp for its subject. -/
abbrev Check (Obj ε : Type) := (Place × SubPattern Obj ε) × Option Obj

/-- The conjunction of the checks; none, if one meets a null pointer. -/
def runChecks : List (Check Obj ε) → Option (Log Obj × Except ε Bool)
  | [] => some ([], .ok true)
  | ((place, p), temp) :: checks =>
    if p.evaluates then
      match temp with
      | none => none
      | some o =>
        match p.verdict o with
        | .ok true => (runChecks checks).map fun r => ((place, o) :: r.1, r.2)
        | verdict => some ([(place, o)], verdict)
    else runChecks checks

/-- The assignments of the subjects to the targets; none, if one is a null pointer. -/
def assignTargets (temps : List (Check Obj ε)) : Option (List Obj) :=
  (temps.filter fun t => t.1.2.hasTargets).mapM Prod.snd

namespace ClassMatch

variable (m : ClassMatch Obj ε)

/-- `make_subpattern_checks`, with the temps for the subjects of both kinds of sub-patterns. -/
def subpatternChecks (positional keyword : List (Option Obj)) : List (Check Obj ε) :=
  (m.keywordPlaces.zip keyword ++ m.positionalPlaces.zip positional).filter fun t => t.1.2.hasTemp

/-- The sub-patterns, with the temps for their subjects. -/
def temps (positional keyword : List (Option Obj)) : List (Check Obj ε) :=
  m.positionalPlaces.zip positional ++ m.keywordPlaces.zip keyword

/-- The code after `__Pyx_MatchCase_ClassPositional` returned 1. -/
def runKeywords (positional : List (Option Obj)) :
    Option (Log Obj × Outcome Obj (Exc Obj ε)) :=
  match m.keywordLookups m.keywordNames with
  | .error e => some ([], .raised e)
  | .ok none => some ([], .unmatched)
  | .ok (some values) =>
    match runChecks (m.subpatternChecks positional (values.map some)) with
    | none => none
    | some (log, .error e) => some (log, .raised (.raised e))
    | some (log, .ok false) => some (log, .unmatched)
    | some (log, .ok true) =>
      (assignTargets (m.temps positional (values.map some))).map fun o => (log, .matched o)

/-- The code after the type check. -/
def runInstance [DecidableEq Obj] (c : ClassObject Obj ε) :
    Option (Log Obj × Outcome Obj (Exc Obj ε)) :=
  if m.positional.isEmpty then m.runKeywords []
  else
    match m.positionalCall c with
    | none => none
    | some r =>
      if r.result = -1 then r.pending.map fun e => ([], .raised e)
      else if r.result = 0 then some ([], .unmatched)
      else m.runKeywords r.subjects

/-- `get_comparison_node`, with the assignments that follow it; none, if the code crashes. -/
def run [DecidableEq Obj] : Option (Log Obj × Outcome Obj (Exc Obj ε)) :=
  match m.cls with
  | none => some ([], .raised .notClass)
  | some c =>
    match m.isInstance with
    | .error e => some ([], .raised (.raised e))
    | .ok false => some ([], .unmatched)
    | .ok true => m.runInstance c

end ClassMatch

/-! ## Python -/

/-- The lookups of attributes, none of which may be named twice. -/
def pyLookups (getAttr : Name → Access Obj ε) :
    List (Item Obj ε) → List Name → Except (Exc Obj ε) (Option (List Obj))
  | [], _ => .ok (some [])
  | .object _ :: _, _ => .error .elementType
  | .str name :: items, seen =>
    if name ∈ seen then .error (.multiple (.name name))
    else
      match getAttr name with
      | .value o => (pyLookups getAttr items (name :: seen)).map (Option.map (o :: ·))
      | .attributeError => .ok none
      | .raises e => .error (.raised e)

/-- The sub-patterns are matched from left to right. -/
def pyChecks : List ((Place × SubPattern Obj ε) × Obj) → Log Obj × Except ε Bool
  | [] => ([], .ok true)
  | ((place, p), o) :: checks =>
    if p.evaluates then
      match p.verdict o with
      | .ok true => ((place, o) :: (pyChecks checks).1, (pyChecks checks).2)
      | verdict => ([(place, o)], verdict)
    else pyChecks checks

/-- How a match ends, with the subjects of the sub-patterns with targets. -/
def conclude (checked : Log Obj × Except ε Bool) (subjects : List Obj) :
    Log Obj × Outcome Obj (Exc Obj ε) :=
  match checked.2 with
  | .error e => (checked.1, .raised (.raised e))
  | .ok false => (checked.1, .unmatched)
  | .ok true => (checked.1, .matched subjects)

namespace ClassMatch

variable (m : ClassMatch Obj ε)

/-- The keyword sub-patterns name their attributes with strings. -/
def keywordItems : List (Item Obj ε) := m.keywordNames.map .str

/-- The subjects of the sub-patterns, positional ones first, unless one is missing. -/
def pySubjects (c : ClassObject Obj ε) : Except (Exc Obj ε) (Option (List Obj)) :=
  let given := m.positional.length
  if m.positional.isEmpty then pyLookups m.getAttr m.keywordItems []
  else
    match c.matchArgs with
    | .raises e => .error (.raised e)
    | .notTuple => .error .matchArgsType
    | .missing =>
      let allowed := if c.matchesSelf then 1 else 0
      if allowed < given then .error (.accepts allowed given)
      else (pyLookups m.getAttr m.keywordItems []).map (Option.map (m.subject :: ·))
    | .tuple items =>
      if items.length < given then .error (.accepts items.length given)
      else pyLookups m.getAttr (items.take given ++ m.keywordItems) []

/-- The sub-patterns in Python's order. -/
def places : List (Place × SubPattern Obj ε) := m.positionalPlaces ++ m.keywordPlaces

/-- What Python does with the subjects of the sub-patterns. -/
def pyMatchSubjects (values : List Obj) : Log Obj × Outcome Obj (Exc Obj ε) :=
  conclude (pyChecks (m.places.zip values))
    (((m.places.zip values).filter fun t => t.1.2.hasTargets).map Prod.snd)

/-- What Python does after the lookups. -/
def pyConclude :
    Except (Exc Obj ε) (Option (List Obj)) → Log Obj × Outcome Obj (Exc Obj ε)
  | .error e => ([], .raised e)
  | .ok none => ([], .unmatched)
  | .ok (some values) => m.pyMatchSubjects values

/-- Python's class pattern. -/
def pyRun : Log Obj × Outcome Obj (Exc Obj ε) :=
  match m.cls with
  | none => ([], .raised .notClass)
  | some c =>
    match m.isInstance with
    | .error e => ([], .raised (.raised e))
    | .ok false => ([], .unmatched)
    | .ok true => m.pyConclude (m.pySubjects c)

end ClassMatch

end ClassPattern

end AHPy.MatchCase
