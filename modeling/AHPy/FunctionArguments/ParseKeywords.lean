import AHPy.Lib.OrderedDict

/-!
# Parsing of keyword arguments

`__Pyx_ParseKeywords` of `FunctionArguments.c` and the three functions it calls:

* `parseKeywordsTuple`: names in a tuple, values in an array;
* `parseKeywordDict`: a dictionary, for functions without `**kwargs`;
* `parseKeywordDictToDict`: a dictionary, for functions with `**kwargs`.

A `str` object is a reference, which pointer comparisons look at; the heap has
its text. The keys are exact `str` objects. Calls that only fail when memory
runs out do not fail here.
-/

namespace AHPy.FunctionArguments

/-- The code points of a `str`. -/
abbrev Text := List Nat

/-- A pointer to a `str` object. -/
abbrev Ref := Nat

/-- The `str` objects, and the hash function of the interpreter. -/
structure Heap where
  text : Ref → Text
  hash : Text → Int

/-- The three ways in which `__Pyx_ParseKeywordDictToDict` takes an item out. -/
inductive PopVariant
  /-- `PyDict_Pop` -/
  | pop
  /-- `PyDict_GetItemRef` and `PyDict_DelItem` -/
  | getAndDelete
  /-- `_PyDict_Pop` or `dict.pop` with `kwds2` as the default -/
  | sentinel

/-- The macros that the functions look at. -/
structure Config where
  /-- `CYTHON_USE_UNICODE_INTERNALS` -/
  unicodeInternals : Bool
  /-- `CYTHON_ASSUME_SAFE_SIZE` -/
  assumeSafeSize : Bool
  dictPop : PopVariant

/-- The exceptions that are set, with the name of the function and the key. -/
inductive KeywordError
  /-- `%s() got multiple values for keyword argument '%U'` -/
  | multipleValues (functionName : String) (key : Text)
  /-- `%s() got an unexpected keyword argument '%U'` -/
  | unexpected (functionName : String) (key : Text)

variable {V : Type}

/-! ## Names -/

/-- `PyUnicode_KIND` -/
def unicodeKind (t : Text) : Nat :=
  if t.all (· < 0x100) then 1 else if t.all (· < 0x10000) then 2 else 4

/-- `__Pyx_UnicodeKeywordsEqual`: the `memcmp` compares the code points. -/
def unicodeKeywordsEqual (s1 s2 : Text) : Bool :=
  if s1.length ≠ s2.length then false
  else if unicodeKind s1 ≠ unicodeKind s2 then false
  else decide (s1 = s2)

/-- `PyUnicode_Compare` -/
def unicodeCompare : Text → Text → Int
  | [], [] => 0
  | [], _ :: _ => -1
  | _ :: _, [] => 1
  | a :: s, b :: t => if a < b then -1 else if b < a then 1 else unicodeCompare s t

/-- The comparison of a declared name with a key. -/
def matchesName (cfg : Config) (h : Heap) (key name : Ref) : Bool :=
  if cfg.unicodeInternals then
    decide (h.hash (h.text key) = h.hash (h.text name)) &&
      unicodeKeywordsEqual (h.text name) (h.text key)
  else
    (!cfg.assumeSafeSize || decide ((h.text name).length = (h.text key).length)) &&
      decide (unicodeCompare (h.text name) (h.text key) = 0)

/-- The comparison of the name of a positional argument with a key. -/
def matchesPositional (cfg : Config) (h : Heap) (key name : Ref) : Bool :=
  if cfg.unicodeInternals then
    decide (h.hash (h.text key) = h.hash (h.text name)) &&
      unicodeKeywordsEqual (h.text name) (h.text key)
  else
    (!cfg.assumeSafeSize || decide ((h.text name).length = (h.text key).length)) &&
      (decide (name = key) || decide (unicodeCompare (h.text name) (h.text key) = 0))

/-- The loop over names from the index `i` on: the index of the first that `p` accepts. -/
def findName (p : Ref → Bool) : List Ref → Nat → Option Nat
  | [], _ => none
  | name :: names, i => if p name then some i else findName p names (i + 1)

/-- `__Pyx_MatchKeywordArg_str`: the index of a declared keyword argument, none
    for an unknown key, and an error for a positional argument. -/
def matchKeywordArg (cfg : Config) (h : Heap) (key : Ref) (argnames : List Ref) (numPosArgs : Nat)
    (functionName : String) : Except KeywordError (Option Nat) :=
  match findName (matchesName cfg h key) (argnames.drop numPosArgs) numPosArgs with
  | some index => .ok (some index)
  | none =>
    if (argnames.take numPosArgs).any (matchesPositional cfg h key) then
      .error (.multipleValues functionName (h.text key))
    else .ok none

/-! ## Dictionaries of keywords -/

/-- `PyDict_GetItemRef` -/
def dictGet (h : Heap) (kwds : List (Ref × V)) (key : Ref) : Option V :=
  (kwds.find? fun e => h.text e.1 = h.text key).map Prod.snd

/-- `PyDict_Contains` -/
def dictContains (h : Heap) (kwds : List (Ref × V)) (key : Ref) : Bool :=
  kwds.any fun e => h.text e.1 = h.text key

/-- `__Pyx_ValidateDuplicatePosArgs`: the error for the first name found. -/
def validateDuplicatePosArgs (h : Heap) (kwds : List (Ref × V)) (functionName : String) :
    List Ref → Option KeywordError
  | [] => none
  | name :: names =>
    if dictContains h kwds name then some (.multipleValues functionName (h.text name))
    else validateDuplicatePosArgs h kwds functionName names

/-- `__Pyx_RejectUnknownKeyword`: the exception that is set at its end. -/
def rejectUnknownKeyword (cfg : Config) (h : Heap) (argnames : List Ref) (numPosArgs : Nat)
    (functionName : String) : List (Ref × V) → Option KeywordError
  | [] => none
  | (key, _) :: kwds =>
    -- Quickly exclude the 'obviously' valid/known keyword arguments (exact pointer match).
    if key ∈ argnames.drop numPosArgs then
      rejectUnknownKeyword cfg h argnames numPosArgs functionName kwds
    else
      match matchKeywordArg cfg h key argnames numPosArgs functionName with
      | .ok (some _) => rejectUnknownKeyword cfg h argnames numPosArgs functionName kwds
      | .ok none => some (.unexpected functionName (h.text key))
      | .error e => some e

/-- `values[]`, and the content of `kwds2` if it is not null. -/
structure Parsed (V : Type) where
  values : List (Option V)
  kwds2 : Option (OrderedDict Text V)

/-- What the functions return: `-1` with the exception that is set, if any, or
    `0` with what they stored. -/
abbrev ParseResult (V : Type) := Except (Option KeywordError) (Parsed V)

/-- The loop of `__Pyx_ParseKeywordDict` that extracts declared keyword
    arguments: it stops when there are no more keywords. -/
def extractDeclared (h : Heap) (kwds : List (Ref × V)) (numKwargs : Nat) :
    List Ref → Nat → Nat → List (Option V) → Nat × List (Option V)
  | [], _, extracted, values => (extracted, values)
  | name :: names, i, extracted, values =>
    if extracted < numKwargs then
      match dictGet h kwds name with
      | some value =>
        extractDeclared h kwds numKwargs names (i + 1) (extracted + 1) (values.set i (some value))
      | none => extractDeclared h kwds numKwargs names (i + 1) extracted values
    else (extracted, values)

/-- `__Pyx_ParseKeywordDict` -/
def parseKeywordDict (cfg : Config) (h : Heap) (kwds : List (Ref × V)) (argnames : List Ref)
    (values : List (Option V)) (numPosArgs numKwargs : Nat) (functionName : String)
    (ignoreUnknownKwargs : Bool) : ParseResult V :=
  let r := extractDeclared h kwds numKwargs (argnames.drop numPosArgs) numPosArgs 0 values
  if r.1 < numKwargs then
    if ignoreUnknownKwargs then
      -- Make sure the remaining kwargs are not duplicate posargs.
      match validateDuplicatePosArgs h kwds functionName (argnames.take numPosArgs) with
      | some e => .error (some e)
      | none => .ok ⟨r.2, none⟩
    else .error (rejectUnknownKeyword cfg h argnames numPosArgs functionName kwds)
  else .ok ⟨r.2, none⟩

/-- The removal of a key from `kwds2`; `self` is `kwds2` itself as a value. -/
def popItem [DecidableEq V] (variant : PopVariant) (self : V) (kwds2 : OrderedDict Text V)
    (key : Text) : Option V × OrderedDict Text V :=
  match variant with
  | .pop => (kwds2.get? key, kwds2.erase key)
  | .getAndDelete =>
    match kwds2.get? key with
    | some value => (some value, kwds2.erase key)
    | none => (none, kwds2)
  | .sentinel =>
    let value := (kwds2.get? key).getD self
    (if value = self then none else some value, kwds2.erase key)

/-- The loop of `__Pyx_ParseKeywordDictToDict` that extracts declared keyword
    arguments. -/
def popDeclared [DecidableEq V] (variant : PopVariant) (self : V) (h : Heap) :
    List Ref → Nat → List (Option V) → OrderedDict Text V → List (Option V) × OrderedDict Text V
  | [], _, values, kwds2 => (values, kwds2)
  | name :: names, i, values, kwds2 =>
    match popItem variant self kwds2 (h.text name) with
    | (some value, kwds2) => popDeclared variant self h names (i + 1) (values.set i (some value)) kwds2
    | (none, kwds2) => popDeclared variant self h names (i + 1) values kwds2

/-- `PyDict_Update(kwds2, kwds)` -/
def dictUpdate (h : Heap) (kwds2 : OrderedDict Text V) (kwds : List (Ref × V)) :
    OrderedDict Text V :=
  kwds.foldl (fun d e => d.set (h.text e.1) e.2) kwds2

/-- `__Pyx_ParseKeywordDictToDict` -/
def parseKeywordDictToDict [DecidableEq V] (cfg : Config) (self : V) (h : Heap)
    (kwds : List (Ref × V)) (argnames : List Ref) (kwds2 : OrderedDict Text V)
    (values : List (Option V)) (numPosArgs : Nat) (functionName : String) : ParseResult V :=
  -- Fast copy of all kwargs.
  let r := popDeclared cfg.dictPop self h (argnames.drop numPosArgs) numPosArgs values
    (dictUpdate h kwds2 kwds)
  -- If unmatched keywords remain, check for duplicates of positional arguments.
  if 0 < r.2.entries.length then
    match validateDuplicatePosArgs h kwds functionName (argnames.take numPosArgs) with
    | some e => .error (some e)
    | none => .ok ⟨r.1, some r.2⟩
  else .ok ⟨r.1, some r.2⟩

/-- The loop of `__Pyx_ParseKeywordsTuple` -/
def parseKeywordsTuple (cfg : Config) (h : Heap) (argnames : List Ref) (numPosArgs : Nat)
    (functionName : String) (ignoreUnknownKwargs : Bool) :
    List (Ref × V) → Parsed V → ParseResult V
  | [], p => .ok p
  | (key, value) :: kwds, p =>
    -- Quick pointer search for interned parameter matches (will usually succeed).
    match findName (fun name => decide (name = key)) (argnames.drop numPosArgs) numPosArgs with
    | some i =>
      parseKeywordsTuple cfg h argnames numPosArgs functionName ignoreUnknownKwargs kwds
        { p with values := p.values.set i (some value) }
    | none =>
      match matchKeywordArg cfg h key argnames numPosArgs functionName with
      | .ok (some i) =>
        -- Found in declared keywords => assign value.
        parseKeywordsTuple cfg h argnames numPosArgs functionName ignoreUnknownKwargs kwds
          { p with values := p.values.set i (some value) }
      | .error e => .error (some e)
      | .ok none =>
        match p.kwds2 with
        | some kwds2 =>
          parseKeywordsTuple cfg h argnames numPosArgs functionName ignoreUnknownKwargs kwds
            { p with kwds2 := some (kwds2.set (h.text key) value) }
        | none =>
          if ignoreUnknownKwargs then
            parseKeywordsTuple cfg h argnames numPosArgs functionName ignoreUnknownKwargs kwds p
          else .error (some (.unexpected functionName (h.text key)))

/-- `__Pyx_ParseKeywords`: `isTuple` is `CYTHON_VECTORCALL && PyTuple_Check(kwds)`. -/
def parseKeywords [DecidableEq V] (cfg : Config) (self : V) (h : Heap) (isTuple : Bool)
    (kwds : List (Ref × V)) (argnames : List Ref) (kwds2 : Option (OrderedDict Text V))
    (values : List (Option V)) (numPosArgs numKwargs : Nat) (functionName : String)
    (ignoreUnknownKwargs : Bool) : ParseResult V :=
  if isTuple then
    parseKeywordsTuple cfg h argnames numPosArgs functionName ignoreUnknownKwargs
      (kwds.take numKwargs) ⟨values, kwds2⟩
  else
    match kwds2 with
    | some kwds2 =>
      parseKeywordDictToDict cfg self h kwds argnames kwds2 values numPosArgs functionName
    | none =>
      parseKeywordDict cfg h kwds argnames values numPosArgs numKwargs functionName
        ignoreUnknownKwargs

end AHPy.FunctionArguments
