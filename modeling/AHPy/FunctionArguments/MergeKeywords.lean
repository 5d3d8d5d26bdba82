import AHPy.Lib.ObjectDicts

/-!
# Merging keyword arguments

`__Pyx_MergeKeywords`, which adds the items of a source mapping to the keyword arguments of a
call, and the merge of Python. Keys are objects of any class: their hashes and comparisons, and
the iteration over a source, may raise.
-/

namespace AHPy.FunctionArguments

/-- Objects as keys. With a `str` object on either side, the same method decides a comparison:
    that of the other object, or that of `str`. -/
structure ObjectKeys (κ ε : Type) extends KeyClass κ ε where
  isStr : κ → Bool
  exactStr : κ → Bool
  isStr_of_exactStr : ∀ k, exactStr k = true → isStr k = true
  eq_comm_of_exactStr : ∀ k k', exactStr k = true → eq k k' = eq k' k

/-- A `dict` object: each key has been hashed, and compared with the keys before it. -/
structure DictObject {κ ε : Type} [DecidableEq κ] (K : ObjectKeys κ ε) (ν : Type) where
  entries : List (DictEntry κ ν)
  hashed : K.Hashed entries
  distinct : K.Distinct entries

/-- The exception of a failed merge: the `TypeError` for a keyword with two values, or that of a
    key or of the source. -/
inductive MergeError (ε : Type)
  | doubleKeywords
  | original (e : ε)

/-- The entries of `kwdict` after a call and its exception, if it returns -1; nothing where the
    call is undefined. -/
abbrev MergeResult (κ ν ε : Type) := Option (List (DictEntry κ ν) × Option (MergeError ε))

/-- A source: a `dict`; an object whose `items()` are iterated, up to an exception; an object
    whose `items()` raises, and is not iterated; an object for which that is an `AttributeError`,
    which is converted to a `dict`. -/
inductive Source {κ ε : Type} [DecidableEq κ] (K : ObjectKeys κ ε) (ν : Type)
  | dict (d : DictObject K ν)
  | items (pairs : List (κ × ν)) (raised : Option ε)
  | noIterator (e : ε)
  | noItems (converted : Except ε (DictObject K ν))

namespace ObjectKeys

variable {κ ν ε : Type} [DecidableEq κ] (K : ObjectKeys κ ε)

/-! ## The merge of the code -/

/-- `__Pyx_RaiseDoubleKeywordsError`, and -1: the name in the message must be a `str`. The error
    replaces an exception of the key. -/
def raiseDoubleKeywords (kwdict : List (DictEntry κ ν)) (key : κ) : MergeResult κ ν ε :=
  if K.isStr key then some (kwdict, some .doubleKeywords) else none

/-- `PyDict_Update`. -/
def dictUpdate (kwdict source : List (DictEntry κ ν)) : MergeResult κ ν ε :=
  let (kwdict, raised) := K.update kwdict source
  some (kwdict, raised.map .original)

/-- `__Pyx_MergeKeywords_dict`: the keys of the smaller dictionary are looked up in the larger
    one. -/
def mergeKeywordsDict (kwdict sourceDict : List (DictEntry κ ν)) : MergeResult κ ν ε :=
  if sourceDict.length = 0 then some (kwdict, none)
  else if 0 < kwdict.length then
    let found := if kwdict.length ≤ sourceDict.length then K.firstPresent sourceDict kwdict
      else K.firstPresent kwdict sourceDict
    match found with
    | some e => K.raiseDoubleKeywords kwdict e.key
    | none => K.dictUpdate kwdict sourceDict
  else K.dictUpdate kwdict sourceDict

/-- `PyDict_SetDefaultRef`: the entries, unless the key is present. -/
def setDefaultRef (kwdict : List (DictEntry κ ν)) (key : κ) (value : ν) :
    Except ε (Option (List (DictEntry κ ν))) := do
  let h ← K.hash key
  if ← K.find kwdict h key then return none
  return some (kwdict ++ [⟨key, h, value⟩])

/-- The body of the loop: `none` for the next item. -/
def mergeItem (hasSetDefaultRef : Bool) (kwdict : List (DictEntry κ ν)) (key : κ) (value : ν) :
    List (DictEntry κ ν) ⊕ MergeResult κ ν ε :=
  if hasSetDefaultRef then
    match K.setDefaultRef kwdict key value with
    | .ok (some kwdict) => .inl kwdict
    | .ok none => .inr (K.raiseDoubleKeywords kwdict key)
    | .error e => .inr (some (kwdict, some (.original e)))
  else if KeyClass.Nonzero (K.contains kwdict key) then
    .inr (K.raiseDoubleKeywords kwdict key)
  else
    match K.setItem kwdict key value with
    | .ok kwdict => .inl kwdict
    | .error e => .inr (some (kwdict, some (.original e)))

/-- The loop of `__Pyx_MergeKeywords_any`. -/
def mergeItems (hasSetDefaultRef : Bool) (raised : Option ε) :
    List (DictEntry κ ν) → List (κ × ν) → MergeResult κ ν ε
  | kwdict, [] => some (kwdict, raised.map .original)
  | kwdict, (key, value) :: pairs =>
    match K.mergeItem hasSetDefaultRef kwdict key value with
    | .inl kwdict => mergeItems hasSetDefaultRef raised kwdict pairs
    | .inr result => result

/-- `__Pyx_MergeKeywords`; `PyDict_SetDefaultRef` is used from Python 3.13 on. -/
def mergeKeywords (hasSetDefaultRef : Bool) (kwdict : List (DictEntry κ ν)) :
    Source K ν → MergeResult κ ν ε
  | .dict d => K.mergeKeywordsDict kwdict d.entries
  | .items pairs raised => K.mergeItems hasSetDefaultRef raised kwdict pairs
  | .noIterator e => some (kwdict, some (.original e))
  | .noItems (.ok d) => K.mergeKeywordsDict kwdict d.entries
  | .noItems (.error e) => some (kwdict, some (.original e))

/-- The sources of a call, up to an error. -/
def mergeSources (hasSetDefaultRef : Bool) :
    List (DictEntry κ ν) → List (Source K ν) → MergeResult κ ν ε
  | kwdict, [] => some (kwdict, none)
  | kwdict, source :: sources =>
    match K.mergeKeywords hasSetDefaultRef kwdict source with
    | some (kwdict, none) => mergeSources hasSetDefaultRef kwdict sources
    | result => result

/-! ## The merge of Python -/

end ObjectKeys

/-- What ends a merge: a key that is present, or an exception. -/
inductive MergeFailure (κ ε : Type)
  | present (key : κ)
  | keyRaised (e : ε)
  | sourceRaised (e : ε)

def MergeFailure.error {κ ε : Type} : MergeFailure κ ε → MergeError ε
  | .present _ => .doubleKeywords
  | .keyRaised e | .sourceRaised e => .original e

namespace ObjectKeys

variable {κ ν ε : Type} [DecidableEq κ] (K : ObjectKeys κ ε)

/-- The items are added in order, up to the first whose key is present or raises. -/
def pyMergeItems (raised : Option ε) :
    List (DictEntry κ ν) → List (κ × ν) → List (DictEntry κ ν) × Option (MergeFailure κ ε)
  | kwdict, [] => (kwdict, raised.map .sourceRaised)
  | kwdict, (key, value) :: pairs =>
    match K.setDefaultRef kwdict key value with
    | .ok (some kwdict) => pyMergeItems raised kwdict pairs
    | .ok none => (kwdict, some (.present key))
    | .error e => (kwdict, some (.keyRaised e))

end ObjectKeys

namespace DictObject

variable {κ ν ε : Type} [DecidableEq κ] {K : ObjectKeys κ ε} (d : DictObject K ν)

def items : List (κ × ν) := d.entries.map fun e => (e.key, e.value)

end DictObject

namespace ObjectKeys

variable {κ ν ε : Type} [DecidableEq κ] (K : ObjectKeys κ ε)

/-- The merge of a source into keyword arguments. -/
def pyMerge (kwdict : List (DictEntry κ ν)) :
    Source K ν → List (DictEntry κ ν) × Option (MergeFailure κ ε)
  | .dict d => K.pyMergeItems none kwdict d.items
  | .items pairs raised => K.pyMergeItems raised kwdict pairs
  | .noIterator e => (kwdict, some (.sourceRaised e))
  | .noItems (.ok d) => K.pyMergeItems none kwdict d.items
  | .noItems (.error e) => (kwdict, some (.sourceRaised e))

/-- The sources of a call, up to an error. -/
def pyMergeSources :
    List (DictEntry κ ν) → List (Source K ν) → List (DictEntry κ ν) × Option (MergeFailure κ ε)
  | kwdict, [] => (kwdict, none)
  | kwdict, source :: sources =>
    match K.pyMerge kwdict source with
    | (kwdict, none) => pyMergeSources kwdict sources
    | failed => failed

end ObjectKeys

end AHPy.FunctionArguments
