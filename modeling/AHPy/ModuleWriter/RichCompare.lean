import Mathlib

/-!
# Generated rich comparison

The function `tp_richcompare` that `generate_richcmp_function` of `ModuleNode.py`
writes for an extension type:

* `comparisonEntry`: the method of an operator, from the scopes of the class and
  of its bases;
* `totalOrderingTable`, `orderingSource`: the derivations of `TOTAL_ORDERING` and
  the method that they start from;
* `Runtime.richcompare`: the slot function, which counts the references that its
  code holds.

A chain lists an extension type and its bases. The methods are any computations
with state and exceptions, for two fixed operands.
-/

namespace AHPy.RichCompare

/-! ## Classes -/

/-- The comparison operators, in the order of `richcmp_special_methods`. -/
inductive CompareOp
  | eq | ne | lt | gt | le | ge
  deriving DecidableEq

namespace CompareOp

/-- The name of the method. -/
def methodName : CompareOp → String
  | eq => "__eq__"
  | ne => "__ne__"
  | lt => "__lt__"
  | gt => "__gt__"
  | le => "__le__"
  | ge => "__ge__"

/-- The keys of `TOTAL_ORDERING` are the operators other than `==` and `!=`. -/
def IsOrdering : CompareOp → Prop
  | eq => False
  | ne => False
  | lt => True
  | gt => True
  | le => True
  | ge => True

instance : DecidablePred IsOrdering
  | eq => inferInstanceAs (Decidable False)
  | ne => inferInstanceAs (Decidable False)
  | lt => inferInstanceAs (Decidable True)
  | gt => inferInstanceAs (Decidable True)
  | le => inferInstanceAs (Decidable True)
  | ge => inferInstanceAs (Decidable True)

end CompareOp

/-- An extension type: the comparison methods in its scope, and the directive. -/
structure ExtensionClass where
  defines : CompareOp → Bool
  totalOrdering : Bool

/-- The class whose scope has the entry of a method, as the number of its bases. -/
def comparisonEntry : List ExtensionClass → CompareOp → Option ℕ
  | [], _ => none
  | cls :: bases, op => if cls.defines op then some bases.length else comparisonEntry bases op

/-! ## Derivations -/

/-- The connective of a derivation. -/
inductive LogicOp
  | and
  | or

/-- How a comparison comes from another: if it is inverted, and the connective with an
    equality, with the inversion of the equality. -/
structure Derivation where
  invertComp : Bool
  equality : Option (LogicOp × Bool)

/-- `TOTAL_ORDERING`, from an operator to another. -/
def totalOrderingTable : CompareOp → CompareOp → Option Derivation
  -- a > b from (not a < b) and (a != b)
  | .lt, .gt => some ⟨true, some (.and, true)⟩
  -- a <= b from (a < b) or (a == b)
  | .lt, .le => some ⟨false, some (.or, false)⟩
  -- a >= b from (not a < b).
  | .lt, .ge => some ⟨true, none⟩
  -- a >= b from (not a <= b) or (a == b)
  | .le, .ge => some ⟨true, some (.or, false)⟩
  -- a < b, from (a <= b) and (a != b)
  | .le, .lt => some ⟨false, some (.and, true)⟩
  -- a > b from (not a <= b)
  | .le, .gt => some ⟨true, none⟩
  -- a < b from (not a > b) and (a != b)
  | .gt, .lt => some ⟨true, some (.and, true)⟩
  -- a >= b from (a > b) or (a == b)
  | .gt, .ge => some ⟨false, some (.or, false)⟩
  -- a <= b from (not a > b)
  | .gt, .le => some ⟨true, none⟩
  -- Return a <= b from (not a >= b) or (a == b)
  | .ge, .le => some ⟨true, some (.or, false)⟩
  -- a > b from (a >= b) and (a != b)
  | .ge, .gt => some ⟨false, some (.and, true)⟩
  -- a < b from (not a >= b)
  | .ge, .lt => some ⟨true, none⟩
  | _, _ => none

/-- The keys of the derivations, the largest name first. -/
def orderingOps : List CompareOp := [.lt, .le, .gt, .ge]

example : (orderingOps.map CompareOp.methodName).Pairwise (· > ·) := by decide

/-- `max(comp_names)` -/
def maxOrdering (entry : CompareOp → Option ℕ) : Option CompareOp :=
  orderingOps.find? fun op => (entry op).isSome

/-- The class that `tp_richcompare` is generated for: the first that defines a
    comparison. The types before it inherit its slot. -/
def slotClass : List ExtensionClass → List ExtensionClass
  | [] => []
  | cls :: bases =>
    if cls.defines .eq || cls.defines .ne || cls.defines .lt || cls.defines .gt ||
      cls.defines .le || cls.defines .ge then cls :: bases
    else slotClass bases

/-- `ordering_source`, if `total_ordering` is still true after the warnings. -/
def orderingSource (scopes : List ExtensionClass) : Option CompareOp :=
  match scopes with
  | [] => none
  | cls :: bases =>
    let compEntry := comparisonEntry (cls :: bases)
    if cls.totalOrdering then
      match maxOrdering compEntry with
      | none => none
      | some source =>
        if (compEntry .eq).isNone && (compEntry .ne).isNone then none else some source
    else none

/-! ## The slot function -/

variable {Obj E σ : Type}

/-- The objects of the interpreter that the code names, and the truth of objects. -/
structure Runtime (Obj E σ : Type) where
  pyNotImplemented : Obj
  pyTrue : Obj
  pyFalse : Obj
  true_ne_notImplemented : pyTrue ≠ pyNotImplemented
  false_ne_notImplemented : pyFalse ≠ pyNotImplemented
  true_ne_false : pyTrue ≠ pyFalse
  /-- `__Pyx_PyObject_IsTrue` -/
  isTrue : Obj → EStateM E σ Bool
  isTrue_true : isTrue pyTrue = pure true
  isTrue_false : isTrue pyFalse = pure false

/-- A method, for the operands. -/
abbrev Method (E σ Obj : Type) := EStateM E σ Obj

/-- The state, and the references that the code of the slot function holds. -/
structure Frame (Obj σ : Type) where
  world : σ
  refs : Obj → ℤ

/-- `1` more reference. -/
def addRef [DecidableEq Obj] (refs : Obj → ℤ) (o : Obj) (n : ℤ) : Obj → ℤ :=
  Function.update refs o (refs o + n)

/-- The methods of the classes, by the number of bases of the class. -/
abbrev Methods (Obj E σ : Type) := ℕ → CompareOp → Method E σ Obj

namespace Runtime

variable [DecidableEq Obj] (R : Runtime Obj E σ)

/-- The object of a truth value. -/
def pyBool (b : Bool) : Obj := if b then R.pyTrue else R.pyFalse

/-- The call of a method, which returns a new reference. -/
def callMethod (m : Method E σ Obj) : EStateM E (Frame Obj σ) Obj := fun s =>
  match m s.world with
  | .ok o w => .ok o ⟨w, addRef s.refs o 1⟩
  | .error e w => .error e ⟨w, s.refs⟩

/-- `__Pyx_PyObject_IsTrue(ret); Py_DECREF(ret);` and the return of NULL if it failed. -/
def isTrueAndClose (ret : Obj) : EStateM E (Frame Obj σ) Bool := fun s =>
  match R.isTrue ret s.world with
  | .ok b w => .ok b ⟨w, addRef s.refs ret (-1)⟩
  | .error e w => .error e ⟨w, addRef s.refs ret (-1)⟩

/-- `__Pyx_NewRef(ret)` -/
def newRef (ret : Obj) : EStateM E (Frame Obj σ) Obj := fun s =>
  .ok ret ⟨s.world, addRef s.refs ret 1⟩

/-- The code that compares with `__eq__` or `__ne__`. -/
def equalityCode (m : Method E σ Obj) (invert : Bool) : EStateM E (Frame Obj σ) Obj := do
  let ret ← callMethod m
  if ret = R.pyNotImplemented then return ret
  let eqRes ← R.isTrueAndClose ret
  newRef (R.pyBool (if invert then !eqRes else eqRes))

/-- The end of the code of a derived comparison. -/
def combine (d : Derivation) (equality : Bool → EStateM E (Frame Obj σ) Obj)
    (orderRes : Bool) : EStateM E (Frame Obj σ) Obj :=
  match d.equality with
  | some (.and, invertEquals) =>
    if (if d.invertComp then orderRes else !orderRes) then newRef R.pyFalse
    else equality invertEquals
  | some (.or, invertEquals) =>
    if (if d.invertComp then !orderRes else orderRes) then newRef R.pyTrue
    else equality invertEquals
  | none => newRef (R.pyBool (if d.invertComp then !orderRes else orderRes))

/-- The code of a derived comparison. -/
def derivedCode (d : Derivation) (order : Method E σ Obj)
    (equality : Bool → EStateM E (Frame Obj σ) Obj) : EStateM E (Frame Obj σ) Obj := do
  let ret ← callMethod order
  if ret = R.pyNotImplemented then return ret
  let orderRes ← R.isTrueAndClose ret
  R.combine d equality orderRes

/-- The comparison for equality within a derived comparison: `__eq__`, or else
    `__ne__` with the opposite inversion. -/
def derivedEquality (methods : Methods Obj E σ) (compEntry : CompareOp → Option ℕ)
    (invertEquals : Bool) : EStateM E (Frame Obj σ) Obj :=
  match compEntry .eq with
  | some i => R.equalityCode (methods i .eq) invertEquals
  | none =>
    match compEntry .ne with
    | some i => R.equalityCode (methods i .ne) (!invertEquals)
    | none => newRef R.pyNotImplemented

/-- The case of an operator that is derived from the method of another. -/
def derivedCase (methods : Methods Obj E σ) (compEntry : CompareOp → Option ℕ)
    (source op : CompareOp) : EStateM E (Frame Obj σ) Obj :=
  match totalOrderingTable source op, compEntry source with
  | some d, some i => R.derivedCode d (methods i source) (R.derivedEquality methods compEntry)
  | _, _ => newRef R.pyNotImplemented

/-- The `switch` of the slot function that is generated for the first of the scopes. -/
def switch (methods : Methods Obj E σ) (scopes : List ExtensionClass) (op : CompareOp) :
    EStateM E (Frame Obj σ) Obj :=
  let compEntry := comparisonEntry scopes
  match compEntry op with
  | some i => callMethod (methods i op)
  | none =>
    if op = .ne then
      match compEntry .eq with
      | some i => R.equalityCode (methods i .eq) true
      | none => newRef R.pyNotImplemented
    else
      match orderingSource scopes with
      | none => newRef R.pyNotImplemented
      | some source => R.derivedCase methods compEntry source op

/-- `tp_richcompare` of the first type of a chain. If no type of the chain defines a
    comparison, this is the slot of `object`, which only knows identity. -/
def richcompare (methods : Methods Obj E σ) (chain : List ExtensionClass) (op : CompareOp) :
    EStateM E (Frame Obj σ) Obj :=
  R.switch methods (slotClass chain) op

end Runtime

end AHPy.RichCompare
