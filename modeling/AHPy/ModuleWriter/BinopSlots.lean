import AHPy.Lib.SlotDispatch

/-!
# Slots of binary operators

The slot function that `generate_binop_function` of `ModuleNode.py` fills into the
template `BinopSlot` of `ExtensionTypes.c`, within the dispatch of CPython:

* `Dispatch.extensionSlot`: the slot function of an extension type;
* `Dispatch.genericSlot`: the slot function `slot_nb_…` of classes written in Python;
* `Dispatch.evaluate`: `binary_op`, over the slots of the types of both operands.

A type is the list of a class and its bases. The same types can be taken with
their extension types compiled, or written in Python. The methods are any
computations with state, and the calls of methods are logged.
-/

namespace AHPy.BinopSlots

/-! ## Types -/

/-- Where a class is defined. -/
inductive Origin
  /-- an extension type -/
  | extension
  /-- a class statement of Python -/
  | python
  /-- a C type of the interpreter or of another library -/
  | foreign
  deriving DecidableEq

/-- The forward and the reflected method of the operator. -/
inductive Side
  | forward
  | reflected
  deriving DecidableEq

/-- A class, with the methods of the operator that it defines itself. For a foreign
    type, they mean that it has a slot. -/
structure ClassDef where
  id : ℕ
  origin : Origin
  left : Bool
  right : Bool
  deriving DecidableEq

namespace ClassDef

/-- `defines_any_special(slot.user_methods)` -/
def definesAny (c : ClassDef) : Bool := c.left || c.right

/-- The class defines the method of a side. -/
def defines (c : ClassDef) : Side → Bool
  | .forward => c.left
  | .reflected => c.right

end ClassDef

/-- A class and its bases. -/
abbrev PyType := List ClassDef

/-- `PyType_IsSubtype` -/
def isSubtype (t u : PyType) : Bool := decide (u <:+ t)

/-- The functions in the slots of types. -/
inductive SlotFunction
  /-- the slot function of `typeobject.c` for classes of Python -/
  | generic
  /-- the generated function of an extension type -/
  | extension (t : PyType)
  | foreign (id : ℕ)
  deriving DecidableEq

/-- The slot of a type, which inherits that of its base if it defines no method. -/
def slotOf (compiled : Bool) : PyType → Option SlotFunction
  | [] => none
  | c :: bases =>
    if c.definesAny then
      match c.origin with
      | .extension => if compiled then some (.extension (c :: bases)) else some .generic
      | .python => some .generic
      | .foreign => some (.foreign c.id)
    else slotOf compiled bases

/-- What the lookup of a method finds. -/
inductive Attribute
  | method (c : ClassDef)
  /-- a wrapper of a slot function -/
  | wrapper (slot : SlotFunction)
  deriving DecidableEq

/-- The lookup of a method in a class and its bases. `PyType_Ready` gives wrappers of
    both methods to a type that has a slot in C. -/
def lookupMethod (compiled : Bool) (side : Side) : PyType → Option Attribute
  | [] => none
  | c :: bases =>
    match c.origin with
    | .extension =>
      if compiled then
        if c.definesAny then some (.wrapper (.extension (c :: bases)))
        else lookupMethod compiled side bases
      else if c.defines side then some (.method c)
      else lookupMethod compiled side bases
    | .python => if c.defines side then some (.method c) else lookupMethod compiled side bases
    | .foreign =>
      if c.definesAny then some (.wrapper (.foreign c.id)) else lookupMethod compiled side bases

/-! ## Evaluation -/

variable {α ε σ : Type}

/-- An object, and its type. -/
structure Operand (α : Type) where
  obj : α
  type : PyType

/-- A call of a method: the class that defines it, and the type of `self`. -/
structure UserCall where
  cls : ClassDef
  side : Side
  selfType : PyType

/-- The behaviour of the methods of classes and of foreign slots. -/
structure Dispatch (α ε σ : Type) where
  /-- `CYTHON_USE_TYPE_SLOTS` -/
  useTypeSlots : Bool
  method : ClassDef → Side → Operand α → Operand α → Call (Operand α) ε σ
  foreignSlot : ℕ → Operand α → Operand α → Call (Operand α) ε σ
  typeError : ε

/-- A call in a state with the log of the calls so far. -/
abbrev LoggedCall (α ε σ : Type) := Call (Operand α) ε (σ × List UserCall)

namespace Dispatch

variable (D : Dispatch α ε σ)

/-- `__Pyx_NewRef(Py_NotImplemented)` -/
def notImplemented : LoggedCall α ε σ := fun s => (.notImplemented, s)

/-- The call of the method of a class. -/
def callMethod (c : ClassDef) (side : Side) (self other : Operand α) : LoggedCall α ε σ :=
  fun s =>
    let (r, s') := D.method c side self other s.1
    (r, s', s.2 ++ [⟨c, side, self.type⟩])

/-- The call of a slot of a foreign type. -/
def callForeign (id : ℕ) (left right : Operand α) : LoggedCall α ε σ := fun s =>
  let (r, s') := D.foreignSlot id left right s.1
  (r, s', s.2)

/-- `maybe_self_is_left` and `maybe_self_is_right`, for one of the operands. -/
def maybeSelf (t : PyType) (left right o : Operand α) : Bool :=
  decide (left.type = right.type) ||
    (D.useTypeSlots && decide (slotOf true o.type = some (.extension t))) || isSubtype o.type t

/-- The slot function of an extension type, or of its base if it defines no method. -/
def extensionSlot (left right : Operand α) : PyType → LoggedCall α ε σ
  | [] => notImplemented
  | c :: bases =>
    if c.definesAny then
      -- {{func_name}}_maybe_call_slot(tp_base, left, right)
      let callBase := extensionSlot left right bases
      let callLeft := if c.left then D.callMethod c .forward left right else callBase
      let callRight := if c.right then D.callMethod c .reflected right left else callBase
      let maybeSelfIsLeft := D.maybeSelf (c :: bases) left right left
      let maybeSelfIsRight := D.maybeSelf (c :: bases) left right right
      if c.right && !c.left then
        if maybeSelfIsLeft then
          -- Don't bother calling it again.
          if maybeSelfIsRight then callRight.orElse callLeft else callLeft
        else if maybeSelfIsRight then callRight
        else notImplemented
      else
        (if maybeSelfIsLeft then callLeft else notImplemented).orElse
          (if maybeSelfIsRight then callRight else notImplemented)
    else extensionSlot left right bases

/-- A slot function in C. -/
def callNative (slot : SlotFunction) (left right : Operand α) : LoggedCall α ε σ :=
  match slot with
  | .generic => notImplemented
  | .extension t => D.extensionSlot left right t
  | .foreign id => D.callForeign id left right

variable (compiled : Bool)

/-- `vectorcall_maybe`: a wrapper of the reflected method exchanges the operands. -/
def vectorcallMaybe (side : Side) (self other : Operand α) : LoggedCall α ε σ :=
  match lookupMethod compiled side self.type with
  | none => notImplemented
  | some (.method c) => D.callMethod c side self other
  | some (.wrapper slot) =>
    match side with
    | .forward => D.callNative slot self other
    | .reflected => D.callNative slot other self

/-- `method_is_overloaded`, for the reflected method. -/
def methodIsOverloaded (left right : Operand α) : Bool :=
  match lookupMethod compiled .reflected right.type with
  | none => false
  | some b =>
    match lookupMethod compiled .reflected left.type with
    | none => true
    | some a => decide (a ≠ b)

/-- The slot function of `SLOT1BINFULL`. -/
def genericSlot (self other : Operand α) : LoggedCall α ε σ :=
  let doOther := decide (self.type ≠ other.type) &&
    decide (slotOf compiled other.type = some .generic)
  if slotOf compiled self.type = some .generic then
    if doOther && isSubtype other.type self.type && methodIsOverloaded compiled self other then
      -- do_other = 0 after the first call
      (D.vectorcallMaybe compiled .reflected other self).orElse
        (D.vectorcallMaybe compiled .forward self other)
    else
      (D.vectorcallMaybe compiled .forward self other).orElse
        (if doOther then D.vectorcallMaybe compiled .reflected other self else notImplemented)
  else if doOther then D.vectorcallMaybe compiled .reflected other self
  else notImplemented

/-- The slots of the types, for `binary_op1`. -/
def protocol : SlotProtocol (Operand α) PyType SlotFunction ε (σ × List UserCall) where
  typeOf := Operand.type
  isSubtype := isSubtype
  slot := slotOf compiled
  call slot left right :=
    match slot with
    | .generic => D.genericSlot compiled left right
    | slot => D.callNative slot left right

/-- `binary_op`: the slots in the order of `binary_op1`, then a TypeError. -/
def evaluate (left right : Operand α) : LoggedCall α ε σ :=
  ((D.protocol compiled).binaryOp1 left right).orElse fun s => (.raised D.typeError, s)

end Dispatch

end AHPy.BinopSlots
