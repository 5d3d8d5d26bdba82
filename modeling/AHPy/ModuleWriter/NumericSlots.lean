import AHPy.Lib.HandleCode
import AHPy.ModuleWriter.SlotMarkers

/-!
# Slots for numbers

An extension type that defines a method of a family of binary operations, or the
reflected one, gets a slot for the family. Both directions arrive at the same
slot: it looks for the marker of the type on the types of the operands to see
which of them is a receiver. The methods are those of the type and its bases, a
method of the type in place of that of a base.

* `NumericSlot.code`: the emitted function;
* `NumericSlot.value`: what it returns, with the calls that it makes.
-/

namespace AHPy.ModuleWriter

open HandleCode

/-! ## The methods of a type -/

/-- A slot and the two methods that it is for. -/
structure NumericFamily where
  slotName : Name
  leftName : Name
  rightName : Name
  /-- The slot for powers has a third operand. -/
  ternary : Bool

/-- A family of two-argument operations. -/
def NumericFamily.binary (slotName leftName rightName : String) : NumericFamily :=
  ⟨slotName.toList, leftName.toList, rightName.toList, false⟩

def numericBinaryFamilies : List NumericFamily :=
  [.binary "nb_add" "__add__" "__radd__",
    .binary "nb_subtract" "__sub__" "__rsub__",
    .binary "nb_multiply" "__mul__" "__rmul__",
    .binary "nb_remainder" "__mod__" "__rmod__",
    .binary "nb_divmod" "__divmod__" "__rdivmod__",
    .binary "nb_floor_divide" "__floordiv__" "__rfloordiv__",
    .binary "nb_true_divide" "__truediv__" "__rtruediv__",
    .binary "nb_lshift" "__lshift__" "__rlshift__",
    .binary "nb_rshift" "__rshift__" "__rrshift__",
    .binary "nb_and" "__and__" "__rand__",
    .binary "nb_xor" "__xor__" "__rxor__",
    .binary "nb_or" "__or__" "__ror__",
    .binary "nb_matrix_multiply" "__matmul__" "__rmatmul__"]

def powerFamily : NumericFamily :=
  ⟨"nb_power".toList, "__pow__".toList, "__rpow__".toList, true⟩

/-- A method, by the type that defines it. -/
structure NumericMethod where
  definer : ExtensionType
  name : Name

/-- The methods of a type: those of its base, updated with its own. The chain has the bases
    first. -/
def effectiveMethod (chain : List ExtensionType) (name : Name) : Option NumericMethod :=
  chain.foldl (fun found e => if e.members.contains name then some ⟨e, name⟩ else found) none

structure NumericSlot where
  left : Option NumericMethod
  right : Option NumericMethod
  marker : Name
  ternary : Bool

/-- The slot of the last type of a chain for a family, if the type defines one of the methods. -/
def numericSlot (bases : List ExtensionType) (e : ExtensionType) (family : NumericFamily) :
    Option NumericSlot :=
  if e.members.contains family.leftName || e.members.contains family.rightName then
    some ⟨effectiveMethod (bases ++ [e]) family.leftName,
      effectiveMethod (bases ++ [e]) family.rightName, e.marker, family.ternary⟩
  else none

/-! ## The emitted function -/

inductive SlotVar
  | left
  | right
  | modulus
  | leftType
  | rightType
  | result
  | leftMatches
  | rightMatches
  /-- The label. -/
  | bad
deriving DecidableEq

inductive SlotOp
  /-- `HPy_Type` -/
  | type
  /-- `HPy_HasAttr_s` -/
  | hasAttr (name : Name)
  /-- The function with the body of a method. -/
  | helper (method : NumericMethod)
  /-- `HPy_Is` with `h_NotImplemented` -/
  | isNotImplemented
  /-- `HPy_Dup` of `h_NotImplemented` -/
  | notImplemented

abbrev SlotCode := Code SlotVar SlotOp

/-- `append_helper_call` -/
def appendHelperCall (ternary : Bool) (helper : NumericMethod) (receiver other : SlotVar) :
    SlotCode :=
  .seqs [
    .call false .result (.helper helper)
      ([.handle receiver, .handle other] ++ if ternary then [.handle .modulus] else []) [],
    .ite (.isNull .result) (.jump .bad) .skip,
    .ite (.call .isNotImplemented [.handle .result]) .skip
      (.seqs [.close .rightType [], .close .leftType [], .ret (some .result)]),
    .close .result []]

namespace NumericSlot

variable (slot : NumericSlot)

/-- The calls of the helpers, on the operands that match. -/
def dispatch : SlotCode :=
  .seqs [
    match slot.left, slot.right with
    | none, some right =>
      .ite (.and (.nonzero (.var .leftMatches)) (.nonzero (.var .rightMatches)))
        (.seqs [appendHelperCall slot.ternary right .right .left,
          .set false .rightMatches (.lit 0)])
        .skip
    | _, _ => .skip,
    match slot.left with
    | some left =>
      .ite (.nonzero (.var .leftMatches)) (appendHelperCall slot.ternary left .left .right) .skip
    | none => .skip,
    match slot.right with
    | some right =>
      .ite (.nonzero (.var .rightMatches)) (appendHelperCall slot.ternary right .right .left) .skip
    | none => .skip]

/-- The code once the types are known. -/
def matchTypes : SlotCode :=
  .seqs [
    .status .leftMatches (.hasAttr slot.marker) [.handle .leftType],
    .ite (.negative .leftMatches) (.jump .bad) .skip,
    .status .rightMatches (.hasAttr slot.marker) [.handle .rightType],
    .ite (.negative .rightMatches) (.jump .bad) .skip,
    slot.dispatch,
    .close .rightType [],
    .close .leftType [],
    .call true .result .notImplemented [] [],
    .ret (some .result)]

/-- The code after the label. -/
def badCode : SlotCode :=
  .seqs [
    .ite (.notNull .rightType) (.close .rightType []) .skip,
    .close .leftType [],
    .ret none]

/-- `_render_extension_numeric_binary_slot` -/
def code : SlotCode :=
  .labelled .bad
    (.seq
      (.seqs [
        .call true .leftType .type [.handle .left] [],
        .null true .rightType,
        .ite (.isNull .leftType) (.ret none) .skip,
        .call false .rightType .type [.handle .right] [],
        .ite (.isNull .rightType) (.seqs [.close .leftType [], .ret none]) .skip])
      slot.matchTypes)
    badCode

end NumericSlot

/-! ## The interpreter -/

/-- The interpreter, as the slot calls it. -/
structure Interpreter (Obj W : Type) where
  typeOf : Obj → W → Option Obj × W
  hasAttr : Obj → Name → W → ℤ × W
  /-- The body of a method, with the receiver, the other operand, and the modulus for a method
      that has a parameter for it. -/
  call : NumericMethod → Obj → Obj → Option Obj → W → Option Obj × W
  takesModulus : NumericMethod → Bool
  typeError : W → W
  pyNone : Obj
  notImplemented : Obj
  dup : Obj → W → Option Obj × W

/-- The state of the interpreter, and the methods that were called, with their receivers. -/
structure World (Obj W : Type) where
  state : W
  calls : List (NumericMethod × Obj)

variable {Obj W : Type} [DecidableEq Obj]

namespace Interpreter

variable (I : Interpreter Obj W)

/-- A call of the interpreter that is not a call of a method. -/
def lift {α : Type} (f : W → α × W) (w : World Obj W) : α × World Obj W :=
  ((f w.state).1, { w with state := (f w.state).2 })

def callMethod (method : NumericMethod) (receiver other : Obj) (modulus : Option Obj)
    (w : World Obj W) : Option Obj × World Obj W :=
  let r := I.call method receiver other modulus w.state
  (r.1, ⟨r.2, w.calls ++ [(method, receiver)]⟩)

/-- The function of a method: `_render_extension_binary_value_slot`, or for powers
    `_render_extension_ternary_value_slot`, where a method with two arguments refuses a modulus. -/
def helper (method : NumericMethod) (receiver other : Obj) (modulus : Option Obj)
    (w : World Obj W) : Option Obj × World Obj W :=
  match modulus with
  | none => I.callMethod method receiver other none w
  | some c =>
    if I.takesModulus method then I.callMethod method receiver other (some c) w
    else if c = I.pyNone then I.callMethod method receiver other none w
    else (none, { w with state := I.typeError w.state })

/-- What the emitted code runs on. -/
def runtime : Runtime SlotOp Obj (World Obj W) where
  eval op args w :=
    match op, args with
    | .type, [.handle (some o)] => lift (I.typeOf o) w
    | .helper method, [.handle (some receiver), .handle (some other)] =>
      I.helper method receiver other none w
    | .helper method, [.handle (some receiver), .handle (some other), .handle (some c)] =>
      I.helper method receiver other (some c) w
    | .notImplemented, [] => lift (I.dup I.notImplemented) w
    | _, _ => (none, w)
  test op args w :=
    match op, args with
    | .hasAttr name, [.handle (some o)] => lift (I.hasAttr o name) w
    | .isNotImplemented, [.handle (some o)] => (if o = I.notImplemented then 1 else 0, w)
    | _, _ => (0, w)

/-! ## What the slot returns -/

/-- A method to try, with its receiver and the other operand. -/
abbrev Candidate (Obj : Type) := NumericMethod × Obj × Obj

/-- The first result other than `NotImplemented`, or an exception; `none` if there is neither. -/
def attempt (modulus : Option Obj) :
    List (Candidate Obj) → World Obj W → Option (Option Obj) × World Obj W
  | [], w => (none, w)
  | (method, receiver, other) :: candidates, w =>
    match I.helper method receiver other modulus w with
    | (none, w') => (some none, w')
    | (some r, w') =>
      if r = I.notImplemented then attempt modulus candidates w' else (some (some r), w')

/-- The methods one after the other, and `NotImplemented` if there is no other result. -/
def tryAll (modulus : Option Obj) (candidates : List (Candidate Obj)) (w : World Obj W) :
    Option Obj × World Obj W :=
  match I.attempt modulus candidates w with
  | (none, w') => lift (I.dup I.notImplemented) w'
  | (some r, w') => (r, w')

end Interpreter

open Interpreter

namespace NumericSlot

variable (slot : NumericSlot) (I : Interpreter Obj W)

/-- The forward method, then the reflected one, on the operands that match. -/
def candidates (leftMatches rightMatches : Bool) (left right : Obj) : List (Candidate Obj) :=
  (if leftMatches then slot.left.toList.map fun method => (method, left, right) else []) ++
    if rightMatches then slot.right.toList.map fun method => (method, right, left) else []

/-- Whether the types have the marker; `none` if one cannot be asked. -/
def queryMarkers (leftType rightType : Obj) (w : World Obj W) :
    Option (Bool × Bool) × World Obj W :=
  match lift (I.hasAttr leftType slot.marker) w with
  | (leftMatches, w₁) =>
    if leftMatches < 0 then (none, w₁)
    else
      match lift (I.hasAttr rightType slot.marker) w₁ with
      | (rightMatches, w₂) =>
        if rightMatches < 0 then (none, w₂) else (some (leftMatches ≠ 0, rightMatches ≠ 0), w₂)

/-- Whether the operands match. -/
def query (left right : Obj) (w : World Obj W) : Option (Bool × Bool) × World Obj W :=
  match lift (I.typeOf left) w with
  | (none, w₁) => (none, w₁)
  | (some leftType, w₁) =>
    match lift (I.typeOf right) w₁ with
    | (none, w₂) => (none, w₂)
    | (some rightType, w₂) => slot.queryMarkers I leftType rightType w₂

/-- The methods are tried if it is known which operands match. -/
def afterQuery (left right : Obj) (modulus : Option Obj) :
    Option (Bool × Bool) × World Obj W → Option Obj × World Obj W
  | (none, w) => (none, w)
  | (some (leftMatches, rightMatches), w) =>
    I.tryAll modulus (slot.candidates leftMatches rightMatches left right) w

/-- What the slot returns. -/
def value (left right : Obj) (modulus : Option Obj) (w : World Obj W) : Option Obj × World Obj W :=
  slot.afterQuery I left right modulus (slot.query I left right w)

end NumericSlot

end AHPy.ModuleWriter
