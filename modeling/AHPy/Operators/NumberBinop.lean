import AHPy.Lib.FloatArithmetic
import AHPy.Lib.SlotDispatch
import AHPy.ModuleWriter.NativeScalars

/-!
# Operators of exact ints and floats

The functions `__Pyx__PyNumber_…_{type1}_{type2}` compute an operator themselves if both
operands are an exact `int` or `float`. If only the left one is, they call the slot of the
right type, and only that.

* `World.generated`: the function of an operator and two declared types;
* `World.pyOperator`: the operator of Python, over the slots of all types.
-/

namespace AHPy.Operators

open ModuleWriter (binary64)

/-! ## Objects -/

/-- The values of `float`. -/
abbrev Double := FloatValue binary64

/-- Exception types. -/
inductive NumberExc (ε : Type*) where
  | typeError
  | overflowError
  | other (e : ε)

/-- `None`, exact ints and floats, and the objects of other types. -/
inductive PyObject (ω : Type*) where
  | none
  | int (n : ℤ)
  | float (x : Double)
  | other (o : ω)

/-- Types of objects. -/
inductive PyType (κ : Type*) where
  | none
  | int
  | float
  | other (k : κ)
  deriving DecidableEq

/-- The number type that a type derives from. -/
inductive Base where
  | int
  | float
  | neither
  deriving DecidableEq

/-- The operators that floats have, too. -/
inductive Arith where
  | add
  | subtract
  | multiply
  deriving DecidableEq

inductive Bitwise where
  | or
  | xor
  | and
  deriving DecidableEq

inductive NumberOp where
  | arith (op : Arith)
  | bitwise (op : Bitwise)
  deriving DecidableEq

def Arith.onInts : Arith → ℤ → ℤ → ℤ
  | add, m, n => m + n
  | subtract, m, n => m - n
  | multiply, m, n => m * n

def Arith.onDoubles : Arith → Double → Double → Double
  | add, x, y => x.add y
  | subtract, x, y => x.sub y
  | multiply, x, y => x.mul y

def Bitwise.onInts : Bitwise → ℤ → ℤ → ℤ
  | or, m, n => m.lor n
  | xor, m, n => m.xor n
  | and, m, n => m.land n

def NumberOp.onInts : NumberOp → ℤ → ℤ → ℤ
  | arith op => op.onInts
  | bitwise op => op.onInts

/-- The slots of a type for an operator. -/
inductive Slot (φ : Type*) where
  | long
  | float
  | own (f : φ)
  deriving DecidableEq

/-- The objects of the types other than `int` and `float`, and the slots of these types. A type
    without a slot of its own inherits that of `int` or `float` if it derives from it. -/
structure World (ω κ φ ε σ : Type*) where
  typeOf : ω → κ
  base : κ → Base
  /-- The number of an instance of `int`. -/
  intValue : ω → ℤ
  /-- The number of an instance of `float`. -/
  floatValue : ω → Double
  slot : NumberOp → κ → Option φ
  call : φ → PyObject ω → PyObject ω → Call (PyObject ω) (NumberExc ε) σ
  isSubtype : κ → κ → Bool
  inplaceSlot : NumberOp → κ →
    Option (PyObject ω → PyObject ω → Call (PyObject ω) (NumberExc ε) σ)
  sequence : κ → Option (SequenceSlots (PyObject ω) (NumberExc ε) σ)
  index : ω → Option (σ → Except (NumberExc ε) ℤ × σ)

/-- What the C code depends on: whether types have slots that it can see, whether it looks into
    ints, the bits of their digits, and the types that it computes with. -/
structure Build where
  typeSlots : Bool
  pylongInternals : Bool
  digitBits : ℕ
  ssize : CIntType
  longLong : CIntType
  ssize_signed : ssize.signed = true
  longLong_signed : longLong.signed = true
  digitBits_le : digitBits ≤ 30
  /-- Two digits can be added. -/
  digitBits_lt_ssize : digitBits + 1 < ssize.width
  /-- Two digits can be multiplied. -/
  digitBits_lt_longLong : 2 * digitBits < longLong.width

/-! ## The operators of Python -/

section Python

variable {ω κ φ ε σ : Type*} (W : World ω κ φ ε σ)

/-- `PyLong_AsDouble` -/
def asDouble (n : ℤ) : Except (NumberExc ε) Double :=
  if (binary64.ofInt n).isFinite then .ok (binary64.ofInt n) else .error .overflowError

/-- `PyLong_AsSsize_t` -/
def asSsize (B : Build) (n : ℤ) : Except (NumberExc ε) ℤ :=
  if B.ssize.InRange n then .ok n else .error .overflowError

/-- The result of a call without an effect. -/
def ofExcept {α : Type*} (x : Except (NumberExc ε) α) (value : α → PyObject ω) :
    Returned (PyObject ω) (NumberExc ε) :=
  match x with
  | .error e => .raised e
  | .ok a => .value (value a)

namespace World

/-- `Py_TYPE(o)` -/
def pyType : PyObject ω → PyType κ
  | .none => .none
  | .int _ => .int
  | .float _ => .float
  | .other o => .other (W.typeOf o)

/-- The number of an instance of `int` or of a type that derives from it. -/
def asLong : PyObject ω → Option ℤ
  | .int n => some n
  | .other o => if W.base (W.typeOf o) = .int then some (W.intValue o) else none
  | _ => none

/-- The operand of a float slot, which takes ints as well. -/
def asFloatOperand : PyObject ω → Option (Except (NumberExc ε) Double)
  | .none => none
  | .int n => some (asDouble n)
  | .float x => some (.ok x)
  | .other o =>
    match W.base (W.typeOf o) with
    | .int => some (asDouble (W.intValue o))
    | .float => some (.ok (W.floatValue o))
    | .neither => none

/-- The slots of `int`. -/
def longSlot (op : NumberOp) (v w : PyObject ω) : Returned (PyObject ω) (NumberExc ε) :=
  match W.asLong v, W.asLong w with
  | some m, some n => .value (.int (op.onInts m n))
  | _, _ => .notImplemented

/-- The slots of `float`. -/
def floatSlot (op : Arith) (v w : PyObject ω) : Returned (PyObject ω) (NumberExc ε) :=
  match W.asFloatOperand v, W.asFloatOperand w with
  | some (.error e), _ => .raised e
  | some (.ok _), some (.error e) => .raised e
  | some (.ok x), some (.ok y) => .value (.float (op.onDoubles x y))
  | _, _ => .notImplemented

/-- The slot that a type inherits. -/
def inheritedSlot : NumberOp → Base → Option (Slot φ)
  | _, .int => some .long
  | .arith _, .float => some .float
  | .bitwise _, .float => none
  | _, .neither => none

/-- The slot of a type for an operator. -/
def slotOf (op : NumberOp) : PyType κ → Option (Slot φ)
  | .none => none
  | .int => inheritedSlot op .int
  | .float => inheritedSlot op .float
  | .other k =>
    match W.slot op k with
    | some f => some (.own f)
    | none => inheritedSlot op (W.base k)

def callSlot (op : NumberOp) (f : Slot φ) (v w : PyObject ω) :
    Call (PyObject ω) (NumberExc ε) σ :=
  match f, op with
  | .own f, _ => W.call f v w
  | .long, _ => fun s => (W.longSlot op v w, s)
  | .float, .arith op => fun s => (W.floatSlot op v w, s)
  | .float, .bitwise _ => fun s => (.notImplemented, s)

/-- `PyType_IsSubtype`, among types with number slots. -/
def isSubtypeOf : PyType κ → PyType κ → Bool
  | .none, .none => true
  | .int, .int => true
  | .float, .float => true
  | .other k, .int => decide (W.base k = .int)
  | .other k, .float => decide (W.base k = .float)
  | .other k, .other k' => W.isSubtype k k'
  | _, _ => false

/-- The slots of all types for an operator. -/
def protocol (B : Build) (op : NumberOp) :
    NumberProtocol (PyObject ω) (PyType κ) (Slot φ) (NumberExc ε) σ where
  typeOf := W.pyType
  isSubtype := W.isSubtypeOf
  slot := W.slotOf op
  call := W.callSlot op
  inplaceSlot
    | .other k => W.inplaceSlot op k
    | _ => none
  sequence
    | .other k => W.sequence k
    | _ => none
  index
    | .int n => some fun s => (asSsize B n, s)
    | .other o => W.index o
    | _ => none
  typeError := .typeError

/-- The sequence slots that an operator tries. -/
def fallback : NumberOp → SequenceFallback
  | .arith .add => .concat
  | .arith .multiply => .repetition
  | _ => .nothing

/-- The operators of Python. -/
def pyOperator [DecidableEq κ] [DecidableEq φ] (B : Build) (op : NumberOp) (inplace : Bool)
    (v w : PyObject ω) : Call (PyObject ω) (NumberExc ε) σ :=
  (W.protocol B op).operator (fallback op) inplace v w

end World

end Python

/-! ## The generated functions -/

/-- `type1` and `type2`. -/
inductive DeclaredType where
  | object
  | int
  | float
  deriving DecidableEq

/-- The operator and the declared types that a function is generated for. -/
structure Template where
  op : NumberOp
  type1 : DeclaredType
  type2 : DeclaredType

namespace Build

variable (B : Build) {ω ε : Type*}

/-- `__Pyx_PyLong_IsCompact` -/
def IsCompact (n : ℤ) : Prop := |n| < 2 ^ B.digitBits

instance (n : ℤ) : Decidable (B.IsCompact n) := inferInstanceAs (Decidable (_ < _))

/-- A float on the left, an int on the right. -/
def floatWithInt (op : Arith) (x : Double) (n : ℤ) : Returned (PyObject ω) (NumberExc ε) :=
  let finish (y : Double) :=
    if op = .multiply ∧ x.isZero then .value (.float x)
    else .value (.float (op.onDoubles x y))
  if B.pylongInternals ∧ B.IsCompact n then
    if op ≠ .multiply ∧ n = 0 then .value (.float x) else finish (binary64.ofInt n)
  else
    match asDouble n with
    | .error e => .raised e
    | .ok y =>
      if op ≠ .multiply ∧ !B.pylongInternals ∧ y.isZero then .value (.float x) else finish y

/-- An int on the left, a float on the right. -/
def intWithFloat (op : Arith) (m : ℤ) (y : Double) : Returned (PyObject ω) (NumberExc ε) :=
  if B.pylongInternals ∧ B.IsCompact m then
    if op = .add ∧ m = 0 then .value (.float y)
    else .value (.float (op.onDoubles (binary64.ofInt m) y))
  else
    match asDouble m with
    | .error e => .raised e
    | .ok x =>
      if op = .add ∧ !B.pylongInternals ∧ x.isZero then .value (.float y)
      else .value (.float (op.onDoubles x y))

/-- The operation of C on two ints that have one digit, `none` if it is undefined. The bitwise
    ones have a result for all operands. -/
def compactOp (op : NumberOp) (m n : ℤ) : Option ℤ :=
  match op with
  | .arith .multiply => B.longLong.arith (m * n)
  | .arith op => B.ssize.arith (op.onInts m n)
  | .bitwise op => some (op.onInts m n)

/-- The operators that have zero as a result if an operand is zero; it is the neutral element of
    the others. -/
def zeroAbsorbs (op : NumberOp) : Bool := op = .arith .multiply ∨ op = .bitwise .and

/-- Ints on both sides. -/
def onInts (op : NumberOp) (m n : ℤ) : Option ℤ :=
  if B.pylongInternals then
    if B.IsCompact m then
      if m = 0 ∧ zeroAbsorbs op then some m
      else if m = 0 ∧ op ≠ .arith .subtract then some n
      else if B.IsCompact n then
        if n = 0 then some (if zeroAbsorbs op then n else m) else B.compactOp op m n
      else some (op.onInts m n)
    else if n = 0 then some (if zeroAbsorbs op then n else m)
    else some (op.onInts m n)
  else some (op.onInts m n)

end Build

namespace World

variable {ω κ φ ε σ : Type*} [DecidableEq κ] [DecidableEq φ] (W : World ω κ φ ε σ) (B : Build)

/-- The operand is of an exact type: a declared type only leaves `None` besides. -/
def isType (declared expected : DeclaredType) (operand : PyObject ω) : Bool :=
  match operand, expected with
  | .none, _ => false
  | .int _, .int => true
  | .float _, .float => true
  | _, _ => declared = expected

/-- `PyLong_Check`, of what is not exactly an int -/
def isLongSubclass : PyObject ω → Bool
  | .other o => W.base (W.typeOf o) = .int
  | _ => false

/-- The slot of the right type, and what follows if it has no result. -/
def callRight (op : NumberOp) (op1 op2 : PyObject ω) (next : Call (PyObject ω) (NumberExc ε) σ) :
    Call (PyObject ω) (NumberExc ε) σ :=
  match W.slotOf op (W.pyType op2) with
  | some f => (W.callSlot op f op1 op2).orElse next
  | none => next

/-- `__Pyx_BinopTypeError` -/
def binopTypeError : Call (PyObject ω) (NumberExc ε) σ := fun s => (.raised .typeError, s)

/-- `__Pyx_{op}_xfloat_{type2}`, `none` if its behaviour is undefined. -/
def xfloat (op : Arith) (type2 : DeclaredType) (op1 op2 : PyObject ω) (inplace : Bool) (s : σ) :
    Option (Returned (PyObject ω) (NumberExc ε) × σ) :=
  if type2 ≠ .float ∧ isType type2 .int op2 then
    match op1, op2 with
    | .float x, .int n => some (B.floatWithInt op x n, s)
    | _, _ => none
  else if type2 = .object ∧ W.isLongSubclass op2 then
    some (W.callSlot (.arith op) .float op1 op2 s)
  else if B.typeSlots then some (W.callRight (.arith op) op1 op2 binopTypeError s)
  else some (W.pyOperator B (.arith op) inplace op1 op2 s)

/-- The repetition of the right operand. -/
def repeatRight (op : NumberOp) (op1 op2 : PyObject ω) : Call (PyObject ω) (NumberExc ε) σ :=
  match op, op1, op2 with
  | .arith .multiply, .int m, .other o =>
    match (W.sequence (W.typeOf o)).bind (·.sqRepeat) with
    | some repeatFunc =>
      match asSsize B m with
      | .error e => fun s => (.raised e, s)
      | .ok count => repeatFunc op2 count
    | none => binopTypeError
  | _, _, _ => binopTypeError

/-- `__Pyx_{op}_xint_{type2}` -/
def xint (op : NumberOp) (type2 : DeclaredType) (op1 op2 : PyObject ω) (inplace : Bool) (s : σ) :
    Option (Returned (PyObject ω) (NumberExc ε) × σ) :=
  let slots : Option (Returned (PyObject ω) (NumberExc ε) × σ) :=
    if B.typeSlots then some (W.callRight op op1 op2 (W.repeatRight B op op1 op2) s)
    else some (W.pyOperator B op inplace op1 op2 s)
  match op with
  | .bitwise _ => slots
  | .arith op =>
    if type2 ≠ .int ∧ isType type2 .float op2 then
      match op1, op2 with
      | .int m, .float y => some (B.intWithFloat op m y, s)
      | _, _ => none
    else slots

/-- The part of `__Pyx__{op}_{type1}_{type2}` for an int on the left. -/
def intLeft (t : Template) (op1 op2 : PyObject ω) (inplace : Bool) (s : σ) :
    Option (Returned (PyObject ω) (NumberExc ε) × σ) :=
  if t.type1 ≠ .float ∧ isType t.type1 .int op1 then
    if t.type2 ≠ .float ∧ isType t.type2 .int op2 then
      match op1, op2 with
      | .int m, .int n => (B.onInts t.op m n).map fun r => (.value (.int r), s)
      | _, _ => none
    else W.xint B t.op t.type2 op1 op2 inplace s
  else some (W.pyOperator B t.op inplace op1 op2 s)

/-- `__Pyx__{op}_{type1}_{type2}` -/
def generated (t : Template) (op1 op2 : PyObject ω) (inplace : Bool) (s : σ) :
    Option (Returned (PyObject ω) (NumberExc ε) × σ) :=
  match t.op with
  | .bitwise _ => W.intLeft B t op1 op2 inplace s
  | .arith op =>
    if t.type1 ≠ .int ∧ isType t.type1 .float op1 then
      if t.type2 ≠ .int ∧ isType t.type2 .float op2 then
        match op1, op2 with
        | .float x, .float y => some (.value (.float (op.onDoubles x y)), s)
        | _, _ => none
      else W.xfloat B op t.type2 op1 op2 inplace s
    else W.intLeft B t op1 op2 inplace s

end World

end AHPy.Operators
