import AHPy.Lib.FloatFormat
import AHPy.ModuleWriter.SlotResults

/-!
# Native scalars

Fields of extension types and arguments of external C functions have native
storage. A Python number gets there by a checked conversion through a C type of
the interpreter's API; a literal that is an argument may be rendered as a C
constant instead.

* `convertNativeScalarHandle`: the emitted conversion;
* `renderExternalCScalarLiteral`: the C constant for a literal, if there is one;
* `readBack`: the Python value of what is stored.
-/

namespace AHPy.ModuleWriter

/-! ## Data models -/

theorem width_eight : 8 ≤ 8 := by decide
theorem width_sixteen : 8 ≤ 16 := by decide
theorem width_thirtyTwo : 8 ≤ 32 := by decide
theorem width_sixtyFour : 8 ≤ 64 := by decide

/-- The type `double`. -/
def binary64 : FloatFormat := ⟨53, -1074, 1024, Nat.succ_pos 52⟩

/-- The type `float`. -/
def binary32 : FloatFormat := ⟨24, -149, 128, Nat.succ_pos 23⟩

/-- The widths of `long` and of pointers. -/
inductive WordModel
  | lp64
  | llp64
  | ilp32

/-- What C leaves to the platform. -/
structure DataModel where
  words : WordModel
  /-- Whether plain `char` is signed. -/
  charSigned : Bool
  longDouble : FloatFormat
  longDouble_contains : longDouble.Contains binary64

/-- `storage_kind` -/
inductive StorageKind
  | char
  | signedChar
  | unsignedChar
  | signedShort
  | unsignedShort
  | signedInt
  | unsignedInt
  | signedLong
  | unsignedLong
  | signedLongLong
  | unsignedLongLong
  | bint
  | pySsize
  | float
  | double
  | longDouble
deriving DecidableEq

namespace DataModel

variable (m : DataModel)

def char : CIntType := ⟨8, m.charSigned, width_eight⟩
def short (signed : Bool) : CIntType := ⟨16, signed, width_sixteen⟩
def int (signed : Bool) : CIntType := ⟨32, signed, width_thirtyTwo⟩
def longLong (signed : Bool) : CIntType := ⟨64, signed, width_sixtyFour⟩

def long (signed : Bool) : CIntType :=
  match m.words with
  | .lp64 => longLong signed
  | .llp64 => int signed
  | .ilp32 => int signed

/-- `HPy_ssize_t` -/
def ssize : CIntType :=
  match m.words with
  | .lp64 => longLong true
  | .llp64 => longLong true
  | .ilp32 => int true

/-- The integer type of a kind. -/
def cType : StorageKind → Option CIntType
  | .char => some m.char
  | .signedChar => some ⟨8, true, width_eight⟩
  | .unsignedChar => some ⟨8, false, width_eight⟩
  | .signedShort => some (short true)
  | .unsignedShort => some (short false)
  | .signedInt => some (int true)
  | .unsignedInt => some (int false)
  | .signedLong => some (m.long true)
  | .unsignedLong => some (m.long false)
  | .signedLongLong => some (longLong true)
  | .unsignedLongLong => some (longLong false)
  | .pySsize => some m.ssize
  | .bint | .float | .double | .longDouble => none

/-- `signed_long_types`: the target, and whether its range is checked. -/
def signedLongTypes : StorageKind → Option (CIntType × Bool)
  | .char => some (m.char, true)
  | .signedChar => some (⟨8, true, width_eight⟩, true)
  | .signedShort => some (short true, true)
  | .signedInt => some (int true, true)
  | .signedLong => some (m.long true, false)
  | _ => none

/-- `unsigned_long_types` -/
def unsignedLongTypes : StorageKind → Option (CIntType × Bool)
  | .unsignedChar => some (⟨8, false, width_eight⟩, true)
  | .unsignedShort => some (short false, true)
  | .unsignedInt => some (int false, true)
  | .unsignedLong => some (m.long false, false)
  | _ => none

end DataModel

/-! ## Python numbers -/

/-- Numbers of Python. Objects of other types have special methods that give an integer, a float
    and their truth, or raise an exception. -/
inductive PyNumber
  | bool (b : Bool)
  | int (v : ℤ)
  | float (x : FloatValue binary64)
  | complex (re im : FloatValue binary64)
  | object (index : Option ℤ) (toFloat : Option (FloatValue binary64)) (truth : Option Bool)

namespace PyNumber

/-- The value of an instance of `int`. -/
def integer : PyNumber → Option ℤ
  | .bool b => some (if b then 1 else 0)
  | .int v => some v
  | _ => none

/-- The integer of a number that is one, or has `__index__`. -/
def index : PyNumber → Option ℤ
  | .object index _ _ => index
  | n => n.integer

/-- `float(v)` -/
def floatOfInt (v : ℤ) : Except NativeExc (FloatValue binary64) :=
  if (binary64.ofInt v).isFinite then .ok (binary64.ofInt v) else .error .overflowError

/-- `float(n)` -/
def toFloat (n : PyNumber) : Except NativeExc (FloatValue binary64) :=
  match n with
  | .float x => .ok x
  | .object _ (some x) _ => .ok x
  | n =>
    match n.index with
    | some v => floatOfInt v
    | none => .error .typeError

/-- `bool(n)` -/
def truth : PyNumber → Option Bool
  | .bool b => some b
  | .int v => some (decide (v ≠ 0))
  | .float x => some !x.isZero
  | .complex re im => some (!re.isZero || !im.isZero)
  | .object _ _ truth => truth

end PyNumber

/-- The result of a function of C, and the exception that it set. -/
abbrev CResult (α : Type) := α × Option NativeExc

/-- A function that converts an integer to a type, with the error value `-1`. -/
def integerFromPython (t : CIntType) : Option ℤ → CResult ℤ
  | none => (t.convert (-1), some .typeError)
  | some v => if t.InRange v then (v, none) else (t.convert (-1), some .overflowError)

/-- `HPyFloat_AsDouble` -/
def doubleFromPython (n : PyNumber) : CResult (FloatValue binary64) :=
  match n.toFloat with
  | .ok x => (x, none)
  | .error e => (binary64.ofInt (-1), some e)

/-- `HPy_IsTrue` -/
def truthTest (n : PyNumber) : CResult ℤ :=
  match n.truth with
  | some b => (if b then 1 else 0, none)
  | none => (-1, some .other)

/-! ## The conversion -/

/-- What is stored. -/
inductive NativeValue (m : DataModel)
  | int (v : ℤ)
  | float (x : FloatValue binary32)
  | double (x : FloatValue binary64)
  | longDouble (x : FloatValue m.longDouble)

/-- `if ((x == -1) && HPyErr_Occurred()) { ... }` -/
def checkedResult {α : Type} [DecidableEq α] (sentinel : α) (r : CResult α) :
    Except NativeExc α :=
  if r.1 = sentinel then
    match r.2 with
    | some e => .error e
    | none => .ok r.1
  else .ok r.1

/-- `_put_native_range_failure`; the minimum is compared only for signed types. -/
def checkedRange (t : CIntType) (checked minimum : Bool) (v : ℤ) : Except NativeExc ℤ :=
  if checked && (minimum && decide (v < t.lo) || decide (t.lo + 2 ^ t.width - 1 < v)) then
    .error .overflowError
  else .ok v

/-- A conversion through the integer type `via`, with a cast to the target. -/
def convertThrough (via target : CIntType) (checked minimum : Bool) (r : CResult ℤ) :
    Except NativeExc ℤ := do
  let v ← checkedResult (via.convert (-1)) r
  let v ← checkedRange target checked minimum v
  pure (target.convert v)

variable (m : DataModel)

/-- `_convert_native_scalar_handle` -/
def convertNativeScalarHandle (kind : StorageKind) (n : PyNumber) :
    Except NativeExc (NativeValue m) :=
  match kind with
  | .bint =>
    if (truthTest n).1 < 0 then .error ((truthTest n).2.getD .other)
    else .ok (.int (m.char.convert (if (truthTest n).1 ≠ 0 then 1 else 0)))
  | .pySsize => do
    let v ← checkedResult (m.ssize.convert (-1)) (integerFromPython m.ssize n.integer)
    pure (.int v)
  | .signedLongLong => do
    let t := DataModel.longLong true
    let v ← checkedResult (t.convert (-1)) (integerFromPython t n.index)
    pure (.int v)
  | .unsignedLongLong => do
    let t := DataModel.longLong false
    let v ← checkedResult (t.convert (-1)) (integerFromPython t n.integer)
    pure (.int v)
  | .float => do
    let x ← checkedResult (binary64.ofInt (-1)) (doubleFromPython n)
    pure (.float (x.convert binary32))
  | .double => do
    let x ← checkedResult (binary64.ofInt (-1)) (doubleFromPython n)
    pure (.double x)
  | .longDouble => do
    let x ← checkedResult (binary64.ofInt (-1)) (doubleFromPython n)
    pure (.longDouble (x.convert m.longDouble))
  | kind =>
    match m.signedLongTypes kind, m.unsignedLongTypes kind with
    | some (target, checked), _ => do
      let v ← convertThrough (m.long true) target checked true
        (integerFromPython (m.long true) n.index)
      pure (.int v)
    | none, some (target, checked) => do
      let v ← convertThrough (m.long false) target checked false
        (integerFromPython (m.long false) n.integer)
      pure (.int v)
    | none, none => .error .other

/-- The Python value of what is stored, as `load_extension_field` and
    `_box_external_c_scalar_result` make it. -/
def NativeValue.readBack (kind : StorageKind) : NativeValue m → PyNumber
  | .int v =>
    match kind with
    | .bint => .bool (decide (v ≠ 0))
    | .pySsize => .int (m.ssize.convert v)
    | .unsignedChar | .unsignedShort | .unsignedInt | .unsignedLong | .unsignedLongLong =>
      .int ((DataModel.longLong false).convert v)
    | _ => .int ((DataModel.longLong true).convert v)
  | .float x => .float (x.convert binary64)
  | .double x => .float x
  | .longDouble x => .float (x.convert binary64)

/-! ## Literals -/

/-- Arguments, as far as they are literals. -/
inductive LiteralNode
  | bool (b : Bool)
  /-- `ord(value)` -/
  | char (code : ℕ)
  /-- `int(value, 0)`, which may raise an exception. -/
  | int (value : Option ℤ)
  /-- `float(value)`, which may raise an exception. -/
  | float (value : Option (FloatValue binary64))
  | unaryPlus (operand : LiteralNode)
  | unaryMinus (operand : LiteralNode)
  | other

/-- `-n` -/
def PyNumber.neg : PyNumber → PyNumber
  | .bool b => .int (-(if b then 1 else 0))
  | .int v => .int (-v)
  | .float x => .float x.neg
  | n => n

/-- `_external_c_scalar_literal_value` -/
def externalCScalarLiteralValue : LiteralNode → Option PyNumber
  | .bool b => some (.bool b)
  | .char code => some (.int code)
  | .int value => value.map .int
  | .float value => value.map .float
  | .unaryPlus operand => externalCScalarLiteralValue operand
  | .unaryMinus operand => (externalCScalarLiteralValue operand).map .neg
  | .other => none

/-- Integer constants of C. -/
inductive IntegerConstant
  | decimal (v : ℤ)
  /-- `vLL` -/
  | longLong (v : ℤ)
  /-- `vULL` -/
  | unsignedLongLong (v : ℤ)
  /-- `(-9223372036854775807LL - 1LL)` -/
  | minLongLong

/-- Constant expressions of C. -/
inductive ScalarLiteral
  | truth (b : Bool)
  /-- `((T)c)` -/
  | integer (kind : StorageKind) (c : IntegerConstant)
  /-- `((T)x)`, for the `repr` of a float. -/
  | floating (kind : StorageKind) (x : FloatValue binary64)

/-- `portable_ranges` -/
def portableRanges : StorageKind → Option (ℤ × ℤ)
  | .char => some (0, 2 ^ 7 - 1)
  | .signedChar => some (-2 ^ 7, 2 ^ 7 - 1)
  | .unsignedChar => some (0, 2 ^ 8 - 1)
  | .signedShort => some (-2 ^ 15, 2 ^ 15 - 1)
  | .unsignedShort => some (0, 2 ^ 16 - 1)
  | .signedInt => some (-2 ^ 31, 2 ^ 31 - 1)
  | .unsignedInt => some (0, 2 ^ 32 - 1)
  | .signedLong => some (-2 ^ 31, 2 ^ 31 - 1)
  | .unsignedLong => some (0, 2 ^ 32 - 1)
  | .signedLongLong => some (-2 ^ 63, 2 ^ 63 - 1)
  | .unsignedLongLong => some (0, 2 ^ 64 - 1)
  | _ => none

/-- The spelling of an integer. -/
def integerConstant (kind : StorageKind) (v : ℤ) : IntegerConstant :=
  if v = -2 ^ 63 then .minLongLong
  else
    match kind with
    | .signedLongLong => .longLong v
    | .unsignedLongLong => .unsignedLongLong v
    | .unsignedChar | .unsignedShort | .unsignedInt | .unsignedLong => .unsignedLongLong v
    | _ => .decimal v

/-- The kinds with floating storage. -/
def StorageKind.isFloating : StorageKind → Bool
  | .float | .double | .longDouble => true
  | _ => false

/-- The constant for an integer, if it is portable. -/
def renderInteger (kind : StorageKind) (v : ℤ) : Option ScalarLiteral :=
  if kind = .bint then some (.truth (decide (v ≠ 0)))
  else
    match portableRanges kind with
    | none => none
    | some (minimum, maximum) =>
      if minimum ≤ v ∧ v ≤ maximum then some (.integer kind (integerConstant kind v)) else none

/-- The constant for a float, if it is finite. -/
def renderFloating (kind : StorageKind) :
    Except NativeExc (FloatValue binary64) → Option ScalarLiteral
  | .ok x => if x.isFinite then some (.floating kind x) else none
  | .error _ => none

/-- `_render_external_c_scalar_literal` -/
def renderExternalCScalarLiteral (node : LiteralNode) (kind : StorageKind) :
    Option ScalarLiteral :=
  (externalCScalarLiteralValue node).bind fun value =>
    if kind.isFloating then renderFloating kind value.toFloat
    else value.integer.bind (renderInteger kind)

/-- The type of a decimal constant: the first that has its value. -/
def decimalType (v : ℕ) : CIntType :=
  if (DataModel.int true).InRange v then DataModel.int true
  else if (m.long true).InRange v then m.long true
  else DataModel.longLong true

/-- The value of an integer constant; a sign is an operator on the constant without it. -/
def IntegerConstant.eval : IntegerConstant → ℤ
  | .decimal v => (decimalType m v.natAbs).convert v
  | .longLong v => (DataModel.longLong true).convert v
  | .unsignedLongLong v => (DataModel.longLong false).convert v
  | .minLongLong =>
    (DataModel.longLong true).convert ((DataModel.longLong true).convert (-9223372036854775807) - 1)

/-- The value of a constant expression. -/
def ScalarLiteral.eval : ScalarLiteral → NativeValue m
  | .truth b => .int (if b then 1 else 0)
  | .integer kind c =>
    .int ((m.cType kind).elim (c.eval m) fun t => t.convert (c.eval m))
  | .floating .float x => .float (x.convert binary32)
  | .floating .longDouble x => .longDouble (x.convert m.longDouble)
  | .floating _ x => .double x

end AHPy.ModuleWriter
