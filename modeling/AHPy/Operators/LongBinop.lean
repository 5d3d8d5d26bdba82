import AHPy.CMath.Division
import AHPy.IntConversion.Conversion
import AHPy.Operators.NumberBinop

/-!
# Operators of an int and a constant

The templates `PyLongBinop` and `PyLongCompare` of `Optimize.c`: an int of up to four digits is
unpacked into a `long` or a `long long`, larger ones are left to the slots of `int`. `none`
stands for undefined behaviour. `optimise_numeric_binop` (`Optimize.py`) decides which constants
are passed.

* `LongBuild.unpacked`: `__Pyx_Unpacked___Pyx_PyLong_{op}{order}`;
* `LongBuild.longCompare`: `__Pyx_PyLong_{op}{order}` for `==` and `!=`;
* `LongOp.python`: the operators of Python.
-/

namespace AHPy.Operators

open Compare (PyLong)
open IntConversion (pylongJoin)
open ModuleWriter (binary64)

/-! ## Python -/

inductive LongOp where
  | add
  | subtract
  | multiply
  | remainder
  | trueDivide
  | floorDivide
  | or
  | xor
  | and
  | rshift
  | lshift
  deriving DecidableEq

/-- The result of an operator on ints, or the exception that it raises. -/
inductive LongResult where
  | int (v : ℤ)
  | float (x : Double)
  | zeroDivisionError
  | overflowError
  | valueError

/-- `long_true_divide`: the quotient, rounded once. -/
def trueDivision (a b : ℤ) : LongResult :=
  let quotient := binary64.round (decide (a < 0) ^^ decide (b < 0))
    ⟨|(a : ℚ)| / |(b : ℚ)|, div_nonneg (abs_nonneg _) (abs_nonneg _)⟩
  if b = 0 then .zeroDivisionError
  else if quotient.isFinite then .float quotient
  else .overflowError

/-- The operators of Python, of two ints. -/
def LongOp.python (op : LongOp) (a b : ℤ) : LongResult :=
  match op with
  | add => .int (a + b)
  | subtract => .int (a - b)
  | multiply => .int (a * b)
  | remainder => if b = 0 then .zeroDivisionError else .int (a.fmod b)
  | trueDivide => trueDivision a b
  | floorDivide => if b = 0 then .zeroDivisionError else .int (a.fdiv b)
  | or => .int (a.lor b)
  | xor => .int (a.xor b)
  | and => .int (a.land b)
  | rshift => if b < 0 then .valueError else .int (a / 2 ^ b.toNat)
  | lshift => if b < 0 then .valueError else .int (a * 2 ^ b.toNat)

/-! ## `Optimize.py` -/

/-- `arg_order`: the place of the constant. -/
inductive ArgOrder where
  | cObj
  | objC

/-- The operands on the left and on the right. -/
def ArgOrder.operands {α : Type*} (order : ArgOrder) (pyval intval : α) : α × α :=
  match order with
  | cObj => (intval, pyval)
  | objC => (pyval, intval)

def LongOp.isDivision (op : LongOp) : Bool :=
  op = trueDivide ∨ op = floorDivide ∨ op = remainder

def LongOp.isShift (op : LongOp) : Bool := op = rshift ∨ op = lshift

/-- `optimise_numeric_binop`, and the guards of the shifts: the constants that are passed. -/
def LongOp.Accepts (op : LongOp) (order : ArgOrder) (constant : ℤ) : Prop :=
  |constant| ≤ 2 ^ 30 ∧
    (op.isDivision = true → order = .objC → constant ≠ 0) ∧
    (op.isShift = true → order = .objC ∧ 1 ≤ constant ∧ constant ≤ 63)

/-! ## `Optimize.c` -/

/-- What the C code is compiled for. The shifts of signed integers are those of the compiler,
    where the standard does not say what they do. -/
structure LongBuild where
  platform : CPlatform
  long_eq : platform.long = 32 ∨ platform.long = 64
  longLong_eq : platform.longLong = 64
  /-- `PyLong_SHIFT` -/
  shift : ℕ
  shift_eq : shift = 15 ∨ shift = 30
  /-- `CYTHON_USE_PYLONG_INTERNALS` -/
  pylongInternals : Bool
  /-- `negative_shift_works` -/
  negativeShiftWorks : Bool
  /-- `a << b` -/
  shiftLeft : CIntType → ℤ → ℤ → Option ℤ
  /-- `a >> b` -/
  shiftRight : CIntType → ℤ → ℤ → Option ℤ
  shiftRight_eq : ∀ t a b, t.InRange a → 0 ≤ b → b < t.width → 0 ≤ a ∨ negativeShiftWorks = true →
    shiftRight t a b = some (a / 2 ^ b.toNat)

namespace LongBuild

variable (B : LongBuild)

abbrev long : CIntType := B.platform.longType true

abbrev longLong : CIntType := B.platform.longLongType true

/-- `PyLong_MASK` -/
def mask : ℕ := 2 ^ B.shift - 1

/-- The special cases for zero, if there is one. -/
def zeroCase (op : LongOp) (order : ArgOrder) (intval : ℤ) (zerodivisionCheck : Bool) :
    Option (Option LongResult) :=
  match order, op with
  | .cObj, .remainder | .cObj, .trueDivide | .cObj, .floorDivide =>
    if zerodivisionCheck then some (some .zeroDivisionError) else none
  | .cObj, .multiply | .cObj, .and => some (some (.int 0))
  | .cObj, _ => some (some (.int intval))
  | .objC, .add | .objC, .or | .objC, .xor => some (some (.int intval))
  | .objC, .subtract => some ((B.long.arith (-intval)).map .int)
  | .objC, .trueDivide => none
  | .objC, _ => some (some (.int 0))

/-- The last digit of an int of any size, `and` a constant of one digit. -/
def andDigit (x : PyLong B.shift) (intval : ℤ) : Option LongResult := do
  let digit ←
    if 0 < x.sign then some (x.digit 0)
    else do
      let rest ← B.long.arith (B.mask - x.digit 0)
      B.long.arith (rest + 1)
  return .int (intval.land digit)

/-- The variable that an int is unpacked into. -/
inductive Unpacks where
  | long
  | longLong
  | tooLarge

/-- Bits that the result of an operation needs in addition. -/
def spareBits (op : LongOp) : ℕ := if op = .multiply then 30 else 0

def unpacks (op : LongOp) (size : ℕ) : Unpacks :=
  if size = 1 then .long
  else if size ∈ [2, 3, 4] then
    if B.platform.long - 1 > size * B.shift + spareBits op ∧
        (op = .trueDivide → (size - 1) * B.shift < 53) then .long
    else if op ≠ .trueDivide ∧ B.platform.longLong - 1 > size * B.shift + spareBits op then
      .longLong
    else .tooLarge
  else .tooLarge

/-- The value of an int, in a variable of a type. -/
def unpack (t : CIntType) (x : PyLong B.shift) : Option ℤ :=
  let ival := if x.digitCount = 1 then x.digit 0
    else t.convert (pylongJoin B.shift t.width x.digits)
  if 0 < x.sign then some ival else t.arith (ival * -1)

/-- The operations that are the same in both types. -/
def calculate (t : CIntType) (op : LongOp) (a b : ℤ) : Option LongResult :=
  match op with
  | .add => (t.arith (a + b)).map .int
  | .subtract => (t.arith (a - b)).map .int
  | .multiply => (t.arith (a * b)).map .int
  | .or => some (.int (a.lor b))
  | .xor => some (.int (a.xor b))
  | .and => some (.int (a.land b))
  | .remainder => do
    let x ← CMath.cMod t a b
    let adapt ← t.arith (CMath.adaptPython false x b * b)
    return .int (← t.arith (x + adapt))
  | .floorDivide => do
    let q ← CMath.cDiv t a b
    let qb ← t.arith (q * b)
    let r ← t.arith (a - qb)
    return .int (← t.arith (q - CMath.adaptPython false r b))
  | .rshift =>
    if !B.negativeShiftWorks ∧ a < 0 then some (LongOp.rshift.python a b)
    else if b ≥ t.width then some (.int (if a < 0 then -1 else 0))
    else (B.shiftRight t a b).map .int
  | _ => none

/-- `calculate_long_long` -/
def calculateLongLong (op : LongOp) (a b : ℤ) : Option LongResult :=
  match op with
  | .lshift => do
    let llx ← B.shiftLeft B.longLong a b
    let back ← B.shiftRight B.longLong llx b
    -- the slot of `int`, if bits were lost
    return if a ≠ back then LongOp.lshift.python a b else .int llx
  | op => B.calculate B.longLong op a b

/-- The quotient of two floats, unless the int has more bits than a float. -/
def divideLong (x : PyLong B.shift) (ival a b : ℤ) : Option LongResult := do
  let fits ← if B.platform.long ≤ 53 then some true
    else (B.long.arith |ival|).map fun v => decide (v ≤ 2 ^ 53)
  return if fits ∨ x.digitCount ≤ 52 / B.shift then
      .float ((binary64.ofInt a).div (binary64.ofInt b))
    else LongOp.trueDivide.python a b

/-- `calculate_long` -/
def calculateLong (op : LongOp) (x : PyLong B.shift) (ival a b : ℤ) : Option LongResult :=
  match op with
  | .multiply => B.calculateLongLong .multiply a b
  | .trueDivide => B.divideLong x ival a b
  | .lshift =>
    if !B.negativeShiftWorks ∧ a < 0 then some (LongOp.lshift.python a b)
    else do
      let v ← B.shiftLeft B.long a b
      let kept ← if b < B.long.width then
          (B.shiftRight B.long v b).map fun back => decide (a = back)
        else some false
      if !kept ∧ a ≠ 0 then B.calculateLongLong .lshift a b else return .int v
  | op => B.calculate B.long op a b

/-- `__Pyx_Unpacked___Pyx_PyLong_{op}{order}` -/
def unpacked (op : LongOp) (order : ArgOrder) (x : PyLong B.shift) (intval : ℤ)
    (zerodivisionCheck : Bool) : Option LongResult :=
  match if x.sign = 0 then B.zeroCase op order intval zerodivisionCheck else none with
  | some result => result
  | none =>
    if op = .and ∧ intval.land B.mask = intval then B.andDigit x intval
    else
      match B.unpacks op x.digitCount with
      | .tooLarge =>
        let (a, b) := order.operands x.value intval
        some (op.python a b)
      | .long => do
        let ival ← B.unpack B.long x
        let (a, b) := order.operands ival intval
        B.calculateLong op x ival a b
      | .longLong => do
        let ival ← B.unpack B.longLong x
        let (a, b) := order.operands ival intval
        B.calculateLongLong op a b

/-- `__Pyx_PyLong_{op}{order}`, for an exact `int`. -/
def longBinop (op : LongOp) (order : ArgOrder) (x : PyLong B.shift) (intval : ℤ)
    (zerodivisionCheck : Bool) : Option LongResult :=
  if B.pylongInternals then B.unpacked op order x intval zerodivisionCheck
  else
    let (a, b) := order.operands x.value intval
    some (op.python a b)

/-! ## Comparison -/

/-- The digits differ from those of a positive constant. -/
def unequal (x : PyLong B.shift) (uintval : ℕ) : Bool :=
  match [4, 3, 2, 1].find? fun size =>
      B.shift * size < B.platform.long ∧ uintval >>> (B.shift * size) ≠ 0 with
  | some size => x.digitCount ≠ size + 1 ∨
      (List.range (size + 1)).any fun i => x.digit i ≠ ((uintval >>> (i * B.shift)) &&& B.mask : ℕ)
  | none => x.digitCount ≠ 1 ∨ x.digit 0 ≠ (uintval &&& B.mask : ℕ)

/-- `==` (or `!=`) for an exact `int`; the operands may be the same object. -/
def longCompare (isEq : Bool) (x : PyLong B.shift) (intval : ℤ) (sameObject : Bool) :
    Option Bool :=
  if sameObject then some isEq
  else if B.pylongInternals then
    if intval = 0 then some (decide (x.sign = 0) == isEq)
    else if intval < 0 then
      if !x.isNeg then some (!isEq)
      else (B.long.arith (-intval)).map fun v =>
        (!B.unequal x ((B.platform.longType false).convert v).toNat) == isEq
    else if x.isNeg then some (!isEq)
    else some ((!B.unequal x ((B.platform.longType false).convert intval).toNat) == isEq)
  else some (decide (x.value = intval) == isEq)

end LongBuild

end AHPy.Operators
