import AHPy.Lib.CInteger

/-!
# Arithmetic that checks for overflow

The functions of `Overflow.c`. Each returns a value and sets a flag that is passed to it,
if it finds that the result does not fit. `none` stands for undefined behaviour, and for
`Py_FatalError`.

* `BaseCase`: the functions for `int`, `long` and `long long`;
* `binop`, `lshift`: the functions for any integer type.
-/

namespace AHPy.Overflow

/-- The operators that can be checked. -/
inductive Op where
  | add
  | sub
  | mul
  | lshift
deriving DecidableEq

/-- The mathematical result. -/
def Op.exact : Op → ℤ → ℤ → ℤ
  | .add, a, b => a + b
  | .sub, a, b => a - b
  | .mul, a, b => a * b
  | .lshift, a, b => a * 2 ^ b.toNat

/-- What the compiler has, and what it knows about the operands. -/
structure Build where
  /-- `__PYX_HAVE_BUILTIN_OVERFLOW` -/
  haveBuiltinOverflow : Bool
  /-- `__Pyx_is_constant(a)` -/
  isConstantA : Bool
  /-- `__Pyx_is_constant(b)` -/
  isConstantB : Bool
  /-- `__Pyx_is_constant(a) && !__Pyx_is_constant(b)` in the functions for constants -/
  swapsConstant : Bool

/-- A value and the flag. -/
abbrev Result := Option (ℤ × Bool)

variable (p : CPlatform) (build : Build) (t : CIntType) (a b : ℤ) (overflow : Bool)

/-! ## Limits -/

/-- `__PYX_HALF_MAX` -/
def halfMax : ℤ := 2 ^ (t.width - 2)

/-- `__PYX_MIN` -/
def min : ℤ := if t.signed then 0 - halfMax t - halfMax t else 0

/-- `__PYX_MAX`, in the type that values are promoted to. -/
def max : ℤ := (p.promoted t).convert (-1 - min t)

/-! ## Compiler builtins -/

/-- `__builtin_add_overflow` and the other two. -/
def builtinOverflow (result : ℤ) : Result :=
  some (t.convert result, overflow || !decide (t.InRange result))

/-! ## `BaseCaseUnsigned` -/

def addUnsigned : Result := do
  let r ← t.arith (a + b)
  return (r, overflow || r < a)

def subUnsigned : Result := do
  let r ← t.arith (a - b)
  return (r, overflow || r > a)

/-- The check that divides by `b`, which is a constant. -/
def mulConstUnsigned' : Result := do
  let prod ← t.arith (a * b)
  return (prod, if b ≠ 0 then overflow || a > max p t / b else overflow)

def mulConstUnsigned : Result :=
  if build.swapsConstant then mulConstUnsigned' p t b a overflow
  else mulConstUnsigned' p t a b overflow

/-- A multiplication in a type that is wider. -/
def mulWide (wide : CIntType) : Result := do
  let bigR ← wide.arith (a * b)
  let r := t.convert bigR
  return (r, overflow || bigR ≠ r)

def mulUnsigned : Result :=
  if build.isConstantB then mulConstUnsigned p build t a b overflow
  else if build.isConstantA then mulConstUnsigned p build t b a overflow
  else if t.width < p.long then mulWide t a b overflow (p.longType false)
  else if t.width < p.longLong then mulWide t a b overflow (p.longLongType false)
  else mulConstUnsigned p build t a b overflow

/-! ## `BaseCaseSigned` -/

/-- An addition in a type that is wider. -/
def addWide (wide : CIntType) : Result := do
  let bigR ← wide.arith (a + b)
  let r := t.convert bigR
  return (r, overflow || bigR ≠ r)

def addSigned : Result :=
  if t.width < p.long then addWide t a b overflow (p.longType true)
  else if t.width < p.longLong then addWide t a b overflow (p.longLongType true)
  else do
    let r ← t.unsigned.arith (t.unsigned.convert a + t.unsigned.convert b)
    -- The operands have the same sign, but the result has the opposite one.
    let signs := (t.bits a ^^^ t.bits r) &&& (t.bits b ^^^ t.bits r)
    return (t.convert r, overflow || signs >>> (t.width - 1) ≠ 0)

def subSigned : Result := do
  let r ← t.unsigned.arith (t.unsigned.convert a - t.unsigned.convert b)
  -- The operands have different signs, and the result has the opposite sign to a.
  let signs := (t.bits a ^^^ t.bits b) &&& (t.bits a ^^^ t.bits r)
  return (t.convert r, overflow || signs >>> (t.width - 1) ≠ 0)

/-- The checks that divide by `b`, which is a constant. -/
def mulConstSigned' : Result := do
  let overflow :=
    if b > 1 then overflow || a > (max p t).tdiv b || a < (min t).tdiv b
    else if b = -1 then overflow || a = min t
    else if b < -1 then overflow || a > (min t).tdiv b || a < (max p t).tdiv b
    else overflow
  let prod ← t.unsigned.arith (t.unsigned.convert a * t.unsigned.convert b)
  return (t.convert prod, overflow)

def mulConstSigned : Result :=
  if build.swapsConstant then mulConstSigned' p t b a overflow
  else mulConstSigned' p t a b overflow

def mulSigned : Result :=
  if build.isConstantB then mulConstSigned p build t a b overflow
  else if build.isConstantA then mulConstSigned p build t b a overflow
  else if t.width < p.long then mulWide t a b overflow (p.longType true)
  else if t.width < p.longLong then mulWide t a b overflow (p.longLongType true)
  else mulConstSigned p build t a b overflow

/-! ## The functions for a type -/

/-- A base case for `+`, `-` or `*`, and for a constant right operand
    (`__Pyx_add_const_{{NAME}}_checking_overflow`, ...). -/
def baseCase (op : Op) (constRhs : Bool) : Result :=
  if build.haveBuiltinOverflow then builtinOverflow t overflow (op.exact a b)
  else
    match op, t.signed with
    | .add, false => addUnsigned t a b overflow
    | .sub, false => subUnsigned t a b overflow
    | .mul, false =>
      if constRhs then mulConstUnsigned p build t a b overflow
      else mulUnsigned p build t a b overflow
    | .add, true => addSigned p t a b overflow
    | .sub, true => subSigned t a b overflow
    | .mul, true =>
      if constRhs then mulConstSigned p build t a b overflow
      else mulSigned p build t a b overflow
    | .lshift, _ => none

/-- `__Pyx_add_no_overflow` and the others, returned as a value of the type. -/
def noOverflow (op : Op) : Result := do
  let r ← (p.promoted t).arith (op.exact a b)
  return (t.convert r, overflow)

/-- `__Pyx_check_sane_{{NAME}}` -/
def checkSane : Bool := t.width ≤ p.int ∨ t.width = p.longLong ∨ t.width = p.long

/-- `__Pyx_{{BINOP}}_{{NAME}}_checking_overflow` -/
def binop (op : Op) (constRhs : Bool) : Result :=
  if t.width < p.int then noOverflow p t a b overflow op
  else if t.width = p.int then
    baseCase p build (p.intType t.signed) a b overflow op constRhs
  else if t.width = p.long then
    baseCase p build (p.longType t.signed) a b overflow op constRhs
  else if t.width = p.longLong then
    baseCase p build (p.longLongType t.signed) a b overflow op constRhs
  else none

/-- `__Pyx_lshift_{{NAME}}_checking_overflow` -/
def lshift : Result :=
  if t.signed ∧ (a < 0 ∨ b < 0) ∨ b ≥ t.convert t.width ∨ a > max p t / 2 ^ b.toNat then
    some (0, true)
  else do
    let r ← (p.promoted t).arith (a * 2 ^ b.toNat)
    return (t.convert r, overflow)

/-- The function that is called for an operator. -/
def checkingOverflow (op : Op) (constRhs : Bool) : Result :=
  if op = .lshift then lshift p t a b overflow
  else binop p build t a b overflow op constRhs

end AHPy.Overflow
