import Mathlib

/-!
# Objects that are compared

The values of exact `str`, `bytes`, `bytearray`, `int` and `float` objects, with what
comparisons see of their representation, and what Python's comparisons of them are.

* `PyLong`: the digits of an `int`;
* `Double`: the value of a `float`;
* `richCompare`: `op1 <op> op2` in Python.
-/

namespace AHPy.Compare

/-! ## Operators -/

inductive Op where
  | eq
  | ne
  | lt
  | le
  | gt
  | ge
deriving DecidableEq

/-- Whether the operator holds for values in this order. -/
def Op.holds : Op → Ordering → Bool
  | .eq, o => o.isEq
  | .ne, o => o.isNe
  | .lt, o => o.isLT
  | .le, o => o.isLE
  | .gt, o => o.isGT
  | .ge, o => o.isGE

/-- The C operator, on integers. -/
def Op.ints (op : Op) (a b : Int) : Bool :=
  match op with
  | .eq => a = b
  | .ne => a ≠ b
  | .lt => a < b
  | .le => a ≤ b
  | .gt => a > b
  | .ge => a ≥ b

def Op.symbol : Op → String
  | .eq => "=="
  | .ne => "!="
  | .lt => "<"
  | .le => "<="
  | .gt => ">"
  | .ge => ">="

/-! ## Floats -/

/-- A `double`. All finite binary fractions are allowed, with a sign also for zero. -/
inductive Double where
  | nan
  | infinite (negative : Bool)
  | finite (negative : Bool) (mantissa : Nat) (exponent : Int)

namespace Double

/-- The number, if it is one. -/
def value : Double → Option (WithBot (WithTop ℚ))
  | .nan => none
  | .infinite true => some ⊥
  | .infinite false => some ⊤
  | .finite negative mantissa exponent =>
    some (((if negative then -1 else 1) * mantissa * 2 ^ exponent : ℚ) : WithTop ℚ)

/-- A cast of an integer. It is exact: the integers that are cast have at most as many
    bits as a mantissa. -/
def ofInt (i : Int) : Double := .finite (i < 0) i.natAbs 0

/-- The order of two numbers, if there is one. -/
def order (a b : Double) : Option Ordering :=
  a.value.bind fun x => b.value.map fun y => compare x y

def isFinite : Double → Bool
  | .finite _ _ _ => true
  | _ => false

end Double

/-- An operator on an order that there need not be. -/
def Op.partialHolds (op : Op) (o : Option Ordering) : Bool := o.elim (op = .ne) op.holds

/-- The C operator, on floating point numbers. -/
def Op.doubles (op : Op) (a b : Double) : Bool := op.partialHolds (a.order b)

/-! ## Integers -/

/-- An `int` with digits of `shift` bits, the lowest one first. -/
structure PyLong (shift : Nat) where
  negative : Bool
  digits : List Nat
  digits_lt : ∀ d ∈ digits, d < 2 ^ shift
  normalized : digits.getLast? ≠ some 0
  negative_ne : negative = true → digits ≠ []

namespace PyLong

variable {shift : Nat} (x : PyLong shift)

def magnitude : Nat := Nat.ofDigits (2 ^ shift) x.digits

def value : Int := if x.negative then -x.magnitude else x.magnitude

end PyLong

/-! ## Values -/

/-- A code point of a `str`. -/
abbrev CodePoint := Fin 0x110000

/-- A value, with what is cached of the hash of a `bytes` object (`-1` for nothing). -/
inductive Value (shift : Nat) where
  | none
  | str (text : List CodePoint)
  | bytes (data : List UInt8) (shash : Int)
  | bytearray (data : List UInt8)
  | int (x : PyLong shift)
  | float (x : Double)

inductive TypeName where
  | object
  | noneType
  | str
  | bytes
  | bytearray
  | int
  | float
deriving DecidableEq

def TypeName.name : TypeName → String
  | .object => "object"
  | .noneType => "NoneType"
  | .str => "str"
  | .bytes => "bytes"
  | .bytearray => "bytearray"
  | .int => "int"
  | .float => "float"

variable {shift : Nat}

namespace Value

/-- The exact type. -/
def type : Value shift → TypeName
  | .none => .noneType
  | .str _ => .str
  | .bytes _ _ => .bytes
  | .bytearray _ => .bytearray
  | .int _ => .int
  | .float _ => .float

/-- The number that an `int` or `float` is, which can be "not a number". -/
def number? : Value shift → Option (Option (WithBot (WithTop ℚ)))
  | .int x => some (some ((x.value : ℚ) : WithTop ℚ))
  | .float x => some x.value
  | _ => Option.none

/-- The bytes of a `bytes` or `bytearray`. -/
def data? : Value shift → Option (List UInt8)
  | .bytes data _ => some data
  | .bytearray data => some data
  | _ => Option.none

def text? : Value shift → Option (List CodePoint)
  | .str text => some text
  | _ => Option.none

end Value

/-- Two objects, and whether they are the same one. -/
structure Operands (shift : Nat) where
  op1 : Value shift
  op2 : Value shift
  same : Bool
  same_eq : same = true → op1 = op2
  /-- There is one `None`. -/
  none_same : op1 = .none → op2 = .none → same = true
  /-- Hashes depend on the data. -/
  hash_eq : ∀ data h₁ h₂, op1 = .bytes data h₁ → op2 = .bytes data h₂ → h₁ ≠ -1 → h₂ ≠ -1 →
    h₁ = h₂

/-! ## Comparisons in Python -/

/-- `TypeError`, for an order that is not supported. -/
structure TypeError where
  op : Op
  type1 : TypeName
  type2 : TypeName

def TypeError.message (e : TypeError) : String :=
  "'" ++ e.op.symbol ++ "' not supported between instances of '" ++ e.type1.name ++ "' and '" ++
    e.type2.name ++ "'"

abbrev Result := Except TypeError Bool

/-- Objects of unrelated types, and `None`, are equal only if they are the same. -/
def compareIdentity (op : Op) (x : Operands shift) : Result :=
  match op with
  | .eq => .ok x.same
  | .ne => .ok !x.same
  | _ => .error ⟨op, x.op1.type, x.op2.type⟩

/-- `op1 <op> op2`: numbers are compared by their exact values, strings by their code
    points and bytes by their values, in lexicographic order. -/
def richCompare (op : Op) (x : Operands shift) : Result :=
  match x.op1.number?, x.op2.number? with
  | some a, some b => .ok (op.partialHolds (a.bind fun a => b.map fun b => compare a b))
  | _, _ =>
    match x.op1.data?, x.op2.data? with
    | some a, some b => .ok (op.holds (List.compareLex compare a b))
    | _, _ =>
      match x.op1.text?, x.op2.text? with
      | some a, some b => .ok (op.holds (List.compareLex compare a b))
      | _, _ => compareIdentity op x

/-!
## The comparison functions

`__Pyx_PyObject_Compare{op}_{type1}_{type2}` of `Optimize.c`, with the functions that it
dispatches to and the macros of `TypeConversion.c` that these use. The functions return
truth values, whether as objects or as C integers.

* `compareBytes`, `compareFloatInt`, `compareIntFloat`, `compareIntInt`: the functions
  for pairs of types;
* `pyObjectCompare`: the main comparison function, for operands of two declared types.
-/

/-- What the C code is compiled for. -/
structure Config where
  /-- `PyLong_SHIFT` -/
  shift : Nat
  shift_eq : shift = 15 ∨ shift = 30
  /-- `CYTHON_USE_PYLONG_INTERNALS` -/
  usePyLongInternals : Bool
  /-- Sizes and signs are in `lv_tag`, as from CPython 3.12 on. -/
  tagged : Bool
  /-- `8 * sizeof(long)` -/
  longBits : Nat
  longBits_ge : 32 ≤ longBits
  /-- `8 * sizeof(Py_ssize_t)` -/
  ssizeBits : Nat
  /-- Not `CYTHON_COMPILING_IN_PYPY` or `CYTHON_COMPILING_IN_GRAAL` -/
  comparesBytes : Bool
  /-- The hashes of `bytes` are compared. -/
  usesHashes : Bool

/-! ## `TypeConversion.c` -/

namespace PyLong

variable {shift : Nat} (x a b : PyLong shift)

def digitCount : Nat := x.digits.length

/-- The digit at an index of the array. -/
def digit (i : Nat) : Int := (x.digits[i]?.getD 0 : Nat)

def sign : Int := if x.digits = [] then 0 else if x.negative then -1 else 1

def isNeg : Bool := x.negative

/-- 0: positive, 1: zero, 2: negative -/
def signBits : Int := 1 - x.sign

/-- `Py_SIZE`, before CPython 3.12. -/
def pySize : Int := x.sign * x.digitCount

def isCompact : Bool := x.digitCount ≤ 1

def compactValue : Int := x.sign * x.digit 0

def compareSignAndSize (tagged : Bool) : Int :=
  if tagged then
    if a.signBits > b.signBits then -1
    else if a.signBits < b.signBits then 1
    else (1 - a.signBits) * (a.digitCount - b.digitCount)
  else a.pySize - b.pySize

/-- `PyLong_AsLongAndOverflow` and `PyLong_AsLongLongAndOverflow`, for integers of a
    number of bits: the value, and whether it is too large (1) or too small (-1). -/
def asIntegerAndOverflow (bits : Nat) : Int × Int :=
  if x.value ≥ 2 ^ (bits - 1) then (-1, 1)
  else if x.value < -2 ^ (bits - 1) then (-1, -1)
  else (x.value, 0)

end PyLong

/-- `PyUnicode_Compare` -/
def pyUnicodeCompare (s1 s2 : List CodePoint) : Int :=
  match List.compareLex compare s1 s2 with
  | .lt => -1
  | .eq => 0
  | .gt => 1

/-- `memcmp`: only the sign of the result is defined. -/
def memcmp (ps1 ps2 : List UInt8) (n : Nat) : Int :=
  match List.compareLex compare (ps1.take n) (ps2.take n) with
  | .lt => -1
  | .eq => 0
  | .gt => 1

/-! ## Strings -/

def compareStrStr (op : Op) (s1 s2 : List CodePoint) : Bool := op.ints (pyUnicodeCompare s1 s2) 0

/-- The first byte, or the one that ends the string. -/
def firstByte (ps : List UInt8) : Int := (ps.headD 0).toNat

/-- The operators `==` and `!=` for `bytes` and `bytearray`. -/
def compareBytesEqNe (cfg : Config) (op : Op) (s1 s2 : Value cfg.shift) (ps1 ps2 : List UInt8) :
    Bool :=
  if ps1.length ≠ ps2.length then op ≠ .eq
  -- bytes: length >= 1  (empty bytes is singleton, and "s1 is not s2")
  else if s1.type = .bytearray ∧ ps1.length = 0 then op = .eq
  else if firstByte ps1 ≠ firstByte ps2 then op ≠ .eq
  else if ps1.length = 1 then op = .eq
  else
    match s1, s2 with
    | .bytes _ hash1, .bytes _ hash2 =>
      if cfg.usesHashes ∧ hash1 ≠ hash2 ∧ hash1 ≠ -1 ∧ hash2 ≠ -1 then op ≠ .eq
      else op.ints (memcmp ps1 ps2 ps1.length) 0
    | _, _ => op.ints (memcmp ps1 ps2 ps1.length) 0

/-- The operators for an order of `bytes` and `bytearray`. -/
def compareBytesOrder (op : Op) (ps1 ps2 : List UInt8) : Bool :=
  let length1 := ps1.length
  let length2 := ps2.length
  let shortLength := if length1 < length2 then length1 else length2
  if shortLength = 0 then
    if length1 = 0 then op ∈ [Op.lt, .le] else op ∉ [Op.lt, .le]
  else
    let cmp := firstByte ps1 - firstByte ps2
    let cmp := if cmp = 0 ∧ shortLength > 1 then memcmp ps1 ps2 shortLength else cmp
    let cmp := if cmp = 0 then (length1 - length2 : Int) else cmp
    op.ints cmp 0

/-- `__Pyx_PyObject_ComparePyBytesPyByteArray` and the other three. -/
def compareBytes (cfg : Config) (op : Op) (s1 s2 : Value cfg.shift) : Bool :=
  let ps1 := s1.data?.getD []
  let ps2 := s2.data?.getD []
  if op ∈ [Op.eq, .ne] then compareBytesEqNe cfg op s1 s2 ps1 ps2
  else compareBytesOrder op ps1 ps2

/-! ## Numbers -/

/-- The numbers that a mantissa can be. -/
def two53 : Int := 2 ^ 53

/-- `__Pyx_PyObject_CompareFloatInt`; `none` if it calls `PyObject_RichCompare`. -/
def compareFloatInt (cfg : Config) (op : Op) (op1 : Double) (op2 : PyLong cfg.shift) : Option Bool :=
  if cfg.usePyLongInternals then
    if op2.isCompact then some (op.doubles op1 (.ofInt op2.compactValue))
    -- CPython just compares inf/nan to 0.0
    else if ¬op1.isFinite then some (op.doubles op1 (.ofInt 0))
    else if Op.ge.doubles op1 (.ofInt 0) then
      if op2.sign < 0 then some (op ∈ [Op.ne, .ge, .gt])
      -- same sign - is float value compact while PyLong is not?
      else if Op.lt.doubles op1 (.ofInt (2 ^ cfg.shift)) then some (op ∈ [Op.ne, .le, .lt])
      else none
    else if op2.sign > 0 then some (op ∈ [Op.ne, .le, .lt])
    -- same sign - is float value compact while PyLong is not?
    else if Op.gt.doubles op1 (.ofInt (-2 ^ cfg.shift)) then some (op ∉ [Op.eq, .le, .lt])
    else none
  else if ¬op1.isFinite then some (op.doubles op1 (.ofInt 0))
  else
    let iop2 := (op2.asIntegerAndOverflow cfg.longBits).1
    let overflow2 := (op2.asIntegerAndOverflow cfg.longBits).2
    if overflow2 = 0 ∧ ¬(iop2 ≥ two53) ∧ ¬(iop2 ≤ -two53) then some (op.doubles op1 (.ofInt iop2))
    else
      let overflow2 := if overflow2 = 0 then (if iop2 ≥ two53 then 1 else -1) else overflow2
      if overflow2 > 0 then
        if Op.lt.doubles op1 (.ofInt two53) then some (op ∈ [Op.ne, .le, .lt]) else none
      else if Op.gt.doubles op1 (.ofInt (-two53)) then some (op ∈ [Op.ne, .ge, .gt]) else none

/-- `__Pyx_PyObject_CompareIntFloat`; `none` if it calls `PyObject_RichCompare`. -/
def compareIntFloat (cfg : Config) (op : Op) (op1 : PyLong cfg.shift) (op2 : Double) : Option Bool :=
  if cfg.usePyLongInternals then
    if op1.isCompact then some (op.doubles (.ofInt op1.compactValue) op2)
    -- CPython just compares inf/nan to 0.0
    else if ¬op2.isFinite then some (op.doubles (.ofInt 0) op2)
    else if Op.ge.doubles op2 (.ofInt 0) then
      if op1.sign < 0 then some (op ∈ [Op.ne, .le, .lt])
      -- same sign - is float value compact while PyLong is not?
      else if Op.lt.doubles op2 (.ofInt (2 ^ cfg.shift)) then some (op ∈ [Op.ne, .ge, .gt])
      else none
    else if op1.sign > 0 then some (op ∈ [Op.ne, .ge, .gt])
    -- same sign - is float value compact while PyLong is not?
    else if Op.gt.doubles op2 (.ofInt (-2 ^ cfg.shift)) then some (op ∉ [Op.eq, .ge, .gt])
    else none
  else if ¬op2.isFinite then some (op.doubles (.ofInt 0) op2)
  else
    let iop1 := (op1.asIntegerAndOverflow cfg.longBits).1
    let overflow1 := (op1.asIntegerAndOverflow cfg.longBits).2
    if overflow1 = 0 ∧ ¬(iop1 ≥ two53) ∧ ¬(iop1 ≤ -two53) then some (op.doubles (.ofInt iop1) op2)
    else
      let overflow1 := if overflow1 = 0 then (if iop1 ≥ two53 then 1 else -1) else overflow1
      if overflow1 < 0 then
        if Op.gt.doubles op2 (.ofInt two53) then some (op ∈ [Op.ne, .le, .lt]) else none
      else if Op.lt.doubles op2 (.ofInt (-two53)) then some (op ∈ [Op.ne, .ge, .gt]) else none

/-- The loop over the digits, from the one before the `i`-th down. -/
def compareDigits {shift : Nat} (op1 op2 : PyLong shift) : Nat → Int
  | 0 => 0
  | i + 1 =>
    let cmp := op1.digit i - op2.digit i
    if cmp ≠ 0 then cmp else compareDigits op1 op2 i

/-- The two lowest digits (`pylong_join`). -/
def joinDigits {shift : Nat} (x : PyLong shift) : Int := x.digit 1 * 2 ^ shift + x.digit 0

/-- The comparison of the digits of integers with as many digits. -/
def compareAllDigits (cfg : Config) (op1 op2 : PyLong cfg.shift) : Int :=
  let size := op1.digitCount
  if size = 0 then 0
  else if size = 1 then op1.digit 0 - op2.digit 0
  else if size = 2 ∧ cfg.ssizeBits ≥ 2 * cfg.shift then joinDigits op1 - joinDigits op2
  else compareDigits op1 op2 size

/-- The result for integers that are not equal. -/
def unequalResult (op : Op) (cmp : Int) : Bool :=
  match op with
  | .eq => false
  | .ne => true
  | _ => if cmp < 0 then op ∈ [Op.le, .lt] else op ∉ [Op.le, .lt]

/-- `__Pyx_PyObject_CompareIntInt`; `none` if it calls `PyObject_RichCompare`. -/
def compareIntInt (cfg : Config) (op : Op) (op1 op2 : PyLong cfg.shift) : Option Bool :=
  if cfg.usePyLongInternals then
    let cmp := op1.compareSignAndSize op2 cfg.tagged
    if cmp = 0 then
      let cmp := compareAllDigits cfg op1 op2
      if cmp = 0 then some (op ∈ [Op.eq, .le, .ge])
      else some (unequalResult op (if op1.isNeg then -cmp else cmp))
    else some (unequalResult op cmp)
  else
    let result1 := op1.asIntegerAndOverflow 64
    let result2 := op2.asIntegerAndOverflow 64
    if result1.2 = 0 ∧ result2.2 = 0 then some (op.ints result1.1 result2.1)
    else if result1.2 ≠ result2.2 then some (op.ints result1.2 result2.2)
    else none

/-! ## The main comparison function -/

section

variable (cfg : Config) (op : Op) (type1 type2 : TypeName) (x : Operands cfg.shift)

/-- A check of the type of an operand. One of the declared type can only be `None`
    instead. -/
def isType (declared : TypeName) (value : Value cfg.shift) (expected : TypeName) : Bool :=
  if declared = expected then value.type ≠ .noneType else value.type = expected

/-- A type is declared as this one, or not declared. -/
def allows (declared expected : TypeName) : Bool := declared = .object ∨ declared = expected

/-- The result of a function that may call `PyObject_RichCompare`. -/
def orRichCompare (result : Option Bool) : Result := result.elim (richCompare op x) .ok

/-- `None` as the first operand. -/
def compareNone1 : Result :=
  match op with
  | .eq =>
    if x.op2.type = .noneType then .ok true
    else if type2 ≠ .object then .ok false else richCompare op x
  | .ne =>
    if x.op2.type = .noneType then .ok false
    else if type2 ≠ .object then .ok true else richCompare op x
  | _ => richCompare op x

/-- `None` as the second operand. -/
def compareNone2 : Result :=
  match op with
  | .eq =>
    if x.op1.type = .noneType then .ok true
    else if type1 ≠ .object then .ok false else richCompare op x
  | .ne =>
    if x.op1.type = .noneType then .ok false
    else if type1 ≠ .object then .ok true else richCompare op x
  | _ => richCompare op x

def Value.double {shift : Nat} : Value shift → Double
  | .float x => x
  | _ => .nan

def Value.zero (shift : Nat) : PyLong shift := ⟨false, [], by simp, by simp, by simp⟩

def Value.long {shift : Nat} : Value shift → PyLong shift
  | .int x => x
  | _ => Value.zero shift

/-- The section for one type of strings, if it applies. -/
def compareStrings (stringType : TypeName) (otherwise : Result) : Result :=
  if allows type1 stringType ∧ allows type2 stringType ∧ (stringType = .str ∨ cfg.comparesBytes) ∧
      isType cfg type1 x.op1 stringType then
    -- Catch interned and identical strings as well as the empty string.
    if x.same then .ok (op ∈ [Op.eq, .le, .ge])
    else if isType cfg type2 x.op2 stringType then
      if stringType = .str then
        .ok (compareStrStr op (x.op1.text?.getD []) (x.op2.text?.getD []))
      else .ok (compareBytes cfg op x.op1 x.op2)
    else if stringType = .bytes ∧ allows type2 .bytearray ∧ isType cfg type2 x.op2 .bytearray then
      .ok (compareBytes cfg op x.op1 x.op2)
    else if stringType = .bytearray ∧ allows type2 .bytes ∧ isType cfg type2 x.op2 .bytes then
      .ok (compareBytes cfg op x.op1 x.op2)
    else richCompare op x
  else otherwise

/-- The section for a first operand that is an `int`. -/
def compareInt : Result :=
  if x.same then .ok (op ∈ [Op.eq, .le, .ge])
  else if allows type2 .int ∧ isType cfg type2 x.op2 .int then
    orRichCompare cfg op x (compareIntInt cfg op x.op1.long x.op2.long)
  else if allows type2 .float ∧ isType cfg type2 x.op2 .float then
    orRichCompare cfg op x (compareIntFloat cfg op x.op1.long x.op2.double)
  else richCompare op x

/-- The section for a first operand that is a `float`. -/
def compareFloat : Result :=
  if allows type2 .float ∧ isType cfg type2 x.op2 .float then
    .ok (op.doubles x.op1.double x.op2.double)
  else if allows type2 .int ∧ isType cfg type2 x.op2 .int then
    orRichCompare cfg op x (compareFloatInt cfg op x.op1.double x.op2.long)
  else richCompare op x

/-- `__Pyx_PyObject_Compare{op}_{type1}_{type2}` -/
def pyObjectCompare : Result :=
  if type1 ≠ .object ∧ x.op1.type = .noneType then compareNone1 cfg op type2 x
  else if type2 ≠ .object ∧ x.op2.type = .noneType then compareNone2 cfg op type1 x
  else if (type1 = .int ∨ type2 = .int) ∧ type1 ≠ .float ∧ type2 ≠ .float ∧ x.same then
    .ok (op ∈ [Op.eq, .le, .ge])
  else if allows type1 .float ∧ isType cfg type1 x.op1 .float then compareFloat cfg op type2 x
  else if allows type1 .int ∧ isType cfg type1 x.op1 .int then compareInt cfg op type2 x
  else
    compareStrings cfg op type1 type2 x .str <|
    compareStrings cfg op type1 type2 x .bytes <|
    compareStrings cfg op type1 type2 x .bytearray <|
    richCompare op x

end

end AHPy.Compare
