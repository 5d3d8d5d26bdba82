import AHPy.Lib.UniqueNames
import AHPy.Lib.CInteger
import AHPy.Lib.CLiterals

/-!
# Numeric constants

The global state of a compilation keeps one constant for each spelling of a number and each
of the types `int`, `long` and `float`, under a C name that is made from the spelling.

* `strToNumber`: the value of the spelling of an integer;
* `newNumConstCname`: the C name of a constant, shortened if it is long;
* `registerAll`: the registrations of a module, in any order.
-/

namespace AHPy.NumberTable

abbrev CName := List Char

/-! ## Values of spellings -/

/-- `strip_py2_long_suffix` -/
def stripPy2LongSuffix (value : List Char) : List Char :=
  if value.getLast? = some 'l' ∨ value.getLast? = some 'L' then value.dropLast else value

/-- The digits of a base, whose prefix has the letter. -/
def baseDigits (base : ℕ) (letter : Char) : List Char → Option ℕ
  | '0' :: c :: cs =>
    if c.toLower = letter then prefixedDigits base cs else digits base ('0' :: c :: cs)
  | cs => digits base cs

/-- `int(text, base)` -/
def pyIntBase (base : ℕ) (letter : Char) (text : List Char) : Option ℤ :=
  let (negative, cs) := splitSign text
  (baseDigits base letter cs).map fun (n : ℕ) => if negative then -(n : ℤ) else n

/-- `str_to_number` after the sign. -/
def magnitudeToNumber (value : List Char) : Option ℤ :=
  match value with
  | '0' :: literalType :: _ =>
    if literalType = 'x' ∨ literalType = 'X' then
      pyIntBase 16 'x' ((stripPy2LongSuffix value).drop 2)
    else if literalType = 'o' ∨ literalType = 'O' then pyIntBase 8 'o' (value.drop 2)
    else if literalType = 'b' ∨ literalType = 'B' then pyIntBase 2 'b' (value.drop 2)
    else pyIntBase 8 'o' value
  | _ => pyInt value

/-- `str_to_number` -/
def strToNumber (value : List Char) : Option ℤ :=
  if value.head? = some '-' then (magnitudeToNumber value.tail).map fun n => -n
  else magnitudeToNumber value

variable (f : FloatFormat)

/-- `FloatNode.get_constant_c_result_code` -/
def getConstantCResultCode (strval : List Char) : Option (List Char) :=
  (pyFloat f strval).map fun
    | .nan => "(Py_HUGE_VAL * 0)".toList
    | .inf false => "Py_HUGE_VAL".toList
    | .inf true => "(-Py_HUGE_VAL)".toList
    | .finite _ _ => strval

/-! ## Constants -/

/-- The type of a constant, in the order of the names. -/
inductive PyType where
  | float
  | int
  | long
  deriving DecidableEq

def PyType.rank : PyType → ℕ
  | .float => 0
  | .int => 1
  | .long => 2

/-- `NumConst` -/
structure NumConst where
  cname : CName
  value : List Char
  pyType : PyType
  valueCode : List Char

/-- The part of `GlobalState` that names and keeps the numeric constants. -/
structure GlobalState where
  constCnamesUsed : OrderedDict CName ℕ
  numConstIndex : OrderedDict (List Char × PyType) NumConst

def GlobalState.empty : GlobalState := ⟨.empty, .empty⟩

/-- `Naming.interned_prefixes` -/
def internedPrefix : PyType → CName
  | .float => "__pyx_float_".toList
  | .int | .long => "__pyx_int_".toList

/-- What a character of a spelling is replaced by in a C name. -/
def replaceSign (c : Char) : List Char :=
  if c = '.' ∨ c = '+' then ['_'] else if c = '-' then ['n', 'e', 'g', '_'] else [c]

/-- The part of a C name after the prefix. -/
def mangle (value : List Char) (pyType : PyType) : List Char :=
  (if pyType = .long then value ++ ['L'] else value).flatMap replaceSign

/-- The name of a constant with a long spelling, with the text of a counter. -/
def largeName (pyType : PyType) (value counter : List Char) : CName :=
  internedPrefix pyType ++ ("large".toList ++ (counter ++ ('_' :: (value.take 18 ++
    ("_xxx_".toList ++ value.drop (value.length - 18))))))

/-- `new_num_const_cname` -/
def newNumConstCname (used : OrderedDict CName ℕ) (value : List Char) (pyType : PyType) :
    Option (CName × OrderedDict CName ℕ) :=
  let value := mangle value pyType
  if value.length > 42 then
    uniqueName (fun n => largeName pyType value (Nat.toDigits 10 n)) used
      (largeName pyType value [])
  else some (internedPrefix pyType ++ value, used)

/-- `new_num_const` -/
def newNumConst (gs : GlobalState) (value : List Char) (pyType : PyType)
    (valueCode : Option (List Char)) : Option (NumConst × GlobalState) :=
  (newNumConstCname gs.constCnamesUsed value pyType).map fun (cname, used) =>
    let c : NumConst := ⟨cname, value, pyType, valueCode.getD value⟩
    (c, ⟨used, gs.numConstIndex.set (value, pyType) c⟩)

/-- What `get_int_const` and `get_float_const` have in common. -/
def getNumConst (gs : GlobalState) (strValue : List Char) (pyType : PyType)
    (valueCode : Option (List Char)) : Option (NumConst × GlobalState) :=
  match gs.numConstIndex.get? (strValue, pyType) with
  | some c => some (c, gs)
  | none => newNumConst gs strValue pyType valueCode

/-- `get_int_const` -/
def getIntConst (gs : GlobalState) (strValue : List Char) (longness : Bool) :
    Option (NumConst × GlobalState) :=
  getNumConst gs strValue (if longness then .long else .int) none

/-- `get_float_const` -/
def getFloatConst (gs : GlobalState) (strValue valueCode : List Char) :
    Option (NumConst × GlobalState) :=
  getNumConst gs strValue .float (some valueCode)

/-! ## Registrations -/

/-- The generation of a node that needs a constant. Constants of other kinds take names
    from the same supply. -/
inductive Registration where
  | int (value : List Char) (longness : Bool)
  | float (value : List Char)
  | other (format : ℕ → CName) (value : CName)

/-- A constant, and what it was registered for. -/
structure Registered where
  value : List Char
  pyType : PyType
  const : NumConst

def register (gs : GlobalState) : Registration → Option (List Registered × GlobalState)
  | .int value longness =>
    (getIntConst gs value longness).map fun (c, gs) =>
      ([⟨value, if longness then .long else .int, c⟩], gs)
  | .float value => do
    let valueCode ← getConstantCResultCode f value
    let (c, gs) ← getFloatConst gs value valueCode
    some ([⟨value, .float, c⟩], gs)
  | .other format value =>
    (uniqueName format gs.constCnamesUsed value).map fun (_, used) =>
      ([], { gs with constCnamesUsed := used })

/-- The registrations of a module. -/
def registerAll (gs : GlobalState) :
    List Registration → Option (List Registered × GlobalState)
  | [] => some ([], gs)
  | r :: rs => do
    let (cs, gs) ← register f gs r
    let (cs', gs) ← registerAll gs rs
    some (cs ++ cs', gs)

/-!
## The table of numeric constants

The constants of a module are the items of an array. Its initialisation reads the floats and
most of the integers from arrays of C numbers, in loops, and the integers that are too large
for these from one C string.

* `generate`: the `#define`s of the names and the code of the initialisation;
* `Output.run`: what the initialisation leaves in the array.

Integers are put into the last array there is, and new arrays of longer integers are
started when one does not fit. The index expression of the loop selects the array.
-/

/-! ## Collecting the constants -/

/-- The order of `consts.sort()`. No two constants have the same spelling and type. -/
def NumConst.key (c : NumConst) : ℕ ×ₗ ℕ ×ₗ List Char ×ₗ List Char :=
  let stripped := c.value.dropWhile (· = '-')
  toLex (c.pyType.rank, toLex (stripped.length, toLex (stripped, c.value)))

def sortedConsts (gs : GlobalState) : List NumConst :=
  (gs.numConstIndex.entries.map Prod.snd).mergeSort fun a b => a.key ≤ b.key

/-- The text of an integer. -/
def intText : ℤ → List Char
  | .ofNat n => Nat.toDigits 10 n
  | .negSucc n => '-' :: Nat.toDigits 10 (n + 1)

/-- `int.bit_length` -/
def bitLength (number : ℤ) : ℕ := number.natAbs.size

/-- A name and the text of an initialiser. -/
abbrev Initialiser := CName × List Char

/-- `int_constants_by_bytesize`, its last list apart, and `int_suffix`. -/
structure Buckets where
  full : List (List Initialiser)
  last : List Initialiser
  suffix : List Char

def Buckets.all (b : Buckets) : List (List Initialiser) := b.full ++ [b.last]

/-- The lists that are appended until the integers of the last one have enough bytes. -/
def Buckets.grow (bits : ℕ) (b : Buckets) : Buckets :=
  if 1 <<< b.full.length < (bits + 8) / 8 then
    Buckets.grow bits ⟨b.full ++ [b.last], [], ['L', 'L'].take b.full.length⟩
  else b
termination_by (bits + 8) / 8 - b.full.length
decreasing_by
  have h : b.full.length < 1 <<< b.full.length := by
    rw [Nat.one_shiftLeft]
    exact Nat.lt_two_pow_self
  rw [List.length_append, List.length_singleton]
  omega

structure Collected where
  floats : List Initialiser
  buckets : Buckets
  intCount : ℕ
  large : List (CName × ℤ)

def Collected.empty : Collected := ⟨[], ⟨[], [], []⟩, 0, []⟩

/-- An integer constant. -/
def Collected.addInt (s : Collected) (cname : CName) (number : ℤ) : Collected :=
  if bitLength number ≤ 63 then
    let b := s.buckets.grow (bitLength number)
    { s with
      buckets := { b with last := b.last ++ [(cname, intText number ++ b.suffix)] }
      intCount := s.intCount + 1 }
  else { s with large := s.large ++ [(cname, number)] }

def collect (s : Collected) (c : NumConst) : Option Collected :=
  if c.pyType = .float then some { s with floats := s.floats ++ [(c.cname, c.valueCode)] }
  else (strToNumber c.value).map (s.addInt c.cname)

def collectAll (consts : List NumConst) : Option Collected := consts.foldlM collect .empty

/-! ## The arrays of integers -/

theorem le_width_int8 : 8 ≤ 8 := le_rfl

theorem le_width_int16 : 8 ≤ 16 := by decide

theorem le_width_int32 : 8 ≤ 32 := by decide

theorem le_width_int64 : 8 ≤ 64 := by decide

/-- The types `int64_t` and `long long`. -/
def int64 : CIntType := ⟨64, true, le_width_int64⟩

/-- `int_types` -/
def intTypes : ℕ → Option CIntType
  | 1 => some ⟨8, true, le_width_int8⟩
  | 2 => some ⟨16, true, le_width_int16⟩
  | 3 => some ⟨32, true, le_width_int32⟩
  | 4 => some int64
  | _ => none

/-- An array, whose name has the size of an item in bytes. -/
structure IntArray where
  size : ℕ
  type : CIntType
  values : List (List Char)

/-- An expression with the index `i`, where `%s` stands for what is not known yet. -/
inductive Access where
  | hole
  | item (size offset : ℕ)
  | cond (bound size offset : ℕ) (otherwise : Access)

/-- `array_access %= …` -/
def Access.fill : Access → Access → Option Access
  | .hole, a => some a
  | .item _ _, _ => none
  | .cond bound size offset otherwise, a => (otherwise.fill a).map (.cond bound size offset)

/-- `define_constants` -/
def defineConstants {α : Type} (constants : List (CName × α)) (startOffset : ℕ) :
    List (CName × ℕ) :=
  constants.zipIdx.map fun (c, i) => (c.1, startOffset + i)

structure IntBlock where
  arrays : List IntArray
  defines : List (CName × ℕ)
  access : Access
  seen : ℕ

/-- The loop over the lists of integers. -/
def intArrays (total constantOffset : ℕ) :
    ℕ → List (List Initialiser) → IntBlock → Option IntBlock
  | _, [], b => some b
  | byteSize, constants :: rest, b =>
    if constants = [] then intArrays total constantOffset (byteSize + 1) rest b
    else do
      let type ← intTypes byteSize
      let size := 1 <<< (byteSize - 1)
      let seen := b.seen + constants.length
      let access ← b.access.fill
        (if byteSize = total then .item size b.seen else .cond seen size b.seen .hole)
      intArrays total constantOffset (byteSize + 1) rest
        ⟨b.arrays ++ [⟨size, type, constants.map Prod.snd⟩],
          b.defines ++ defineConstants constants (constantOffset + b.seen), access, seen⟩

/-! ## The text of the large integers -/

/-- The digits of a positive number, the last one first. -/
def base32Loop (number : ℕ) : List Char :=
  if number = 0 then []
  else "0123456789abcdefghijklmnopqrstuv".toList.getD (number &&& 31) '0' ::
    base32Loop (number >>> 5)
termination_by number
decreasing_by
  rw [Nat.shiftRight_eq_div_pow]
  omega

/-- `to_base32` -/
def toBase32 (number : ℤ) : List Char :=
  let digits := base32Loop number.natAbs
  if digits = [] then ['0']
  else ((if number < 0 then digits ++ ['-'] else digits)).reverse

/-- `s[i:j]` -/
def slice (s : List Char) (i j : ℕ) : List Char := (s.drop i).take (j - i)

/-- The `limit` of `split_string_literal`. -/
def splitLimit : ℕ := 2000

/-- The loop that leaves no backslash before the end of a chunk. -/
def skipBackslashes (s : List Char) (start : ℕ) : ℕ → ℕ
  | 0 => 0
  | stop + 1 =>
    if s[stop]? = some '\\' then
      if stop = start then start + splitLimit - splitLimit % 2 - 4
      else skipBackslashes s start stop
    else stop + 1

/-- The end of the chunk that starts at a position. -/
def chunkEnd (s : List Char) (start : ℕ) : ℕ :=
  let stop := start + splitLimit
  let window := slice s (stop - 4) stop
  if stop - 4 < s.length ∧ '\\' ∈ window then
    skipBackslashes s start (stop - (4 - window.idxOf '\\'))
  else stop

def chunks (s : List Char) : ℕ → ℕ → Option (List (List Char))
  | 0, _ => none
  | fuel + 1, start =>
    if start < s.length then
      (chunks s fuel (chunkEnd s start)).map fun cs => slice s start (chunkEnd s start) :: cs
    else some []

/-- `split_string_literal` -/
def splitStringLiteral (s : List Char) : Option (List Char) :=
  if s.length < splitLimit then some s
  else (chunks s (s.length + 1) 0).map (List.intercalate ['"', '"'])

/-- The text of the C string that `c_constant` starts at. -/
def largeText (numbers : List ℤ) : Option (List Char) :=
  (splitStringLiteral (List.intercalate "\\000".toList (numbers.map toBase32))).map fun s =>
    '"' :: (s ++ ['"'])

/-! ## The generated code -/

/-- The code that creates the integers of the arrays. -/
structure IntInit where
  offset : ℕ
  count : ℕ
  arrays : List IntArray
  access : Access
  /-- `PyLong_FromLong` is called, not `PyLong_FromLongLong`. -/
  fromLong : Bool

/-- The code that creates the large integers. -/
structure LargeInit where
  offset : ℕ
  count : ℕ
  text : List Char

structure Output where
  constantCount : ℕ
  defines : List (CName × ℕ)
  floats : List (List Char)
  ints : Option IntInit
  large : Option LargeInit

def generateInts (s : Collected) : Option (List (CName × ℕ) × Option IntInit) :=
  if s.intCount = 0 then some ([], none)
  else (intArrays s.buckets.all.length s.floats.length 1 s.buckets.all
      ⟨[], [], .hole, 0⟩).map fun b =>
    (b.defines, some ⟨s.floats.length, s.intCount, b.arrays, b.access,
      decide (s.buckets.all.length ≤ 3)⟩)

def generateLarge (s : Collected) : Option (List (CName × ℕ) × Option LargeInit) :=
  if s.large = [] then some ([], none)
  else (largeText (s.large.map Prod.snd)).map fun text =>
    (defineConstants s.large (s.floats.length + s.intCount),
      some ⟨s.floats.length + s.intCount, s.large.length, text⟩)

/-- `generate_num_constants` -/
def generate (gs : GlobalState) : Option Output := do
  let consts := sortedConsts gs
  let s ← collectAll consts
  let (intDefines, ints) ← generateInts s
  let (largeDefines, large) ← generateLarge s
  some ⟨consts.length, defineConstants s.floats 0 ++ intDefines ++ largeDefines,
    s.floats.map Prod.snd, ints, large⟩

/-! ## The initialisation -/

/-- The C type `long` of a platform. -/
structure Platform where
  long : CIntType
  long_signed : long.signed = true
  le_long : 32 ≤ long.width

variable {f : FloatFormat}

inductive PyNumber (f : FloatFormat) where
  | int (value : ℤ)
  | float (value : FloatValue f)

/-- `numbertab`; an item is missing while it is `NULL`. -/
abbrev Table (f : FloatFormat) := List (Option (PyNumber f))

/-- An assignment to an item of the array. -/
def store (table : Table f) (i : ℕ) (number : PyNumber f) : Option (Table f) :=
  if i < table.length then some (table.set i (some number)) else none

/-- The value of an initialiser of a `double`. -/
def cDouble (f : FloatFormat) (code : List Char) : Option (FloatValue f) :=
  if code = "Py_HUGE_VAL".toList then some (.inf false)
  else if code = "(-Py_HUGE_VAL)".toList then some (.inf true)
  else if code = "(Py_HUGE_VAL * 0)".toList then some .nan
  else cFloating f code

def runFloats (codes : List (List Char)) (table : Table f) : Option (Table f) :=
  (List.range codes.length).foldlM (fun table i => do
    let code ← codes[i]?
    let x ← cDouble f code
    store table i (.float x)) table

/-- The item of an array, after the conversion to its type. -/
def readArray (arrays : List IntArray) (size i : ℕ) : Option ℤ := do
  let array ← arrays.find? fun array => array.size = size
  let value ← array.values[i]?
  let number ← cInteger value
  some (array.type.convert number)

/-- The item at `i - offset`. -/
def readItem (arrays : List IntArray) (size offset i : ℕ) : Option ℤ :=
  if offset ≤ i then readArray arrays size (i - offset) else none

def Access.eval (arrays : List IntArray) (i : ℕ) : Access → Option ℤ
  | .hole => none
  | .item size offset => readItem arrays size offset i
  | .cond bound size offset otherwise =>
    if i < bound then readItem arrays size offset i else otherwise.eval arrays i

/-- The integer that is made of an argument of the type `long` or `long long`. -/
def IntInit.create (platform : Platform) (init : IntInit) (number : ℤ) : ℤ :=
  if init.fromLong then platform.long.convert number
  else int64.convert number

def IntInit.run (platform : Platform) (init : IntInit) (table : Table f) : Option (Table f) :=
  (List.range init.count).foldlM (fun table i => do
    let number ← init.access.eval init.arrays i
    store table (init.offset + i) (.int (init.create platform number))) table

def nul : Char := Char.ofNat 0

/-- `PyLong_FromString` for the base 32: the number of the text before the next NUL, and the
    text from there on. -/
def pyLongFromString (text : List Char) : Option (ℤ × List Char) :=
  let (number, rest) := text.span (· ≠ nul)
  let (negative, cs) := splitSign number
  if rest = [] then none
  else (digits 32 cs).map fun (n : ℕ) => (if negative then -(n : ℤ) else n, rest)

def LargeInit.run (init : LargeInit) (table : Table f) : Option (Table f) := do
  let s ← cString init.text
  let (table, _) ← (List.range init.count).foldlM (fun ((table : Table f), cConstant) i => do
    let (number, endPos) ← pyLongFromString cConstant
    let table ← store table (init.offset + i) (.int number)
    some (table, endPos.tail)) (table, s ++ [nul])
  some table

/-- The array after the initialisation. -/
def Output.run (platform : Platform) (out : Output) : Option (Table f) := do
  let table ← runFloats out.floats (List.replicate out.constantCount none)
  let table ← (out.ints.elim (some table) fun init => init.run platform table)
  (out.large.elim (some table) fun init => init.run table)

end AHPy.NumberTable
