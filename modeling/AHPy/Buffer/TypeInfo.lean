import Mathlib

/-!
# Types of buffer items

The run-time type information of a buffer's dtype (`__Pyx_TypeInfo`), the characters of format
strings, and their sizes, alignments and groups.

* `TypeInfo`, `Fields`: types, and the fields of a struct from one on;
* `TypeChar`: the characters that stand for a type;
* `Context`: what the check of a format string keeps (`__Pyx_BufFmt_Context`).
-/

namespace AHPy.Buffer

/-- The groups of types that are no structs. -/
inductive Group
  | real
  | complex
  | int
  | unsigned
  | object
  | char
  deriving DecidableEq

/-! ## Type information -/

mutual

/-- A type: of no fields, a complex number that is declared as a struct, or a struct.
    `arraysize` has the extents of an array of the type. -/
inductive TypeInfo
  | simple (size : ℕ+) (typegroup : Group) (arraysize : List ℕ)
  | complexStruct (size : ℕ+) (arraysize : List ℕ) (fields : Fields)
  | struct (size : ℕ+) (arraysize : List ℕ) (fields : Fields)

/-- The fields of a struct, from one of them to the last: their offsets and types. -/
inductive Fields
  | last (offset : ℕ) (type : TypeInfo)
  | cons (offset : ℕ) (type : TypeInfo) (rest : Fields)

end

namespace TypeInfo

def size : TypeInfo → ℕ
  | simple size _ _ => size
  | complexStruct size _ _ => size
  | struct size _ _ => size

def arraysize : TypeInfo → List ℕ
  | simple _ _ arraysize => arraysize
  | complexStruct _ arraysize _ => arraysize
  | struct _ arraysize _ => arraysize

def ndim (type : TypeInfo) : ℕ := type.arraysize.length

/-- The group, none for structs. -/
def typegroup : TypeInfo → Option Group
  | simple _ typegroup _ => some typegroup
  | complexStruct _ _ _ => some .complex
  | struct _ _ _ => none

theorem size_pos (type : TypeInfo) : 0 < type.size := by
  cases type with
  | simple size typegroup arraysize => exact size.pos
  | complexStruct size arraysize fields => exact size.pos
  | struct size arraysize fields => exact size.pos

end TypeInfo

namespace Fields

/-- The offset of the first of the fields. -/
def offset : Fields → ℕ
  | last offset _ => offset
  | cons offset _ _ => offset

/-- The type of the first of the fields. -/
def type : Fields → TypeInfo
  | last _ type => type
  | cons _ type _ => type

end Fields

/-! ## Characters -/

/-- The characters that stand for a type. -/
inductive TypeChar
  | bool
  | c
  | b
  | B
  | h
  | H
  | i
  | I
  | l
  | L
  | q
  | Q
  | f
  | d
  | g
  | O
  | s
  | p
  deriving DecidableEq

namespace TypeChar

def ofChar : Char → Option TypeChar
  | '?' => some bool
  | 'c' => some c
  | 'b' => some b
  | 'B' => some B
  | 'h' => some h
  | 'H' => some H
  | 'i' => some i
  | 'I' => some I
  | 'l' => some l
  | 'L' => some L
  | 'q' => some q
  | 'Q' => some Q
  | 'f' => some f
  | 'd' => some d
  | 'g' => some g
  | 'O' => some O
  | 's' => some s
  | 'p' => some p
  | _ => none

/-- `__Pyx_BufFmt_TypeCharToGroup` -/
def group (isComplex : Bool) : TypeChar → Group
  | c => .char
  | b | h | i | l | q | s | p => .int
  | bool | B | H | I | L | Q => .unsigned
  | f | d | g => if isComplex then .complex else .real
  | O => .object

end TypeChar

/-- The types of C whose sizes and alignments depend on the platform. -/
inductive CType
  | short
  | int
  | long
  | longLong
  | float
  | double
  | longDouble
  | pointer

/-- What the C compiler chooses. -/
structure Abi where
  sizeof : CType → ℕ
  /-- The offset of a member after a character. -/
  alignment : CType → ℕ
  /-- The size of a member with a character after it, less its own. -/
  padding : CType → ℕ
  alignment_pos : ∀ t, 0 < alignment t
  littleEndian : Bool
  /-- The bits of `size_t`. -/
  sizeBits : ℕ

/-- The sizes of types on a machine of 64 bits. -/
def size64 : CType → ℕ
  | .short => 2
  | .int | .float => 4
  | .long | .longLong | .double | .pointer => 8
  | .longDouble => 16

theorem size64_pos (t : CType) : 0 < size64 t := by cases t <;> decide

/-- A machine of 64 bits. -/
def abi64 : Abi where
  sizeof := size64
  alignment := size64
  padding := size64
  alignment_pos := size64_pos
  littleEndian := true
  sizeBits := 64

namespace Abi

variable (a : Abi)

/-- A value of type `size_t`. -/
def sizeT (n : ℕ) : ℕ := n % 2 ^ a.sizeBits

/-- `__Pyx_BufFmt_TypeCharToStandardSize`. There is none for `g`. -/
def standardSize (isComplex : Bool) : TypeChar → ℕ
  | .bool | .c | .b | .B | .s | .p => 1
  | .h | .H => 2
  | .i | .I | .l | .L => 4
  | .q | .Q => 8
  | .f => if isComplex then 8 else 4
  | .d => if isComplex then 16 else 8
  | .g => 0
  | .O => a.sizeof .pointer

/-- `__Pyx_BufFmt_TypeCharToNativeSize` -/
def nativeSize (isComplex : Bool) : TypeChar → ℕ
  | .bool | .c | .b | .B | .s | .p => 1
  | .h | .H => a.sizeof .short
  | .i | .I => a.sizeof .int
  | .l | .L => a.sizeof .long
  | .q | .Q => a.sizeof .longLong
  | .f => a.sizeof .float * if isComplex then 2 else 1
  | .d => a.sizeof .double * if isComplex then 2 else 1
  | .g => a.sizeof .longDouble * if isComplex then 2 else 1
  | .O => a.sizeof .pointer

/-- The type of C that gives the alignment of a character, none for single bytes. -/
def alignedAs : TypeChar → Option CType
  | .bool | .c | .b | .B | .s | .p => none
  | .h | .H => some .short
  | .i | .I => some .int
  | .l | .L => some .long
  | .q | .Q => some .longLong
  | .f => some .float
  | .d => some .double
  | .g => some .longDouble
  | .O => some .pointer

/-- `__Pyx_BufFmt_TypeCharToAlignment` -/
def charAlignment (t : TypeChar) : ℕ := (alignedAs t).elim 1 a.alignment

/-- `__Pyx_BufFmt_TypeCharToPadding` -/
def charPadding (t : TypeChar) : ℕ := (alignedAs t).elim 1 a.padding

end Abi

/-! ## The context of the check -/

/-- The ways of packing. -/
inductive Packmode
  /-- `@` -/
  | native
  /-- `^` -/
  | unaligned
  /-- `=` -/
  | standard
  deriving DecidableEq

/-- An element of the stack: a field, with those after it, and the offset of its struct. -/
structure Frame where
  fields : Fields
  parentOffset : ℕ

/-- `__Pyx_BufFmt_Context`. The last element of the stack is the one of the dtype itself. The
    stack is empty when the dtype is exhausted. -/
structure Context where
  stack : List Frame
  fmtOffset : ℕ
  newCount : ℕ
  encCount : ℕ
  structAlignment : ℕ
  isComplex : Bool
  encType : Option TypeChar
  newPackmode : Packmode
  encPackmode : Packmode
  isValidArray : Bool

mutual

/-- The first fields of the structs that a type begins with. -/
def TypeInfo.descend : TypeInfo → List Frame → List Frame
  | .simple _ _ _, stack => stack
  | .complexStruct _ _ _, stack => stack
  | .struct _ _ fields, stack => fields.descend (⟨fields, 0⟩ :: stack)

def Fields.descend : Fields → List Frame → List Frame
  | .last _ type, stack => type.descend stack
  | .cons _ type _, stack => type.descend stack

end

/-- `__Pyx_BufFmt_Init` -/
def Context.init (type : TypeInfo) : Context where
  stack := type.descend [⟨.last 0 type, 0⟩]
  fmtOffset := 0
  newCount := 1
  encCount := 0
  structAlignment := 0
  isComplex := false
  encType := none
  newPackmode := .native
  encPackmode := .native
  isValidArray := false

/-- The texts of `ValueError`, with what they tell. -/
inductive FormatError
  /-- "Buffer dtype mismatch, expected ... but got ...": the type of the field, none at the end, and
      of its struct. -/
  | mismatch (expected parent : Option TypeInfo) (got : Option TypeChar) (isComplex : Bool)
  /-- "Expected a dimension of size ..., got ..." -/
  | dimension (expected got : ℕ)
  /-- "Expected ... dimensions, got ..." -/
  | dimensions (expected got : ℕ)
  /-- "Buffer dtype mismatch; next field is at offset ... but ... expected" -/
  | fieldOffset (next expected : ℕ)
  /-- "Unexpected format string character: ..." -/
  | unexpectedChar (c : Char)
  /-- "Does not understand character buffer dtype format string (...)" -/
  | notUnderstood (c : Option Char)
  /-- "Cannot handle repeated arrays in format string" -/
  | repeatedArray
  /-- "Expected a comma in format string, got ..." -/
  | comma (got : Option Char)
  /-- "Unexpected end of format string, expected ')'" -/
  | openArray
  /-- "Little-endian buffer not supported on big-endian compiler" -/
  | littleEndian
  /-- "Big-endian buffer not supported on little-endian compiler" -/
  | bigEndian
  /-- "Buffer acquisition: Expected an opening brace after 'T'" -/
  | openingBrace

/-- `__Pyx_BufFmt_RaiseExpected` -/
def Context.raiseExpected (ctx : Context) : FormatError :=
  match ctx.stack with
  | [] => .mismatch none none ctx.encType ctx.isComplex
  | [root] => .mismatch (some root.fields.type) none ctx.encType ctx.isComplex
  | head :: parent :: _ =>
    .mismatch (some head.fields.type) (some parent.fields.type) ctx.encType ctx.isComplex

end AHPy.Buffer
