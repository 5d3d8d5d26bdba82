import AHPy.Lib.CInteger
import AHPy.Lib.TextBuffers

/-!
# Formatting C integers

`CIntToPyUnicode`: the text of a C integer in an f-string, for the format characters `d`, `o`,
`x`, `X` and `c`, a width, and a padding character.

The texts are lists of code points. `none` stands for a write outside of a buffer.

* `cIntToPyUnicode`: the generated conversion;
* `pyFormat`: the text that Python formats.
-/

namespace AHPy.Formatting

/-- The exceptions. The error of a decoder is a `ValueError`, too. -/
inductive Raised
  | overflowError
  | valueError

/-- A text, or an exception. -/
abbrev Result := Except Raised (List ℕ)

/-- An integer type of so many bytes. -/
structure IntType where
  size : ℕ
  signed : Bool
  size_pos : 0 < size

/-- The type with the bits of its bytes. -/
def IntType.type (t : IntType) : CIntType :=
  ⟨8 * t.size, t.signed, Nat.le_mul_of_pos_right 8 t.size_pos⟩

/-- `is_unsigned` -/
def IntType.isUnsigned (t : IntType) : Bool := t.type.convert (-1) > 0

/-- The padding characters that the compiler accepts. -/
inductive Padding
  | blank
  | zero
  deriving DecidableEq

/-- The character. -/
def Padding.char : Padding → ℕ
  | blank => 32
  | zero => 48

/-- The formats of numbers. -/
inductive NumberFormat
  | d
  | o
  | x
  | X

/-- The format characters that the compiler accepts. -/
inductive Format
  | number (format : NumberFormat)
  | c

/-- The sign. -/
def minus : ℕ := 45

/-! ## Building texts -/

/-- `PyUnicode_FromOrdinal` -/
def fromOrdinal (ordinal : ℤ) : Result :=
  if 0 ≤ ordinal ∧ ordinal ≤ 0x10FFFF then .ok [ordinal.toNat] else .error .valueError

/-- `PyUnicode_DecodeASCII` -/
def decodeASCII (bytes : List ℕ) : Result :=
  if ∀ b ∈ bytes, b ≤ 127 then .ok bytes else .error .valueError

/-- `PyUnicode_DecodeLatin1` -/
def decodeLatin1 (bytes : List ℕ) : Result := .ok bytes

/-- `PyUnicode_DecodeUTF8` -/
def decodeUTF8 (bytes : List ℕ) : Result := (decodeUtf8 bytes).elim (.error .valueError) .ok

/-- `(char) value` -/
def toChar (value : ℤ) : ℕ := CIntType.unsignedChar.bits value

/-- Writes to the characters of a new text. -/
def buildWithInternals (ulength : ℕ) (chars : List ℕ) (prependSign : Bool) (padding : Padding) :
    Option (List ℕ) :=
  let uoffset : ℤ := ulength - chars.length
  let udata := List.replicate ulength 0
  (if 0 < uoffset then
    let sign := if prependSign then [minus] else []
    writeFrom udata 0 (sign ++ List.replicate (uoffset.toNat - sign.length) padding.char)
  else some udata).bind fun udata => writeFrom udata uoffset chars

/-- Texts put together. -/
def buildWithConcat (ulength : ℕ) (chars : List ℕ) (prependSign : Bool) (padding : Padding) :
    Result :=
  let uoffset : ℤ := ulength - chars.length
  let signLength : ℕ := if prependSign then 1 else 0
  let padding :=
    if 0 < uoffset ∧ signLength < uoffset then
      List.replicate (uoffset - signLength).toNat padding.char
    else []
  let sign := if 0 < uoffset ∧ prependSign then [minus] else []
  (decodeASCII chars).map fun uval => sign ++ (padding ++ uval)

/-- `__Pyx_PyUnicode_BuildFromAscii` -/
def buildFromAscii (internals : Bool) (ulength : ℕ) (chars : List ℕ) (prependSign : Bool)
    (padding : Padding) : Option Result :=
  if internals then (buildWithInternals ulength chars prependSign padding).map .ok
  else some (buildWithConcat ulength chars prependSign padding)

/-- The bytes of a character beyond Latin-1. -/
def encodeOrdinal (value : ℕ) : List ℕ :=
  if value < 0x800 then [0xC0 ||| (value >>> 6 &&& 0x1F), 0x80 ||| (value &&& 0x3F)]
  else if value < 0x10000 then
    [0xE0 ||| (value >>> 12 &&& 0x0F), 0x80 ||| (value >>> 6 &&& 0x3F), 0x80 ||| (value &&& 0x3F)]
  else
    [0xF0 ||| (value >>> 18 &&& 0x07), 0x80 ||| (value >>> 12 &&& 0x3F),
      0x80 ||| (value >>> 6 &&& 0x3F), 0x80 ||| (value &&& 0x3F)]

/-- `__Pyx_PyUnicode_FromOrdinal_Padded` -/
def fromOrdinalPadded (internals : Bool) (value : ℤ) (ulength : ℕ) (padding : Padding) :
    Option Result :=
  let paddingLength := ulength - 1
  let paddingText := List.replicate paddingLength padding.char
  if paddingLength ≤ 250 ∧ (value < 0xD800 ∨ value > 0xDFFF) then
    if value ≤ 255 then
      ((writeFrom (List.replicate 256 0) 0 paddingText).bind fun chars =>
        write chars (ulength - 1) (toChar value)).map fun chars => decodeLatin1 (chars.take ulength)
    else
      ((BackBuffer.mk 256 []).prepend (encodeOrdinal value.toNat)).bind fun chars =>
        (chars.prepend paddingText).map fun chars => decodeUTF8 chars.chars
  else if value ≤ 127 ∧ internals then
    buildFromAscii internals ulength [toChar value] false padding
  else some ((fromOrdinal value).map (paddingText ++ ·))

/-! ## Characters -/

/-- `__Pyx_CheckUnicodeValue` -/
def checkUnicodeValue (value : ℤ) : Bool := value ≤ 1114111

/-- `value & ~ ({{TYPE}}) 0x01fffff` -/
def highBits (t : IntType) (value : ℤ) : ℕ := t.type.bits value &&& t.type.bits (-0x1FFFFF - 1)

/-- `__Pyx_uchar_{{TO_PY_FUNCTION}}` -/
def ucharToPyUnicode (internals : Bool) (t : IntType) (value : ℤ) (width : ℕ) (padding : Padding) :
    Option Result :=
  if ¬(t.isUnsigned ∨ value = 0 ∨ value > 0) ∨
      ¬(t.size ≤ 2 ∨ highBits t value ≠ 0 ∨ checkUnicodeValue (CIntType.int.convert value)) then
    some (.error .overflowError)
  else if width ≤ 1 then some (fromOrdinal (CIntType.int.convert value))
  else fromOrdinalPadded internals (CIntType.int.convert value) width padding

/-! ## Digits -/

/-- The pairs of digits of the numbers below the square of a base. -/
def digitPairs (base : ℕ) : List ℕ :=
  (List.range (base * base)).flatMap fun n => [48 + n / base, 48 + n % base]

/-- `DIGIT_PAIRS_10` -/
def digitPairs10 : List ℕ := digitPairs 10

/-- `DIGIT_PAIRS_8` -/
def digitPairs8 : List ℕ := digitPairs 8

/-- `DIGITS_HEX` -/
def digitsHex : List ℕ :=
  [48, 49, 50, 51, 52, 53, 54, 55, 56, 57, 97, 98, 99, 100, 101, 102,
    48, 49, 50, 51, 52, 53, 54, 55, 56, 57, 65, 66, 67, 68, 69, 70]

/-- What the loop over the digits changes. -/
structure DigitState where
  remaining : ℤ
  digits : BackBuffer
  lastOneOff : Bool

/-- Two digits at a time. -/
def pairStep (t : IntType) (base : ℕ) (pairs : List ℕ) (s : DigitState) : Option DigitState :=
  let digitPos := (CIntType.int.convert (s.remaining.tmod (base * base : ℕ))).natAbs
  (s.digits.prepend ((pairs.drop (digitPos * 2)).take 2)).map fun digits =>
    ⟨t.type.convert (s.remaining.tdiv (base * base : ℕ)), digits, digitPos < base⟩

/-- One digit at a time. -/
def hexStep (t : IntType) (hexDigits : List ℕ) (s : DigitState) : Option DigitState :=
  let digit := (CIntType.int.convert (s.remaining.tmod 16)).natAbs
  (s.digits.prepend ((hexDigits.drop digit).take 1)).map fun digits =>
    ⟨t.type.convert (s.remaining.tdiv 16), digits, s.lastOneOff⟩

/-- The body of the loop. -/
def digitStep (t : IntType) : NumberFormat → DigitState → Option DigitState
  | .o => pairStep t 8 digitPairs8
  | .d => pairStep t 10 digitPairs10
  | .x => hexStep t digitsHex
  | .X => hexStep t (digitsHex.drop 16)

/-- The loop, for so many steps. -/
def digitLoop (t : IntType) (format : NumberFormat) : ℕ → DigitState → Option DigitState
  | 0, _ => none
  | n + 1, s => (digitStep t format s).bind fun s =>
      if s.remaining ≠ 0 then digitLoop t format n s else some s

/-- The sign and the digits. -/
def signDigits (internals : Bool) (t : IntType) (value : ℤ) (width : ℕ) (padding : Padding)
    (digits : BackBuffer) : Option Result :=
  let finish (chars : List ℕ) (ulength : ℕ) (prependSign : Bool) : Option Result :=
    let ulength := if width > ulength then width else ulength
    if ulength = 1 then some (fromOrdinal (chars.headD 0))
    else buildFromAscii internals ulength chars prependSign padding
  let length := digits.chars.length
  if ¬t.isUnsigned ∧ value ≤ t.type.convert (-1) then
    if padding = .blank ∨ width ≤ length + 1 then
      (digits.prepend [minus]).bind fun digits => finish digits.chars (length + 1) false
    else finish digits.chars (length + 1) true
  else finish digits.chars length false

/-- `__Pyx__{{TO_PY_FUNCTION}}`. A step of the loop takes at least one character of the buffer. -/
def numberToPyUnicode (internals : Bool) (t : IntType) (value : ℤ) (width : ℕ) (padding : Padding)
    (format : NumberFormat) : Option Result :=
  let size := t.size * 3 + 2
  (digitLoop t format (size + 1) ⟨value, ⟨size, []⟩, false⟩).bind fun s =>
    let digits : BackBuffer :=
      if s.lastOneOff then ⟨s.digits.pos + 1, s.digits.chars.drop 1⟩ else s.digits
    signDigits internals t value width padding digits

/-- `{{TO_PY_FUNCTION}}` -/
def cIntToPyUnicode (internals : Bool) (t : IntType) (value : ℤ) (width : ℕ) (padding : Padding) :
    Format → Option Result
  | .c => ucharToPyUnicode internals t value width padding
  | .number format => numberToPyUnicode internals t value width padding format

/-! ## Python -/

/-- The base of the digits. -/
def NumberFormat.base : NumberFormat → ℕ
  | d => 10
  | o => 8
  | x => 16
  | X => 16

/-- The character of a digit. -/
def NumberFormat.digit : NumberFormat → ℕ → ℕ
  | X, n => if n < 10 then 48 + n else 55 + n
  | _, n => if n < 10 then 48 + n else 87 + n

/-- The digits of a number. -/
def NumberFormat.digits (format : NumberFormat) (n : ℕ) : List ℕ :=
  if n = 0 then [format.digit 0] else ((Nat.digits format.base n).map format.digit).reverse

/-- `format(value, spec)`, for the padding, the width and the format character of the spec.
    Zeros stand after the sign. -/
def pyFormat (value : ℤ) (width : ℕ) (padding : Padding) : Format → Result
  | .c =>
    if 0 ≤ value ∧ value ≤ 0x10FFFF then
      .ok (List.replicate (width - 1) padding.char ++ [value.toNat])
    else .error .overflowError
  | .number format =>
    let sign := if value < 0 then [minus] else []
    let digits := format.digits value.natAbs
    let fill := List.replicate (width - (sign.length + digits.length)) padding.char
    .ok (if padding = .zero then sign ++ fill ++ digits else fill ++ sign ++ digits)

/-- The generated code returns the text of Python, or raises an exception where Python does. -/
def Agrees (generated : Option Result) (python : Result) : Prop :=
  generated = some python ∨
    (∃ e, generated = some (.error e)) ∧ ∃ e, python = .error e

end AHPy.Formatting
