import AHPy.Lzss.Compress

/-!
# The string constants of a module

The registration of text and bytes constants in `GlobalState` (`Code.py`): a constant is
found by its bytes (`StringConst`), and has one `PyStringConst` for each kind, interned flag
and encoding. Names of constants are lists of characters.

* `uniqueConstCname`: a name suffix that is not in use yet;
* `StringConst.getPyStringConst`: the name of a constant;
* `registerAll`: the registrations of a module, in order.
-/

namespace AHPy.StringTable

/-! ## Texts -/

abbrev Bytes := List UInt8

abbrev CName := List Char

/-- The name of an encoding. Names are found by their letters and digits. -/
structure Encoding where
  name : List Char
  hasAlphanum : ∃ c ∈ name, c.isAlphanum = true

/-- What the compiler asks of Python. -/
structure Python where
  /-- `\w` -/
  isWord : Char → Bool
  encode : Encoding → String → Option Bytes
  decode : List Char → Bytes → Option String

/-- `text.encode('utf-8')` -/
def encodeUTF8 (s : String) : Bytes := s.toUTF8.data.toList

/-- `text.decode('utf-8')`, and `PyUnicode_DecodeUTF8` -/
def decodeUTF8 (b : Bytes) : Option String := String.fromUTF8? ⟨b.toArray⟩

/-- `EncodedString` and `BytesLiteral`. A string with an encoding is one that it encodes. -/
inductive Text (py : Python) where
  | unicode (value : String)
  | encoded (value : String) (encoding : Encoding) (bytes : Bytes)
      (h : py.encode encoding value = some bytes)
  | bytes (value : Bytes) (encoding : Encoding)

variable {py : Python}

namespace Text

/-- `utf8encode` and `byteencode` -/
def byteString : Text py → Bytes
  | .unicode value => encodeUTF8 value
  | .encoded _ _ b _ => b
  | .bytes value _ => value

def encoding : Text py → Option Encoding
  | .unicode _ => none
  | .encoded _ encoding _ _ => some encoding
  | .bytes _ encoding => some encoding

/-- The text, as a string. -/
def value (encoding : Option (List Char)) : Text py → Option String
  | .unicode value => some value
  | .encoded value _ _ _ => some value
  | .bytes value _ => encoding.elim (decodeUTF8 value) fun e => py.decode e value

end Text

/-! ## Constants -/

/-- `PyStringConst` -/
structure PyStringConst where
  cname : CName
  encoding : Option (List Char)
  intern : Bool
  isUnicode : Bool

/-- The keys of `StringConst.py_strings`. -/
structure Key where
  intern : Bool
  isUnicode : Bool
  encodingKey : Option (List Char)
deriving DecidableEq

/-- `StringConst` -/
structure StringConst (py : Python) where
  cname : CName
  text : Text py
  /-- the bytes of `escaped_value` -/
  byteString : Bytes
  pyStrings : OrderedDict Key PyStringConst
  cUsed : Bool

/-- `"__pyx_k_"` -/
def constPrefix : CName := ['_', '_', 'p', 'y', 'x', '_', 'k', '_']

/-- `"__pyx_kp_"` -/
def pyConstPrefix : CName := ['_', '_', 'p', 'y', 'x', '_', 'k', 'p', '_']

/-- `interned_prefixes['str']`: `"__pyx_n_"` -/
def internedPrefix : CName := ['_', '_', 'p', 'y', 'x', '_', 'n', '_']

/-- The rest of a name that starts with `const_prefix`. -/
def StringConst.suffix (c : StringConst py) : CName := c.cname.drop constPrefix.length

/-! ### Kinds -/

/-- The encodings without a key: `'utf8'`, `'utf-8'`, `'ascii'`, `'usascii'`, `'us-ascii'`. -/
def plainEncodings : List (List Char) :=
  [['u', 't', 'f', '8'],
    ['u', 't', 'f', '-', '8'],
    ['a', 's', 'c', 'i', 'i'],
    ['u', 's', 'a', 's', 'c', 'i', 'i'],
    ['u', 's', '-', 'a', 's', 'c', 'i', 'i']]

def Encoding.lower (e : Encoding) : List Char := e.name.map Char.toLower

/-- `''.join(find_alphanums(encoding))` -/
def findAlphanums (s : List Char) : List Char := s.filter Char.isAlphanum

/-- Whether a constant is a text, its encoding and its encoding key. -/
def kindOf (encoding : Option Encoding) (identifier : Option Bool) :
    Bool × Option (List Char) × Option (List Char) :=
  match encoding with
  | none => (true, none, none)
  | some e =>
    if identifier = some true then (true, none, none)
    else if e.lower ∈ plainEncodings then (false, none, none)
    else (false, some e.lower, some (findAlphanums e.lower))

/-- `(?![0-9])\w+$`, which may end before a last newline -/
def possibleIdentifier (isWord : Char → Bool) (s : List Char) : Bool :=
  let body := if s.getLast? = some '\n' then s.dropLast else s
  !body.isEmpty && body.all isWord && !(s.head?.elim false Char.isDigit)

/-- `\w` for bytes -/
def isAsciiWord (c : Char) : Bool := c.isAlphanum || c = '_'

/-- Whether a constant is interned. -/
def internOf (text : Text py) (identifier : Option Bool) : Bool :=
  match identifier with
  | some b => b
  | none =>
    match text with
    | .unicode value => possibleIdentifier py.isWord value.toList
    | .encoded value _ _ _ => possibleIdentifier py.isWord value.toList
    | .bytes value _ => possibleIdentifier isAsciiWord (value.map fun b => Char.ofNat b.toNat)

/-- The name of a constant, from the suffix of its bytes. -/
def pyStringCname (key : Key) (suffix : CName) : CName :=
  (if key.intern then internedPrefix else pyConstPrefix) ++
    (if key.isUnicode then ['u'] else ['b']) ++
    (key.encodingKey.elim [] fun e => '_' :: e) ++ '_' :: suffix

/-- `StringConst.get_py_string_const` -/
def StringConst.getPyStringConst (c : StringConst py) (encoding : Option Encoding)
    (identifier : Option Bool) : PyStringConst × StringConst py :=
  let kind := kindOf encoding identifier
  let intern := internOf c.text identifier
  let key : Key := ⟨intern, kind.1, kind.2.2⟩
  match c.pyStrings.get? key with
  | some pyString => (pyString, c)
  | none =>
    let pyString : PyStringConst := ⟨pyStringCname key c.suffix, kind.2.1, intern, kind.1⟩
    (pyString, { c with pyStrings := c.pyStrings.set key pyString })

/-! ## Names -/

/-- `'[^a-zA-Z0-9_]+'` is replaced by `'_'`. -/
def replaceIdentifier (inRun : Bool) : List Char → List Char
  | [] => []
  | c :: cs =>
    if isAsciiWord c then c :: replaceIdentifier false cs
    else if inRun then replaceIdentifier true cs
    else '_' :: replaceIdentifier true cs

/-- `value.strip('_')` -/
def strip (s : List Char) : List Char :=
  ((s.dropWhile (· = '_')).reverse.dropWhile (· = '_')).reverse

/-- `bytes_value.decode('ASCII', 'ignore')` -/
def decodeAscii (b : Bytes) : List Char :=
  (b.filter (· < 128)).map fun b => Char.ofNat b.toNat

/-- The value that a suffix starts with. -/
def suffixValue (b : Bytes) : List Char := strip ((replaceIdentifier false (decodeAscii b)).take 32)

/-- The name with a counter. -/
def numbered (value : CName) (counter : ℕ) : CName := value ++ '_' :: Nat.toDigits 10 counter

/-- The loop of `unique_const_cname`. -/
def uniqueLoop (value : CName) :
    ℕ → OrderedDict CName ℕ → CName → Option (CName × OrderedDict CName ℕ)
  | 0, _, _ => none
  | fuel + 1, used, cname =>
    if cname ∈ used then
      (used.get? value).bind fun counter =>
        uniqueLoop value fuel (used.set value (counter + 1)) (numbered value (counter + 1))
    else some (cname, used.set cname 1)

/-- `unique_const_cname` -/
def uniqueConstCname (used : OrderedDict CName ℕ) (value : CName) :
    Option (CName × OrderedDict CName ℕ) :=
  uniqueLoop value (used.entries.length + 1) used value

/-! ## Registrations -/

/-- `GlobalState` -/
structure GlobalState (py : Python) where
  constCnamesUsed : OrderedDict CName ℕ
  stringConstIndex : OrderedDict Bytes (StringConst py)

def GlobalState.empty : GlobalState py := ⟨.empty, .empty⟩

/-- `new_string_const` -/
def newStringConst (gs : GlobalState py) (text : Text py) :
    Option (StringConst py × GlobalState py) :=
  (uniqueConstCname gs.constCnamesUsed (suffixValue text.byteString)).map fun (suffix, used) =>
    let c : StringConst py := ⟨constPrefix ++ suffix, text, text.byteString, .empty, false⟩
    (c, ⟨used, gs.stringConstIndex.set text.byteString c⟩)

/-- `get_string_const` -/
def getStringConst (gs : GlobalState py) (text : Text py) (cUsed : Bool) :
    Option (StringConst py × GlobalState py) :=
  let found := match gs.stringConstIndex.get? text.byteString with
    | some c => some (c, gs)
    | none => newStringConst gs text
  found.map fun (c, gs) =>
    let c := { c with cUsed := c.cUsed || cUsed }
    (c, { gs with stringConstIndex := gs.stringConstIndex.set text.byteString c })

/-- `GlobalState.get_py_string_const` -/
def getPyStringConst (gs : GlobalState py) (text : Text py) (identifier : Option Bool) :
    Option (PyStringConst × GlobalState py) :=
  (getStringConst gs text false).map fun (c, gs) =>
    let (pyString, c) := c.getPyStringConst text.encoding identifier
    (pyString, { gs with stringConstIndex := gs.stringConstIndex.set text.byteString c })

/-- The registration of a constant, as a C string or as a Python string. -/
inductive Registration (py : Python) where
  | stringConst (text : Text py)
  | pyStringConst (text : Text py) (identifier : Option Bool)

def Registration.text : Registration py → Text py
  | .stringConst text => text
  | .pyStringConst text _ => text

/-- A registered Python string, and what its registration returned. -/
structure Constant (py : Python) where
  text : Text py
  identifier : Option Bool
  result : PyStringConst

def register (gs : GlobalState py) :
    Registration py → Option (List (Constant py) × GlobalState py)
  | .stringConst text => (getStringConst gs text true).map fun (_, gs) => ([], gs)
  | .pyStringConst text identifier =>
    (getPyStringConst gs text identifier).map fun (result, gs) => ([⟨text, identifier, result⟩], gs)

/-- The registrations of a module. -/
def registerAll (gs : GlobalState py) :
    List (Registration py) → Option (List (Constant py) × GlobalState py)
  | [] => some ([], gs)
  | r :: rs => do
    let (cs, gs) ← register gs r
    let (cs', gs) ← registerAll gs rs
    some (cs ++ cs', gs)

/-!
## The table of the string constants

What `generate_string_constants` and `generate_pystring_constants` (`Code.py`) emit for the
registered constants, and what the emitted code does when the module is initialised.

* `generate`: declarations, names and data (`Output`);
* `Output.Valid`: whether they are C;
* `initialise`: the table, for each way to compress the data.

The escapes of C strings are left out: a declared string is its bytes.
-/

/-! ## Entries of the table -/

/-- An entry of `py_unicode_consts`. -/
structure TextEntry where
  intern : Bool
  cname : CName
  text : String

/-- An entry of `py_bytes_consts`. -/
structure BytesEntry where
  cname : CName
  value : Bytes

/-- `sorted([(len(sc.cname), sc.cname, sc) …])` -/
def sortedConsts (gs : GlobalState py) : List (StringConst py) :=
  (gs.stringConstIndex.entries.map Prod.snd).mergeSort fun a b =>
    a.cname.length < b.cname.length ∨ (a.cname.length = b.cname.length ∧ a.cname ≤ b.cname)

/-- The Python strings of a constant: texts, and bytes. Bytes that are no text are an error. -/
def constEntries (c : StringConst py) :
    List PyStringConst → Option (List TextEntry × List BytesEntry)
  | [] => some ([], [])
  | p :: ps => do
    let (texts, bytes) ← constEntries c ps
    if p.isUnicode then
      let text ← c.text.value p.encoding
      some (⟨p.intern && p.isUnicode, p.cname, text⟩ :: texts, bytes)
    else some (texts, ⟨p.cname, c.text.byteString⟩ :: bytes)

/-- The Python strings of all constants. -/
def allEntries : List (StringConst py) → Option (List TextEntry × List BytesEntry)
  | [] => some ([], [])
  | c :: cs => do
    let (texts, bytes) ← constEntries c (c.pyStrings.entries.map Prod.snd)
    let (texts', bytes') ← allEntries cs
    some (texts ++ texts', bytes ++ bytes')

/-- `text_strings.sort(key=operator.itemgetter(0, 2))` -/
def sortTexts (texts : List TextEntry) : List TextEntry :=
  texts.mergeSort fun a b => (!a.intern && b.intern) || (a.intern == b.intern && a.text ≤ b.text)

/-- `byte_strings.sort()` -/
def sortBytes (entries : List BytesEntry) : List BytesEntry :=
  entries.mergeSort fun a b => a.value < b.value ∨ (a.value = b.value ∧ a.cname ≤ b.cname)

/-- The position of the first interned text; the `assert` that the others follow. -/
def findFirstInterned : List TextEntry → ℕ → Option ℕ → Option (Option ℕ)
  | [], _, first => some first
  | e :: es, pos, none => findFirstInterned es (pos + 1) (if e.intern then some pos else none)
  | e :: es, pos, some first =>
    if e.intern then findFirstInterned es (pos + 1) (some first) else none

/-! ## Compression -/

/-- A library compressor, which loses nothing. -/
structure Compressor where
  compress : Bytes → Bytes
  decompress : Bytes → Option Bytes
  lossless : ∀ b, decompress (compress b) = some b

/-- The libraries, as far as they are installed. -/
structure Libraries where
  zlib : Compressor
  bz2 : Option Compressor
  zstd : Option Compressor

inductive Algorithm where
  | lzss
  | zlib
  | bz2
  | zstd
deriving DecidableEq

/-- The values of `CYTHON_COMPRESS_STRINGS` -/
def Algorithm.number : Algorithm → ℤ
  | .lzss => 90
  | .zlib => 1
  | .bz2 => 2
  | .zstd => 3

/-- `compression_algorithms` -/
def compressionAlgorithms : List Algorithm := [.lzss, .zlib, .bz2, .zstd]

/-- The library of an algorithm, but for our own. -/
def Libraries.find (libs : Libraries) : Algorithm → Option Compressor
  | .lzss => none
  | .zlib => some libs.zlib
  | .bz2 => libs.bz2
  | .zstd => libs.zstd

/-- `compress(concat_bytes)` -/
def compressWith (libs : Libraries) (data : Bytes) : Algorithm → Option Bytes
  | .lzss => Lzss.lzssCompress data
  | a => (libs.find a).map fun c => c.compress data

/-- What the loop over the algorithms has found: the compressed data, the default, and the
    smallest size. -/
structure Compressions where
  found : List (Algorithm × Bytes)
  default : ℤ
  minSizeSeen : Option ℕ

/-- One algorithm. -/
def tryAlgorithm (libs : Libraries) (data : Bytes) (s : Compressions) (a : Algorithm) :
    Compressions :=
  match compressWith libs data a with
  | none => s
  | some compressed =>
    if data.length < compressed.length + 200 then s
    else
      let s := { s with default := if a = Algorithm.lzss then 90 else s.default }
      if s.minSizeSeen.all fun m => compressed.length < m then
        { s with found := s.found ++ [(a, compressed)], minSizeSeen := some compressed.length }
      else if a ≠ Algorithm.lzss then s
      else { s with found := s.found ++ [(a, compressed)] }

def compressions (libs : Libraries) (data : Bytes) : Compressions :=
  compressionAlgorithms.foldl (tryAlgorithm libs data) ⟨[], 0, none⟩

/-! ## Emitted code -/

/-- The struct type with a bit-field, and the array of lengths. -/
structure LengthIndex where
  width : ℕ
  lengths : List ℕ

/-- `max(index).bit_length()` bits -/
def lengthIndex (lengths : List ℕ) : LengthIndex := ⟨(lengths.foldl max 0).size, lengths⟩

/-- What is emitted. -/
structure Output where
  /-- `static const char cname[] = …;` -/
  cStrings : List (CName × Bytes)
  /-- the length of the array in the module state -/
  stringtabSize : ℕ
  /-- `#define cname stringtab[pos]` -/
  defines : List (CName × ℕ)
  strIndex : LengthIndex
  bytesIndex : LengthIndex
  firstInterned : Option ℕ
  concatBytes : Bytes
  compressions : Compressions

/-- Names, with their positions from `pos` on. -/
def definesFrom (pos : ℕ) : List CName → List (CName × ℕ)
  | [] => []
  | cname :: cnames => (cname, pos) :: definesFrom (pos + 1) cnames

/-- `generate_pystring_constants` -/
def generatePystringConstants (libs : Libraries) (cStrings : List (CName × Bytes))
    (texts : List TextEntry) (entries : List BytesEntry) : Option Output :=
  let texts := sortTexts texts
  let entries := sortBytes entries
  (findFirstInterned texts 0 none).map fun firstInterned =>
    let textBytes := texts.map fun e => encodeUTF8 e.text
    let bytesValues := entries.map BytesEntry.value
    let concatBytes := (textBytes ++ bytesValues).flatten
    { cStrings
      stringtabSize := entries.length + texts.length
      defines := definesFrom 0 (texts.map TextEntry.cname ++ entries.map BytesEntry.cname)
      strIndex := lengthIndex (textBytes.map List.length)
      bytesIndex := lengthIndex (bytesValues.map List.length)
      firstInterned
      concatBytes
      compressions := compressions libs concatBytes }

/-- The C strings that are used. -/
def usedCStrings (consts : List (StringConst py)) : List (CName × Bytes) :=
  (consts.filter StringConst.cUsed).map fun c => (c.cname, c.byteString)

/-- `generate_string_constants` -/
def generate (libs : Libraries) (gs : GlobalState py) : Option Output := do
  let consts := sortedConsts gs
  let (texts, entries) ← allEntries consts
  generatePystringConstants libs (usedCStrings consts) texts entries

/-! ### Declarations -/

/-- The bits of an `unsigned int`. -/
def unsignedIntBits : ℕ := 32

/-- A struct type and its array are declared if there are lengths. The bit-field has a name,
    so that it must have a width. -/
def LengthIndex.Valid (index : LengthIndex) : Prop :=
  index.lengths ≠ [] → 0 < index.width ∧ index.width ≤ unsignedIntBits

/-- An identifier of C. -/
def IsIdentifier (cname : CName) : Prop :=
  (∀ c ∈ cname, isAsciiWord c = true) ∧ ∃ c ∈ cname.head?, c.isDigit = false

/-- The declarations are valid: arrays and bit-fields have a size, and no name is declared or
    defined twice. -/
structure Output.Valid (out : Output) : Prop where
  strIndex : out.strIndex.Valid
  bytesIndex : out.bytesIndex.Valid
  stringtab : 0 < out.stringtabSize
  identifiers : ∀ cname ∈ out.cStrings.map Prod.fst ++ out.defines.map Prod.fst, IsIdentifier cname
  names : (out.cStrings.map Prod.fst ++ out.defines.map Prod.fst).Nodup

/-! ### Initialisation -/

/-- How the C code is compiled: the user's `CYTHON_COMPRESS_STRINGS`, and
    `__PYX_LIMITED_VERSION_HEX`. -/
structure Settings where
  compressStrings : Option ℤ
  limitedVersionHex : ℕ

/-- The guard of the data that an algorithm has compressed. -/
def guard (compressStrings : ℤ) (limitedVersionHex : ℕ) : Algorithm → Bool
  | .zstd => compressStrings = 3 ∧ 0x030e0000 ≤ limitedVersionHex
  | .lzss => 0 < compressStrings ∧ compressStrings ≤ 90
  | a => compressStrings = a.number

/-- The branch that is compiled. -/
def Output.selected (out : Output) (settings : Settings) : Option (Algorithm × Bytes) :=
  out.compressions.found.reverse.find? fun f =>
    guard (settings.compressStrings.getD out.compressions.default) settings.limitedVersionHex f.1

/-- The data, if it can be decompressed. -/
def Output.data (libs : Libraries) (out : Output) (settings : Settings) : Option Bytes :=
  match out.selected settings with
  | none => some out.concatBytes
  | some (.lzss, compressed) =>
    match Lzss.decompressString compressed out.concatBytes.length with
    | some (.bytes data) => some data
    | _ => none
  | some (a, compressed) => (libs.find a).bind fun c => c.decompress compressed

/-- A Python string; texts may be interned. -/
inductive PyString where
  | str (value : String) (interned : Bool)
  | bytes (value : Bytes)

/-- `length` bytes from `pos` on; none, if they are not all there. -/
def slice (data : Bytes) (pos length : ℕ) : Option Bytes :=
  if pos + length ≤ data.length then some ((data.drop pos).take length) else none

/-- A length, as it is read from the bit-field. -/
def LengthIndex.read (index : LengthIndex) (length : ℕ) : ℕ := length % 2 ^ index.width

/-- The loop that unpacks texts. -/
def unpackTexts (out : Output) (data : Bytes) : ℕ → ℕ → List ℕ → Option (List PyString × ℕ)
  | _, pos, [] => some ([], pos)
  | i, pos, length :: lengths => do
    let bytesLength := out.strIndex.read length
    let text ← (slice data pos bytesLength).bind decodeUTF8
    let string := PyString.str text (out.firstInterned.elim false (· ≤ i))
    let (strings, pos) ← unpackTexts out data (i + 1) (pos + bytesLength) lengths
    some (string :: strings, pos)

/-- The loop that unpacks bytes. -/
def unpackBytes (out : Output) (data : Bytes) : ℕ → List ℕ → Option (List PyString)
  | _, [] => some []
  | pos, length :: lengths => do
    let bytesLength := out.bytesIndex.read length
    let bytes ← slice data pos bytesLength
    let strings ← unpackBytes out data (pos + bytesLength) lengths
    some (.bytes bytes :: strings)

/-- The table after the initialisation, if it does not fail. -/
def initialise (libs : Libraries) (out : Output) (settings : Settings) :
    Option (List PyString) := do
  let data ← out.data libs settings
  let (texts, pos) ← unpackTexts out data 0 0 out.strIndex.lengths
  let bytes ← unpackBytes out data pos out.bytesIndex.lengths
  some (texts ++ bytes)

end AHPy.StringTable
