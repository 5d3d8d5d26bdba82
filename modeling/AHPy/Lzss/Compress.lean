import AHPy.Lib.OrderedDict
import AHPy.Lib.BackReference

/-!
# Compression and decompression
-/

/-!
## The compressor

`lzss_compress` of `LZSS.py`. At each position it looks for the longest earlier
match among the positions in a table of byte triplets (`findLongestMatch`),
writes a literal or a back reference in one of three formats
(`encodeReference`), and collects one flag for each of these in a byte in front
of every eight.

Every access that may fail fails here, too: an index out of range, and a value
that is no byte (`appendBytes`).
-/

namespace AHPy.Lzss

/-- `hash_table`: the positions of byte triplets. -/
abbrev Table := OrderedDict (List UInt8) (List Nat)

/-- `WINDOW_SIZE` -/
def windowSize : Nat := (1 <<< 14) + 128

/-- `data[pos:stop]` -/
def slice (data : List UInt8) (pos stop : Nat) : List UInt8 := (data.take stop).drop pos

/-- The loop that extends a match of `length` bytes by at most `remaining` ones. -/
def extendMatch (data : List UInt8) (prevPos pos : Nat) : Nat → Nat → Option Nat
  | 0, length => some length
  | remaining + 1, length => do
    let a ← data[prevPos + length]?
    let b ← data[pos + length]?
    if a = b then extendMatch data prevPos pos remaining (length + 1) else some length

/-- One iteration of the loop over earlier positions, with `best_offset` and
    `best_len`. -/
def considerMatch (data : List UInt8) (pos maxMatch windowStart : Nat) (best : Nat × Nat)
    (prevPos : Nat) : Option (Nat × Nat) :=
  if prevPos < windowStart ∨ pos ≤ prevPos then some best
  else do
    let maxLen := min maxMatch (pos - prevPos)
    let matchLen ← extendMatch data prevPos pos (maxLen - 3) 3
    if best.2 < matchLen ∧ (pos : Int) - prevPos - matchLen < windowSize then
      some (pos - prevPos, matchLen)
    else some best

/-- One iteration of the loop that looks for a match at the next position. -/
def considerNextMatch (data : List UInt8) (pos maxMatch windowStart : Nat) (nextBestLen : Nat)
    (prevPos : Nat) : Option Nat :=
  if prevPos < windowStart then some nextBestLen
  else do
    let maxLen := min maxMatch (min (pos - prevPos) (data.length - pos - 1))
    let matchLen ← extendMatch data prevPos (pos + 1) (maxLen - 3) 3
    if nextBestLen < matchLen ∧ (pos : Int) - prevPos - nextBestLen < windowSize then
      some matchLen
    else some nextBestLen

/-- Lazy matching: drops a match if the next position has a better one. -/
def lazyMatch (data : List UInt8) (table : Table) (pos maxMatch : Nat) (best : Nat × Nat) :
    Option (Nat × Nat) :=
  let nextKey := slice data (pos + 1) (pos + 4)
  if 0 < best.2 ∧ best.2 < maxMatch ∧ nextKey ∈ table ∧ pos + best.2 + 1 < data.length then do
    let windowStart := pos + 1 - windowSize - maxMatch
    let nextBestLen ← ((table.get? nextKey).getD []).foldlM
      (considerNextMatch data pos maxMatch windowStart) 0
    if best.2 + 1 < nextBestLen then some (0, 0) else some best
  else some best

/-- `find_longest_match`: the offset and the length of a match. -/
def findLongestMatch (data : List UInt8) (table : Table) (pos : Nat) : Option (Nat × Nat) :=
  if data.length < pos + 3 then some (0, 0)
  else
    let maxMatch := min (255 + 3) (data.length - pos)
    let windowStart := pos - windowSize - maxMatch
    match table.get? (slice data pos (pos + 3)) with
    | none => some (0, 0)
    | some positions => do
      let best ← positions.foldlM (considerMatch data pos maxMatch windowStart) (0, 0)
      lazyMatch data table pos maxMatch best

/-- The bytes of a reference, unless it is not worth it. The offset is that of
    the end of the match. -/
def encodeReference (offset length : Nat) : Option (List Nat) :=
  if offset ≤ 0x7F then
    -- Store 7 bit offset and length as one byte each.
    some [offset, length - 3]
  else
    let offset := offset - 0x80
    let lengthBits := length - 3
    if lengthBits < 1 <<< 5 ∧ offset < 1 <<< 9 then
      -- Store a longer 7+2 bit offset at the cost of a shorter 5 bit length.
      some [(offset &&& 0x7F) ||| 0x80, ((offset &&& 0x180) >>> 2) ||| lengthBits]
    else if 3 < length ∧ offset < 1 <<< 14 then
      -- Store a 7+7 bit offset with a separate 8 bit length.
      some [(offset &&& 0x7F) ||| 0x80, ((offset >>> 7) &&& 0x7F) ||| 0x80, lengthBits]
    else none

/-- What is written at a position: a flag, the bytes after it, and how many
    bytes of the data it stands for. -/
structure Item where
  flag : Nat
  bytes : List Nat
  length : Nat

/-- The choice between a reference and a literal. -/
def encodeItem (data : List UInt8) (pos offset length : Nat) : Option Item :=
  -- offset >= length if interesting, so remove redundancy.
  let endOffset : Int := (offset : Int) - length
  let reference :=
    if length < 3 ∨ endOffset < 0 then none else encodeReference endOffset.toNat length
  match reference with
  | some bytes => some ⟨0, bytes, length⟩
  | none => data[pos]?.map fun b => ⟨1, [b.toNat], 1⟩

/-- `output.append` of each value, which must be a byte. -/
def appendBytes (output : List UInt8) (bytes : List Nat) : Option (List UInt8) :=
  if ∀ b ∈ bytes, b < 256 then some (output ++ bytes.map UInt8.ofNat) else none

/-- `output[index] = byte` -/
def setByte (output : List UInt8) (index byte : Nat) : Option (List UInt8) :=
  if index < output.length ∧ byte < 256 then some (output.set index (UInt8.ofNat byte)) else none

/-- The variables of the main loop. -/
structure State where
  table : Table
  output : List UInt8
  pos : Nat
  flagsPos : Nat
  flags : Nat

/-- The state before the main loop. -/
def State.initial : State where
  table := .empty
  output := [0]
  pos := 0
  flagsPos := 0
  flags := 0xFF0000

/-- `hash_table[key].append(pos)` -/
def addPosition (table : Table) (key : List UInt8) (pos : Nat) : Table :=
  table.set key ((table.get? key).getD [] ++ [pos])

/-- The end of an iteration of the main loop: the flags, which are complete
    after eight items. -/
def putFlag (flag : Nat) (s : State) : Option State :=
  let flags := (flag <<< 7) ||| (s.flags >>> 1)
  if flags < 0x10000 then do
    let output ← setByte s.output s.flagsPos (flags &&& 0xFF)
    some { s with output := output ++ [0], flagsPos := output.length, flags := 0xFF0000 }
  else some { s with flags := flags }

/-- One iteration of the main loop. -/
def compressStep (data : List UInt8) (s : State) : Option State := do
  let (offset, length) ← findLongestMatch data s.table s.pos
  let item ← encodeItem data s.pos offset length
  let output ← appendBytes s.output item.bytes
  putFlag item.flag { s with
    table := addPosition s.table (slice data s.pos (s.pos + 3)) s.pos
    output := output
    pos := s.pos + item.length }

/-- The main loop. -/
def compressLoop (data : List UInt8) : Nat → State → Option State
  | 0, _ => none
  | fuel + 1, s =>
    if s.pos < data.length then (compressStep data s).bind (compressLoop data fuel) else some s

/-- `while flags >= 0x10000: flags >>= 1`, for a C `int` -/
def padFlags : Nat → Nat → Option Nat
  | 0, _ => none
  | fuel + 1, flags => if 0x10000 ≤ flags then padFlags fuel (flags >>> 1) else some flags

/-- What comes after the main loop: the flags of the last items. -/
def finish (s : State) : Option (List UInt8) :=
  if s.flagsPos = s.output.length - 1 then some s.output.dropLast
  else do
    -- Pad flags with empty non-literals
    let flags ← padFlags 33 s.flags
    setByte s.output s.flagsPos (flags &&& 0xFF)

/-- `lzss_compress` -/
def lzssCompress (data : List UInt8) : Option (List UInt8) :=
  if data = [] then some []
  else (compressLoop data (data.length + 1) .initial).bind finish

/-!
## The decompressor

`__pyx_lzss_decompress` and `__Pyx_DecompressString_LZSS` of `StringTools.c`. A
run fails (`none`) when it reads past the compressed bytes, writes past the
destination, or copies a region that is not written yet: one that begins before
the destination, or overlaps with the one it is copied to.
-/

/-- `src[pos]` -/
def readByte (src : List UInt8) (pos : Nat) : Option Nat := src[pos]?.map UInt8.toNat

/-- The position in the source, and the bytes of the destination written so
    far: `out_pos` is their number. -/
structure Cursor where
  pos : Nat
  dst : List UInt8

/-- `dst[out_pos++] = …` -/
def Cursor.write (c : Cursor) (dstLen : Nat) (bytes : List UInt8) : Option Cursor :=
  if c.dst.length + bytes.length ≤ dstLen then some { c with dst := c.dst ++ bytes } else none

/-- `memcpy(dst + out_pos, dst + ref_pos, match_length)` -/
def Cursor.copy (c : Cursor) (dstLen endOffset matchLength : Nat) : Option Cursor :=
  if endOffset + matchLength ≤ c.dst.length then
    let refPos := c.dst.length - endOffset - matchLength
    if refPos + matchLength ≤ c.dst.length then
      c.write dstLen ((c.dst.drop refPos).take matchLength)
    else none
  else none

/-- A plain byte -/
def decodeLiteral (src : List UInt8) (dstLen : Nat) (c : Cursor) : Option Cursor := do
  let b ← src[c.pos]?
  Cursor.write { c with pos := c.pos + 1 } dstLen [b]

/-- A back reference, 2 or 3 bytes -/
def decodeReference (src : List UInt8) (dstLen : Nat) (c : Cursor) : Option Cursor := do
  let lo ← readByte src c.pos
  let hi ← readByte src (c.pos + 1)
  if lo &&& 0x80 = 0 then
    -- 7 bit offset + 8 bit length
    Cursor.copy { c with pos := c.pos + 2 } dstLen lo (hi + 3)
  else if hi &&& 0x80 = 0 then
    -- 2+7 bit offset + 5 bit length
    Cursor.copy { c with pos := c.pos + 2 } dstLen
      (0x80 + (((hi <<< 2) &&& 0x180) ||| (lo &&& 0x7F))) ((hi &&& 0x1F) + 3)
  else do
    -- 7+7 bit offset + 8 bit length
    let length ← readByte src (c.pos + 2)
    Cursor.copy { c with pos := c.pos + 3 } dstLen
      (0x80 + (((hi &&& 0x7F) <<< 7) ||| (lo &&& 0x7F))) (length + 3)

/-- A plain byte or a back reference -/
def decodeItem (src : List UInt8) (dstLen flags : Nat) (c : Cursor) : Option Cursor :=
  if flags &&& 1 ≠ 0 then decodeLiteral src dstLen c else decodeReference src dstLen c

/-- `while (flags & 0x100)`, with whether the function returns. -/
def decodeGroup (src : List UInt8) (dstLen : Nat) : Nat → Nat → Cursor → Option (Bool × Cursor)
  | 0, _, _ => none
  | fuel + 1, flags, c =>
    if flags &&& 0x100 = 0 then some (false, c)
    else do
      let c ← decodeItem src dstLen flags c
      if dstLen ≤ c.dst.length then some (true, c) else decodeGroup src dstLen fuel (flags >>> 1) c

/-- `while (1)`: eight bytes or back references at a time. -/
def decodeGroups (src : List UInt8) (dstLen : Nat) : Nat → Cursor → Option Cursor
  | 0, _ => none
  | fuel + 1, c => do
    let flags ← readByte src c.pos
    let (done, c) ← decodeGroup src dstLen 17 (flags ||| 0xFF00) { c with pos := c.pos + 1 }
    if done then some c else decodeGroups src dstLen fuel c

/-- `__pyx_lzss_decompress`: the bytes written, and the returned position. -/
def lzssDecompress (src : List UInt8) (dstLen : Nat) : Option (List UInt8 × Nat) :=
  (decodeGroups src dstLen (dstLen + 1) ⟨0, []⟩).map fun c => (c.dst, c.pos)

/-- The results of `__Pyx_DecompressString_LZSS`. -/
inductive StringResult
  | bytes (data : List UInt8)
  | runtimeError

/-- `__Pyx_DecompressString_LZSS`, when the memory for the result is there. -/
def decompressString (s : List UInt8) (uncompressedLength : Nat) : Option StringResult :=
  (lzssDecompress s uncompressedLength).map fun r =>
    if r.2 = s.length then .bytes r.1 else .runtimeError

end AHPy.Lzss
