import Mathlib

/-!
# Location tables

The table that a code object has its source positions in, since version 3.11 of
Python: an entry is a first byte with a code, and what the code says follows. The
line of an entry is relative to the *first* line of the entry before it.

* `readVarint`, `readSignedVarint`: numbers in groups of six bits, lowest first;
* `decodeLocation`: an entry;
* `decodeLocations_cons`: a table is read entry by entry.
-/

namespace AHPy.LocationTable

/-! ## Reading -/

/-- What an entry says, as `co_positions` has it; `-1` is for what is not known. -/
@[ext] structure Location where
  startLine : ℤ
  endLine : ℤ
  startColumn : ℤ
  endColumn : ℤ
  deriving DecidableEq

def readByte : List ℕ → Option (ℕ × List ℕ)
  | [] => none
  | b :: bs => some (b, bs)

/-- Six bits of every byte, as long as the seventh bit is set. -/
def readVarint : List ℕ → Option (ℕ × List ℕ)
  | [] => none
  | b :: bs =>
    if b &&& 64 = 0 then some (b &&& 63, bs)
    else (readVarint bs).map fun high => ((b &&& 63) ||| high.1 <<< 6, high.2)

/-- The sign is in the lowest bit. -/
def readSignedVarint (bs : List ℕ) : Option (ℤ × List ℕ) :=
  (readVarint bs).map fun value =>
    (if value.1 &&& 1 = 0 then ((value.1 >>> 1 : ℕ) : ℤ) else -((value.1 >>> 1 : ℕ) : ℤ), value.2)

/-- An entry, and the line that the next one is relative to. -/
def decodeLocation (line : ℤ) (bs : List ℕ) : Option (Location × ℤ × List ℕ) := do
  let (first, bs) ← readByte bs
  let code := (first >>> 3) &&& 15
  if first < 128 ∨ 256 ≤ first then none
  else if code = 15 then some (⟨-1, -1, -1, -1⟩, line, bs)
  else if code = 14 then
    let (delta, bs) ← readSignedVarint bs
    let (lines, bs) ← readVarint bs
    let (startColumn, bs) ← readVarint bs
    let (endColumn, bs) ← readVarint bs
    some (⟨line + delta, line + delta + lines, startColumn - 1, endColumn - 1⟩, line + delta, bs)
  else if code = 13 then
    let (delta, bs) ← readSignedVarint bs
    some (⟨line + delta, line + delta, -1, -1⟩, line + delta, bs)
  else if 10 ≤ code then
    let delta := code - 10
    let (startColumn, bs) ← readByte bs
    let (endColumn, bs) ← readByte bs
    some (⟨line + delta, line + delta, startColumn, endColumn⟩, line + delta, bs)
  else
    let (second, bs) ← readByte bs
    let startColumn := code <<< 3 ||| second >>> 4
    some (⟨line, line, startColumn, startColumn + (second &&& 15 : ℕ)⟩, line, bs)

/-- At most `fuel` entries. -/
def decodeLocations : ℕ → ℤ → List ℕ → Option (List Location)
  | _, _, [] => some []
  | 0, _, _ :: _ => none
  | fuel + 1, line, b :: bs => do
    let (location, line, rest) ← decodeLocation line (b :: bs)
    let locations ← decodeLocations fuel line rest
    some (location :: locations)

/-- The entries of a table; each has a byte at least. -/
def decodeTable (firstLine : ℤ) (table : List ℕ) : Option (List Location) :=
  decodeLocations table.length firstLine table

/-! ## Rules -/

theorem continuation_bit : 64 = 2 ^ 6 := rfl

theorem readVarint_last {value : ℕ} (h : value < 64) (rest : List ℕ) :
    readVarint (value :: rest) = some (value, rest) := by
  have hbit : value &&& 64 = 0 := by
    rw [continuation_bit, Nat.and_two_pow, Nat.testBit_lt_two_pow h]
    rfl
  have hvalue : value &&& 63 = value := by
    rw [Nat.and_two_pow_sub_one_eq_mod value 6, Nat.mod_eq_of_lt h]
  rw [readVarint, if_pos hbit, hvalue]

theorem readVarint_group {low value : ℕ} (hlow : low < 64) {bs rest : List ℕ}
    (h : readVarint bs = some (value, rest)) :
    readVarint ((64 ||| low) :: bs) = some (low + 64 * value, rest) := by
  have hsum : 64 ||| low = 64 + low := (Nat.two_pow_add_eq_or_of_lt (i := 6) hlow 1).symm
  have hbit : (64 ||| low) &&& 64 ≠ 0 := by
    rw [continuation_bit, Nat.and_two_pow, Nat.testBit_or, Nat.testBit_two_pow_self, Bool.true_or]
    decide
  have hvalue : (64 ||| low) &&& 63 = low := by
    rw [hsum, Nat.and_two_pow_sub_one_eq_mod _ 6]
    omega
  have hjoin : low ||| value <<< 6 = low + 64 * value := by
    rw [Nat.shiftLeft_eq, Nat.or_comm, Nat.mul_comm value,
      ← Nat.two_pow_add_eq_or_of_lt (i := 6) hlow value]
    omega
  rw [readVarint, if_neg hbit, h, Option.map_some, hvalue]
  exact congrArg (fun v => some (v, rest)) hjoin

theorem readSignedVarint_shift {value : ℕ} {bs rest : List ℕ}
    (h : readVarint bs = some (value <<< 1, rest)) :
    readSignedVarint bs = some ((value : ℤ), rest) := by
  have hsign : value <<< 1 &&& 1 = 0 := by
    rw [Nat.shiftLeft_eq, Nat.and_one_is_mod]
    omega
  rw [readSignedVarint, h, Option.map_some]
  simp only [hsign, if_true, Nat.shiftLeft_shiftRight]

/-- A table is read entry by entry. -/
theorem decodeLocations_cons {fuel : ℕ} {line line' : ℤ} {location : Location}
    {entry rest : List ℕ} (hentry : entry ≠ [])
    (h : decodeLocation line (entry ++ rest) = some (location, line', rest)) :
    decodeLocations (fuel + 1) line (entry ++ rest) =
      (decodeLocations fuel line' rest).map (location :: ·) := by
  obtain ⟨b, bs, rfl⟩ := List.exists_cons_of_ne_nil hentry
  rw [List.cons_append] at h ⊢
  rw [decodeLocations, h]
  simp only [Option.bind_eq_bind, Option.bind_some]
  exact (Option.map_eq_bind ..).symm

end AHPy.LocationTable
