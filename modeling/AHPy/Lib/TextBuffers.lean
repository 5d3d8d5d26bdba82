import Mathlib

/-!
# Texts in memory
-/

/-!
## Buffers of characters

A buffer that is filled from its end (`BackBuffer`), and one that is written to by index
(`writeFrom`). `none` stands for a write outside of the buffer.

* `BackBuffer.prepend_of_le`: there is room for the characters;
* `writeFrom_append`: characters replace as many others.
-/

namespace AHPy

/-- A buffer that is filled from its end: the room in front, and the characters. -/
structure BackBuffer where
  pos : ℕ
  chars : List ℕ

namespace BackBuffer

/-- Characters in front of the others. -/
def prepend (b : BackBuffer) (cs : List ℕ) : Option BackBuffer :=
  if cs.length ≤ b.pos then some ⟨b.pos - cs.length, cs ++ b.chars⟩ else none

theorem prepend_of_le {b : BackBuffer} {cs : List ℕ} (h : cs.length ≤ b.pos) :
    b.prepend cs = some ⟨b.pos - cs.length, cs ++ b.chars⟩ := if_pos h

end BackBuffer

/-! ## Writes by index -/

/-- A write of one character. -/
def write (buffer : List ℕ) (i : ℤ) (c : ℕ) : Option (List ℕ) :=
  if 0 ≤ i ∧ i < buffer.length then some (buffer.set i.toNat c) else none

/-- Writes from an index on. -/
def writeFrom (buffer : List ℕ) (i : ℤ) : List ℕ → Option (List ℕ)
  | [] => some buffer
  | c :: cs => (write buffer i c).bind fun buffer => writeFrom buffer (i + 1) cs

theorem write_append (front rest : List ℕ) (old c : ℕ) :
    write (front ++ old :: rest) front.length c = some (front ++ c :: rest) := by
  rw [write, if_pos ⟨Int.natCast_nonneg _, by
    rw [List.length_append, List.length_cons]
    omega⟩, Int.toNat_natCast, List.set_append_right _ _ le_rfl, Nat.sub_self, List.set_cons_zero]

/-- Characters replace as many others. -/
theorem writeFrom_append (front rest : List ℕ) {olds cs : List ℕ} (h : olds.length = cs.length) :
    writeFrom (front ++ olds ++ rest) front.length cs = some (front ++ cs ++ rest) := by
  induction cs generalizing front olds with
  | nil =>
    rw [List.eq_nil_of_length_eq_zero h]
    rfl
  | cons c cs ih =>
    cases olds with
    | nil => cases h
    | cons old olds =>
      have hrest := ih (front ++ [c]) (Nat.succ.inj h)
      rw [List.length_append, List.length_singleton] at hrest
      rw [writeFrom, List.append_assoc, List.cons_append, write_append, Option.bind_some]
      rw [List.append_assoc, List.append_assoc, List.singleton_append] at hrest
      push_cast at hrest
      rw [hrest, List.append_assoc front, List.singleton_append]

/-- A buffer that is filled up. -/
theorem writeFrom_end (front : List ℕ) {olds cs : List ℕ} (h : olds.length = cs.length) :
    writeFrom (front ++ olds) front.length cs = some (front ++ cs) := by
  simpa only [List.append_nil] using writeFrom_append front [] h

/-!
## Decoding UTF-8

The strict decoder: the code points of bytes, unless a sequence is too short, too long for
its code point, or stands for a surrogate.

* `decodeUtf8_replicate_append`: ASCII characters in front;
* `decodeUtf8_two`, `decodeUtf8_three`, `decodeUtf8_four`: a sequence of bytes.
-/

/-- The bytes after the first one of a sequence. -/
def isTail (b : ℕ) : Bool := 0x80 ≤ b ∧ b ≤ 0xBF

/-- A sequence of two bytes. -/
def decodeTwo (a : ℕ) : List ℕ → Option (ℕ × List ℕ)
  | b :: rest =>
    let cp := (a - 0xC0) * 64 + (b - 0x80)
    if isTail b ∧ 0x80 ≤ cp then some (cp, rest) else none
  | _ => none

/-- A sequence of three bytes. -/
def decodeThree (a : ℕ) : List ℕ → Option (ℕ × List ℕ)
  | b :: c :: rest =>
    let cp := (a - 0xE0) * 4096 + (b - 0x80) * 64 + (c - 0x80)
    if isTail b ∧ isTail c ∧ 0x800 ≤ cp ∧ ¬(0xD800 ≤ cp ∧ cp ≤ 0xDFFF) then some (cp, rest)
    else none
  | _ => none

/-- A sequence of four bytes. -/
def decodeFour (a : ℕ) : List ℕ → Option (ℕ × List ℕ)
  | b :: c :: d :: rest =>
    let cp := (a - 0xF0) * 262144 + (b - 0x80) * 4096 + (c - 0x80) * 64 + (d - 0x80)
    if isTail b ∧ isTail c ∧ isTail d ∧ 0x10000 ≤ cp ∧ cp ≤ 0x10FFFF then some (cp, rest)
    else none
  | _ => none

/-- The first code point, and the bytes after it. -/
def decodeFirst : List ℕ → Option (ℕ × List ℕ)
  | [] => none
  | a :: bs =>
    if a ≤ 0x7F then some (a, bs)
    else if 0xC0 ≤ a ∧ a ≤ 0xDF then decodeTwo a bs
    else if 0xE0 ≤ a ∧ a ≤ 0xEF then decodeThree a bs
    else if 0xF0 ≤ a ∧ a ≤ 0xF7 then decodeFour a bs
    else none

/-- The code points of at most so many sequences. -/
def decodeSequences : ℕ → List ℕ → Option (List ℕ)
  | _, [] => some []
  | 0, _ :: _ => none
  | n + 1, b :: bs =>
    (decodeFirst (b :: bs)).bind fun (cp, rest) => (decodeSequences n rest).map (cp :: ·)

/-- The code points of bytes. -/
def decodeUtf8 (bytes : List ℕ) : Option (List ℕ) := decodeSequences bytes.length bytes

theorem decodeUtf8_cons {a : ℕ} (ha : a ≤ 0x7F) (bs : List ℕ) :
    decodeUtf8 (a :: bs) = (decodeUtf8 bs).map (a :: ·) := by
  rw [decodeUtf8, List.length_cons, decodeSequences, decodeFirst, if_pos ha]
  rfl

theorem decodeUtf8_replicate_append {a : ℕ} (ha : a ≤ 0x7F) (n : ℕ) (bs : List ℕ) :
    decodeUtf8 (List.replicate n a ++ bs) = (decodeUtf8 bs).map (List.replicate n a ++ ·) := by
  induction n with
  | zero => simp
  | succ n ih =>
    rw [List.replicate_succ, List.cons_append, decodeUtf8_cons ha, ih, Option.map_map]
    rfl

/-- The bytes of one sequence. -/
theorem decodeUtf8_of_first {a cp : ℕ} {bs : List ℕ} (h : decodeFirst (a :: bs) = some (cp, [])) :
    decodeUtf8 (a :: bs) = some [cp] := by
  rw [decodeUtf8, List.length_cons, decodeSequences, h, Option.bind_some]
  cases bs.length <;> rfl

theorem decodeUtf8_of_first_none {a : ℕ} {bs : List ℕ} (h : decodeFirst (a :: bs) = none) :
    decodeUtf8 (a :: bs) = none := by
  rw [decodeUtf8, List.length_cons, decodeSequences, h, Option.bind_none]

theorem isTail_of_lt {b : ℕ} (h : b < 64) : isTail (0x80 + b) = true := by
  rw [isTail, decide_eq_true_iff]
  omega

theorem decodeUtf8_two {a b : ℕ} (ha : a < 32) (hb : b < 64) (h : 0x80 ≤ a * 64 + b) :
    decodeUtf8 [0xC0 + a, 0x80 + b] = some [a * 64 + b] := by
  refine decodeUtf8_of_first ?_
  rw [decodeFirst, if_neg (by omega), if_pos (by omega), decodeTwo]
  simp only [Nat.add_sub_cancel_left, isTail_of_lt hb, true_and, if_pos h]

theorem decodeUtf8_three {a b c : ℕ} (ha : a < 16) (hb : b < 64) (hc : c < 64)
    (h : 0x800 ≤ a * 4096 + b * 64 + c)
    (hsurrogate : ¬(0xD800 ≤ a * 4096 + b * 64 + c ∧ a * 4096 + b * 64 + c ≤ 0xDFFF)) :
    decodeUtf8 [0xE0 + a, 0x80 + b, 0x80 + c] = some [a * 4096 + b * 64 + c] := by
  refine decodeUtf8_of_first ?_
  rw [decodeFirst, if_neg (by omega), if_neg (by omega), if_pos (by omega), decodeThree]
  simp only [Nat.add_sub_cancel_left, isTail_of_lt hb, isTail_of_lt hc, true_and,
    if_pos (And.intro h hsurrogate)]

/-- Sequences of four bytes may be too long for their code points, or beyond the last one. -/
theorem decodeUtf8_four {a b c d : ℕ} (ha : a < 8) (hb : b < 64) (hc : c < 64) (hd : d < 64) :
    decodeUtf8 [0xF0 + a, 0x80 + b, 0x80 + c, 0x80 + d] =
      if 0x10000 ≤ a * 262144 + b * 4096 + c * 64 + d ∧
          a * 262144 + b * 4096 + c * 64 + d ≤ 0x10FFFF then
        some [a * 262144 + b * 4096 + c * 64 + d] else none := by
  have hfirst : decodeFirst [0xF0 + a, 0x80 + b, 0x80 + c, 0x80 + d] =
      if 0x10000 ≤ a * 262144 + b * 4096 + c * 64 + d ∧
          a * 262144 + b * 4096 + c * 64 + d ≤ 0x10FFFF then
        some (a * 262144 + b * 4096 + c * 64 + d, []) else none := by
    rw [decodeFirst, if_neg (by omega), if_neg (by omega), if_neg (by omega), if_pos (by omega),
      decodeFour]
    simp only [Nat.add_sub_cancel_left, isTail_of_lt hb, isTail_of_lt hc, isTail_of_lt hd,
      true_and]
  split
  next h => exact decodeUtf8_of_first (hfirst.trans (if_pos h))
  next h => exact decodeUtf8_of_first_none (hfirst.trans (if_neg h))

end AHPy
