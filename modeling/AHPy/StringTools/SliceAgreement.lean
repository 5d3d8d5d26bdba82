import AHPy.MemoryView.SliceIndices

/-!
# Helpers for parts of strings

`__Pyx_PyBytes_SingleTailmatch`, `__Pyx_PyUnicode_Substring` and `__Pyx_decode_c_bytes`. A sum out
of the range of `Py_ssize_t` and an access outside a string are undefined (`Undefined`).
-/

namespace AHPy.StringTools

open ModuleWriter (SsizeType)
open MemoryView (ssizeMax adjustIndex inRange_iff one_le_ssizeMax)

variable {t : SsizeType} {α ε τ : Type}

inductive Undefined
  | overflow
  | outside

/-- The result of an operation in `Py_ssize_t`. -/
def ssize (t : SsizeType) (v : ℤ) : Except Undefined ℤ :=
  if t.InRange v then .ok v else .error .overflow

/-- The characters of a string; its length has type `Py_ssize_t`. -/
structure Chars (t : SsizeType) (α : Type) where
  chars : List α
  length_le : (chars.length : ℤ) ≤ ssizeMax t

namespace Chars

def length (s : Chars t α) : ℤ := s.chars.length

/-- The characters of a string from an offset on. -/
def read (s : Chars t α) (offset size : ℤ) : Except Undefined (List α) :=
  if 0 ≤ offset ∧ 0 ≤ size ∧ offset + size ≤ s.length then
    .ok ((s.chars.drop offset.toNat).take size.toNat)
  else .error .outside

end Chars

/-- A `str` object, with as many bytes for a character as its kind says. -/
structure UnicodeText (t : SsizeType) (α : Type) extends Chars t α where
  kind : ℕ
  kind_pos : 0 < kind
  size_le : (chars.length : ℤ) * kind ≤ ssizeMax t

/-- `decode_func`, or `PyUnicode_Decode` for an encoding. No bytes are decoded to the empty
    text. -/
structure Decoder (ε τ : Type) where
  decode : List UInt8 → Except ε τ
  empty : τ
  decode_nil : decode [] = .ok empty

/-! ## The helpers -/

/-- A start counted from the end if it is negative, at least zero. -/
def wrapStart (t : SsizeType) (length start : ℤ) : Except Undefined ℤ :=
  if start < 0 then do
    let start ← ssize t (start + length)
    return if start < 0 then 0 else start
  else return start

/-- A stop counted from the end if it is negative. -/
def wrapStop (t : SsizeType) (length stop : ℤ) : Except Undefined ℤ :=
  if stop < 0 then ssize t (stop + length) else return stop

/-- Where the search of `__Pyx_PyBytes_SingleTailmatch` is. -/
def tailStart (t : SsizeType) (subLen start stop direction : ℤ) : Except Undefined ℤ :=
  if direction > 0 then do
    let tail ← ssize t (stop - subLen)
    return if tail > start then tail else start
  else return start

/-- `__Pyx_PyBytes_SingleTailmatch`: `arg` has the bytes of the argument, or the exception of
    `PyObject_GetBuffer`. The match is at the end if the direction is positive. -/
def singleTailmatch [DecidableEq α] (self : Chars t α) (arg : Except ε (Chars t α))
    (start stop : t.Value) (direction : ℤ) : Except Undefined (Except ε Bool) :=
  match arg with
  | .error e => .ok (.error e)
  | .ok sub => do
    let stop ← (if stop > self.length then .ok self.length else wrapStop t self.length stop)
    let stop := if stop < 0 then 0 else stop
    let start ← wrapStart t self.length start
    let start ← tailStart t sub.length start stop direction
    let last ← ssize t (start + sub.length)
    if last ≤ stop then do
      let window ← self.read start sub.length
      return .ok (decide (window = sub.chars))
    else return .ok false

/-- `__Pyx_PyUnicode_Substring`: the characters of the result. -/
def substring (text : UnicodeText t α) (start stop : t.Value) : Except Undefined (List α) := do
  let length := text.length
  let start ← wrapStart t length start
  let stop ← (if (stop : ℤ) < 0 then wrapStop t length stop
    else .ok (if stop > length then length else stop))
  if stop ≤ start then return []
  if start = 0 ∧ stop = length then return text.chars
  -- The address is that of the first byte.
  let _ ← ssize t (start * text.kind)
  let size ← ssize t (stop - start)
  text.read start size

/-- `__Pyx_decode_c_bytes`: the text, or the exception of decoding. -/
def decodeCBytes (cstring : Chars t UInt8) (start stop : t.Value)
    (decoder : Decoder ε τ) : Except Undefined (Except ε τ) := do
  let length := cstring.length
  let negative : Bool := (start : ℤ) < 0 ∨ (stop : ℤ) < 0
  let start ← (if negative then wrapStart t length start else .ok (start : ℤ))
  let stop ← (if negative then wrapStop t length stop else .ok (stop : ℤ))
  let stop := if stop > length then length else stop
  if stop ≤ start then return .ok decoder.empty
  let size ← ssize t (stop - start)
  let bytes ← cstring.read start size
  return decoder.decode bytes

/-! ## The operations of Python -/

/-- `s[start:stop]`. -/
def slice (s : List α) (start stop : ℤ) : List α :=
  s.extract (adjustIndex s.length 0 s.length start).toNat
    (adjustIndex s.length 0 s.length stop).toNat

/-- A start counted from the end if it is negative; it may be after the end. -/
def wrapIndex (length v : ℤ) : ℤ := if v < 0 then max (v + length) 0 else v

/-- `s.startswith(sub, start, stop)`, or `s.endswith(sub, start, stop)` in the other direction: no
    text is in a part that would end before its start. -/
def Tailmatch (s sub : List α) (start stop direction : ℤ) : Prop :=
  wrapIndex s.length start ≤ adjustIndex s.length 0 s.length stop ∧
    if direction > 0 then sub <:+ slice s start stop else sub <+: slice s start stop

instance [DecidableEq α] (s sub : List α) (start stop direction : ℤ) :
    Decidable (Tailmatch s sub start stop direction) := inferInstanceAs (Decidable (_ ∧ _))

/-!
## Agreement of the helpers with Python

* `substring_eq`, `decodeCBytes_eq`: parts of texts and decoded parts are those of Python,
  for all bounds;
* `singleTailmatch_eq_iff`: the search is that of Python unless the sum of its start and the
  length of the argument overflows, as the start is not clamped to the string;
* `sliceHelpers_agree_iff`: all three.
-/

/-! ## Parts of lists -/

theorem prefix_extract_iff {s sub : List α} {a b : ℕ} (h : a + sub.length ≤ b) :
    sub <+: s.extract a b ↔ s.extract a (a + sub.length) = sub := by
  rw [List.prefix_iff_eq_take, List.extract_eq_take_drop, List.extract_eq_take_drop,
    List.take_take, min_eq_left (by omega), Nat.add_sub_cancel_left]
  exact eq_comm

theorem suffix_extract_iff {s sub : List α} {a b : ℕ} (h : a + sub.length ≤ b)
    (hb : b ≤ s.length) : sub <:+ s.extract a b ↔ s.extract (b - sub.length) b = sub := by
  have hlen : (s.extract a b).length = b - a := by
    rw [List.extract_eq_take_drop, List.length_take, List.length_drop]
    omega
  rw [List.suffix_iff_eq_drop, hlen, List.extract_eq_take_drop, List.extract_eq_take_drop,
    List.drop_take, List.drop_drop, show a + (b - a - sub.length) = b - sub.length by omega,
    show b - a - (b - a - sub.length) = b - (b - sub.length) by omega]
  exact eq_comm

theorem extract_of_le {s : List α} {a b : ℕ} (h : b ≤ a) : s.extract a b = [] := by
  rw [List.extract_eq_take_drop, Nat.sub_eq_zero_of_le h, List.take_zero]

/-! ## Bounds -/

theorem ssize_ok {v : ℤ} (hneg : -ssizeMax t - 1 ≤ v) (h : v ≤ ssizeMax t) : ssize t v = .ok v :=
  if_pos (inRange_iff.2 ⟨hneg, h⟩)

theorem ssize_overflow {v : ℤ} (h : ssizeMax t < v) : ssize t v = .error .overflow :=
  if_neg fun hr => by
    have := (inRange_iff.1 hr).2
    omega

section Bounds

variable {length : ℤ} (hlen : 0 ≤ length) (hmax : length ≤ ssizeMax t) (v : t.Value)

include hlen hmax

theorem wrapStart_eq : wrapStart t length v = .ok (wrapIndex length v) := by
  have hv := inRange_iff.1 v.2
  rw [wrapStart, wrapIndex]
  split
  next hneg =>
    rw [ssize_ok (by omega) (by omega)]
    change Except.ok (if (v : ℤ) + length < 0 then 0 else (v : ℤ) + length) = _
    congr 1
    split <;> omega
  next => rfl

theorem wrapStop_eq :
    wrapStop t length v = .ok (if (v : ℤ) < 0 then (v : ℤ) + length else (v : ℤ)) := by
  have hv := inRange_iff.1 v.2
  rw [wrapStop]
  split
  next hneg => exact ssize_ok (by omega) (by omega)
  next => rfl

end Bounds

theorem wrapIndex_nonneg (length v : ℤ) : 0 ≤ wrapIndex length v := by
  rw [wrapIndex]
  split <;> omega

theorem adjustIndex_start {length v : ℤ} (hlen : 0 ≤ length) :
    adjustIndex length 0 length v = min (wrapIndex length v) length := by
  rw [adjustIndex, wrapIndex]
  split <;> omega

theorem adjustIndex_bounds {length : ℤ} (hlen : 0 ≤ length) (v : ℤ) :
    0 ≤ adjustIndex length 0 length v ∧ adjustIndex length 0 length v ≤ length := by
  rw [adjustIndex]
  split <;> omega

theorem Chars.length_nonneg (s : Chars t α) : 0 ≤ s.length := Int.natCast_nonneg _

theorem Chars.read_eq {s : Chars t α} {a b : ℤ} (ha : 0 ≤ a) (hab : a ≤ b) (hb : b ≤ s.length) :
    s.read a (b - a) = .ok (s.chars.extract a.toNat b.toNat) := by
  rw [Chars.read, if_pos ⟨ha, by omega, by omega⟩, List.extract_eq_take_drop,
    show (b - a).toNat = b.toNat - a.toNat by omega]

/-! ## Parts of texts -/

/-- The part that starts before it ends, for a stop that is at most the length. -/
theorem slice_eq (s : Chars t α) {start stop stop' : ℤ} (hstop : stop' ≤ s.length)
    (hadjust : adjustIndex s.length 0 s.length stop = max stop' 0) :
    slice s.chars start stop =
      if stop' ≤ wrapIndex s.length start then []
      else s.chars.extract (wrapIndex s.length start).toNat stop'.toNat := by
  have hstart := wrapIndex_nonneg s.length start
  have hlen := s.length_nonneg
  rw [slice, show ((s.chars.length : ℕ) : ℤ) = s.length from rfl, hadjust,
    adjustIndex_start hlen]
  split
  next hle => exact extract_of_le (by omega)
  next hlt => rw [min_eq_left (by omega), max_eq_left (by omega)]

theorem substring_eq (text : UnicodeText t α) (start stop : t.Value) :
    substring text start stop = .ok (slice text.chars start stop) := by
  have hlen : 0 ≤ text.length := text.length_nonneg
  have hmax : text.length ≤ ssizeMax t := text.length_le
  obtain ⟨stop', hdef⟩ : ∃ stop' : ℤ, stop' = if (stop : ℤ) < 0 then (stop : ℤ) + text.length
      else if (stop : ℤ) > text.length then text.length else (stop : ℤ) := ⟨_, rfl⟩
  have hle : stop' ≤ text.length := by
    rw [hdef]
    split_ifs <;> omega
  have hclamp : (if (stop : ℤ) < 0 then wrapStop t text.length stop
      else .ok (if (stop : ℤ) > text.length then text.length else (stop : ℤ))) = .ok stop' := by
    rw [wrapStop_eq hlen hmax, hdef]
    split <;> rfl
  rw [slice_eq text.toChars hle (by
    rw [adjustIndex, hdef]
    split_ifs <;> omega), substring, wrapStart_eq hlen hmax]
  have hstart := wrapIndex_nonneg text.length start
  change ((if (stop : ℤ) < 0 then wrapStop t text.length stop
      else .ok (if (stop : ℤ) > text.length then text.length else (stop : ℤ))) >>= _) = _
  rw [hclamp]
  obtain ⟨start', hstart'⟩ : ∃ start' : ℤ, start' = wrapIndex text.length start := ⟨_, rfl⟩
  rw [← hstart'] at hstart ⊢
  change (if stop' ≤ start' then _ else _) = _
  split
  next => rfl
  next hlt =>
    split
    next hall =>
      rw [hall.1, hall.2]
      change _ = Except.ok (text.chars.extract 0 ((text.chars.length : ℕ) : ℤ).toNat)
      rw [Int.toNat_natCast, List.extract_eq_take_drop, List.drop_zero, Nat.sub_zero,
        List.take_length]
      rfl
    next =>
      have hbytes : start' * text.kind ≤ ssizeMax t :=
        (mul_le_mul_of_nonneg_right (show start' ≤ text.length by omega)
          (Int.natCast_nonneg _)).trans text.size_le
      have hnonneg : 0 ≤ start' * text.kind := mul_nonneg hstart (Int.natCast_nonneg _)
      have hone := one_le_ssizeMax t
      rw [ssize_ok (by omega) hbytes, ssize_ok (by omega) (by omega)]
      exact Chars.read_eq hstart (by omega) hle

theorem decodeCBytes_eq (cstring : Chars t UInt8) (start stop : t.Value) (decoder : Decoder ε τ) :
    decodeCBytes cstring start stop decoder =
      .ok (decoder.decode (slice cstring.chars start stop)) := by
  have hlen := cstring.length_nonneg
  have hmax : cstring.length ≤ ssizeMax t := cstring.length_le
  have hone := one_le_ssizeMax t
  obtain ⟨stop', hdef⟩ : ∃ stop' : ℤ, stop' = if (stop : ℤ) < 0 then (stop : ℤ) + cstring.length
      else (stop : ℤ) := ⟨_, rfl⟩
  obtain ⟨start', hstart'⟩ : ∃ start' : ℤ, start' = wrapIndex cstring.length start := ⟨_, rfl⟩
  have hstart := wrapIndex_nonneg cstring.length start
  -- Without a negative bound, wrapping changes nothing.
  have hwraps : ∀ negative : Bool, negative = decide ((start : ℤ) < 0 ∨ (stop : ℤ) < 0) →
      (if negative then wrapStart t cstring.length start else .ok (start : ℤ)) = .ok start' ∧
      (if negative then wrapStop t cstring.length stop else .ok (stop : ℤ)) = .ok stop' := by
    rintro negative rfl
    rw [wrapStart_eq hlen hmax, wrapStop_eq hlen hmax, hstart', hdef, wrapIndex]
    by_cases hs : (start : ℤ) < 0 <;> by_cases ht : (stop : ℤ) < 0 <;> simp [hs, ht]
  obtain ⟨hwrapStart, hwrapStop⟩ := hwraps _ rfl
  have hle : (if stop' > cstring.length then cstring.length else stop') ≤ cstring.length := by
    split <;> omega
  rw [slice_eq cstring hle (by
    rw [adjustIndex, hdef]
    split_ifs <;> omega), decodeCBytes]
  dsimp only
  rw [hwrapStart, hwrapStop, ← hstart']
  rw [← hstart'] at hstart
  change (if (if stop' > cstring.length then cstring.length else stop') ≤ start' then _ else _) = _
  generalize (if stop' > cstring.length then cstring.length else stop') = stop' at hle ⊢
  split
  next => rw [decoder.decode_nil]; rfl
  next hlt =>
    rw [ssize_ok (by omega) (by omega)]
    change (cstring.read start' (stop' - start') >>= _) = _
    rw [Chars.read_eq hstart (by omega) hle]
    rfl

/-! ## Matches at the ends -/

/-- Where a match of the given length would start. -/
def tailIndex (length subLen start stop direction : ℤ) : ℤ :=
  if direction > 0 then max (wrapIndex length start) (adjustIndex length 0 length stop - subLen)
  else wrapIndex length start

/-- A match would end at a value of `Py_ssize_t`. -/
def TailFits (self sub : Chars t α) (start stop direction : ℤ) : Prop :=
  tailIndex self.length sub.length start stop direction + sub.length ≤ ssizeMax t

instance (self sub : Chars t α) (start stop direction : ℤ) :
    Decidable (TailFits self sub start stop direction) := inferInstanceAs (Decidable (_ ≤ _))

section Tailmatch

variable [DecidableEq α] (self sub : Chars t α) (start stop : t.Value) (direction : ℤ)

/-- The search compares the characters where a match would be, if they are in the part. -/
theorem singleTailmatch_ok :
    singleTailmatch self (.ok sub : Except ε (Chars t α)) start stop direction =
      (ssize t (tailIndex self.length sub.length start stop direction + sub.length)).bind
        fun last =>
          .ok (.ok (decide (last ≤ adjustIndex self.length 0 self.length stop ∧
            self.chars.extract (tailIndex self.length sub.length start stop direction).toNat
              last.toNat = sub.chars))) := by
  have hlen := self.length_nonneg
  have hmax : self.length ≤ ssizeMax t := self.length_le
  have hsub := sub.length_nonneg
  have hsubMax : sub.length ≤ ssizeMax t := sub.length_le
  have hstart := wrapIndex_nonneg self.length start
  obtain ⟨hstop, hstopLe⟩ := adjustIndex_bounds hlen (stop : ℤ)
  have hclamp : ∃ stop' : ℤ,
      (if (stop : ℤ) > self.length then .ok self.length else wrapStop t self.length stop) =
        .ok stop' ∧
      (if stop' < 0 then 0 else stop') = adjustIndex self.length 0 self.length stop := by
    rw [wrapStop_eq hlen hmax, adjustIndex]
    split
    next h => exact ⟨_, rfl, by split_ifs <;> omega⟩
    next h => exact ⟨_, rfl, by split_ifs <;> omega⟩
  obtain ⟨stop', hwrap, hadjust⟩ := hclamp
  have htail : tailStart t sub.length (wrapIndex self.length start)
      (adjustIndex self.length 0 self.length stop) direction =
        .ok (tailIndex self.length sub.length start stop direction) := by
    rw [tailStart, tailIndex]
    split
    next =>
      rw [ssize_ok (by omega) (by omega)]
      change Except.ok (if adjustIndex self.length 0 self.length stop - sub.length >
        wrapIndex self.length start then _ else _) = _
      congr 1
      split <;> omega
    next => rfl
  have htailNonneg : 0 ≤ tailIndex self.length sub.length start stop direction := by
    rw [tailIndex]
    split <;> omega
  rw [singleTailmatch]
  dsimp only
  rw [hwrap]
  change (wrapStart t self.length start >>= _) = _
  rw [wrapStart_eq hlen hmax]
  change (tailStart t sub.length (wrapIndex self.length start)
    (if stop' < 0 then 0 else stop') direction >>= _) = _
  rw [hadjust, htail]
  change (ssize t (tailIndex self.length sub.length start stop direction + sub.length) >>= _) = _
  generalize tailIndex self.length sub.length start stop direction = tail at htailNonneg ⊢
  rw [ssize]
  split
  next =>
    change (if tail + sub.length ≤ adjustIndex self.length 0 self.length stop then _ else _) = _
    split
    next hle =>
      have hread := self.read_eq (b := tail + sub.length) htailNonneg (by omega) (by omega)
      rw [add_sub_cancel_left] at hread
      rw [hread]
      change Except.ok (Except.ok (decide _)) = Except.ok (Except.ok (decide _))
      simp only [hle, true_and]
    next hlt =>
      change _ = Except.ok (Except.ok (decide _))
      simp only [hlt, false_and, decide_false]
      rfl
  next => rfl

omit [DecidableEq α] in
theorem tailmatch_iff : Tailmatch self.chars sub.chars start stop direction ↔
    tailIndex self.length sub.length start stop direction + sub.length ≤
        adjustIndex self.length 0 self.length stop ∧
      self.chars.extract (tailIndex self.length sub.length start stop direction).toNat
        (tailIndex self.length sub.length start stop direction + sub.length).toNat =
          sub.chars := by
  have hlen := self.length_nonneg
  have hstart := wrapIndex_nonneg self.length start
  obtain ⟨hstop, hstopLe⟩ := adjustIndex_bounds hlen (stop : ℤ)
  have hsub : sub.length = (sub.chars.length : ℤ) := rfl
  have hself : self.length = (self.chars.length : ℤ) := rfl
  rw [Tailmatch, slice, ← hself, adjustIndex_start hlen (v := start), tailIndex]
  generalize wrapIndex self.length start = a at hstart ⊢
  generalize adjustIndex self.length 0 self.length stop = b at hstop hstopLe ⊢
  by_cases hab : a ≤ b
  · rw [min_eq_left (hab.trans hstopLe)]
    have hcount : (self.chars.extract a.toNat b.toNat).length = b.toNat - a.toNat := by
      rw [List.extract_eq_take_drop, List.length_take, List.length_drop]
      omega
    by_cases hfits : a + sub.length ≤ b
    · split
      next =>
        rw [suffix_extract_iff (by omega) (by omega), max_eq_right (by omega),
          show (b - sub.length + sub.length).toNat = b.toNat by omega,
          show (b - sub.length).toNat = b.toNat - sub.chars.length by omega]
        exact and_congr_left fun _ => by omega
      next =>
        rw [prefix_extract_iff (by omega),
          show (a + sub.length).toNat = a.toNat + sub.chars.length by omega]
        exact and_congr_left fun _ => by omega
    · refine iff_of_false (fun h => ?_) (fun h => hfits ?_)
      · have hle : sub.chars.length ≤ b.toNat - a.toNat := by
          have h := h.2
          split at h
          next => exact hcount ▸ h.length_le
          next => exact hcount ▸ h.length_le
        omega
      · have h := h.1
        split at h <;> omega
  · refine iff_of_false (fun h => hab h.1) (fun h => hab ?_)
    have h := h.1
    split at h <;> omega

theorem singleTailmatch_eq_iff :
    singleTailmatch self (.ok sub : Except ε (Chars t α)) start stop direction =
        .ok (.ok (decide (Tailmatch self.chars sub.chars start stop direction))) ↔
      TailFits self sub start stop direction := by
  have htail : 0 ≤ tailIndex self.length sub.length start stop direction := by
    have hstart := wrapIndex_nonneg self.length start
    rw [tailIndex]
    split <;> omega
  have hsub := sub.length_nonneg
  have hone := one_le_ssizeMax t
  rw [singleTailmatch_ok, TailFits,
    decide_eq_decide.2 (tailmatch_iff self sub start stop direction)]
  refine ⟨fun h => ?_, fun h => ?_⟩
  · by_contra hlt
    rw [ssize_overflow (by omega)] at h
    cases h
  · rw [ssize_ok (by omega) h]
    rfl

end Tailmatch

/-- The parts of texts and of decoded bytes are those of Python for all bounds. The search at an
    end is, exactly if a match would end at a value of `Py_ssize_t`. -/
theorem sliceHelpers_agree_iff (self : Chars t UInt8) (arg : Except ε (Chars t UInt8))
    (start stop : t.Value) (direction : ℤ) (text : UnicodeText t α) (cstring : Chars t UInt8)
    (decoder : Decoder ε τ) :
    (singleTailmatch self arg start stop direction =
        .ok (arg.map fun sub => decide (Tailmatch self.chars sub.chars start stop direction)) ↔
      ∀ sub, arg = .ok sub → TailFits self sub start stop direction) ∧
    substring text start stop = .ok (slice text.chars start stop) ∧
    decodeCBytes cstring start stop decoder =
      .ok (decoder.decode (slice cstring.chars start stop)) := by
  refine ⟨?_, substring_eq text start stop, decodeCBytes_eq cstring start stop decoder⟩
  cases arg with
  | error e => exact iff_of_true rfl fun sub h => by cases h
  | ok sub =>
    refine (singleTailmatch_eq_iff self sub start stop direction).trans ⟨fun h sub' h' => ?_,
      fun h => h sub rfl⟩
    obtain rfl := Except.ok.inj h'
    exact h

theorem length_oneByte : (([97] : List UInt8).length : ℤ) ≤ ssizeMax ModuleWriter.ssize64 := by
  decide

theorem inRange_ssizeMax : ModuleWriter.ssize64.InRange (2 ^ 63 - 1) := by
  decide

/-- `b"a"`. -/
def oneByte : Chars ModuleWriter.ssize64 UInt8 := ⟨[97], length_oneByte⟩

/-- `PY_SSIZE_T_MAX`. -/
def lastIndex : ModuleWriter.ssize64.Value := ⟨2 ^ 63 - 1, inRange_ssizeMax⟩

/-- `b"a".startswith(b"a", PY_SSIZE_T_MAX)` is false in Python. -/
theorem not_agrees_lastIndex :
    ¬Tailmatch oneByte.chars oneByte.chars lastIndex lastIndex (-1) ∧
    singleTailmatch oneByte (.ok oneByte : Except Empty _) lastIndex lastIndex (-1) =
      .error .overflow := by
  refine ⟨by decide, ?_⟩
  rw [singleTailmatch_ok, ssize_overflow (by decide)]
  rfl

end AHPy.StringTools
