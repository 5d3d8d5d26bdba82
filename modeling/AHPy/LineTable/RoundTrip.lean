import AHPy.Lib.LocationTables

/-!
# Line tables

`build_line_table` and `encode_single_position`: the source ranges of a function as
the location table of its code object.

* `decodeTable_buildLineTable`: what a table is read as, for every list of ranges
  that has one: a range is above its place by the lines that the ranges before it
  have after their first ones;
* `linetable_conforms_iff`: a table is read as the ranges that it was built from exactly if
  only the last one has more than one line.
-/

namespace AHPy.LineTable

open LocationTable

/-! ## The table -/

/-- `(start_lineno, end_lineno, start_col_offset, end_col_offset)` -/
structure Position where
  startLineno : ℤ
  endLineno : ℤ
  startColumn : ℕ
  endColumn : ℕ

def encodeLocationStart (code : ℕ) : List ℕ := [128 ||| (code <<< 3)]

def encodeLocationShort (startColumn endColumn : ℕ) : List ℕ :=
  let lowBits := startColumn &&& 7
  let code := startColumn >>> 3
  [128 ||| (code <<< 3), (lowBits <<< 4) ||| (endColumn - startColumn)]

def encodeLocationOneline (lineDelta startColumn endColumn : ℕ) : List ℕ :=
  let code := 10 + lineDelta
  [128 ||| (code <<< 3), startColumn, endColumn]

/-- The loop of `encode_varint`. -/
def varintBytes (value : ℕ) : List ℕ :=
  if 64 ≤ value then (64 ||| (value &&& 63)) :: varintBytes (value >>> 6) else [value]
termination_by value
decreasing_by
  rw [Nat.shiftRight_eq_div_pow]
  omega

/-- `encode_varint`: a negative value is an `AssertionError`. -/
def encodeVarint (value : ℤ) : Option (List ℕ) :=
  if value > 0 ∨ value = 0 then some (varintBytes value.toNat) else none

/-- `encode_single_position`: the bytes, and the `last_lineno` of the next call. -/
def encodeSinglePosition (position : Position) (lastLineno : ℤ) : Option (List ℕ × ℤ) :=
  if position.startLineno ≥ lastLineno then
    let lastLinenoDelta := position.startLineno - lastLineno
    let columns : ℤ := position.endColumn - position.startColumn
    if position.endLineno = position.startLineno ∧
        lastLinenoDelta = 0 ∧ position.startColumn < 80 ∧ 0 ≤ columns ∧ columns < 16 then
      some (encodeLocationShort position.startColumn position.endColumn, position.endLineno)
    else if position.endLineno = position.startLineno ∧
        0 ≤ lastLinenoDelta ∧ lastLinenoDelta < 3 ∧
        position.startColumn < 128 ∧ position.endColumn < 128 then
      some (encodeLocationOneline lastLinenoDelta.toNat position.startColumn position.endColumn,
        position.endLineno)
    else do
      let delta ← encodeVarint (lastLinenoDelta <<< (1 : ℕ))
      let lines ← encodeVarint (position.endLineno - position.startLineno)
      let startColumn ← encodeVarint (position.startColumn + 1)
      let endColumn ← encodeVarint (position.endColumn + 1)
      some (encodeLocationStart 14 ++ delta ++ lines ++ startColumn ++ endColumn,
        position.endLineno)
  else none

/-- The loop of `build_line_table`. -/
def encodePositions : List Position → ℤ → Option (List ℕ)
  | [], _ => some []
  | position :: positions, lastLineno => do
    let (bytes, lastLineno) ← encodeSinglePosition position lastLineno
    let rest ← encodePositions positions lastLineno
    some (bytes ++ rest)

/-- `build_line_table`; `none` is an `AssertionError`. -/
def buildLineTable (positions : List Position) (firstlineno : ℤ) : Option (List ℕ) :=
  encodePositions positions firstlineno

/-- A range, as it is read from a table. -/
def Position.location (position : Position) : Location where
  startLine := position.startLineno
  endLine := position.endLineno
  startColumn := position.startColumn
  endColumn := position.endColumn

/-- Ranges from the first line on, in the order of the lines they start at. -/
structure SourceRanges (firstlineno : ℤ) (positions : List Position) : Prop where
  first_le : ∀ p ∈ positions, firstlineno ≤ p.startLineno
  start_le : ∀ p ∈ positions, p.startLineno ≤ p.endLineno
  sorted : positions.Pairwise fun p q => p.startLineno ≤ q.startLineno

/-- There is a table, of bytes, and it is read as the ranges. -/
def Conforms (firstlineno : ℤ) (positions : List Position) : Prop :=
  ∃ table, buildLineTable positions firstlineno = some table ∧ (∀ b ∈ table, b < 256) ∧
    decodeTable firstlineno table = some (positions.map Position.location)

/-! ## Reading an entry -/

theorem readVarint_varintBytes (value : ℕ) (rest : List ℕ) :
    readVarint (varintBytes value ++ rest) = some (value, rest) := by
  induction value using Nat.strong_induction_on with
  | _ value ih =>
    rw [varintBytes]
    split
    next h =>
      have hshift : value >>> 6 = value / 64 := Nat.shiftRight_eq_div_pow value 6
      have hlow : value &&& 63 = value % 64 := Nat.and_two_pow_sub_one_eq_mod value 6
      have hrest := ih (value >>> 6) (by omega)
      rw [List.cons_append, readVarint_group (by omega) hrest, hshift, hlow, Nat.mod_add_div]
    next h => exact readVarint_last (by omega) rest

theorem readSignedVarint_varintBytes (value : ℕ) (rest : List ℕ) :
    readSignedVarint (varintBytes (value <<< 1) ++ rest) = some ((value : ℤ), rest) :=
  readSignedVarint_shift (readVarint_varintBytes (value <<< 1) rest)

theorem encodeVarint_natCast (value : ℕ) : encodeVarint (value : ℤ) = some (varintBytes value) := by
  rw [encodeVarint, if_pos (by omega), Int.toNat_natCast]

theorem encodeVarint_of_neg {value : ℤ} (h : value < 0) : encodeVarint value = none := by
  rw [encodeVarint, if_neg (by omega)]

theorem varintBytes_lt (value : ℕ) : ∀ b ∈ varintBytes value, b < 256 := by
  induction value using Nat.strong_induction_on with
  | _ value ih =>
    rw [varintBytes]
    split
    next h =>
      have hshift : value >>> 6 = value / 64 := Nat.shiftRight_eq_div_pow value 6
      have hlow : value &&& 63 = value % 64 := Nat.and_two_pow_sub_one_eq_mod value 6
      rintro b hb
      rcases List.mem_cons.1 hb with rfl | hb
      · exact Nat.or_lt_two_pow (n := 8) (by omega) (by omega)
      · exact ih _ (by omega) b hb
    next h =>
      rintro b hb
      rw [List.mem_singleton.1 hb]
      omega

theorem natCast_shiftLeft (value : ℕ) : (value : ℤ) <<< (1 : ℕ) = ((value <<< 1 : ℕ) : ℤ) := by
  rw [Int.shiftLeft_eq, Nat.shiftLeft_eq]
  rfl

/-- The code in a first byte. -/
theorem first_code : ∀ code < 16, 128 ||| (code <<< 3) < 256 ∧
    ¬128 ||| (code <<< 3) < 128 ∧ ((128 ||| (code <<< 3)) >>> 3) &&& 15 = code := by
  decide

theorem second_byte : ∀ low < 8, ∀ columns < 16, (low <<< 4) ||| columns < 256 ∧
    ((low <<< 4) ||| columns) >>> 4 = low ∧ ((low <<< 4) ||| columns) &&& 15 = columns := by
  decide

theorem short_column : ∀ column < 80, column >>> 3 < 10 ∧ column &&& 7 < 8 ∧
    (column >>> 3) <<< 3 ||| (column &&& 7) = column := by
  decide

theorem decodeLocation_short (line : ℤ) {startColumn endColumn : ℕ} (hstart : startColumn < 80)
    (hle : startColumn ≤ endColumn) (hlt : endColumn - startColumn < 16) (rest : List ℕ) :
    decodeLocation line (encodeLocationShort startColumn endColumn ++ rest) =
      some (⟨line, line, startColumn, endColumn⟩, line, rest) := by
  obtain ⟨hcode, hlow, hcolumn⟩ := short_column startColumn hstart
  obtain ⟨hbyte, hbyte', hfirst⟩ := first_code (startColumn >>> 3) (by omega)
  obtain ⟨-, hhigh, hcolumns⟩ := second_byte (startColumn &&& 7) hlow _ hlt
  simp only [encodeLocationShort, decodeLocation, List.cons_append, List.nil_append, readByte,
    Option.bind_eq_bind, Option.bind_some, hfirst, hhigh, hcolumns, hcolumn]
  rw [if_neg (by omega), if_neg (by omega), if_neg (by omega), if_neg (by omega),
    if_neg (by omega)]
  have hsum : (startColumn : ℤ) + ((endColumn - startColumn : ℕ) : ℤ) = endColumn := by omega
  rw [hsum]

theorem decodeLocation_oneline (line : ℤ) {lineDelta : ℕ} (hdelta : lineDelta < 3)
    (startColumn endColumn : ℕ) (rest : List ℕ) :
    decodeLocation line (encodeLocationOneline lineDelta startColumn endColumn ++ rest) =
      some (⟨line + lineDelta, line + lineDelta, startColumn, endColumn⟩, line + lineDelta,
        rest) := by
  obtain ⟨hbyte, hbyte', hfirst⟩ := first_code (10 + lineDelta) (by omega)
  simp only [encodeLocationOneline, decodeLocation, List.cons_append, List.nil_append, readByte,
    Option.bind_eq_bind, Option.bind_some, hfirst]
  rw [if_neg (by omega), if_neg (by omega), if_neg (by omega), if_neg (by omega),
    if_pos (by omega), Nat.add_sub_cancel_left]

theorem decodeLocation_long (line : ℤ) (delta lines startColumn endColumn : ℕ) (rest : List ℕ) :
    decodeLocation line (encodeLocationStart 14 ++ varintBytes (delta <<< 1) ++ varintBytes lines ++
        varintBytes (startColumn + 1) ++ varintBytes (endColumn + 1) ++ rest) =
      some (⟨line + delta, line + delta + lines, startColumn, endColumn⟩, line + delta, rest) := by
  obtain ⟨hbyte, hbyte', hfirst⟩ := first_code 14 (by omega)
  simp only [encodeLocationStart, decodeLocation, List.append_assoc, List.cons_append,
    List.nil_append, readByte, Option.bind_eq_bind, Option.bind_some, hfirst,
    readSignedVarint_varintBytes, readVarint_varintBytes]
  rw [if_neg (by omega), if_neg (by omega), if_pos trivial]
  simp only [Nat.cast_add, Nat.cast_one, add_sub_cancel_right]

/-- Where `encode_single_position` has bytes, they are one entry, in which the lines are
    counted from `last_lineno`, wherever the reader has the line before. -/
theorem decodeLocation_of_encode {position : Position} {lastLineno next : ℤ}
    {bytes : List ℕ} (h : encodeSinglePosition position lastLineno = some (bytes, next))
    (line : ℤ) (rest : List ℕ) :
    bytes ≠ [] ∧ (∀ b ∈ bytes, b < 256) ∧ next = position.endLineno ∧
      decodeLocation line (bytes ++ rest) =
        some (⟨line + (position.startLineno - lastLineno),
          line + (position.startLineno - lastLineno) +
            (position.endLineno - position.startLineno), position.startColumn,
          position.endColumn⟩, line + (position.startLineno - lastLineno), rest) := by
  rw [encodeSinglePosition] at h
  split at h
  next hsorted =>
    obtain ⟨delta, hdelta⟩ := Int.eq_ofNat_of_zero_le (sub_nonneg.2 hsorted)
    simp only [hdelta] at h ⊢
    split at h
    next hshort =>
      obtain ⟨hline, hzero, hstart, hle, hlt⟩ := hshort
      obtain ⟨rfl, rfl⟩ := Prod.mk.inj (Option.some.inj h)
      obtain ⟨hcode, hlow, -⟩ := short_column position.startColumn hstart
      refine ⟨List.cons_ne_nil _ _, ?_, rfl, ?_⟩
      · rintro b hb
        rcases List.mem_cons.1 hb with rfl | hb
        · exact (first_code _ (by omega)).1
        · rw [List.mem_singleton.1 hb]
          exact (second_byte _ hlow _ (by omega)).1
      · rw [decodeLocation_short line hstart (by omega) (by omega), hzero, hline, sub_self,
          add_zero, add_zero]
    next =>
      split at h
      next honeline =>
        obtain ⟨hline, -, hdelta3, hstart, hend⟩ := honeline
        obtain ⟨rfl, rfl⟩ := Prod.mk.inj (Option.some.inj h)
        refine ⟨List.cons_ne_nil _ _, ?_, rfl, ?_⟩
        · rintro b hb
          simp only [encodeLocationOneline, List.mem_cons, List.not_mem_nil, or_false,
            Int.toNat_natCast] at hb
          rcases hb with rfl | rfl | rfl
          · exact (first_code _ (by omega)).1
          · omega
          · omega
        · rw [Int.toNat_natCast, decodeLocation_oneline line (by omega), hline, sub_self, add_zero]
      next =>
        rcases lt_or_ge position.endLineno position.startLineno with hneg | hlines
        · simp only [natCast_shiftLeft, encodeVarint_natCast, encodeVarint_of_neg (sub_neg.2 hneg),
            Option.bind_eq_bind, Option.bind_some, Option.bind_none, reduceCtorEq] at h
        · obtain ⟨lines, hcount⟩ := Int.eq_ofNat_of_zero_le (sub_nonneg.2 hlines)
          simp only [hcount, natCast_shiftLeft, ← Nat.cast_succ, encodeVarint_natCast,
            Option.bind_eq_bind, Option.bind_some] at h
          obtain ⟨rfl, rfl⟩ := Prod.mk.inj (Option.some.inj h)
          refine ⟨List.cons_ne_nil _ _, ?_, rfl, ?_⟩
          · rintro b hb
            simp only [List.mem_append] at hb
            rcases hb with (((hb | hb) | hb) | hb) | hb
            · rw [List.mem_singleton.1 hb]
              exact (first_code 14 (by omega)).1
            all_goals exact varintBytes_lt _ b hb
          · rw [decodeLocation_long, hcount]
  next => cases h

/-! ## Reading a table -/

/-- Ranges that are above their places by a number of lines, and by those that the ranges
    before them have after their first ones. -/
def raised (lag : ℤ) : List Position → List Location
  | [] => []
  | p :: ps =>
    ⟨p.startLineno - lag, p.endLineno - lag, p.startColumn, p.endColumn⟩ ::
      raised (lag + (p.endLineno - p.startLineno)) ps

theorem encodePositions_cons {position : Position} {positions : List Position} {lastLineno : ℤ}
    {table : List ℕ} (h : encodePositions (position :: positions) lastLineno = some table) :
    ∃ bytes next rest, encodeSinglePosition position lastLineno = some (bytes, next) ∧
      encodePositions positions next = some rest ∧ table = bytes ++ rest := by
  rw [encodePositions] at h
  obtain ⟨⟨bytes, next⟩, hsingle, h⟩ := Option.bind_eq_some_iff.1 h
  obtain ⟨rest, hrest, h⟩ := Option.bind_eq_some_iff.1 h
  exact ⟨bytes, next, rest, hsingle, hrest, (Option.some.inj h).symm⟩

/-- By induction on the ranges: the writer is at the end of a range, and the reader at its
    start. -/
theorem decodeLocations_encodePositions (positions : List Position) :
    ∀ (lag : ℤ) {lastLineno : ℤ} {table : List ℕ},
      encodePositions positions lastLineno = some table →
      (∀ b ∈ table, b < 256) ∧ positions.length ≤ table.length ∧
        ∀ fuel, positions.length ≤ fuel →
          decodeLocations fuel (lastLineno - lag) table = some (raised lag positions) := by
  induction positions with
  | nil =>
    intro lag lastLineno table h
    obtain rfl := Option.some.inj h
    refine ⟨fun b hb => absurd hb List.not_mem_nil, Nat.le_refl 0, fun fuel _ => ?_⟩
    rw [decodeLocations, raised]
  | cons p positions ih =>
    intro lag lastLineno table h
    obtain ⟨bytes, next, rest, hsingle, hrest, rfl⟩ := encodePositions_cons h
    obtain ⟨hne, hbytes, rfl, hentry⟩ :=
      decodeLocation_of_encode hsingle (lastLineno - lag) rest
    obtain ⟨hbytes', hlength, hdecode⟩ :=
      ih (lag + (p.endLineno - p.startLineno)) hrest
    have hpos := List.length_pos_of_ne_nil hne
    refine ⟨?_, ?_, ?_⟩
    · rintro b hb
      rcases List.mem_append.1 hb with hb | hb
      · exact hbytes b hb
      · exact hbytes' b hb
    · rw [List.length_append, List.length_cons]
      omega
    · intro fuel hfuel
      obtain ⟨fuel, rfl⟩ := Nat.exists_eq_add_of_lt (Nat.lt_of_lt_of_le (Nat.succ_pos _) hfuel)
      rw [List.length_cons] at hfuel
      have hline : lastLineno - lag + (p.startLineno - lastLineno) =
          p.endLineno - (lag + (p.endLineno - p.startLineno)) := by ring
      rw [Nat.zero_add, decodeLocations_cons hne hentry, hline, hdecode fuel (by omega),
        Option.map_some, raised]
      have hstart : p.endLineno - (lag + (p.endLineno - p.startLineno)) = p.startLineno - lag := by
        ring
      have hend : p.startLineno - lag + (p.endLineno - p.startLineno) = p.endLineno - lag := by ring
      rw [hstart, hend]

/-- What a table is read as. -/
theorem decodeTable_buildLineTable {positions : List Position} {firstlineno : ℤ} {table : List ℕ}
    (h : buildLineTable positions firstlineno = some table) :
    (∀ b ∈ table, b < 256) ∧ decodeTable firstlineno table = some (raised 0 positions) := by
  obtain ⟨hbytes, hlength, hdecode⟩ := decodeLocations_encodePositions positions 0 h
  have htable := hdecode table.length hlength
  rw [sub_zero] at htable
  exact ⟨hbytes, htable⟩

theorem raised_eq_map_iff (positions : List Position) (lag : ℤ) :
    raised lag positions = positions.map Position.location ↔
      (positions ≠ [] → lag = 0) ∧ ∀ p ∈ positions.dropLast, p.endLineno = p.startLineno := by
  induction positions generalizing lag with
  | nil => simp [raised]
  | cons p positions ih =>
    rw [raised, List.map_cons, List.cons.injEq, ih, Position.location, Location.mk.injEq]
    rcases positions with _ | ⟨q, positions⟩
    · simp
    · simp only [ne_eq, reduceCtorEq, not_false_eq_true, forall_true_left, List.dropLast_cons_cons,
        List.mem_cons, forall_eq_or_imp, and_true]
      constructor
      · rintro ⟨⟨hstart, hend⟩, hlag, hrest⟩
        exact ⟨by omega, by omega, hrest⟩
      · rintro ⟨rfl, hline, hrest⟩
        exact ⟨⟨by omega, by omega⟩, by omega, hrest⟩

/-! ## Which ranges are read back -/

theorem isSome_encodeSinglePosition {position : Position} {lastLineno : ℤ}
    (hstart : lastLineno ≤ position.startLineno)
    (hend : position.startLineno ≤ position.endLineno) :
    ∃ bytes, encodeSinglePosition position lastLineno = some (bytes, position.endLineno) := by
  obtain ⟨delta, hdelta⟩ := Int.eq_ofNat_of_zero_le (sub_nonneg.2 hstart)
  obtain ⟨lines, hlines⟩ := Int.eq_ofNat_of_zero_le (sub_nonneg.2 hend)
  rw [encodeSinglePosition, if_pos hstart]
  simp only [hdelta, hlines, natCast_shiftLeft, ← Nat.cast_succ, encodeVarint_natCast,
    Option.bind_eq_bind, Option.bind_some]
  split
  · exact ⟨_, rfl⟩
  · split
    · exact ⟨_, rfl⟩
    · exact ⟨_, rfl⟩

/-- Ranges of one line each are never out of order. -/
theorem isSome_encodePositions (positions : List Position) : ∀ {lastLineno : ℤ},
    SourceRanges lastLineno positions →
    (∀ p ∈ positions.dropLast, p.endLineno = p.startLineno) →
      ∃ table, encodePositions positions lastLineno = some table := by
  induction positions with
  | nil => exact fun _ _ => ⟨[], rfl⟩
  | cons p positions ih =>
    intro lastLineno h hlines
    have hsorted := List.pairwise_cons.1 h.sorted
    obtain ⟨bytes, hsingle⟩ := isSome_encodeSinglePosition (h.first_le p List.mem_cons_self)
      (h.start_le p List.mem_cons_self)
    obtain ⟨rest, hrest⟩ : ∃ rest, encodePositions positions p.endLineno = some rest := by
      rcases positions with _ | ⟨q, positions⟩
      · exact ⟨[], rfl⟩
      · rw [List.dropLast_cons_cons] at hlines
        have hp := hlines p List.mem_cons_self
        refine ih ⟨fun r hr => ?_, fun r hr => h.start_le r (List.mem_cons_of_mem _ hr), hsorted.2⟩
          fun r hr => hlines r (List.mem_cons_of_mem _ hr)
        rw [hp]
        exact hsorted.1 r hr
    refine ⟨bytes ++ rest, ?_⟩
    rw [encodePositions, hsingle]
    simp only [Option.bind_eq_bind, Option.bind_some, hrest]

/-- A table is read as the ranges that it was built from exactly if only the last one has more
    than one line. -/
theorem linetable_conforms_iff {firstlineno : ℤ} {positions : List Position}
    (h : SourceRanges firstlineno positions) :
    Conforms firstlineno positions ↔
      ∀ p ∈ positions.dropLast, p.endLineno = p.startLineno := by
  constructor
  · rintro ⟨table, htable, -, hdecode⟩
    rw [(decodeTable_buildLineTable htable).2, Option.some.injEq, raised_eq_map_iff] at hdecode
    exact hdecode.2
  · intro hlines
    obtain ⟨table, htable⟩ := isSome_encodePositions positions h hlines
    obtain ⟨hbytes, hdecode⟩ := decodeTable_buildLineTable htable
    refine ⟨table, htable, hbytes, ?_⟩
    rw [hdecode, (raised_eq_map_iff positions 0).2 ⟨fun _ => rfl, hlines⟩]

/-- A call over two lines, and a name in the line after it. -/
def afterCall : List Position := [⟨2, 3, 4, 5⟩, ⟨4, 4, 4, 8⟩]

theorem afterCall_sourceRanges : SourceRanges 1 afterCall where
  first_le := by decide
  start_le := by decide
  sorted := by decide

theorem conforms_iff_afterCall : SourceRanges 1 afterCall ∧
    (Conforms 1 afterCall ↔ ∀ p ∈ afterCall.dropLast, p.endLineno = p.startLineno) :=
  ⟨afterCall_sourceRanges, linetable_conforms_iff afterCall_sourceRanges⟩

/-- The name is read one line above its place. -/
theorem not_conforms_afterCall : SourceRanges 1 afterCall ∧ ¬Conforms 1 afterCall := by
  refine ⟨afterCall_sourceRanges, ?_⟩
  rintro ⟨table, htable, -, hdecode⟩
  rw [(decodeTable_buildLineTable htable).2, Option.some.injEq] at hdecode
  revert hdecode
  decide

end AHPy.LineTable
