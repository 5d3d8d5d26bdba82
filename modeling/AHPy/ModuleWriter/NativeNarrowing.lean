import AHPy.ModuleWriter.NativeScalars

/-!
# Narrowing to native storage

* `convert_integer`, `convert_floating`, `convert_bint`: what is converted, and to what;
* `eval_renderExternalCScalarLiteral`: what a rendered literal has as its value;
* `nativeScalar_readBack`: both paths, and what is read back.
-/

namespace AHPy.ModuleWriter

variable {m : DataModel} {kind : StorageKind} {n : PyNumber} {t via : CIntType} {v : ℤ}

/-! ## Integers -/

/-- The checked conversion to an integer type. -/
def readInteger (t : CIntType) : Option ℤ → Except NativeExc ℤ
  | none => .error .typeError
  | some v => if t.InRange v then .ok v else .error .overflowError

theorem readInteger_eq_ok_iff {o : Option ℤ} :
    readInteger t o = .ok v ↔ o = some v ∧ t.InRange v := by
  cases o with
  | none => simp [readInteger]
  | some u =>
    rw [readInteger]
    split
    next h =>
      rw [Except.ok.injEq, Option.some_inj]
      exact ⟨fun huv => ⟨huv, huv ▸ h⟩, And.left⟩
    next h =>
      constructor
      · rintro ⟨⟩
      · rintro ⟨huv, hv⟩
        obtain rfl := Option.some.inj huv
        exact absurd hv h

/-- The error value is told from the number `-1` by the exception. -/
theorem checkedResult_integerFromPython (o : Option ℤ) :
    checkedResult (t.convert (-1)) (integerFromPython t o) = readInteger t o := by
  cases o with
  | none => simp [checkedResult, integerFromPython, readInteger]
  | some v =>
    by_cases h : t.InRange v
    · simp [checkedResult, integerFromPython, readInteger, h]
    · simp [checkedResult, integerFromPython, readInteger, h]

/-- One type has the values of another. -/
def Within (t via : CIntType) : Prop :=
  via.lo ≤ t.lo ∧ t.lo + 2 ^ t.width ≤ via.lo + 2 ^ via.width

theorem Within.inRange (h : Within t via) (hv : t.InRange v) : via.InRange v :=
  ⟨h.1.trans hv.1, hv.2.trans_le h.2⟩

/-- A conversion through a type that is wide enough is one to the target. -/
theorem convertThrough_eq {checked minimum : Bool} (h : Within t via)
    (hchecked : checked = true ∨ t = via) (hminimum : minimum = true ∨ t.lo ≤ via.lo)
    (o : Option ℤ) :
    convertThrough via t checked minimum (integerFromPython via o) = readInteger t o := by
  rw [convertThrough, checkedResult_integerFromPython]
  cases o with
  | none => rfl
  | some v =>
    rw [readInteger, readInteger]
    by_cases hvia : via.InRange v
    · rw [if_pos hvia]
      change (checkedRange t checked minimum v).bind (fun v => .ok (t.convert v)) = _
      rw [checkedRange]
      by_cases ht : t.InRange v
      · have hlo := not_lt.2 ht.1
        have hhi : ¬t.lo + 2 ^ t.width - 1 < v := by
          have := ht.2
          omega
        simp [hlo, hhi, ht, CIntType.convert_of_inRange, Except.bind]
      · obtain rfl | hne := hchecked
        · have hout : (minimum && decide (v < t.lo) || decide (t.lo + 2 ^ t.width - 1 < v)) =
              true := by
            by_cases hlo : v < t.lo
            · obtain rfl | hle := hminimum
              · simp [hlo]
              · exact absurd (hvia.1.trans_lt hlo) (not_lt.2 hle)
            · have hhi : t.lo + 2 ^ t.width - 1 < v := by
                rw [CIntType.InRange] at ht
                omega
              simp [hhi]
          simp only [hout, ht, Bool.true_and, ↓reduceIte, Except.bind]
        · exact absurd (hne ▸ hvia) ht
    · rw [if_neg hvia, if_neg fun ht => hvia (h.inRange ht)]
      rfl

/-- The kinds whose conversion takes objects with `__index__`. -/
def StorageKind.takesIndex : StorageKind → Bool
  | .char | .signedChar | .signedShort | .signedInt | .signedLong | .signedLongLong => true
  | _ => false

/-- The integer that a conversion to a kind takes a number for. -/
def StorageKind.integerOf (kind : StorageKind) (n : PyNumber) : Option ℤ :=
  if kind.takesIndex then n.index else n.integer

theorem integer_eq_index (h : n.integer = some v) : n.index = some v := by
  cases n with
  | object => cases h
  | _ => exact h

theorem StorageKind.index_eq (h : kind.integerOf n = some v) : n.index = some v := by
  rw [StorageKind.integerOf] at h
  split at h
  next => exact h
  next => exact integer_eq_index h

theorem Within.refl (t : CIntType) : Within t t := ⟨le_rfl, le_rfl⟩

/-- A type has the values of one that is not wider and has the same signs. -/
theorem Within.of_width_le (hsigned : t.signed = via.signed) (hwidth : t.width ≤ via.width) :
    Within t via := by
  have h : (2 : ℤ) ^ (t.width - 1) ≤ 2 ^ (via.width - 1) :=
    pow_le_pow_right₀ (by norm_num) (by omega)
  have h' : (2 : ℤ) ^ t.width ≤ 2 ^ via.width := pow_le_pow_right₀ (by norm_num) hwidth
  rw [Within, CIntType.lo_add_two_pow, CIntType.lo_add_two_pow, CIntType.lo, CIntType.lo, hsigned]
  split
  next => exact ⟨neg_le_neg h, h⟩
  next => exact ⟨le_rfl, h'⟩

/-- A signed type has the values of every narrower one. -/
theorem Within.of_width_lt (hsigned : via.signed = true) (hwidth : t.width < via.width) :
    Within t via := by
  have h : (2 : ℤ) ^ (t.width - 1) ≤ 2 ^ (via.width - 1) :=
    pow_le_pow_right₀ (by norm_num) (by omega)
  have h' : (2 : ℤ) ^ t.width ≤ 2 ^ (via.width - 1) := pow_le_pow_right₀ (by norm_num) (by omega)
  have hpos : (0 : ℤ) < 2 ^ (via.width - 1) := by positivity
  rw [Within, CIntType.lo_add_two_pow, CIntType.lo_add_two_pow, CIntType.lo, CIntType.lo, hsigned,
    if_pos rfl, if_pos rfl]
  split
  next => exact ⟨neg_le_neg h, h⟩
  next => exact ⟨neg_nonpos.2 hpos.le, h'⟩

theorem long_signed (signed : Bool) : (m.long signed).signed = signed := by
  rw [DataModel.long]
  split <;> rfl

theorem le_width_long (signed : Bool) : 32 ≤ (m.long signed).width := by
  rw [DataModel.long]
  split
  · exact Nat.le_add_right 32 32
  · exact le_rfl
  · exact le_rfl

theorem lo_of_unsigned (h : t.signed = false) : t.lo = 0 := by
  rw [CIntType.lo, h]
  rfl

/-- The integer kinds are converted to exactly the integers of their types. -/
theorem convert_integer (h : m.cType kind = some t) :
    convertNativeScalarHandle m kind n = (readInteger t (kind.integerOf n)).map .int := by
  have hmap {β : Type} {x : Except NativeExc ℤ} {f : ℤ → β} :
      (do let v ← x; pure (f v)) = x.map f := by
    cases x <;> rfl
  have hsame (signed : Bool) {t : CIntType} (ht : t.signed = signed) (hw : t.width ≤ 32) :
      Within t (m.long signed) :=
    .of_width_le (ht.trans (long_signed signed).symm) (hw.trans (le_width_long signed))
  have hunsigned {t : CIntType} (ht : t.signed = false) : t.lo ≤ (m.long false).lo := by
    rw [lo_of_unsigned ht, lo_of_unsigned (long_signed false)]
  cases kind <;> cases h
  case pySsize | signedLongLong | unsignedLongLong =>
    simp only [convertNativeScalarHandle, checkedResult_integerFromPython]
    exact hmap
  all_goals
    simp only [convertNativeScalarHandle, DataModel.signedLongTypes, DataModel.unsignedLongTypes]
  case char =>
    have hwidth : m.char.width < (m.long true).width :=
      lt_of_lt_of_le (by decide : 8 < 32) (le_width_long true)
    rw [convertThrough_eq (.of_width_lt (long_signed true) hwidth) (.inl rfl) (.inl rfl)]
    exact hmap
  case signedLong =>
    rw [convertThrough_eq (.refl _) (.inr rfl) (.inl rfl)]
    exact hmap
  case unsignedLong =>
    rw [convertThrough_eq (.refl _) (.inr rfl) (.inr le_rfl)]
    exact hmap
  case signedChar | signedShort | signedInt =>
    rw [convertThrough_eq (hsame true ?_ ?_) (.inl rfl) (.inl rfl)]
    · exact hmap
    · rfl
    · decide
  case unsignedChar | unsignedShort | unsignedInt =>
    rw [convertThrough_eq (hsame false ?_ ?_) (.inl rfl) (.inr (hunsigned ?_))]
    · exact hmap
    · rfl
    · decide
    · rfl

/-- A number is converted to an integer kind if its integer is in range. -/
theorem convert_integer_eq_ok_iff (h : m.cType kind = some t) {s : NativeValue m} :
    convertNativeScalarHandle m kind n = .ok s ↔
      ∃ v, kind.integerOf n = some v ∧ t.InRange v ∧ s = .int v := by
  rw [convert_integer h]
  constructor
  · intro hok
    cases hr : readInteger t (kind.integerOf n) with
    | error e =>
      rw [hr] at hok
      cases hok
    | ok v =>
      rw [hr] at hok
      obtain ⟨hv, hin⟩ := readInteger_eq_ok_iff.1 hr
      exact ⟨v, hv, hin, (Except.ok.inj hok).symm⟩
  · rintro ⟨v, hv, hin, rfl⟩
    rw [readInteger_eq_ok_iff.2 ⟨hv, hin⟩]
    rfl

/-! ## Floats and truth values -/

theorem checkedResult_doubleFromPython :
    checkedResult (binary64.ofInt (-1)) (doubleFromPython n) = n.toFloat := by
  cases h : n.toFloat with
  | error e => simp [checkedResult, doubleFromPython, h]
  | ok x => simp [checkedResult, doubleFromPython, h]

/-- The value that a floating kind has for a float. -/
def StorageKind.floatValue (m : DataModel) (kind : StorageKind) (x : FloatValue binary64) :
    NativeValue m :=
  match kind with
  | .float => .float (x.convert binary32)
  | .longDouble => .longDouble (x.convert m.longDouble)
  | _ => .double x

theorem convert_floating (h : kind.isFloating = true) :
    convertNativeScalarHandle m kind n = n.toFloat.map (kind.floatValue m) := by
  have hmap {x : Except NativeExc (FloatValue binary64)} {f : FloatValue binary64 → NativeValue m} :
      (do let v ← x; pure (f v)) = x.map f := by
    cases x <;> rfl
  cases kind <;> cases h
  all_goals
    simp only [convertNativeScalarHandle, checkedResult_doubleFromPython]
    exact hmap

theorem char_convert (b : Bool) : m.char.convert (if b then 1 else 0) = if b then 1 else 0 := by
  refine CIntType.convert_of_inRange ?_
  have h : m.char.width = 8 := rfl
  cases hs : m.char.signed <;> cases b <;>
    simp [CIntType.InRange, CIntType.lo, hs, h]

/-- The integer of a truth value. -/
def truthInt (b : Bool) : ℤ := if b then 1 else 0

theorem convert_bint_eq_ok_iff {s : NativeValue m} :
    convertNativeScalarHandle m .bint n = .ok s ↔
      ∃ b, n.truth = some b ∧ s = .int (truthInt b) := by
  rcases h : n.truth with _ | b
  · have hconvert : convertNativeScalarHandle m .bint n = .error .other := by
      simp [convertNativeScalarHandle, truthTest, h]
    rw [hconvert]
    constructor
    · rintro ⟨⟩
    · rintro ⟨b, ⟨⟩, -⟩
  · have hconvert : convertNativeScalarHandle m .bint n = .ok (.int (truthInt b)) := by
      have hchar := char_convert (m := m) b
      cases b <;> simp_all [convertNativeScalarHandle, truthTest, truthInt]
    rw [hconvert]
    constructor
    · intro hok
      exact ⟨b, rfl, (Except.ok.inj hok).symm⟩
    · rintro ⟨b', hb, rfl⟩
      rw [Option.some.inj hb]

/-! ## Literals -/

/-- The numbers that literals have as their values. -/
inductive PyNumber.IsLiteral : PyNumber → Prop
  | bool (b : Bool) : IsLiteral (.bool b)
  | int (v : ℤ) : IsLiteral (.int v)
  | float (x : FloatValue binary64) : IsLiteral (.float x)

theorem PyNumber.IsLiteral.neg (h : n.IsLiteral) : n.neg.IsLiteral := by
  cases h with
  | bool b => exact .int _
  | int v => exact .int _
  | float x => exact .float _

theorem isLiteral_of_literalValue {node : LiteralNode}
    (h : externalCScalarLiteralValue node = some n) : n.IsLiteral := by
  induction node generalizing n with
  | bool b =>
    cases h
    exact .bool b
  | char code =>
    cases h
    exact .int code
  | int value =>
    obtain ⟨v, -, rfl⟩ := Option.map_eq_some_iff.1 h
    exact .int v
  | float value =>
    obtain ⟨x, -, rfl⟩ := Option.map_eq_some_iff.1 h
    exact .float x
  | unaryPlus operand ih => exact ih h
  | unaryMinus operand ih =>
    obtain ⟨n, hn, rfl⟩ := Option.map_eq_some_iff.1 h
    exact (ih hn).neg
  | other => cases h

/-- What an integer is as a number. -/
structure PyNumber.IsInteger (n : PyNumber) (v : ℤ) : Prop where
  integer : n.integer = some v
  index : n.index = some v
  truth : n.truth = some (decide (v ≠ 0))
  toFloat : n.toFloat = PyNumber.floatOfInt v

theorem PyNumber.IsLiteral.isInteger (h : n.IsLiteral) (hv : n.integer = some v) :
    n.IsInteger v := by
  cases h with
  | bool b =>
    obtain rfl := Option.some.inj hv
    cases b <;> exact ⟨rfl, rfl, rfl, rfl⟩
  | int u =>
    obtain rfl := Option.some.inj hv
    exact ⟨rfl, rfl, rfl, rfl⟩
  | float x => cases hv

theorem PyNumber.IsInteger.integerOf (h : n.IsInteger v) (kind : StorageKind) :
    kind.integerOf n = some v := by
  rw [StorageKind.integerOf, h.integer, h.index, ite_self]

/-- A signed type that has a magnitude has the integer. -/
theorem inRange_of_natAbs (hsigned : t.signed = true) (h : t.InRange v.natAbs) : t.InRange v := by
  rw [CIntType.InRange, CIntType.lo_add_two_pow, CIntType.lo, hsigned, if_pos rfl,
    if_pos rfl] at h ⊢
  omega

/-- A decimal constant has its value. -/
theorem eval_decimal (h : (DataModel.longLong true).InRange v.natAbs) :
    (IntegerConstant.decimal v).eval m = v := by
  rw [IntegerConstant.eval, decimalType]
  refine CIntType.convert_of_inRange ?_
  split
  next h' => exact inRange_of_natAbs rfl h'
  next =>
    split
    next h' => exact inRange_of_natAbs (long_signed true) h'
    next => exact inRange_of_natAbs rfl h

/-- The integers of a type are those between its limits. -/
theorem inRange_iff (t : CIntType) : t.InRange v ↔ t.lo ≤ v ∧ v ≤ t.lo + 2 ^ t.width - 1 := by
  rw [CIntType.InRange]
  omega

/-- Every data model has the portable range of a kind in its type. -/
theorem inRange_of_portable {lo hi : ℤ} (h : portableRanges kind = some (lo, hi)) (hlo : lo ≤ v)
    (hhi : v ≤ hi) : ∃ t, m.cType kind = some t ∧ t.InRange v := by
  have hlong {t : CIntType} {signed : Bool} (ht : t.signed = signed) (hw : t.width ≤ 32)
      (hv : t.InRange v) : (m.long signed).InRange v :=
    (Within.of_width_le (ht.trans (long_signed signed).symm)
      (hw.trans (le_width_long signed))).inRange hv
  cases kind <;> cases h <;> refine ⟨_, rfl, ?_⟩
  case char =>
    have hw : m.char.width = 8 := rfl
    rw [CIntType.InRange, CIntType.lo_add_two_pow, CIntType.lo, hw]
    norm_num at hhi ⊢
    split_ifs <;> omega
  case signedLong =>
    exact hlong (t := DataModel.int true) rfl le_rfl ((inRange_iff _).2 ⟨hlo, hhi⟩)
  case unsignedLong =>
    exact hlong (t := DataModel.int false) rfl le_rfl ((inRange_iff _).2 ⟨hlo, hhi⟩)
  all_goals exact (inRange_iff _).2 ⟨hlo, hhi⟩

/-- The data model with the words, and the type `double` as `long double`. -/
def DataModel.ofWords (words : WordModel) (charSigned : Bool) : DataModel where
  words := words
  charSigned := charSigned
  longDouble := binary64
  longDouble_contains := .refl binary64

/-- An integer that every data model has in the type of a kind is in its portable range. -/
theorem portable_of_inRange {lo hi : ℤ} (h : portableRanges kind = some (lo, hi))
    (hv : ∀ m t, DataModel.cType m kind = some t → t.InRange v) : lo ≤ v ∧ v ≤ hi := by
  have hmodel (words : WordModel) (charSigned : Bool) := hv (.ofWords words charSigned)
  cases kind <;> cases h
  case char =>
    have hsigned := (inRange_iff _).1 (hmodel .lp64 true _ rfl)
    have hunsigned := (inRange_iff _).1 (hmodel .lp64 false _ rfl)
    exact ⟨hunsigned.1, hsigned.2⟩
  all_goals exact (inRange_iff _).1 (hmodel .ilp32 true _ rfl)

theorem eval_minLongLong : IntegerConstant.minLongLong.eval m = -2 ^ 63 := by
  have h : (DataModel.longLong true).InRange (-9223372036854775807) :=
    (inRange_iff _).2 ⟨by norm_num [CIntType.lo, DataModel.longLong],
      by norm_num [CIntType.lo, DataModel.longLong]⟩
  rw [IntegerConstant.eval, CIntType.convert_of_inRange h, CIntType.convert_of_inRange]
  · norm_num
  · exact (inRange_iff _).2 ⟨by norm_num [CIntType.lo, DataModel.longLong],
      by norm_num [CIntType.lo, DataModel.longLong]⟩

/-- The spelling of an integer has its value. -/
theorem eval_integerConstant {lo hi : ℤ} (h : portableRanges kind = some (lo, hi)) (hlo : lo ≤ v)
    (hhi : v ≤ hi) : (integerConstant kind v).eval m = v := by
  by_cases hmin : v = -2 ^ 63
  · unfold integerConstant
    rw [if_pos hmin, eval_minLongLong, hmin]
  cases kind <;> cases h
  case neg.signedLongLong =>
    unfold integerConstant
    rw [if_neg hmin]
    exact CIntType.convert_of_inRange ((inRange_iff _).2 ⟨hlo, hhi⟩)
  case neg.char | neg.signedChar | neg.signedShort | neg.signedInt | neg.signedLong =>
    unfold integerConstant
    rw [if_neg hmin]
    refine eval_decimal ((inRange_iff _).2 ?_)
    norm_num [CIntType.lo, DataModel.longLong] at hlo hhi ⊢
    exact ⟨le_trans (by norm_num) (abs_nonneg v), abs_le.2 ⟨by omega, by omega⟩⟩
  all_goals
    unfold integerConstant
    rw [if_neg hmin]
    refine CIntType.convert_of_inRange ((inRange_iff _).2 ?_)
    norm_num [CIntType.lo, DataModel.longLong] at hlo hhi ⊢
    omega

/-- An integer literal of an integer kind is rendered if it is in the portable range, and has the
    integer as its value. -/
theorem renderInteger_eq_some {lit : ScalarLiteral} (h : renderInteger kind v = some lit)
    (hn : n.IsInteger v) : convertNativeScalarHandle m kind n = .ok (lit.eval m) := by
  rw [renderInteger] at h
  by_cases hbint : kind = .bint
  · rw [if_pos hbint] at h
    obtain rfl := Option.some.inj h
    rw [hbint]
    exact convert_bint_eq_ok_iff.2 ⟨_, hn.truth, rfl⟩
  rw [if_neg hbint] at h
  rcases hrange : portableRanges kind with _ | ⟨lo, hi⟩
  · simp [hrange] at h
  · rw [hrange] at h
    by_cases hv : lo ≤ v ∧ v ≤ hi
    · obtain ⟨t, ht, hin⟩ := inRange_of_portable (m := m) hrange hv.1 hv.2
      simp only [hv, and_self, ↓reduceIte, Option.some.injEq] at h
      subst h
      refine (convert_integer_eq_ok_iff ht).2 ⟨v, hn.integerOf kind, hin, ?_⟩
      rw [ScalarLiteral.eval, ht, eval_integerConstant hrange hv.1 hv.2]
      exact congrArg NativeValue.int (CIntType.convert_of_inRange hin)
    · simp [hv] at h

theorem renderFloating_eq_some {lit : ScalarLiteral} (hkind : kind.isFloating = true)
    (h : renderFloating kind n.toFloat = some lit) :
    convertNativeScalarHandle m kind n = .ok (lit.eval m) := by
  rw [convert_floating hkind]
  cases hx : n.toFloat with
  | error e =>
    rw [hx] at h
    cases h
  | ok x =>
    rw [hx, renderFloating] at h
    split at h
    · obtain rfl := Option.some.inj h
      cases kind <;> cases hkind <;> rfl
    · cases h

/-- A rendered literal has the value that the conversion of the number gives. -/
theorem eval_renderExternalCScalarLiteral {node : LiteralNode} {lit : ScalarLiteral}
    (h : renderExternalCScalarLiteral node kind = some lit) :
    ∃ n, externalCScalarLiteralValue node = some n ∧
      ∀ m, convertNativeScalarHandle m kind n = .ok (lit.eval m) := by
  obtain ⟨n, hn, h⟩ := Option.bind_eq_some_iff.1 h
  refine ⟨n, hn, fun m => ?_⟩
  split at h
  next hkind => exact renderFloating_eq_some hkind h
  next =>
    obtain ⟨v, hv, h⟩ := Option.bind_eq_some_iff.1 h
    exact renderInteger_eq_some h ((isLiteral_of_literalValue hn).isInteger hv)

/-- The integer literals that are rendered are those that every data model accepts. -/
theorem isSome_renderExternalCScalarLiteral {node : LiteralNode} (hkind : kind ≠ .pySsize)
    (hn : externalCScalarLiteralValue node = some n) (hv : n.IsInteger v) :
    (renderExternalCScalarLiteral node kind).isSome ↔
      ∀ m, ∃ s, convertNativeScalarHandle m kind n = .ok s := by
  constructor
  · intro h m
    obtain ⟨lit, hlit⟩ := Option.isSome_iff_exists.1 h
    obtain ⟨n', hn', hconvert⟩ := eval_renderExternalCScalarLiteral hlit
    obtain rfl := Option.some.inj (hn.symm.trans hn')
    exact ⟨_, hconvert m⟩
  · intro h
    rw [renderExternalCScalarLiteral, hn, Option.bind_some]
    by_cases hfloating : kind.isFloating = true
    · rw [if_pos hfloating]
      obtain ⟨s, hs⟩ := h (.ofWords .lp64 true)
      rw [convert_floating hfloating, hv.toFloat] at hs
      rw [hv.toFloat]
      by_cases hfinite : (binary64.ofInt v).isFinite = true
      · simp [PyNumber.floatOfInt, renderFloating, hfinite]
      · rw [PyNumber.floatOfInt, if_neg hfinite] at hs
        cases hs
    · rw [if_neg hfloating, hv.integer, Option.bind_some, renderInteger]
      by_cases hbint : kind = .bint
      · rw [if_pos hbint]
        rfl
      · rw [if_neg hbint]
        rcases hrange : portableRanges kind with _ | ⟨lo, hi⟩
        · cases kind <;> simp_all [portableRanges, StorageKind.isFloating]
        · have hportable : lo ≤ v ∧ v ≤ hi := portable_of_inRange hrange fun m t ht => by
            obtain ⟨s, hs⟩ := h m
            obtain ⟨u, hu, hin, -⟩ := (convert_integer_eq_ok_iff ht).1 hs
            obtain rfl := Option.some.inj ((hv.integerOf kind).symm.trans hu)
            exact hin
          simp [hportable]

/-! ## Reading back -/

/-- What a number is as a value of a kind: the integer, the truth, or the float; the kind `float`
    has the nearest value of its format. -/
inductive Denotes : StorageKind → PyNumber → PyNumber → Prop
  | integer {kind : StorageKind} {n : PyNumber} {v : ℤ} (hbint : kind ≠ .bint)
    (hfloating : kind.isFloating = false) (h : n.index = some v) : Denotes kind n (.int v)
  | bint {n : PyNumber} {b : Bool} (h : n.truth = some b) : Denotes .bint n (.bool b)
  | single {n : PyNumber} {x : FloatValue binary64} (h : n.toFloat = .ok x) :
    Denotes .float n (.float ((x.convert binary32).convert binary64))
  | double {n : PyNumber} {x : FloatValue binary64} (h : n.toFloat = .ok x) :
    Denotes .double n (.float x)
  | longDouble {n : PyNumber} {x : FloatValue binary64} (h : n.toFloat = .ok x) :
    Denotes .longDouble n (.float x)

/-- The types through which integers are read back are wide enough. -/
theorem readBack_int (h : m.cType kind = some t) (hv : t.InRange v) :
    (NativeValue.int v : NativeValue m).readBack m kind = .int v := by
  have hlong (signed : Bool) : Within (m.long signed) (DataModel.longLong signed) := by
    refine .of_width_le (long_signed signed) ?_
    rw [DataModel.long]
    split
    · exact le_rfl
    · exact Nat.le_add_right 32 32
    · exact Nat.le_add_right 32 32
  have hconvert {t via : CIntType} (hwithin : Within t via) (hv : t.InRange v) :
      PyNumber.int (via.convert v) = .int v :=
    congrArg PyNumber.int (CIntType.convert_of_inRange (hwithin.inRange hv))
  cases kind <;> cases h
  case pySsize => exact hconvert (.refl _) hv
  case char =>
    have hwidth : m.char.width < (DataModel.longLong true).width := (by decide : 8 < 64)
    exact hconvert (.of_width_lt rfl hwidth) hv
  case signedLong => exact hconvert (hlong true) hv
  case unsignedLong => exact hconvert (hlong false) hv
  all_goals
    refine hconvert (.of_width_le ?_ ?_) hv
    · rfl
    · decide

theorem cType_isSome (hbint : kind ≠ .bint) (hfloating : kind.isFloating = false) :
    ∃ t, m.cType kind = some t := by
  cases kind <;> first | exact ⟨_, rfl⟩ | exact absurd rfl hbint | cases hfloating

/-- What is stored is read back as what the number is for the kind. -/
theorem denotes_readBack {s : NativeValue m} (h : convertNativeScalarHandle m kind n = .ok s) :
    Denotes kind n (s.readBack m kind) := by
  by_cases hbint : kind = .bint
  · subst hbint
    obtain ⟨b, hb, rfl⟩ := convert_bint_eq_ok_iff.1 h
    have hread : (NativeValue.int (truthInt b) : NativeValue m).readBack m .bint = .bool b := by
      cases b <;> rfl
    rw [hread]
    exact .bint hb
  cases hfloating : kind.isFloating with
  | true =>
    rw [convert_floating hfloating] at h
    cases hx : n.toFloat with
    | error e =>
      rw [hx] at h
      cases h
    | ok x =>
      rw [hx] at h
      obtain rfl := Except.ok.inj h
      cases kind <;> cases hfloating
      · exact .single hx
      · exact .double hx
      · have hread : (StorageKind.longDouble.floatValue m x).readBack m .longDouble = .float x :=
          congrArg PyNumber.float
            (FloatValue.convert_convert (FloatValue.in_of_contains m.longDouble_contains x))
        rw [hread]
        exact .longDouble hx
  | false =>
    obtain ⟨t, ht⟩ := cType_isSome (m := m) hbint hfloating
    obtain ⟨v, hv, hin, rfl⟩ := (convert_integer_eq_ok_iff ht).1 h
    rw [readBack_int ht hin]
    exact .integer hbint hfloating (StorageKind.index_eq hv)

theorem binary64_contains_binary32 : binary64.Contains binary32 :=
  ⟨Nat.le_add_left 24 29, by decide, by decide⟩

/-- A float literal is rendered for the floating kinds if it is finite. -/
theorem isSome_renderFloating {node : LiteralNode} {x : FloatValue binary64}
    (hn : externalCScalarLiteralValue node = some (.float x)) :
    (renderExternalCScalarLiteral node kind).isSome ↔
      kind.isFloating = true ∧ x.isFinite = true := by
  rw [renderExternalCScalarLiteral, hn, Option.bind_some]
  cases hfloating : kind.isFloating with
  | true => cases hfinite : x.isFinite <;> simp [PyNumber.toFloat, renderFloating, hfinite]
  | false => simp [PyNumber.integer]

/-- What is stored for a number is read back as what the number is for the kind, a rendered
    literal is stored as by the conversion on every data model, and the literals that are rendered
    are those which every data model accepts, except floats that are not finite or are for other
    kinds. -/
theorem nativeScalar_readBack (kind : StorageKind) :
    (∀ (m : DataModel) (n : PyNumber) (s : NativeValue m),
      convertNativeScalarHandle m kind n = .ok s → Denotes kind n (s.readBack m kind)) ∧
    (∀ (node : LiteralNode) (lit : ScalarLiteral),
      renderExternalCScalarLiteral node kind = some lit →
        ∃ n, externalCScalarLiteralValue node = some n ∧
          ∀ m, convertNativeScalarHandle m kind n = .ok (lit.eval m)) ∧
    (∀ (node : LiteralNode) (n : PyNumber) (v : ℤ), kind ≠ .pySsize →
      externalCScalarLiteralValue node = some n → n.integer = some v →
        ((renderExternalCScalarLiteral node kind).isSome ↔
          ∀ m, ∃ s, convertNativeScalarHandle m kind n = .ok s)) ∧
    (∀ (node : LiteralNode) (x : FloatValue binary64),
      externalCScalarLiteralValue node = some (.float x) →
        ((renderExternalCScalarLiteral node kind).isSome ↔
          kind.isFloating = true ∧ x.isFinite = true)) ∧
    ∀ x : FloatValue binary64, (x.convert binary32).convert binary64 = x ↔ x.In binary32 :=
  ⟨fun _ _ _ => denotes_readBack,
    fun _ _ => eval_renderExternalCScalarLiteral,
    fun _ _ _ hkind hn hv =>
      isSome_renderExternalCScalarLiteral hkind hn ((isLiteral_of_literalValue hn).isInteger hv),
    fun _ _ => isSome_renderFloating,
    fun _ => FloatValue.convert_convert_eq_iff binary64_contains_binary32⟩

/-- The literal `200` for an `unsigned char`. -/
theorem nativeScalar_readBack_byte :
    Denotes .unsignedChar (.int 200)
        ((NativeValue.int 200 : NativeValue (.ofWords .lp64 true)).readBack _ .unsignedChar) ∧
      ∃ n, externalCScalarLiteralValue (.int (some 200)) = some n ∧
        ∀ m, convertNativeScalarHandle m .unsignedChar n =
          .ok ((ScalarLiteral.integer .unsignedChar (.unsignedLongLong 200)).eval m) :=
  ⟨(nativeScalar_readBack .unsignedChar).1 (.ofWords .lp64 true) (.int 200) (.int 200)
      ((convert_integer_eq_ok_iff rfl).2 ⟨200, rfl, (inRange_iff _).2 ⟨by decide, by decide⟩, rfl⟩),
    (nativeScalar_readBack .unsignedChar).2.1 (.int (some 200)) _ rfl⟩

/-- The number `16777217` has more bits than the type `float`, and is changed; the integer
    `2 ** 40` is accepted for a `long` of 64 bits, and is not rendered. -/
theorem nativeScalar_float_changed :
    (∃ x s, (PyNumber.int 16777217).toFloat = .ok x ∧
      convertNativeScalarHandle (.ofWords .lp64 true) .float (.int 16777217) = .ok s ∧
        s.readBack _ .float ≠ .float x) ∧
    (∃ s, convertNativeScalarHandle (.ofWords .lp64 true) .signedLong (.int (2 ^ 40)) = .ok s) ∧
      renderExternalCScalarLiteral (.int (some (2 ^ 40))) .signedLong = none := by
  refine ⟨?_, ⟨.int (2 ^ 40), ?_⟩, ?_⟩
  · have habs : |((16777217 : ℤ) : ℚ)| = (16777217 : ℕ) := by norm_num
    have hdouble : binary64.Representable |((16777217 : ℤ) : ℚ)| := by
      have hlt : ((16777217 : ℕ) : ℚ) < 2 ^ (25 : ℤ) := by norm_num
      have hle : (2 : ℚ) ^ (25 : ℤ) ≤ 2 ^ (1024 : ℤ) :=
        zpow_le_zpow_right₀ (by norm_num) (by norm_num)
      rw [habs]
      exact FloatFormat.representable_natCast (by norm_num [binary64]) (by norm_num [binary64])
        (hlt.trans_le hle)
    have hsingle : ¬binary32.Representable |((16777217 : ℤ) : ℚ)| := by
      rw [habs]
      exact FloatFormat.not_representable_of_odd (by norm_num [binary32]) (by decide)
    have hx : binary64.ofInt 16777217 = .finite false ⟨|((16777217 : ℤ) : ℚ)|, hdouble⟩ := by
      have hneg : decide ((16777217 : ℤ) < 0) = false := by decide
      rw [FloatFormat.ofInt, hneg]
      exact FloatFormat.round_of_representable (q := ⟨_, abs_nonneg _⟩) hdouble false
    have hfloat : (PyNumber.int 16777217).toFloat = .ok (binary64.ofInt 16777217) := by
      change PyNumber.floatOfInt 16777217 = _
      rw [PyNumber.floatOfInt, hx]
      rfl
    refine ⟨_, .float ((binary64.ofInt 16777217).convert binary32), hfloat, ?_,
      fun hread => hsingle ?_⟩
    · rw [convert_floating rfl, hfloat]
      rfl
    · have hread : ((binary64.ofInt 16777217).convert binary32).convert binary64 =
          binary64.ofInt 16777217 := PyNumber.float.inj hread
      have hin := (FloatValue.convert_convert_eq_iff binary64_contains_binary32).1 hread
      rw [hx] at hin
      exact hin
  · exact (convert_integer_eq_ok_iff rfl).2 ⟨2 ^ 40, rfl,
      (inRange_iff _).2 ⟨by norm_num [CIntType.lo, DataModel.long, DataModel.ofWords,
        DataModel.longLong], by norm_num [CIntType.lo, DataModel.long, DataModel.ofWords,
        DataModel.longLong]⟩, rfl⟩
  · simp [renderExternalCScalarLiteral, externalCScalarLiteralValue, StorageKind.isFloating,
      PyNumber.integer, renderInteger, portableRanges]

end AHPy.ModuleWriter
