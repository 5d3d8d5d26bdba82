import AHPy.Compare.Floats

/-!
# Agreement with Python's comparisons

`__Pyx_PyObject_Compare{op}_{type1}_{type2}` returns what `op1 <op> op2` is in Python.

* `compareBytesOrder_iff`: bytes are compared lexicographically, unless both are empty;
* `pyObjectCompare_eq_richCompare_iff`: the result is that of Python, except for two
  objects without a byte (`EmptyBytes`), and for integers that do not fit into a small
  `long` (`Misjudges`).
-/

namespace AHPy.Compare

variable {op : Op}

/-! ## Strings and bytes -/

theorem orderOf_pyUnicodeCompare (s1 s2 : List CodePoint) :
    orderOf (pyUnicodeCompare s1 s2) = List.compareLex compare s1 s2 := by
  rw [pyUnicodeCompare]
  rcases List.compareLex compare s1 s2 <;> rfl

theorem orderOf_memcmp (ps1 ps2 : List UInt8) (n : Nat) :
    orderOf (memcmp ps1 ps2 n) = List.compareLex compare (ps1.take n) (ps2.take n) := by
  rw [memcmp]
  rcases List.compareLex compare (ps1.take n) (ps2.take n) <;> rfl

theorem compareStrStr_eq (op : Op) (s1 s2 : List CodePoint) :
    compareStrStr op s1 s2 = op.holds (List.compareLex compare s1 s2) := by
  rw [compareStrStr, Op.ints_zero, orderOf_pyUnicodeCompare]

theorem compare_toNat (a b : UInt8) : compare a b = compare a.toNat b.toNat := by
  show compareOfLessAndEq a b = compareOfLessAndEq a.toNat b.toNat
  rw [compareOfLessAndEq, compareOfLessAndEq]
  simp only [UInt8.lt_iff_toNat_lt, ← UInt8.toNat_inj]

theorem compareLex_eq_eq {ps1 ps2 : List UInt8} :
    List.compareLex compare ps1 ps2 = .eq ↔ ps1 = ps2 := by
  constructor
  · refine eq_of_compareLex_eq fun a b h => ?_
    rw [compare_toNat, compare_eq_iff_eq] at h
    exact UInt8.toNat_inj.1 h
  · rintro rfl
    exact compareLex_self (fun a => (compare_toNat a a).trans (compare_eq_iff_eq.2 rfl)) ps1

/-- The operator for equal strings, `==` or `!=`. -/
theorem holds_of_eq {o : Ordering} (hop : op ∈ [Op.eq, .ne]) (ho : o = .eq) :
    (op = .eq : Bool) = op.holds o := by
  subst ho
  rcases op <;> first | rfl | exact absurd hop (by decide)

theorem holds_of_ne {o : Ordering} (hop : op ∈ [Op.eq, .ne]) (ho : o ≠ .eq) :
    (op ≠ .eq : Bool) = op.holds o := by
  rcases op <;> rcases o <;> first | rfl | exact absurd hop (by decide) | exact absurd rfl ho

theorem firstByte_cons (a : UInt8) (ps : List UInt8) : firstByte (a :: ps) = a.toNat := rfl

/-- Bytes are compared for equality. -/
theorem compareBytesEqNe_eq {cfg : Config} (hop : op ∈ [Op.eq, .ne]) (x : Operands cfg.shift)
    {ps1 ps2 : List UInt8} (h1 : x.op1.data? = some ps1) (h2 : x.op2.data? = some ps2) :
    compareBytesEqNe cfg op x.op1 x.op2 ps1 ps2 = op.holds (List.compareLex compare ps1 ps2) := by
  have equal : ps1 = ps2 → (op = .eq : Bool) = op.holds (List.compareLex compare ps1 ps2) :=
    fun h => holds_of_eq hop (compareLex_eq_eq.2 h)
  have unequal : ps1 ≠ ps2 → (op ≠ .eq : Bool) = op.holds (List.compareLex compare ps1 ps2) :=
    fun h => holds_of_ne hop (compareLex_eq_eq.not.2 h)
  unfold compareBytesEqNe
  by_cases hlength : ps1.length ≠ ps2.length
  · rw [if_pos hlength]
    exact unequal fun h => hlength (congrArg _ h)
  rw [if_neg hlength]
  have hlength := not_not.1 hlength
  by_cases hempty : x.op1.type = .bytearray ∧ ps1.length = 0
  · rw [if_pos hempty]
    refine equal ?_
    have hempty2 : ps2.length = 0 := hlength ▸ hempty.2
    rw [List.length_eq_zero_iff.1 hempty.2, List.length_eq_zero_iff.1 hempty2]
  rw [if_neg hempty]
  by_cases hfirst : firstByte ps1 ≠ firstByte ps2
  · rw [if_pos hfirst]
    exact unequal fun h => hfirst (congrArg _ h)
  rw [if_neg hfirst]
  have hfirst := not_not.1 hfirst
  by_cases hone : ps1.length = 1
  · rw [if_pos hone]
    obtain ⟨a, rfl⟩ := List.length_eq_one_iff.1 hone
    obtain ⟨b, rfl⟩ := List.length_eq_one_iff.1 (hlength ▸ hone)
    rw [firstByte_cons, firstByte_cons] at hfirst
    exact equal (by rw [UInt8.toNat_inj.1 (Int.ofNat_inj.1 hfirst)])
  rw [if_neg hone]
  have hmemcmp : op.ints (memcmp ps1 ps2 ps1.length) 0 =
      op.holds (List.compareLex compare ps1 ps2) := by
    rw [Op.ints_zero, orderOf_memcmp, List.take_length, hlength, List.take_length]
  -- Different hashes, both known, are of different data.
  cases hop1 : x.op1 with
  | bytes data1 hash1 =>
    cases hop2 : x.op2 with
    | bytes data2 hash2 =>
      show (if cfg.usesHashes ∧ hash1 ≠ hash2 ∧ hash1 ≠ -1 ∧ hash2 ≠ -1 then _ else _) = _
      by_cases hhash : cfg.usesHashes ∧ hash1 ≠ hash2 ∧ hash1 ≠ -1 ∧ hash2 ≠ -1
      · rw [if_pos hhash]
        refine unequal fun h => hhash.2.1 ?_
        rw [hop1] at h1
        rw [hop2] at h2
        obtain rfl : data1 = ps1 := Option.some.inj h1
        obtain rfl : data2 = ps2 := Option.some.inj h2
        exact x.hash_eq data1 hash1 hash2 hop1 (by rw [hop2, h]) hhash.2.2.1 hhash.2.2.2
      · rw [if_neg hhash]
        exact hmemcmp
    | _ => exact hmemcmp
  | _ => exact hmemcmp

theorem mem_lt_le (op : Op) (h : op ∉ [Op.eq, .ne]) :
    (op ∈ [Op.lt, .le] : Bool) = op.holds .lt := by
  rcases op <;> first | rfl | exact absurd (by decide) h

theorem not_mem_lt_le (op : Op) (h : op ∉ [Op.eq, .ne]) :
    (op ∉ [Op.lt, .le] : Bool) = op.holds .gt := by
  rcases op <;> first | rfl | exact absurd (by decide) h

/-- An operator that decides wrongly for what is equal, when it takes it to be less. -/
theorem mem_lt_le_eq_iff (h : op ∉ [Op.eq, .ne]) :
    (op ∈ [Op.lt, .le] : Bool) = op.holds .eq ↔ ¬(op = .lt ∨ op = .ge) := by
  rcases op <;> first | decide | exact absurd (by decide) h

theorem orderOf_then (a b : Int) :
    orderOf (if a = 0 then b else a) = (orderOf a).then (orderOf b) := by
  by_cases h : a = 0
  · rw [if_pos h, h]
    rfl
  · rw [if_neg h]
    have hne := orderOf_eq_eq.not.2 h
    revert hne
    rcases orderOf a <;> intro hne <;> first | rfl | exact absurd rfl hne

/-- Bytes are compared lexicographically, unless both are empty: then they are taken to
    be less. -/
theorem compareBytesOrder_iff (hop : op ∉ [Op.eq, .ne]) (ps1 ps2 : List UInt8) :
    compareBytesOrder op ps1 ps2 = op.holds (List.compareLex compare ps1 ps2) ↔
      ¬(ps1 = [] ∧ ps2 = [] ∧ (op = .lt ∨ op = .ge)) := by
  rcases ps1 with _ | ⟨a, as⟩
  · rcases ps2 with _ | ⟨b, bs⟩
    · show (op ∈ [Op.lt, .le] : Bool) = op.holds .eq ↔ _
      rw [mem_lt_le_eq_iff hop]
      exact not_congr ⟨fun h => ⟨rfl, rfl, h⟩, fun h => h.2.2⟩
    · exact iff_of_true (mem_lt_le op hop) fun h => List.cons_ne_nil _ _ h.2.1
  rcases ps2 with _ | ⟨b, bs⟩
  · exact iff_of_true (not_mem_lt_le op hop) fun h => List.cons_ne_nil _ _ h.1
  refine iff_of_true ?_ fun h => List.cons_ne_nil _ _ h.1
  rw [compareBytesOrder]
  generalize hshort : (if (a :: as).length < (b :: bs).length then (a :: as).length
    else (b :: bs).length) = short
  have hmin : short = min (a :: as).length (b :: bs).length := by
    rw [← hshort, min_def]
    split_ifs <;> omega
  have hpos : short ≠ 0 := by
    rw [hmin]
    exact (lt_min (Nat.succ_pos _) (Nat.succ_pos _)).ne'
  -- The comparison of the first byte, or of all that both have.
  have hbytes : orderOf (if firstByte (a :: as) - firstByte (b :: bs) = 0 ∧ short > 1 then
      memcmp (a :: as) (b :: bs) short else firstByte (a :: as) - firstByte (b :: bs)) =
      List.compareLex compare ((a :: as).take short) ((b :: bs).take short) := by
    obtain ⟨n, rfl⟩ := Nat.exists_eq_succ_of_ne_zero hpos
    rw [firstByte_cons, firstByte_cons]
    by_cases hcmp : (a.toNat : Int) - b.toNat = 0 ∧ n + 1 > 1
    · rw [if_pos hcmp, orderOf_memcmp]
    · rw [if_neg hcmp, orderOf_sub, compare_natCast, List.take_succ_cons, List.take_succ_cons,
        List.compareLex_cons_cons]
      rw [compare_toNat]
      by_cases heq : a = b
      · rw [heq, Int.sub_self] at hcmp
        obtain rfl : n = 0 := by omega
        rw [List.take_zero, List.take_zero, List.compareLex_nil_nil,
          Ordering.then_eq]
      · have hne : compare a.toNat b.toNat ≠ .eq :=
          compare_eq_iff_eq.not.2 fun h => heq (UInt8.toNat_inj.1 h)
        revert hne
        rcases compare a.toNat b.toNat <;> intro hne <;> first | rfl | exact absurd rfl hne
  rw [if_neg hpos, Op.ints_zero, orderOf_then, hbytes, orderOf_sub, compare_natCast,
    compareLex_take _ _ hmin]

/-! ## Python's comparisons -/

section

variable {cfg : Config} {x : Operands cfg.shift}

theorem richCompare_numbers {a b : Option (WithBot (WithTop ℚ))}
    (h1 : x.op1.number? = some a) (h2 : x.op2.number? = some b) :
    richCompare op x = .ok (op.partialHolds (a.bind fun a => b.map fun b => compare a b)) := by
  rw [richCompare, h1, h2]

theorem richCompare_data {ps1 ps2 : List UInt8} (h1 : x.op1.data? = some ps1)
    (h2 : x.op2.data? = some ps2) :
    richCompare op x = .ok (op.holds (List.compareLex compare ps1 ps2)) := by
  have hnumber : x.op1.number? = none := by
    rcases hop1 : x.op1 <;> first | rfl | (rw [hop1] at h1; exact absurd h1 (by simp [Value.data?]))
  rw [richCompare, hnumber, h1, h2]

theorem richCompare_text {s1 s2 : List CodePoint} (h1 : x.op1 = .str s1) (h2 : x.op2 = .str s2) :
    richCompare op x = .ok (op.holds (List.compareLex compare s1 s2)) := by
  rw [richCompare, h1, h2]
  rfl

theorem eq_none_of_type {v : Value cfg.shift} (h : v.type = .noneType) : v = .none := by
  rcases v <;> first | rfl | exact absurd h (by simp [Value.type])

theorem richCompare_none1 (h : x.op1 = .none) : richCompare op x = compareIdentity op x := by
  rw [richCompare, h]
  rfl

theorem richCompare_none2 (h : x.op2 = .none) : richCompare op x = compareIdentity op x := by
  rw [richCompare, h]
  rcases x.op1 <;> rfl

/-- An object that is not the same is not what the other one is. -/
theorem same_eq_false (h : x.op1.type ≠ x.op2.type) : x.same = false := by
  rw [← Bool.not_eq_true]
  exact fun hsame => h (congrArg _ (x.same_eq hsame))

theorem compare_intCast (a b : Int) : compare (a : ℚ) b = compare a b := by
  rcases lt_trichotomy a b with h | h | h
  · rw [compare_lt_iff_lt.2 h, compare_lt_iff_lt.2 (Int.cast_lt.2 h)]
  · rw [compare_eq_iff_eq.2 h, compare_eq_iff_eq.2 (congrArg _ h)]
  · rw [compare_gt_iff_gt.2 h, compare_gt_iff_gt.2 (Int.cast_lt.2 h)]

/-- What is compared with itself is equal. -/
theorem richCompare_same (hsame : x.same = true) (h : x.op1.type ≠ .float)
    (hnone : x.op1.type ≠ .noneType) : richCompare op x = .ok (op ∈ [Op.eq, .le, .ge]) := by
  have heq := x.same_eq hsame
  rw [mem_eq_le_ge]
  cases hop1 : x.op1 with
  | none => exact absurd (by rw [hop1]; rfl) hnone
  | float f => exact absurd (by rw [hop1]; rfl) h
  | str s =>
    rw [richCompare_text hop1 (heq ▸ hop1), compareLex_self fun a => compare_eq_iff_eq.2 rfl]
  | bytes data hash =>
    rw [richCompare_data (by rw [hop1]; rfl) (by rw [← heq, hop1]; rfl), compareLex_eq_eq.2 rfl]
  | bytearray data =>
    rw [richCompare_data (by rw [hop1]; rfl) (by rw [← heq, hop1]; rfl), compareLex_eq_eq.2 rfl]
  | int i =>
    rw [richCompare_numbers (by rw [hop1]; rfl) (by rw [← heq, hop1]; rfl)]
    show Except.ok (op.holds (compare (rational (i.value : ℚ)) (rational (i.value : ℚ)))) = _
    rw [compare_eq_iff_eq.2 rfl]

/-! ## The sections of the comparison function -/

/-- An object of a declared type, or `None`. -/
def Admits (declared : TypeName) (value : Value cfg.shift) : Prop :=
  declared = .object ∨ value.type = .noneType ∨ value.type = declared

variable {type1 type2 declared : TypeName} {value : Value cfg.shift}

/-- After the checks for `None`, a section is entered for objects of its type. -/
theorem section_iff (expected : TypeName) (h : Admits declared value)
    (hnone : declared ≠ .object → value.type ≠ .noneType) (hobject : expected ≠ .object)
    (hexpected : expected ≠ .noneType) :
    (allows declared expected = true ∧ isType cfg declared value expected = true) ↔
      value.type = expected := by
  rw [allows, isType, decide_eq_true_iff]
  by_cases hdeclared : declared = expected
  · subst hdeclared
    have htype : value.type = declared := h.elim (fun h => absurd h hobject)
      fun h => h.elim (fun h => absurd h (hnone hobject)) id
    rw [if_pos rfl, decide_eq_true_iff]
    exact ⟨fun _ => htype, fun _ => ⟨.inr rfl, hnone hobject⟩⟩
  · rw [if_neg hdeclared, decide_eq_true_iff]
    refine ⟨fun h => h.2, fun htype => ⟨?_, htype⟩⟩
    rcases h with h | h | h
    · exact .inl h
    · exact absurd (htype.symm.trans h) hexpected
    · exact .inr (h.symm.trans htype)

/-- The operands, after the checks for `None`. -/
structure Checked (type1 type2 : TypeName) (x : Operands cfg.shift) : Prop where
  admits1 : Admits type1 x.op1
  admits2 : Admits type2 x.op2
  none1 : type1 ≠ .object → x.op1.type ≠ .noneType
  none2 : type2 ≠ .object → x.op2.type ≠ .noneType

namespace Checked

theorem type1_eq (h : Checked type1 type2 x) (hdeclared : type1 = declared)
    (hobject : declared ≠ .object) : x.op1.type = declared := by
  subst hdeclared
  exact h.admits1.elim (fun h => absurd h hobject)
    fun h' => h'.elim (fun h' => absurd h' (h.none1 hobject)) id

theorem type2_eq (h : Checked type1 type2 x) (hdeclared : type2 = declared)
    (hobject : declared ≠ .object) : x.op2.type = declared := by
  subst hdeclared
  exact h.admits2.elim (fun h => absurd h hobject)
    fun h' => h'.elim (fun h' => absurd h' (h.none2 hobject)) id

end Checked

theorem orRichCompare_eq {b : Bool} (h : richCompare op x = .ok b) (result : Option Bool) :
    orRichCompare cfg op x result = .ok (result.getD b) := by
  rcases result with _ | _
  · exact h
  · rfl

theorem compareNone1_eq (h : x.op1.type = .noneType) :
    compareNone1 cfg op type2 x = richCompare op x := by
  have hrich : ∀ op, richCompare op x = compareIdentity op x := fun op =>
    richCompare_none1 (eq_none_of_type h)
  have hsame : x.op2.type = .noneType → x.same = true := fun h2 =>
    x.none_same (eq_none_of_type h) (eq_none_of_type h2)
  have hdiffer : x.op2.type ≠ .noneType → x.same = false := fun h2 =>
    same_eq_false (h ▸ Ne.symm h2)
  rcases op
  case eq | ne =>
    rw [compareNone1, hrich, compareIdentity]
    by_cases h2 : x.op2.type = .noneType
    · rw [if_pos h2, hsame h2] <;> rfl
    · rw [if_neg h2, hdiffer h2]
      exact ite_self _
  all_goals rfl

theorem compareNone2_eq (h : x.op2.type = .noneType) :
    compareNone2 cfg op type1 x = richCompare op x := by
  have hrich : ∀ op, richCompare op x = compareIdentity op x := fun op =>
    richCompare_none2 (eq_none_of_type h)
  have hsame : x.op1.type = .noneType → x.same = true := fun h1 =>
    x.none_same (eq_none_of_type h1) (eq_none_of_type h)
  have hdiffer : x.op1.type ≠ .noneType → x.same = false := fun h1 => same_eq_false (h ▸ h1)
  rcases op
  case eq | ne =>
    rw [compareNone2, hrich, compareIdentity]
    by_cases h1 : x.op1.type = .noneType
    · rw [if_pos h1, hsame h1] <;> rfl
    · rw [if_neg h1, hdiffer h1]
      exact ite_self _
  all_goals rfl

theorem exists_int {v : Value cfg.shift} (h : v.type = .int) : ∃ i, v = .int i := by
  rcases v <;> first | exact ⟨_, rfl⟩ | exact absurd h (by simp [Value.type])

theorem exists_float {v : Value cfg.shift} (h : v.type = .float) : ∃ f, v = .float f := by
  rcases v <;> first | exact ⟨_, rfl⟩ | exact absurd h (by simp [Value.type])

theorem exists_str {v : Value cfg.shift} (h : v.type = .str) : ∃ s, v = .str s := by
  rcases v <;> first | exact ⟨_, rfl⟩ | exact absurd h (by simp [Value.type])

theorem exists_data {v : Value cfg.shift} (h : v.type = .bytes ∨ v.type = .bytearray) :
    ∃ data, v.data? = some data := by
  rcases v <;> first | exact ⟨_, rfl⟩ | exact absurd h (by simp [Value.type])

theorem type_of_data {v : Value cfg.shift} {data : List UInt8} (h : v.data? = some data) :
    v.type = .bytes ∨ v.type = .bytearray := by
  rcases v <;> first | exact .inl rfl | exact .inr rfl | exact absurd h (by simp [Value.data?])

/-- A float is compared as in Python, unless it is misjudged. -/
theorem compareFloat_iff {f : Double} (h1 : x.op1 = .float f) (h : Checked type1 type2 x) :
    compareFloat cfg op type2 x = richCompare op x ↔
      ∀ i, x.op2 = .int i → ¬Misjudges cfg op f i := by
  have hfloat := section_iff .float h.admits2 h.none2 (by decide) (by decide)
  have hint := section_iff .int h.admits2 h.none2 (by decide) (by decide)
  rw [compareFloat]
  by_cases h2 : x.op2.type = .float
  · obtain ⟨g, h2⟩ := exists_float h2
    rw [if_pos (hfloat.2 (by rw [h2]; rfl)), richCompare, h1, h2]
    exact iff_of_true rfl fun i hi => by cases hi
  rw [if_neg (hfloat.not.2 h2)]
  by_cases h2 : x.op2.type = .int
  · obtain ⟨i, h2⟩ := exists_int h2
    have hrich : richCompare op x = .ok (op.doubles f (.ofInt i.value)) := by
      rw [richCompare, h1, h2, Op.doubles, Double.order, Double.value_ofInt]
      rfl
    rw [if_pos (hint.2 (by rw [h2]; rfl)), orRichCompare_eq hrich, hrich, h1, h2,
      Except.ok.injEq]
    refine compareFloatInt_iff.trans ⟨fun h j hj => ?_, fun h => h i rfl⟩
    cases hj
    exact h
  · rw [if_neg (hint.not.2 h2)]
    exact iff_of_true rfl fun i hi => absurd (by rw [hi]; rfl) h2

/-- An integer is compared as in Python. -/
theorem compareInt_eq {i : PyLong cfg.shift} (h1 : x.op1 = .int i) (h : Checked type1 type2 x) :
    compareInt cfg op type2 x = richCompare op x := by
  have hfloat := section_iff .float h.admits2 h.none2 (by decide) (by decide)
  have hint := section_iff .int h.admits2 h.none2 (by decide) (by decide)
  rw [compareInt]
  by_cases hsame : x.same = true
  · rw [if_pos hsame, richCompare_same hsame] <;> rw [h1] <;> simp [Value.type]
  rw [if_neg hsame]
  by_cases h2 : x.op2.type = .int
  · obtain ⟨j, h2⟩ := exists_int h2
    have hrich : richCompare op x = .ok (op.holds (compare i.value j.value)) := by
      rw [richCompare_numbers (by rw [h1]; rfl) (by rw [h2]; rfl), ← compare_intCast,
        ← compare_rational]
      rfl
    rw [if_pos (hint.2 (by rw [h2]; rfl)), orRichCompare_eq hrich, hrich, h1, h2]
    show Except.ok ((compareIntInt cfg op i j).getD _) = _
    rcases hresult : compareIntInt cfg op i j with _ | r
    · rfl
    · rw [compareIntInt_spec cfg op i j hresult]
      rfl
  rw [if_neg (hint.not.2 h2)]
  by_cases h2 : x.op2.type = .float
  · obtain ⟨f, h2⟩ := exists_float h2
    have hrich : richCompare op x = .ok (op.doubles (.ofInt i.value) f) := by
      rw [richCompare, h1, h2, Op.doubles, Double.order, Double.value_ofInt]
      rfl
    rw [if_pos (hfloat.2 (by rw [h2]; rfl)), orRichCompare_eq hrich, hrich, h1, h2]
    exact congrArg _ compareIntFloat_spec
  · rw [if_neg (hfloat.not.2 h2)]

/-! ## Sections for strings -/

/-- Two different objects without a byte, with a section for them, and an operator that
    they are taken for less by. -/
def EmptyBytes (cfg : Config) (op : Op) (type2 : TypeName) (x : Operands cfg.shift) : Prop :=
  (cfg.comparesBytes = true ∧ (type2 = .object ∨ x.op1.type = x.op2.type)) ∧ x.same = false ∧
    x.op1.data? = some [] ∧ x.op2.data? = some [] ∧ (op = .lt ∨ op = .ge)

theorem compareBytes_iff {ps1 ps2 : List UInt8} (h1 : x.op1.data? = some ps1)
    (h2 : x.op2.data? = some ps2) :
    Except.ok (compareBytes cfg op x.op1 x.op2) = richCompare op x ↔
      ¬(ps1 = [] ∧ ps2 = [] ∧ (op = .lt ∨ op = .ge)) := by
  rw [richCompare_data h1 h2, Except.ok.injEq, compareBytes, h1, h2, Option.getD_some,
    Option.getD_some]
  by_cases hop : op ∈ [Op.eq, .ne]
  · rw [if_pos hop]
    refine iff_of_true (compareBytesEqNe_eq hop x h1 h2) ?_
    rintro ⟨-, -, rfl | rfl⟩ <;> exact absurd hop (by decide)
  · rw [if_neg hop]
    exact compareBytesOrder_iff hop ps1 ps2

/-- The section is not for this object. -/
theorem compareStrings_of_ne {stringType : TypeName} {otherwise : Result}
    (h : Checked type1 type2 x) (hobject : stringType ≠ .object) (hnone : stringType ≠ .noneType)
    (h1 : x.op1.type ≠ stringType) :
    compareStrings cfg op type1 type2 x stringType otherwise = otherwise :=
  if_neg fun hsection =>
    h1 ((section_iff _ h.admits1 h.none1 hobject hnone).1 ⟨hsection.1, hsection.2.2.2⟩)

/-- Strings are compared as in Python. -/
theorem compareStrings_str (h : Checked type1 type2 x) (h1 : x.op1.type = .str) :
    compareStrings cfg op type1 type2 x .str (richCompare op x) = richCompare op x := by
  have hstr := section_iff .str h.admits2 h.none2 (by decide) (by decide)
  rw [compareStrings]
  by_cases hsection : allows type1 .str = true ∧ allows type2 .str = true ∧
      (TypeName.str = .str ∨ cfg.comparesBytes = true) ∧ isType cfg type1 x.op1 .str = true
  · rw [if_pos hsection]
    by_cases hsame : x.same = true
    · rw [if_pos hsame, richCompare_same hsame] <;> rw [h1] <;> decide
    rw [if_neg hsame]
    by_cases h2 : isType cfg type2 x.op2 .str = true
    · obtain ⟨s1, hs1⟩ := exists_str h1
      obtain ⟨s2, hs2⟩ := exists_str (hstr.1 ⟨hsection.2.1, h2⟩)
      rw [if_pos h2, if_pos rfl, compareStrStr_eq, richCompare_text hs1 hs2, hs1, hs2]
      rfl
    · rw [if_neg h2, if_neg (fun h => absurd h.1 (by decide)),
        if_neg (fun h => absurd h.1 (by decide))]
  · rw [if_neg hsection]

/-- Bytes are compared as in Python, unless there are none. -/
theorem compareStrings_data {stringType other : TypeName}
    (hstring : stringType = .bytes ∧ other = .bytearray ∨ stringType = .bytearray ∧ other = .bytes)
    (h : Checked type1 type2 x) (h1 : x.op1.type = stringType) :
    compareStrings cfg op type1 type2 x stringType (richCompare op x) = richCompare op x ↔
      ¬EmptyBytes cfg op type2 x := by
  have hobject : stringType ≠ .object := by rcases hstring with ⟨rfl, -⟩ | ⟨rfl, -⟩ <;> decide
  have hnone : stringType ≠ .noneType := by rcases hstring with ⟨rfl, -⟩ | ⟨rfl, -⟩ <;> decide
  have hstr : stringType ≠ .str := by rcases hstring with ⟨rfl, -⟩ | ⟨rfl, -⟩ <;> decide
  have hfloat : stringType ≠ .float := by rcases hstring with ⟨rfl, -⟩ | ⟨rfl, -⟩ <;> decide
  have hentered := (section_iff _ h.admits1 h.none1 hobject hnone).2 h1
  have hsecond := section_iff _ h.admits2 h.none2 hobject hnone
  have htype2 : type2 ≠ .object → x.op2.type = type2 := fun hne => h.type2_eq rfl hne
  obtain ⟨ps1, hps1⟩ := exists_data (v := x.op1) (by
    rw [h1]
    exact hstring.imp And.left And.left)
  rw [compareStrings]
  by_cases hallows : cfg.comparesBytes = true ∧ allows type2 stringType = true
  swap
  -- There is no section for these types.
  · rw [if_neg fun hsection => hallows ⟨hsection.2.2.1.resolve_left hstr, hsection.2.1⟩]
    refine iff_of_true rfl fun hempty => hallows ⟨hempty.1.1, ?_⟩
    by_cases hne : type2 = .object
    · rw [hne, allows]
      rfl
    · exact (hsecond.2 ((hempty.1.2.resolve_left hne).symm.trans h1)).1
  rw [if_pos ⟨hentered.1, hallows.2, .inr hallows.1, hentered.2⟩]
  by_cases hsame : x.same = true
  · rw [if_pos hsame, richCompare_same hsame (h1 ▸ hfloat) (h1 ▸ hnone)]
    exact iff_of_true rfl fun hempty => absurd (hsame.symm.trans hempty.2.1) (by decide)
  rw [if_neg hsame]
  have hsame := Bool.eq_false_iff.2 hsame
  -- The functions for bytes are called for the bytes that both are.
  have hcalled : ∀ {ps2}, x.op2.data? = some ps2 → type2 = .object ∨ x.op1.type = x.op2.type →
      (Except.ok (compareBytes cfg op x.op1 x.op2) = richCompare op x ↔
        ¬EmptyBytes cfg op type2 x) := fun {ps2} hps2 hty => by
    rw [compareBytes_iff hps1 hps2, EmptyBytes, hps1, hps2, Option.some.injEq, Option.some.injEq]
    exact not_congr ⟨fun h => ⟨⟨hallows.1, hty⟩, hsame, h⟩, fun h => h.2.2⟩
  by_cases h2 : x.op2.type = stringType
  · obtain ⟨ps2, hps2⟩ := exists_data (v := x.op2) (by
      rw [h2]
      exact hstring.imp And.left And.left)
    rw [if_pos (hsecond.2 h2).2, if_neg hstr]
    exact hcalled hps2 (.inr (h1.trans h2.symm))
  rw [if_neg fun hty => h2 (hsecond.1 ⟨hallows.2, hty⟩)]
  have hdeclared : type2 = .object := by
    by_contra hne
    have hty : type2 = .object ∨ type2 = stringType := of_decide_eq_true hallows.2
    exact h2 ((htype2 hne).trans (hty.resolve_left hne))
  have hother : (allows type2 other = true ∧ isType cfg type2 x.op2 other = true) ↔
      x.op2.type = other := by
    rcases hstring with ⟨-, rfl⟩ | ⟨-, rfl⟩ <;>
      exact section_iff _ h.admits2 h.none2 (by decide) (by decide)
  have hbranches : (if stringType = .bytes ∧ allows type2 .bytearray ∧
        isType cfg type2 x.op2 .bytearray then Except.ok (compareBytes cfg op x.op1 x.op2)
      else if stringType = .bytearray ∧ allows type2 .bytes ∧ isType cfg type2 x.op2 .bytes then
        Except.ok (compareBytes cfg op x.op1 x.op2)
      else richCompare op x) = if x.op2.type = other then
        Except.ok (compareBytes cfg op x.op1 x.op2) else richCompare op x := by
    rcases hstring with ⟨rfl, rfl⟩ | ⟨rfl, rfl⟩
    · simp only [hother, true_and, false_and, if_false, reduceCtorEq]
    · simp only [hother, true_and, false_and, if_false, reduceCtorEq]
  rw [hbranches]
  by_cases h3 : x.op2.type = other
  · obtain ⟨ps2, hps2⟩ := exists_data (v := x.op2) (by
      rw [h3]
      exact hstring.symm.imp And.right And.right)
    rw [if_pos h3]
    exact hcalled hps2 (.inl hdeclared)
  · rw [if_neg h3]
    refine iff_of_true rfl fun hempty => ?_
    have hdata := type_of_data hempty.2.2.2.1
    rcases hstring with ⟨rfl, rfl⟩ | ⟨rfl, rfl⟩
    · exact hdata.elim h2 h3
    · exact hdata.elim h3 h2

/-! ## The comparison function -/

/-- The result is that of Python, except for two objects without a byte and for integers
    that are misjudged. -/
theorem pyObjectCompare_eq_richCompare_iff (cfg : Config) (op : Op) (type1 type2 : TypeName)
    (x : Operands cfg.shift) (h1 : Admits type1 x.op1) (h2 : Admits type2 x.op2) :
    pyObjectCompare cfg op type1 type2 x = richCompare op x ↔
      ¬EmptyBytes cfg op type2 x ∧
        ∀ f i, x.op1 = .float f → x.op2 = .int i → ¬Misjudges cfg op f i := by
  -- When neither exception can be.
  have agrees : x.op1.type ≠ .bytes → x.op1.type ≠ .bytearray → x.op1.type ≠ .float →
      pyObjectCompare cfg op type1 type2 x = richCompare op x →
      (pyObjectCompare cfg op type1 type2 x = richCompare op x ↔ ¬EmptyBytes cfg op type2 x ∧
        ∀ f i, x.op1 = .float f → x.op2 = .int i → ¬Misjudges cfg op f i) :=
    fun hbytes hbytearray hfloat heq => iff_of_true heq
      ⟨fun hempty => (type_of_data hempty.2.2.1).elim hbytes hbytearray,
        fun f i hop1 => absurd (by rw [hop1]; rfl) hfloat⟩
  unfold pyObjectCompare at agrees ⊢
  by_cases hnone1 : type1 ≠ .object ∧ x.op1.type = .noneType
  · refine agrees ?_ ?_ ?_ ?_
    iterate 3 rw [hnone1.2]; decide
    rw [if_pos hnone1]
    exact compareNone1_eq hnone1.2
  by_cases hnone2 : type2 ≠ .object ∧ x.op2.type = .noneType
  · rw [if_neg hnone1, if_pos hnone2, compareNone2_eq hnone2.2]
    refine iff_of_true rfl ⟨fun hempty => ?_, fun f i _ hop2 => ?_⟩
    · rcases type_of_data hempty.2.2.2.1 with h | h <;>
        exact absurd (h.symm.trans hnone2.2) (by decide)
    · exact absurd hnone2.2 (by rw [hop2]; simp [Value.type])
  have h : Checked type1 type2 x :=
    ⟨h1, h2, fun h h' => hnone1 ⟨h, h'⟩, fun h h' => hnone2 ⟨h, h'⟩⟩
  rw [if_neg hnone1, if_neg hnone2] at agrees ⊢
  by_cases hsame : (type1 = .int ∨ type2 = .int) ∧ type1 ≠ .float ∧ type2 ≠ .float ∧
      x.same = true
  · have htype : x.op1.type = .int := by
      rcases hsame.1 with hint | hint
      · exact h.type1_eq hint (by decide)
      · rw [x.same_eq hsame.2.2.2]
        exact h.type2_eq hint (by decide)
    refine agrees ?_ ?_ ?_ ?_
    iterate 3 rw [htype]; decide
    rw [if_pos hsame, richCompare_same hsame.2.2.2] <;> rw [htype] <;> decide
  rw [if_neg hsame] at agrees ⊢
  have hfloat := section_iff .float h1 h.none1 (by decide) (by decide)
  have hint := section_iff .int h1 h.none1 (by decide) (by decide)
  by_cases htype : x.op1.type = .float
  · obtain ⟨f, hop1⟩ := exists_float htype
    rw [if_pos (hfloat.2 htype), compareFloat_iff hop1 h]
    refine ⟨fun hi => ⟨fun hempty => ?_, fun g i hg => ?_⟩, fun hi i => hi.2 f i hop1⟩
    · rcases type_of_data hempty.2.2.1 with h | h <;> exact absurd (h.symm.trans htype) (by decide)
    · obtain rfl : f = g := Value.float.inj (hop1.symm.trans hg)
      exact hi i
  rw [if_neg (hfloat.not.2 htype)] at agrees ⊢
  by_cases htype : x.op1.type = .int
  · obtain ⟨i, hop1⟩ := exists_int htype
    refine agrees ?_ ?_ ?_ ?_
    iterate 3 rw [htype]; decide
    rw [if_pos (hint.2 htype), compareInt_eq hop1 h]
  rw [if_neg (hint.not.2 htype)] at agrees ⊢
  -- The sections for strings, of which one is for the first operand.
  have hskip : ∀ stringType {otherwise}, stringType ≠ .object → stringType ≠ .noneType →
      x.op1.type ≠ stringType →
      compareStrings cfg op type1 type2 x stringType otherwise = otherwise :=
    fun _ => compareStrings_of_ne h
  have hexact : (¬EmptyBytes cfg op type2 x ∧
      ∀ f i, x.op1 = .float f → x.op2 = .int i → ¬Misjudges cfg op f i) ↔
      ¬EmptyBytes cfg op type2 x :=
    and_iff_left fun f i hop1 => absurd (by rw [hop1]; rfl) ‹¬x.op1.type = .float›
  by_cases hbytes : x.op1.type = .bytes
  · rw [hexact, hskip _ (by decide) (by decide) (by rw [hbytes]; decide),
      hskip .bytearray (by decide) (by decide) (by rw [hbytes]; decide)]
    exact compareStrings_data (.inl ⟨rfl, rfl⟩) h hbytes
  by_cases hbytearray : x.op1.type = .bytearray
  · rw [hexact, hskip _ (by decide) (by decide) (by rw [hbytearray]; decide),
      hskip .bytes (by decide) (by decide) hbytes]
    exact compareStrings_data (.inr ⟨rfl, rfl⟩) h hbytearray
  refine agrees hbytes hbytearray ‹_› ?_
  rw [hskip .bytes (by decide) (by decide) hbytes,
    hskip .bytearray (by decide) (by decide) hbytearray]
  by_cases hstr : x.op1.type = .str
  · exact compareStrings_str h hstr
  · exact hskip _ (by decide) (by decide) hstr

/-- CPython 3.11 on a 64-bit machine. -/
def cpython311 : Config where
  shift := 30
  shift_eq := .inr rfl
  usePyLongInternals := true
  tagged := false
  longBits := 64
  longBits_ge := by decide
  ssizeBits := 64
  comparesBytes := true
  usesHashes := false

/-- A `bytes` and a `bytearray` object with some data. -/
def bytesAndBytearray (shift : Nat) (data1 data2 : List UInt8) : Operands shift where
  op1 := .bytes data1 (-1)
  op2 := .bytearray data2
  same := false
  same_eq := by simp
  none_same := by simp
  hash_eq := by simp

theorem pyObjectCompare_bytes_bytearray :
    pyObjectCompare cpython311 .lt .bytes .object (bytesAndBytearray 30 [1] [2]) =
      richCompare .lt (bytesAndBytearray 30 [1] [2]) :=
  (pyObjectCompare_eq_richCompare_iff cpython311 .lt .bytes .object (bytesAndBytearray 30 [1] [2])
    (.inr (.inr rfl)) (.inl rfl)).2
    ⟨fun hempty => absurd hempty.2.2.1 (by simp [bytesAndBytearray, Value.data?]),
      fun _ _ hop1 => by cases hop1⟩

/-- `b"" < bytearray()` is false, and true when it is compiled. -/
theorem pyObjectCompare_empty_counterexample :
    pyObjectCompare cpython311 .lt .object .object (bytesAndBytearray 30 [] []) = .ok true ∧
      richCompare .lt (bytesAndBytearray 30 [] []) = .ok false :=
  ⟨rfl, rfl⟩

end

end AHPy.Compare
