import AHPy.Operators.FastPaths

/-!
# Generated operators and Python's

* `World.Agrees`: the condition;
* `World.generated_eq_iff`: the result of a generated function is that of Python's operator if
  and only if it holds.
-/

namespace AHPy.Operators

open ModuleWriter (binary64)

variable {ω κ φ ε σ : Type*} {W : World ω κ φ ε σ} {B : Build} {op : NumberOp}
  {v w : PyObject ω} {m n : ℤ} {x y : Double} {inplace : Bool} {s s' : σ}

namespace World

variable [DecidableEq κ] [DecidableEq φ]

/-! ## The generated functions -/

theorem isType_int {d : DeclaredType} (h : PyObject.HasType d (.int m : PyObject ω)) :
    d ≠ .float ∧ isType d .int (.int m : PyObject ω) = true ∧
      isType d .float (.int m : PyObject ω) = false := by
  cases d with
  | float => exact h.elim
  | _ => exact ⟨by decide, rfl, rfl⟩

theorem isType_float {d : DeclaredType} (h : PyObject.HasType d (.float x : PyObject ω)) :
    d ≠ .int ∧ isType d .float (.float x : PyObject ω) = true ∧
      isType d .int (.float x : PyObject ω) = false := by
  cases d with
  | int => exact h.elim
  | _ => exact ⟨by decide, rfl, rfl⟩

/-- Neither an exact int nor an exact float. -/
theorem isType_of_not_isExact {d expected : DeclaredType} (h : PyObject.HasType d v)
    (hv : ¬v.IsExact) (hexpected : expected ≠ .object) : isType d expected v = false := by
  cases v with
  | none => rfl
  | int m => exact absurd PyObject.isExact_int hv
  | float x => exact absurd PyObject.isExact_float hv
  | other o =>
    cases d with
    | object => cases expected <;> first | rfl | exact absurd rfl hexpected
    | _ => exact h.elim

variable {t : Template} {op1 op2 : PyObject ω}

/-- Operands on the left that are not exact numbers are left to Python. -/
theorem generated_of_not_isExact (h : PyObject.HasType t.type1 op1) (hexact : ¬op1.IsExact) :
    W.generated B t op1 op2 inplace s = some (W.pyOperator B t.op inplace op1 op2 s) := by
  have hint : ¬(t.type1 ≠ .float ∧ isType t.type1 .int op1 = true) := by
    rw [isType_of_not_isExact h hexact (by decide)]
    exact fun h => Bool.false_ne_true h.2
  have hfloat : ¬(t.type1 ≠ .int ∧ isType t.type1 .float op1 = true) := by
    rw [isType_of_not_isExact h hexact (by decide)]
    exact fun h => Bool.false_ne_true h.2
  have hleft : W.intLeft B t op1 op2 inplace s =
      some (W.pyOperator B t.op inplace op1 op2 s) := by
    unfold intLeft
    rw [if_neg hint]
  rw [generated]
  split
  · exact hleft
  · rw [if_neg hfloat, hleft]

theorem generated_int (h : PyObject.HasType t.type1 (.int m : PyObject ω)) :
    W.generated B t (.int m) op2 inplace s = W.intLeft B t (.int m) op2 inplace s := by
  rw [generated]
  split
  · rfl
  · rw [(isType_int h).2.2, if_neg fun h => Bool.false_ne_true h.2]

theorem generated_int_int (h1 : PyObject.HasType t.type1 (.int m : PyObject ω))
    (h2 : PyObject.HasType t.type2 (.int n : PyObject ω)) :
    W.generated B t (.int m) (.int n) inplace s = some (.value (.int (t.op.onInts m n)), s) := by
  rw [generated_int h1, intLeft, if_pos ⟨(isType_int h1).1, (isType_int h1).2.1⟩,
    if_pos ⟨(isType_int h2).1, (isType_int h2).2.1⟩, onInts_eq, Option.map_some]

variable {d1 d2 : DeclaredType}

theorem generated_int_float {op : Arith} (h1 : PyObject.HasType d1 (.int m : PyObject ω))
    (h2 : PyObject.HasType d2 (.float y : PyObject ω)) :
    W.generated B ⟨.arith op, d1, d2⟩ (.int m) (.float y) inplace s =
      some (B.intWithFloat op m y, s) := by
  have hfloat := isType_float h2
  have hint : ¬(d2 ≠ .float ∧ isType d2 .int (.float y : PyObject ω) = true) :=
    fun h => Bool.false_ne_true (hfloat.2.2.symm.trans h.2)
  rw [generated_int h1]
  unfold intLeft
  rw [if_pos ⟨(isType_int h1).1, (isType_int h1).2.1⟩, if_neg hint]
  exact if_pos ⟨hfloat.1, hfloat.2.1⟩

/-- An int, and an operand that is no int, and no float either if the operator is one of floats:
    the slot of the right type. -/
theorem generated_int_slots (h1 : PyObject.HasType d1 (.int m : PyObject ω))
    (hint : isType d2 .int w = false) (hfloat : ∀ a, op = .arith a → isType d2 .float w = false) :
    W.generated B ⟨op, d1, d2⟩ (.int m) w inplace s =
      if B.typeSlots then some (W.callRight op (.int m) w (W.repeatRight B op (.int m) w) s)
      else some (W.pyOperator B op inplace (.int m) w s) := by
  have hint : ¬(d2 ≠ .float ∧ isType d2 .int w = true) :=
    fun h => Bool.false_ne_true (hint.symm.trans h.2)
  rw [generated_int h1]
  unfold intLeft
  rw [if_pos ⟨(isType_int h1).1, (isType_int h1).2.1⟩, if_neg hint]
  cases op with
  | bitwise op => rfl
  | arith op => exact if_neg fun h => Bool.false_ne_true ((hfloat op rfl).symm.trans h.2)

theorem generated_float_float {op : Arith} (h1 : PyObject.HasType d1 (.float x : PyObject ω))
    (h2 : PyObject.HasType d2 (.float y : PyObject ω)) :
    W.generated B ⟨.arith op, d1, d2⟩ (.float x) (.float y) inplace s =
      some (.value (.float (op.onDoubles x y)), s) := by
  show (if d1 ≠ .int ∧ isType d1 .float (.float x : PyObject ω) = true then _ else _) = _
  rw [if_pos ⟨(isType_float h1).1, (isType_float h1).2.1⟩,
    if_pos ⟨(isType_float h2).1, (isType_float h2).2.1⟩]

theorem generated_float_of_not_float {op : Arith}
    (h1 : PyObject.HasType d1 (.float x : PyObject ω)) (hw : isType d2 .float w = false) :
    W.generated B ⟨.arith op, d1, d2⟩ (.float x) w inplace s =
      W.xfloat B op d2 (.float x) w inplace s := by
  show (if d1 ≠ .int ∧ isType d1 .float (.float x : PyObject ω) = true then _ else _) = _
  rw [if_pos ⟨(isType_float h1).1, (isType_float h1).2.1⟩,
    if_neg fun h => Bool.false_ne_true (hw.symm.trans h.2)]

theorem generated_float_int {op : Arith} (h1 : PyObject.HasType d1 (.float x : PyObject ω))
    (h2 : PyObject.HasType d2 (.int n : PyObject ω)) :
    W.generated B ⟨.arith op, d1, d2⟩ (.float x) (.int n) inplace s =
      some (B.floatWithInt op x n, s) := by
  rw [generated_float_of_not_float h1 (isType_int h2).2.2, xfloat,
    if_pos ⟨(isType_int h2).1, (isType_int h2).2.1⟩]

theorem generated_float_slots {op : Arith} (h1 : PyObject.HasType d1 (.float x : PyObject ω))
    (h2 : PyObject.HasType d2 w) (hw : ¬w.IsExact) :
    W.generated B ⟨.arith op, d1, d2⟩ (.float x) w inplace s =
      if W.isLongSubclass w then some (W.callSlot (.arith op) .float (.float x) w s)
      else if B.typeSlots then some (W.callRight (.arith op) (.float x) w binopTypeError s)
      else some (W.pyOperator B (.arith op) inplace (.float x) w s) := by
  have hint : ¬(d2 ≠ .float ∧ isType d2 .int w = true) := by
    rw [isType_of_not_isExact h2 hw (by decide)]
    exact fun h => Bool.false_ne_true h.2
  have hlong : (d2 = .object ∧ W.isLongSubclass w = true) ↔ W.isLongSubclass w = true := by
    refine and_iff_right_of_imp fun h => ?_
    cases w with
    | other o =>
      cases d2 with
      | object => rfl
      | _ => exact h2.elim
    | _ => cases h
  rw [generated_float_of_not_float h1 (isType_of_not_isExact h2 hw (by decide))]
  unfold xfloat
  rw [if_neg hint]
  simp only [hlong]

theorem generated_float_bitwise {op : Bitwise}
    (h1 : PyObject.HasType d1 (.float x : PyObject ω)) :
    W.generated B ⟨.bitwise op, d1, d2⟩ (.float x) w inplace s =
      some (W.pyOperator B (.bitwise op) inplace (.float x) w s) := by
  show W.intLeft B _ _ _ _ _ = _
  unfold intLeft
  exact if_neg fun h => Bool.false_ne_true ((isType_float h1).2.2.symm.trans h.2)

/-! ## Agreement -/

/-- The type of the right operand derives from that of the left one, and has a slot of its own.
    The slot of the left type has the result that is given last. -/
inductive Overrides (W : World ω κ φ ε σ) : NumberOp → PyObject ω → ω → φ → PyObject ω → Prop
  | int {op : NumberOp} {m : ℤ} {o : ω} {f : φ} : W.slot op (W.typeOf o) = some f →
    W.base (W.typeOf o) = .int →
    Overrides W op (.int m) o f (.int (op.onInts m (W.intValue o)))
  | float {op : Arith} {x : Double} {o : ω} {f : φ} : W.slot (.arith op) (W.typeOf o) = some f →
    W.base (W.typeOf o) = .float →
    Overrides W (.arith op) (.float x) o f (.float (op.onDoubles x (W.floatValue o)))

/-- The right operand is repeated as often as an int on the left says, with a given result. -/
def RepeatsTo (W : World ω κ φ ε σ) (B : Build) (op : NumberOp) (op1 : PyObject ω) (o : ω)
    (r : PyObject ω) (s : σ) : Prop :=
  ∃ m repeatFunc, op = .arith .multiply ∧ op1 = .int m ∧ B.ssize.InRange m ∧
    (W.sequence (W.typeOf o)).bind (·.sqRepeat) = some repeatFunc ∧
      repeatFunc (.other o) m s = (.value r, s)

/-- Zeros that are no neutral element do not occur, and no slot of a derived type declines. -/
structure Agrees (W : World ω κ φ ε σ) (B : Build) (op : NumberOp) (op1 op2 : PyObject ω) (s : σ) :
    Prop where
  sum_left : op = .arith .add → op1 = .float (.zero true) → op2 ≠ .int 0
  sum_right : op = .arith .add → op1 = .int 0 → op2 ≠ .float (.zero true)
  product : op = .arith .multiply → ∀ a n, op1 = .float (.zero a) → op2 = .int n → n < 0 →
    ¬(binary64.ofInt n).isFinite = true
  slots : ∀ o f r s', op2 = .other o → W.Overrides op op1 o f r →
    W.call f op1 op2 s = (.notImplemented, s') →
      B.typeSlots = false ∨ W.RepeatsTo B op op1 o r s'

section

omit [DecidableEq κ] [DecidableEq φ]

theorem repeatRight_eq_iff {o : ω} {r : PyObject ω} :
    W.repeatRight B op op1 (.other o) s = (.value r, s) ↔ W.RepeatsTo B op op1 o r s := by
  constructor
  · intro h
    have hraised (e : NumberExc ε) : (.raised e, s) ≠ ((.value r, s) : Returned _ _ × σ) :=
      fun h => by cases h
    cases op with
    | bitwise op => exact (hraised _ h).elim
    | arith op =>
      cases op with
      | multiply =>
        cases op1 with
        | int m =>
          rw [repeatRight] at h
          cases hrepeat : (W.sequence (W.typeOf o)).bind (·.sqRepeat) with
          | none =>
            rw [hrepeat] at h
            exact (hraised _ h).elim
          | some repeatFunc =>
            by_cases hm : B.ssize.InRange m
            · simp only [hrepeat, asSsize, if_pos hm] at h
              exact ⟨m, repeatFunc, rfl, rfl, hm, hrepeat, h⟩
            · simp only [hrepeat, asSsize, if_neg hm] at h
              exact (hraised _ h).elim
        | _ => exact (hraised _ h).elim
      | _ => exact (hraised _ h).elim
  · rintro ⟨m, repeatFunc, rfl, rfl, hm, hrepeat, hresult⟩
    simp only [repeatRight, hrepeat, asSsize, if_pos hm, hresult]

theorem Overrides.unique {o : ω} {f f' : φ} {r r' : PyObject ω} (h : W.Overrides op op1 o f r)
    (h' : W.Overrides op op1 o f' r') : f' = f ∧ r' = r := by
  cases h with
  | int hf _ =>
    cases h' with
    | int hf' _ => exact ⟨Option.some.inj (hf'.symm.trans hf), rfl⟩
  | float hf _ =>
    cases h' with
    | float hf' _ => exact ⟨Option.some.inj (hf'.symm.trans hf), rfl⟩

/-- Only the slot of the derived type matters. -/
theorem agrees_iff_of_overrides {o : ω} {f : φ} {r : PyObject ω} (h : W.Overrides op op1 o f r) :
    W.Agrees B op op1 (.other o) s ↔
      ∀ s', W.call f op1 (.other o) s = (.notImplemented, s') →
        B.typeSlots = false ∨ W.RepeatsTo B op op1 o r s' := by
  refine ⟨fun ha s' => ha.slots o f r s' rfl h, fun hslots => ⟨fun _ _ h => (by cases h),
    fun _ _ h => (by cases h), fun _ _ _ _ h => (by cases h), ?_⟩⟩
  rintro _ f' r' s' ⟨⟩ h'
  obtain ⟨rfl, rfl⟩ := h.unique h'
  exact hslots s'

/-- The operands are not of the kinds that the shortcuts are wrong for. -/
theorem agrees_of_not_float (h1 : ∀ x, op1 ≠ .float x) (h2 : ∀ x, op2 ≠ .float x)
    (h : ∀ o f r, op2 = .other o → ¬W.Overrides op op1 o f r) : W.Agrees B op op1 op2 s where
  sum_left _ h := (h1 _ h).elim
  sum_right _ _ := h2 _
  product _ _ _ h := (h1 _ h).elim
  slots o f r _ ho hf _ := (h o f r ho hf).elim

theorem agrees_of_not_int (h1 : ∀ m, op1 ≠ .int m) (h2 : ∀ m, op2 ≠ .int m)
    (h : ∀ o f r, op2 = .other o → ¬W.Overrides op op1 o f r) : W.Agrees B op op1 op2 s where
  sum_left _ _ := h2 _
  sum_right _ h := (h1 _ h).elim
  product _ _ _ _ h := (h2 _ h).elim
  slots o f r _ ho hf _ := (h o f r ho hf).elim

end

/-- The result of a slot of the right type that goes first, or what follows it. -/
theorem some_callRight_eq_iff {o : ω} {f : φ} {r : PyObject ω}
    (hslot : W.slot op (W.typeOf o) = some f)
    (hpy : W.pyOperator B op inplace op1 (.other o) s =
      (W.call f op1 (.other o)).orElse (fun s => (.value r, s)) s)
    {next : Call (PyObject ω) (NumberExc ε) σ}
    (hnext : ∀ s, next s = (.value r, s) ↔ W.RepeatsTo B op op1 o r s) :
    (if B.typeSlots then some (W.callRight op op1 (.other o) next s)
      else some (W.pyOperator B op inplace op1 (.other o) s)) =
        some (W.pyOperator B op inplace op1 (.other o) s) ↔
      ∀ s', W.call f op1 (.other o) s = (.notImplemented, s') →
        B.typeSlots = false ∨ W.RepeatsTo B op op1 o r s' := by
  cases htypeSlots : B.typeSlots with
  | false => exact iff_of_true rfl fun _ _ => .inl rfl
  | true =>
    have hcall : W.callRight op op1 (.other o) next = (W.call f op1 (.other o)).orElse next := by
      simp only [callRight, pyType, slotOf, hslot, callSlot]
    rw [if_pos rfl, Option.some_inj, hpy, hcall, Call.orElse_eq_orElse_iff]
    simp only [hnext, reduceCtorEq, false_or]

theorem generated_int_eq_iff (h1 : PyObject.HasType d1 (.int m : PyObject ω))
    (h2 : PyObject.HasType d2 w) :
    W.generated B ⟨op, d1, d2⟩ (.int m) w inplace s =
        some (W.pyOperator B op inplace (.int m) w s) ↔ W.Agrees B op (.int m) w s := by
  cases w with
  | none =>
    have hpy : W.pyOperator B op inplace (.int m) .none = _ := pyOperator_int rfl
    rw [generated_int_slots h1 rfl fun _ _ => rfl, hpy, ite_self]
    exact iff_of_true rfl (agrees_of_not_float (fun _ h => by cases h) (fun _ h => by cases h)
      fun _ _ _ h => by cases h)
  | int n =>
    have hslot : W.slotOf op .int = some .long := by cases op <;> rfl
    have hpy : W.pyOperator B op inplace (.int m) (.int n) s =
        (.value (.int (op.onInts m n)), s) :=
      pyOperator_of_same PyObject.isExact_int hslot hslot rfl rfl
    rw [generated_int_int h1 h2, hpy]
    exact iff_of_true rfl (agrees_of_not_float (fun _ h => by cases h) (fun _ h => by cases h)
      fun _ _ _ h => by cases h)
  | float y =>
    cases op with
    | bitwise op =>
      have hpy : W.pyOperator B (.bitwise op) inplace (.int m) (.float y) = _ :=
        pyOperator_int rfl
      rw [generated_int_slots h1 (isType_float h2).2.2 fun _ h => (by cases h), hpy, ite_self]
      refine iff_of_true rfl ⟨fun h => (by cases h), fun h => (by cases h), fun h => (by cases h),
        fun _ _ _ _ h => by cases h⟩
    | arith op =>
      have hpy : W.pyOperator B (.arith op) inplace (.int m) (.float y) s =
          (ofExcept (asDouble m) fun x => .float (op.onDoubles x y), s) := by
        have hcall : W.callSlot (.arith op) .float (.int m) (.float y) s =
            (ofExcept (asDouble m) fun x => .float (op.onDoubles x y), s) := by
          simp only [callSlot, floatSlot, asFloatOperand]
          cases (asDouble m : Except (NumberExc ε) Double) <;> rfl
        rw [pyOperator_int rfl]
        refine (Call.orElse_of_ne ?_).trans hcall
        rw [hcall]
        exact ofExcept_ne
      rw [generated_int_float h1 h2, hpy, Option.some_inj, Prod.mk.injEq, and_iff_left rfl,
        intWithFloat_eq_iff]
      constructor
      · exact fun h => ⟨fun _ h => (by cases h),
          fun hop hm hy => h (NumberOp.arith.inj hop) (PyObject.int.inj hm) (PyObject.float.inj hy),
          fun _ _ _ h => (by cases h), fun _ _ _ _ h => by cases h⟩
      · rintro h rfl rfl rfl
        exact h.sum_right rfl rfl rfl
  | other o =>
    rw [generated_int_slots h1 (isType_of_not_isExact h2 id (by decide)) fun _ _ =>
      isType_of_not_isExact h2 id (by decide)]
    by_cases hbase : W.base (W.typeOf o) = .int
    · have hcall (s : σ) : W.callSlot op .long (.int m) (.other o) s =
          (.value (.int (op.onInts m (W.intValue o))), s) := by
        simp only [callSlot, longSlot, asLong, if_pos hbase]
      have hv : W.slotOf op .int = some .long := by cases op <;> rfl
      have hsub : W.isSubtypeOf (W.pyType (.other o)) .int = true := decide_eq_true hbase
      cases hslot : W.slot op (W.typeOf o) with
      | none =>
        have hw : W.slotOf op (W.pyType (.other o)) = some .long := by
          rw [pyType, slotOf, hslot, hbase]
          cases op <;> rfl
        have hright :
            W.callRight op (.int m) (.other o) (W.repeatRight B op (.int m) (.other o)) s =
              (.value (.int (op.onInts m (W.intValue o))), s) := by
          rw [callRight, hw]
          exact Call.orElse_of_value (hcall s)
        rw [hright, pyOperator_of_same (v := .int m) PyObject.isExact_int hv hw hsub (hcall s),
          ite_self]
        refine iff_of_true rfl (agrees_of_not_float (fun _ h => by cases h)
          (fun _ h => by cases h) ?_)
        rintro _ f r ⟨⟩ ⟨hf, -⟩
        cases hslot.symm.trans hf
      | some f =>
        have hw : W.slotOf op (W.pyType (.other o)) = some (.own f) := by
          rw [pyType, slotOf, hslot]
        rw [some_callRight_eq_iff hslot (pyOperator_of_own (v := .int m) PyObject.isExact_int hv hw
          hsub (fun h => by cases h) hcall) fun _ => repeatRight_eq_iff,
          agrees_iff_of_overrides (.int hslot hbase)]
    · have hpy : W.pyOperator B op inplace (.int m) (.other o) = _ :=
        pyOperator_int (decide_eq_false hbase)
      rw [hpy, ite_self]
      refine iff_of_true rfl (agrees_of_not_float (fun _ h => by cases h)
        (fun _ h => by cases h) ?_)
      rintro _ f r ⟨⟩ ⟨-, hb⟩
      exact hbase hb

theorem generated_float_eq_iff {op : Arith} (h1 : PyObject.HasType d1 (.float x : PyObject ω))
    (h2 : PyObject.HasType d2 w) :
    W.generated B ⟨.arith op, d1, d2⟩ (.float x) w inplace s =
        some (W.pyOperator B (.arith op) inplace (.float x) w s) ↔
      W.Agrees B (.arith op) (.float x) w s := by
  cases w with
  | none =>
    have hpy : W.pyOperator B (.arith op) inplace (.float x) .none = _ := pyOperator_float op rfl
    rw [generated_float_slots h1 h2 id, hpy, ite_self]
    exact iff_of_true rfl (agrees_of_not_int (fun _ h => by cases h) (fun _ h => by cases h)
      fun _ _ _ h => by cases h)
  | int n =>
    have hpy : W.pyOperator B (.arith op) inplace (.float x) (.int n) s = _ :=
      pyOperator_float_of_operand op rfl rfl
    rw [generated_float_int h1 h2, hpy, Option.some_inj, Prod.mk.injEq, and_iff_left rfl,
      floatWithInt_eq_iff]
    constructor
    · refine fun h => ⟨fun hop hx hn => h.1 (NumberOp.arith.inj hop) (PyObject.float.inj hx)
        (PyObject.int.inj hn), fun _ h => (by cases h), ?_, fun _ _ _ _ h => by cases h⟩
      rintro hop a _ hx ⟨⟩ hn
      exact h.2 (NumberOp.arith.inj hop) a (PyObject.float.inj hx) hn
    · refine fun h => ⟨?_, ?_⟩
      · rintro rfl rfl rfl
        exact h.sum_left rfl rfl rfl
      · rintro rfl a rfl hn
        exact h.product rfl a n rfl rfl hn
  | float y =>
    have hpy : W.pyOperator B (.arith op) inplace (.float x) (.float y) s =
        (.value (.float (op.onDoubles x y)), s) :=
      pyOperator_of_same PyObject.isExact_float rfl rfl rfl rfl
    rw [generated_float_float h1 h2, hpy]
    exact iff_of_true rfl (agrees_of_not_int (fun _ h => by cases h) (fun _ h => by cases h)
      fun _ _ _ h => by cases h)
  | other o =>
    rw [generated_float_slots h1 h2 id]
    cases hbase : W.base (W.typeOf o) with
    | int =>
      have hr : W.asFloatOperand (.other o) = some (asDouble (W.intValue o)) := by
        rw [asFloatOperand, hbase]
      have hsub : W.isSubtypeOf (W.pyType (.other o)) .float = false :=
        decide_eq_false (by rw [hbase]; decide)
      have hcall : W.callSlot (.arith op) .float (.float x) (.other o) s =
          (ofExcept (asDouble (W.intValue o)) fun y => .float (op.onDoubles x y), s) :=
        congrArg (·, s) (floatSlot_eq op hr)
      have hlong : W.isLongSubclass (.other o) = true := decide_eq_true hbase
      rw [if_pos hlong, hcall, pyOperator_float_of_operand op hr hsub]
      refine iff_of_true rfl (agrees_of_not_int (fun _ h => by cases h) (fun _ h => by cases h) ?_)
      rintro _ f r ⟨⟩ hover
      cases hover with
      | float _ hb => cases hbase.symm.trans hb
    | float =>
      have hlong : W.isLongSubclass (.other o) = false :=
        decide_eq_false (by rw [hbase]; decide)
      have hr : W.asFloatOperand (.other o) = some (.ok (W.floatValue o)) := by
        rw [asFloatOperand, hbase]
      have hsub : W.isSubtypeOf (W.pyType (.other o)) .float = true := decide_eq_true hbase
      have hcall (s : σ) : W.callSlot (.arith op) .float (.float x) (.other o) s =
          (.value (.float (op.onDoubles x (W.floatValue o))), s) :=
        congrArg (·, s) (floatSlot_eq op hr)
      rw [hlong, if_neg Bool.false_ne_true]
      cases hslot : W.slot (.arith op) (W.typeOf o) with
      | none =>
        have hw : W.slotOf (.arith op) (W.pyType (.other o)) = some .float := by
          rw [pyType, slotOf, hslot, hbase]
          rfl
        have hright : W.callRight (.arith op) (.float x) (.other o) binopTypeError s =
            (.value (.float (op.onDoubles x (W.floatValue o))), s) := by
          rw [callRight, hw]
          exact Call.orElse_of_value (hcall s)
        rw [hright, pyOperator_of_same (v := .float x) PyObject.isExact_float rfl hw hsub (hcall s),
          ite_self]
        refine iff_of_true rfl (agrees_of_not_int (fun _ h => by cases h)
          (fun _ h => by cases h) ?_)
        rintro _ f r ⟨⟩ hover
        cases hover with
        | float hf _ => cases hslot.symm.trans hf
      | some f =>
        have hw : W.slotOf (.arith op) (W.pyType (.other o)) = some (.own f) := by
          rw [pyType, slotOf, hslot]
        have hnext (s : σ) :
            (binopTypeError : Call (PyObject ω) (NumberExc ε) σ) s =
                (.value (.float (op.onDoubles x (W.floatValue o))), s) ↔
              W.RepeatsTo B (.arith op) (.float x) o
                (.float (op.onDoubles x (W.floatValue o))) s :=
          iff_of_false (fun h => by cases h) (by rintro ⟨_, _, _, h, -⟩; cases h)
        rw [some_callRight_eq_iff hslot (pyOperator_of_own (v := .float x) PyObject.isExact_float
          rfl hw hsub (fun h => by cases h) hcall) hnext,
          agrees_iff_of_overrides (.float hslot hbase)]
    | neither =>
      have hpy : W.pyOperator B (.arith op) inplace (.float x) (.other o) = _ :=
        pyOperator_float op (by rw [asFloatOperand, hbase])
      have hlong : W.isLongSubclass (.other o) = false :=
        decide_eq_false (by rw [hbase]; decide)
      rw [hlong, hpy, if_neg Bool.false_ne_true, ite_self]
      refine iff_of_true rfl (agrees_of_not_int (fun _ h => by cases h) (fun _ h => by cases h) ?_)
      rintro _ f r ⟨⟩ hover
      cases hover with
      | float _ hb => cases hbase.symm.trans hb

/-- The generated function has the result, the exception and the effects of Python's operator,
    unless a zero is returned that is not the
    result, or a slot of a derived type declines and Python goes on to that of `int` or `float`. -/
theorem generated_eq_iff (W : World ω κ φ ε σ) (B : Build) (t : Template) (op1 op2 : PyObject ω)
    (inplace : Bool) (s : σ) (h1 : op1.HasType t.type1) (h2 : op2.HasType t.type2) :
    W.generated B t op1 op2 inplace s = some (W.pyOperator B t.op inplace op1 op2 s) ↔
      W.Agrees B t.op op1 op2 s := by
  obtain ⟨op, d1, d2⟩ := t
  cases op1 with
  | int m => exact generated_int_eq_iff h1 h2
  | float x =>
    cases op with
    | arith op => exact generated_float_eq_iff h1 h2
    | bitwise op =>
      refine iff_of_true (generated_float_bitwise h1) ⟨fun h => (by cases h),
        fun h => (by cases h), fun h => (by cases h), ?_⟩
      intro o f r s' _ hover
      cases hover
  | _ =>
    refine iff_of_true (generated_of_not_isExact h1 id) ⟨fun _ h => (by cases h),
      fun _ h => (by cases h), fun _ _ _ h => (by cases h), ?_⟩
    intro o f r s' _ hover
    cases hover

end World

/-- Sixty-four bits. -/
def cpython64 : Build where
  typeSlots := true
  pylongInternals := true
  digitBits := 30
  ssize := CPlatform.lp64.longType true
  longLong := CPlatform.lp64.longLongType true
  ssize_signed := rfl
  longLong_signed := rfl
  digitBits_le := by decide
  digitBits_lt_ssize := by decide
  digitBits_lt_longLong := by decide

/-- One type that derives from `int`, with methods that return `NotImplemented`, and its
    instance `2`. -/
def declining : World Unit Unit Unit Empty Unit where
  typeOf _ := ()
  base _ := .int
  intValue _ := 2
  floatValue _ := .nan
  slot _ _ := some ()
  call _ _ _ := fun s => (.notImplemented, s)
  isSubtype _ _ := true
  inplaceSlot _ _ := none
  sequence _ := none
  index _ := none

/-- `1 + two`: Python adds the ints, the generated function raises an exception. -/
theorem generated_one_add_two_ne :
    declining.generated cpython64 ⟨.arith .add, .object, .object⟩ (.int 1) (.other ()) false () ≠
      some (declining.pyOperator cpython64 (.arith .add) false (.int 1) (.other ()) ()) := by
  rw [ne_eq, World.generated_eq_iff declining cpython64 ⟨.arith .add, .object, .object⟩ (.int 1)
    (.other ()) false () trivial trivial]
  intro h
  rcases h.slots () () _ () rfl (.int rfl rfl) rfl with htypeSlots | ⟨_, _, hop, -⟩
  · cases htypeSlots
  · cases hop

/-- `-0.0 + 0` is returned as `-0.0`. -/
theorem generated_negativeZero_add_zero_ne :
    declining.generated cpython64 ⟨.arith .add, .object, .object⟩ (.float (.zero true)) (.int 0)
        false () ≠
      some (declining.pyOperator cpython64 (.arith .add) false (.float (.zero true)) (.int 0)
        ()) := by
  have h1 : PyObject.HasType .object (.float (.zero true) : PyObject Unit) := trivial
  have h2 : PyObject.HasType .object (.int 0 : PyObject Unit) := trivial
  rw [ne_eq, World.generated_float_eq_iff h1 h2]
  exact fun h => h.sum_left rfl rfl rfl

end AHPy.Operators
