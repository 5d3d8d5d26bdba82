import AHPy.ModuleWriter.RichCompare

/-!
# Agreement of the rich comparison with Python classes

The comparison of the same classes written in Python, with
`functools.total_ordering` where the directive is set, a class has an ordering
method and `__eq__` is defined:

* `pyLookup`: the method that the lookup finds, defined or set by the decorator;
* `Runtime.functoolsMethod`: the methods that the decorator sets;
* `Runtime.pyRichcompare`: the slot of a Python class.

`Runtime.faithful_iff` says for which chains the slot functions agree for every
behaviour of the methods. The code of the slot function is balanced for every
chain (`Runtime.balanced_richcompare`).
-/

namespace AHPy.RichCompare

/-! ## Python classes -/

/-- What the lookup of a comparison method finds in the classes. -/
inductive PyMethod
  /-- The method of a class, by the number of its bases. -/
  | user (cls : ℕ)
  /-- A method of `functools`, with the method it starts from. -/
  | derived (root : CompareOp)

/-- The lookup in the classes of a chain. A class with `total_ordering` has the methods
    that are neither defined nor inherited from the root `max(roots)`. -/
def pyLookup : List ExtensionClass → CompareOp → Option PyMethod
  | [], _ => none
  | cls :: bases, op =>
    let getattr := fun op =>
      if cls.defines op then some (.user bases.length) else pyLookup bases op
    match getattr op with
    | some m => some m
    | none =>
      if cls.totalOrdering && (getattr .eq).isSome && decide op.IsOrdering then
        (orderingOps.find? fun root => (getattr root).isSome).map .derived
      else none

variable {Obj E σ : Type}

/-- The operands: if they are the same object, if the type of the second derives from
    the type of the first, and what the slot of the second returns. -/
structure Operands (Obj E σ : Type) where
  same : Bool
  subclassFirst : Bool
  same_subclass : same = true → subclassFirst = false
  reflected : CompareOp → Method E σ Obj

namespace Runtime

variable [DecidableEq Obj] (R : Runtime Obj E σ)

/-- `object.__eq__` -/
def objectEq (operands : Operands Obj E σ) : Method E σ Obj :=
  pure (if operands.same then R.pyTrue else R.pyNotImplemented)

/-- `object.__ne__`: the opposite of what the slot returns for `==`. -/
def objectNe (slotEq : Method E σ Obj) : Method E σ Obj := do
  let res ← slotEq
  if res = R.pyNotImplemented then return res
  let ok ← R.isTrue res
  return R.pyBool (!ok)

/-- The slot of a Python class for `==`. -/
def pySlotEq (methods : Methods Obj E σ) (operands : Operands Obj E σ)
    (chain : List ExtensionClass) : Method E σ Obj :=
  match pyLookup chain .eq with
  | some (.user i) => methods i .eq
  | _ => R.objectEq operands

/-- The slot of a Python class for `!=`. -/
def pySlotNe (methods : Methods Obj E σ) (operands : Operands Obj E σ)
    (chain : List ExtensionClass) : Method E σ Obj :=
  match pyLookup chain .ne with
  | some (.user i) => methods i .ne
  | _ => R.objectNe (R.pySlotEq methods operands chain)

/-- `do_richcompare`, with the identity of the operands at the end. -/
def operator (operands : Operands Obj E σ) (slot reflected : Method E σ Obj)
    (identity : Bool) : Method E σ Obj := do
  if operands.subclassFirst then
    let res ← reflected
    if res ≠ R.pyNotImplemented then return res
    let res ← slot
    if res ≠ R.pyNotImplemented then return res
    return R.pyBool identity
  else
    let res ← slot
    if res ≠ R.pyNotImplemented then return res
    let res ← reflected
    if res ≠ R.pyNotImplemented then return res
    return R.pyBool identity

/-- The methods of `functools`, from `op_result` on, with `self == other` and
    `self != other`. -/
def functoolsResult (root op : CompareOp) (opResult : Obj) (selfEq selfNe : Method E σ Obj) :
    Method E σ Obj := do
  let truth ← R.isTrue opResult
  match root, op with
  -- return not op_result and self != other
  | .lt, .gt => if truth then pure R.pyFalse else selfNe
  -- return op_result or self == other
  | .lt, .le => if truth then pure opResult else selfEq
  -- return not op_result
  | .lt, .ge => pure (R.pyBool (!truth))
  -- return not op_result or self == other
  | .le, .ge => if truth then selfEq else pure R.pyTrue
  -- return op_result and self != other
  | .le, .lt => if truth then selfNe else pure opResult
  -- return not op_result
  | .le, .gt => pure (R.pyBool (!truth))
  -- return not op_result and self != other
  | .gt, .lt => if truth then pure R.pyFalse else selfNe
  -- return op_result or self == other
  | .gt, .ge => if truth then pure opResult else selfEq
  -- return not op_result
  | .gt, .le => pure (R.pyBool (!truth))
  -- return not op_result or self == other
  | .ge, .le => if truth then selfEq else pure R.pyTrue
  -- return op_result and self != other
  | .ge, .gt => if truth then selfNe else pure opResult
  -- return not op_result
  | .ge, .lt => pure (R.pyBool (!truth))
  | _, _ => pure R.pyNotImplemented

/-- A method of `functools`. -/
def functoolsMethod (methods : Methods Obj E σ) (operands : Operands Obj E σ)
    (chain : List ExtensionClass) (root op : CompareOp) : Method E σ Obj := do
  -- The root of a derivation is never derived itself.
  let opResult ← match pyLookup chain root with
    | some (.user i) => methods i root
    | _ => pure R.pyNotImplemented
  if opResult = R.pyNotImplemented then return opResult
  R.functoolsResult root op opResult
    (R.operator operands (R.pySlotEq methods operands chain) (operands.reflected .eq)
      operands.same)
    (R.operator operands (R.pySlotNe methods operands chain) (operands.reflected .ne)
      (!operands.same))

/-- `tp_richcompare` of a Python class. -/
def pyRichcompare (methods : Methods Obj E σ) (operands : Operands Obj E σ)
    (chain : List ExtensionClass) (op : CompareOp) : Method E σ Obj :=
  match op with
  | .eq => R.pySlotEq methods operands chain
  | .ne => R.pySlotNe methods operands chain
  | op =>
    match pyLookup chain op with
    | some (.user i) => methods i op
    | some (.derived root) => R.functoolsMethod methods operands chain root op
    | none => pure R.pyNotImplemented

/-! ## Agreement -/

/-- What the interpreter makes of a result for the same operands: without one, they
    are equal. -/
def settle (operands : Operands Obj E σ) (op : CompareOp) (res : Obj) : Obj :=
  if operands.same = true ∧ res = R.pyNotImplemented then
    match op with
    | .eq => R.pyTrue
    | .ne => R.pyFalse
    | _ => res
  else res

/-- The outcome of a slot, without the references of its code. -/
def outcome (operands : Operands Obj E σ) (op : CompareOp) :
    EStateM.Result E (Frame Obj σ) Obj → EStateM.Result E σ Obj
  | .ok res s => .ok (R.settle operands op res) s.world
  | .error e s => .error e s.world

/-- The outcome of a slot of Python. -/
def pyOutcome (operands : Operands Obj E σ) (op : CompareOp) :
    EStateM.Result E σ Obj → EStateM.Result E σ Obj
  | .ok res s => .ok (R.settle operands op res) s
  | .error e s => .error e s

/-- The code holds the reference that it returns, and no other. -/
def Balanced (refs : Obj → ℤ) : EStateM.Result E (Frame Obj σ) Obj → Prop
  | .ok res s => s.refs = addRef refs res 1
  | .error _ s => s.refs = refs

/-- The slot function of a chain does what the Python classes do, whatever the
    methods do, and neither leaks nor loses references. -/
def Faithful (chain : List ExtensionClass) : Prop :=
  ∀ (methods : Methods Obj E σ) (operands : Operands Obj E σ) (op : CompareOp) (s : σ)
    (refs : Obj → ℤ),
    R.outcome operands op (R.richcompare methods chain op ⟨s, refs⟩) =
      R.pyOutcome operands op (R.pyRichcompare methods operands chain op s) ∧
    Balanced refs (R.richcompare methods chain op ⟨s, refs⟩)

end Runtime

/-- The root of the methods that the decorator sets: in the class nearest to the
    root of the hierarchy that has the directive and fulfils its preconditions. -/
def pythonSource : List ExtensionClass → Option CompareOp
  | [] => none
  | cls :: bases =>
    match pythonSource bases with
    | some root => some root
    | none =>
      if cls.totalOrdering && (comparisonEntry (cls :: bases) .eq).isSome then
        maxOrdering (comparisonEntry (cls :: bases))
      else none

/-- The chains in which a missing ordering method is derived in neither language, or in
    both from the same method without a test for equality. -/
def Meets (chain : List ExtensionClass) : Prop :=
  ∀ op, op.IsOrdering → comparisonEntry chain op = none →
    (pythonSource chain = none ∧ orderingSource (slotClass chain) = none) ∨
      ∃ source d, pythonSource chain = some source ∧
        orderingSource (slotClass chain) = some source ∧
        totalOrderingTable source op = some d ∧ d.equality = none

/-! ## Lookups -/

theorem isOrdering_of_maxOrdering {entry : CompareOp → Option ℕ} {op : CompareOp}
    (h : maxOrdering entry = some op) : op.IsOrdering ∧ (entry op).isSome := by
  have hmem := List.mem_of_find?_eq_some h
  have hsome : (entry op).isSome = true := by simpa using List.find?_some h
  refine ⟨?_, hsome⟩
  simp only [orderingOps, List.mem_cons, List.not_mem_nil, or_false] at hmem
  rcases hmem with rfl | rfl | rfl | rfl <;> exact trivial

theorem comparisonEntry_slotClass (chain : List ExtensionClass) :
    comparisonEntry (slotClass chain) = comparisonEntry chain := by
  induction chain with
  | nil => rfl
  | cons cls bases ih =>
    rw [slotClass]
    split
    next => rfl
    next h =>
      rw [ih]
      funext op
      have hop : cls.defines op = false := by
        simp only [Bool.or_eq_true, not_or, Bool.not_eq_true] at h
        cases op <;> simp only [h]
      simp [comparisonEntry, hop]

/-- The lookup finds the method of the first class that defines it; an ordering method
    that no class defines is derived from the root of the chain. -/
theorem pyLookup_eq (chain : List ExtensionClass) (op : CompareOp) :
    pyLookup chain op = ((comparisonEntry chain op).map .user).or
      (if op.IsOrdering then (pythonSource chain).map .derived else none) := by
  induction chain generalizing op with
  | nil => simp [pyLookup, comparisonEntry, pythonSource]
  | cons cls bases ih =>
    -- The lookup of the attributes before the decorator sets any.
    have hgetattr : ∀ op, (if cls.defines op then some (.user bases.length)
        else pyLookup bases op) = ((comparisonEntry (cls :: bases) op).map .user).or
          (if op.IsOrdering then (pythonSource bases).map PyMethod.derived else none) := by
      intro op
      by_cases hd : cls.defines op <;> simp [comparisonEntry, hd, ih]
    simp only [pyLookup, hgetattr]
    cases he : comparisonEntry (cls :: bases) op with
    | some i => simp
    | none =>
      by_cases hop : op.IsOrdering
      · cases hs : pythonSource bases with
        | some root => simp [pythonSource, hs, hop]
        | none => simp [pythonSource, hs, hop, maxOrdering, apply_ite (Option.map PyMethod.derived)]
      · simp [hop]

theorem pythonSource_spec {chain : List ExtensionClass} {root : CompareOp}
    (h : pythonSource chain = some root) :
    root.IsOrdering ∧ (comparisonEntry chain root).isSome := by
  induction chain with
  | nil => simp [pythonSource] at h
  | cons cls bases ih =>
    rw [pythonSource] at h
    split at h
    next r hr =>
      obtain rfl := Option.some_inj.1 h
      obtain ⟨hop, hsome⟩ := ih hr
      refine ⟨hop, ?_⟩
      rw [comparisonEntry]
      split
      · rfl
      · exact hsome
    next =>
      split at h
      · exact isOrdering_of_maxOrdering h
      · cases h

theorem orderingSource_spec {scopes : List ExtensionClass} {source : CompareOp}
    (h : orderingSource scopes = some source) :
    source.IsOrdering ∧ (comparisonEntry scopes source).isSome ∧
      ((comparisonEntry scopes .eq).isSome ∨ (comparisonEntry scopes .ne).isSome) := by
  cases scopes with
  | nil => simp [orderingSource] at h
  | cons cls bases =>
    rw [orderingSource] at h
    split at h
    next =>
      split at h
      next => cases h
      next r hr =>
        split at h
        next => cases h
        next hne =>
          obtain rfl := Option.some_inj.1 h
          obtain ⟨hop, hsome⟩ := isOrdering_of_maxOrdering hr
          refine ⟨hop, hsome, ?_⟩
          simp only [Bool.and_eq_true, Option.isNone_iff_eq_none, not_and_or,
            ← Option.isSome_iff_ne_none] at hne
          exact hne
    next => cases h

theorem exists_totalOrderingTable {source op : CompareOp} (hs : source.IsOrdering)
    (hop : op.IsOrdering) (hne : source ≠ op) : ∃ d, totalOrderingTable source op = some d := by
  cases source <;> cases op <;> first
    | exact hs.elim
    | exact hop.elim
    | exact absurd rfl hne
    | exact ⟨_, rfl⟩

/-! ## Balance -/

theorem addRef_addRef [DecidableEq Obj] (refs : Obj → ℤ) (o : Obj) :
    addRef (addRef refs o 1) o (-1) = refs := by
  funext o'
  by_cases h : o' = o
  · simp [addRef, h]
  · simp [addRef, h]

namespace Runtime

variable [DecidableEq Obj] (R : Runtime Obj E σ)

theorem balanced_newRef (o w) (refs : Obj → ℤ) :
    Balanced refs (newRef o (⟨w, refs⟩ : Frame Obj σ) : EStateM.Result E (Frame Obj σ) Obj) :=
  rfl

theorem balanced_callMethod (m : Method E σ Obj) (s : σ) (refs : Obj → ℤ) :
    Balanced refs (callMethod m ⟨s, refs⟩) := by
  rw [callMethod]
  split
  next => rfl
  next => rfl

/-- A result that is tested is closed before the rest of the code. -/
theorem balanced_test (m : Method E σ Obj) (k : Bool → EStateM E (Frame Obj σ) Obj)
    (refs : Obj → ℤ) (hk : ∀ b w, Balanced refs (k b ⟨w, refs⟩)) (s : σ) :
    Balanced refs ((do
      let ret ← callMethod m
      if ret = R.pyNotImplemented then return ret
      let b ← R.isTrueAndClose ret
      k b : EStateM E (Frame Obj σ) Obj) ⟨s, refs⟩) := by
  simp only [bind, EStateM.bind, callMethod]
  cases m s with
  | error e w => rfl
  | ok o w =>
    simp only
    split
    next => rfl
    next =>
      simp only [EStateM.bind, isTrueAndClose]
      cases R.isTrue o w with
      | error e w' => exact addRef_addRef refs o
      | ok b w' =>
        simp only [addRef_addRef]
        exact hk b w'

theorem balanced_equalityCode (m : Method E σ Obj) (invert : Bool) (refs : Obj → ℤ) (s : σ) :
    Balanced refs (R.equalityCode m invert ⟨s, refs⟩) :=
  R.balanced_test m _ refs (fun _ w => balanced_newRef _ w refs) s

theorem balanced_derivedCode (d : Derivation) (order : Method E σ Obj)
    (equality : Bool → EStateM E (Frame Obj σ) Obj) (refs : Obj → ℤ)
    (heq : ∀ invert w, Balanced refs (equality invert ⟨w, refs⟩)) (s : σ) :
    Balanced refs (R.derivedCode d order equality ⟨s, refs⟩) := by
  refine R.balanced_test order _ refs (fun b w => ?_) s
  rw [combine]
  cases d.equality with
  | none => exact balanced_newRef _ w refs
  | some connected =>
    obtain ⟨conn, invert⟩ := connected
    cases conn with
    | and =>
      simp only
      cases (if d.invertComp then b else !b) with
      | true => exact balanced_newRef _ w refs
      | false => exact heq _ w
    | or =>
      simp only
      cases (if d.invertComp then !b else b) with
      | true => exact balanced_newRef _ w refs
      | false => exact heq _ w

theorem balanced_derivedEquality (methods : Methods Obj E σ) (compEntry : CompareOp → Option ℕ)
    (invert : Bool) (refs : Obj → ℤ) (s : σ) :
    Balanced refs (R.derivedEquality methods compEntry invert ⟨s, refs⟩) := by
  rw [derivedEquality]
  cases compEntry .eq with
  | some i => exact R.balanced_equalityCode _ _ refs s
  | none =>
    cases compEntry .ne with
    | some i => exact R.balanced_equalityCode _ _ refs s
    | none => exact balanced_newRef _ s refs

/-- On every path the code holds the reference that it returns, and no other. -/
theorem balanced_richcompare (methods : Methods Obj E σ) (chain : List ExtensionClass)
    (op : CompareOp) (refs : Obj → ℤ) (s : σ) :
    Balanced refs (R.richcompare methods chain op ⟨s, refs⟩) := by
  rw [richcompare, switch]
  cases comparisonEntry (slotClass chain) op with
  | some i => exact balanced_callMethod _ s refs
  | none =>
    simp only
    split
    next =>
      cases comparisonEntry (slotClass chain) .eq with
      | some i => exact R.balanced_equalityCode _ _ refs s
      | none => exact balanced_newRef _ s refs
    next =>
      cases orderingSource (slotClass chain) with
      | none => exact balanced_newRef _ s refs
      | some source =>
        simp only [derivedCase]
        cases totalOrderingTable source op with
        | none => exact balanced_newRef _ s refs
        | some d =>
          cases comparisonEntry (slotClass chain) source with
          | none => exact balanced_newRef _ s refs
          | some i =>
            exact R.balanced_derivedCode _ _ _ refs
              (fun invert w => R.balanced_derivedEquality methods _ invert refs w) s

/-! ## Agreement of the defined methods -/

variable {R} in
theorem outcome_newRef (operands : Operands Obj E σ) (op : CompareOp) (o : Obj) (s : σ)
    (refs : Obj → ℤ) : R.outcome operands op (newRef o ⟨s, refs⟩) =
      R.pyOutcome operands op ((pure o : Method E σ Obj) s) := rfl

theorem outcome_callMethod (operands : Operands Obj E σ) (op : CompareOp)
    (m : Method E σ Obj) (s : σ) (refs : Obj → ℤ) :
    R.outcome operands op (callMethod m ⟨s, refs⟩) = R.pyOutcome operands op (m s) := by
  rw [callMethod]
  split
  next h => rw [h]; rfl
  next h => rw [h]; rfl

/-- The code that tests a result agrees with Python if what follows does. -/
theorem outcome_test (operands : Operands Obj E σ) (op : CompareOp) (m : Method E σ Obj)
    (k : Bool → EStateM E (Frame Obj σ) Obj) (k' : Bool → Method E σ Obj) (refs : Obj → ℤ)
    (hk : ∀ b w, R.outcome operands op (k b ⟨w, refs⟩) = R.pyOutcome operands op (k' b w))
    (s : σ) :
    R.outcome operands op ((do
      let ret ← callMethod m
      if ret = R.pyNotImplemented then return ret
      let b ← R.isTrueAndClose ret
      k b : EStateM E (Frame Obj σ) Obj) ⟨s, refs⟩) =
    R.pyOutcome operands op ((do
      let ret ← m
      if ret = R.pyNotImplemented then return ret
      let b ← R.isTrue ret
      k' b : Method E σ Obj) s) := by
  simp only [bind, EStateM.bind, callMethod]
  cases m s with
  | error e w => rfl
  | ok o w =>
    simp only
    split
    next => rfl
    next =>
      simp only [EStateM.bind, isTrueAndClose]
      cases R.isTrue o w with
      | error e w' => rfl
      | ok b w' =>
        simp only [addRef_addRef]
        exact hk b w'

/-- `!=` is the opposite of `==` in both. -/
theorem outcome_equalityCode (operands : Operands Obj E σ) (op : CompareOp)
    (m : Method E σ Obj) (s : σ) (refs : Obj → ℤ) :
    R.outcome operands op (R.equalityCode m true ⟨s, refs⟩) =
      R.pyOutcome operands op (R.objectNe m s) :=
  R.outcome_test operands op m _ (fun b => pure (R.pyBool !b)) refs (fun _ _ => rfl) s

section

variable (methods : Methods Obj E σ) (operands : Operands Obj E σ) {chain : List ExtensionClass}
  {op : CompareOp}

theorem richcompare_of_entry {i : ℕ} (h : comparisonEntry chain op = some i) :
    R.richcompare methods chain op = callMethod (methods i op) := by
  rw [richcompare, switch, comparisonEntry_slotClass]
  simp only [h]

theorem pyRichcompare_of_entry {i : ℕ} (h : comparisonEntry chain op = some i) :
    R.pyRichcompare methods operands chain op = methods i op := by
  have hlookup : pyLookup chain op = some (.user i) := by simp [pyLookup_eq, h]
  cases op <;> simp only [pyRichcompare, pySlotEq, pySlotNe, hlookup]

/-- An ordering method that no class defines is derived, or the default case is taken. -/
theorem richcompare_of_ordering (hop : op.IsOrdering) (h : comparisonEntry chain op = none) :
    R.richcompare methods chain op =
      ((orderingSource (slotClass chain)).elim (newRef R.pyNotImplemented)
        fun source => R.derivedCase methods (comparisonEntry chain) source op) := by
  have hne : op ≠ .ne := by
    rintro rfl
    exact hop
  rw [richcompare, switch, comparisonEntry_slotClass]
  simp only [h, hne, if_false]
  cases orderingSource (slotClass chain) <;> rfl

theorem pyRichcompare_of_ordering (hop : op.IsOrdering) (h : comparisonEntry chain op = none) :
    R.pyRichcompare methods operands chain op =
      ((pythonSource chain).elim (pure R.pyNotImplemented)
        fun root => R.functoolsMethod methods operands chain root op) := by
  have hlookup : pyLookup chain op = (pythonSource chain).map .derived := by
    simp [pyLookup_eq, h, hop]
  cases hs : pythonSource chain with
  | none =>
    rw [hs] at hlookup
    cases op <;> first | exact hop.elim | simp only [pyRichcompare, hlookup, Option.map_none,
      Option.elim_none]
  | some root =>
    rw [hs] at hlookup
    cases op <;> first | exact hop.elim | simp only [pyRichcompare, hlookup, Option.map_some,
      Option.elim_some]

omit [DecidableEq Obj] in
/-- Derivations without a test for equality invert the result. -/
theorem functoolsResult_of_equality_none {source : CompareOp} {d : Derivation}
    (hd : totalOrderingTable source op = some d) (heq : d.equality = none) (o : Obj)
    (selfEq selfNe : Method E σ Obj) :
    d.invertComp = true ∧ R.functoolsResult source op o selfEq selfNe = (do
      let truth ← R.isTrue o
      pure (R.pyBool (!truth)) : Method E σ Obj) := by
  cases source <;> cases op <;> first
    | (cases hd; done)
    | (cases hd; cases heq; done)
    | (cases hd; exact ⟨rfl, rfl⟩)

/-- The root of a derivation is a method that a class defines. -/
theorem functoolsMethod_eq {root : CompareOp} {i : ℕ} (h : comparisonEntry chain root = some i) :
    R.functoolsMethod methods operands chain root op = (do
      let opResult ← methods i root
      if opResult = R.pyNotImplemented then return opResult
      R.functoolsResult root op opResult
        (R.operator operands (R.pySlotEq methods operands chain) (operands.reflected .eq)
          operands.same)
        (R.operator operands (R.pySlotNe methods operands chain) (operands.reflected .ne)
          (!operands.same)) : Method E σ Obj) := by
  have hlookup : pyLookup chain root = some (.user i) := by simp [pyLookup_eq, h]
  simp only [functoolsMethod, hlookup]

theorem derivedCase_eq {source : CompareOp} {d : Derivation} {i : ℕ}
    (hd : totalOrderingTable source op = some d) (h : comparisonEntry chain source = some i) :
    R.derivedCase methods (comparisonEntry chain) source op =
      R.derivedCode d (methods i source) (R.derivedEquality methods (comparisonEntry chain)) := by
  simp only [derivedCase, hd, h]

end

/-! ## Agreement -/

theorem settle_of_ordering (operands : Operands Obj E σ) {op : CompareOp} (hop : op.IsOrdering)
    (o : Obj) : R.settle operands op o = o := by
  cases op with
  | eq => exact hop.elim
  | ne => exact hop.elim
  | _ => exact ite_self _

/-- Without a method, both slots leave `==` and `!=` to the identity of the operands. -/
theorem outcome_default (methods : Methods Obj E σ) (operands : Operands Obj E σ)
    {chain : List ExtensionClass} (heq : comparisonEntry chain .eq = none) (op : CompareOp)
    (hop : op = .eq ∨ op = .ne) (h : comparisonEntry chain op = none) (s : σ) (refs : Obj → ℤ) :
    R.outcome operands op (R.richcompare methods chain op ⟨s, refs⟩) =
      R.pyOutcome operands op (R.pyRichcompare methods operands chain op s) := by
  have hcode : R.richcompare methods chain op = newRef R.pyNotImplemented := by
    rw [richcompare, switch, comparisonEntry_slotClass]
    rcases hop with rfl | rfl
    · cases hsource : orderingSource (slotClass chain) with
      | none => simp [heq]
      | some source =>
        have htable : totalOrderingTable source .eq = none := by cases source <;> rfl
        simp [heq, derivedCase, htable]
    · simp [heq, h]
  have hslot : R.pySlotEq methods operands chain = R.objectEq operands := by
    have hlookup : pyLookup chain .eq = none := by simp [pyLookup_eq, heq, CompareOp.IsOrdering]
    simp only [pySlotEq, hlookup]
  rw [hcode, outcome_newRef]
  rcases hop with rfl | rfl
  · rw [pyRichcompare, hslot, objectEq]
    cases hsame : operands.same with
    | false => simp
    | true => simp [pure, EStateM.pure, pyOutcome, settle, hsame, R.true_ne_notImplemented]
  · have hlookup : pyLookup chain .ne = none := by simp [pyLookup_eq, h, CompareOp.IsOrdering]
    have hpy : R.pyRichcompare methods operands chain .ne = R.objectNe (R.objectEq operands) := by
      simp only [pyRichcompare, pySlotNe, hlookup, hslot]
    rw [hpy]
    cases hsame : operands.same with
    | false => simp [objectNe, objectEq, hsame]
    | true =>
      have hne : R.objectNe (R.objectEq operands) = pure R.pyFalse := by
        simp [objectNe, objectEq, hsame, R.true_ne_notImplemented, R.isTrue_true, pyBool]
      rw [hne]
      simp [pure, EStateM.pure, pyOutcome, settle, hsame, R.false_ne_notImplemented]

theorem outcome_eq_of_meets {chain : List ExtensionClass} (hmeets : Meets chain)
    (methods : Methods Obj E σ) (operands : Operands Obj E σ) (op : CompareOp) (s : σ)
    (refs : Obj → ℤ) :
    R.outcome operands op (R.richcompare methods chain op ⟨s, refs⟩) =
      R.pyOutcome operands op (R.pyRichcompare methods operands chain op s) := by
  cases h : comparisonEntry chain op with
  | some i =>
    rw [R.richcompare_of_entry methods h, R.pyRichcompare_of_entry methods operands h]
    exact R.outcome_callMethod operands op _ s refs
  | none =>
    by_cases hop : op.IsOrdering
    · rw [R.richcompare_of_ordering methods hop h,
        R.pyRichcompare_of_ordering methods operands hop h]
      rcases hmeets op hop h with ⟨hpy, hcode⟩ | ⟨source, d, hpy, hcode, hd, heq⟩
      · rw [hpy, hcode]
        exact outcome_newRef operands op _ s refs
      · obtain ⟨i, hi⟩ := Option.isSome_iff_exists.1 (pythonSource_spec hpy).2
        rw [hpy, hcode, Option.elim_some, Option.elim_some, R.derivedCase_eq methods hd hi,
          R.functoolsMethod_eq methods operands hi]
        simp only [(R.functoolsResult_of_equality_none hd heq _ _ _).2]
        refine R.outcome_test operands op _ _ (fun b => pure (R.pyBool !b)) refs (fun b w => ?_) s
        simp only [combine, heq, (R.functoolsResult_of_equality_none hd heq R.pyTrue
          (pure R.pyTrue) (pure R.pyTrue)).1]
        exact outcome_newRef operands op _ w refs
    · by_cases hne : op = .ne
      · subst hne
        cases heq : comparisonEntry chain .eq with
        | none => exact R.outcome_default methods operands heq .ne (.inr rfl) h s refs
        | some i =>
          have hlookup : pyLookup chain .eq = some (.user i) := by simp [pyLookup_eq, heq]
          have hlookup' : pyLookup chain .ne = none := by
            simp [pyLookup_eq, h, CompareOp.IsOrdering]
          have hcode : R.richcompare methods chain .ne = R.equalityCode (methods i .eq) true := by
            rw [richcompare, switch, comparisonEntry_slotClass]
            simp [h, heq]
          rw [hcode, R.outcome_equalityCode]
          simp only [pyRichcompare, pySlotNe, pySlotEq, hlookup, hlookup']
      · have heq : op = .eq := by
          cases op <;> first | rfl | exact absurd rfl hne | exact absurd trivial hop
        subst heq
        exact R.outcome_default methods operands h .eq (.inl rfl) h s refs

/-! ## Disagreement

Methods that always return the same objects tell the derivations apart. The second
operand is of a type that does not know the first one. -/

/-- Methods that return an object for each operator. -/
def constantMethods (v : CompareOp → Obj) : Methods Obj E σ := fun _ op => pure (v op)

/-- Different operands, of which the second has nothing to say. -/
def foreignOperands : Operands Obj E σ where
  same := false
  subclassFirst := false
  same_subclass := fun _ => rfl
  reflected _ := pure R.pyNotImplemented

/-- The objects are truth values or `NotImplemented`. -/
def Plain (v : CompareOp → Obj) : Prop :=
  ∀ op, v op = R.pyNotImplemented ∨ ∃ b, v op = R.pyBool b

section

omit [DecidableEq Obj]

@[simp] theorem pyBool_ne_notImplemented (b : Bool) : R.pyBool b ≠ R.pyNotImplemented := by
  cases b
  · exact R.false_ne_notImplemented
  · exact R.true_ne_notImplemented

@[simp] theorem isTrue_pyBool (b : Bool) : R.isTrue (R.pyBool b) = pure b := by
  cases b
  · exact R.isTrue_false
  · exact R.isTrue_true

theorem pyBool_inj {b c : Bool} (h : R.pyBool b = R.pyBool c) : b = c := by
  cases b <;> cases c
  · rfl
  · exact absurd h.symm R.true_ne_false
  · exact absurd h R.true_ne_false
  · rfl

end

theorem operator_foreignOperands (a : Obj) (identity : Bool) :
    ∃ x, x ≠ R.pyNotImplemented ∧ R.operator (R.foreignOperands (E := E) (σ := σ)) (pure a)
      (pure R.pyNotImplemented) identity = pure x := by
  by_cases h : a = R.pyNotImplemented
  · refine ⟨R.pyBool identity, R.pyBool_ne_notImplemented identity, ?_⟩
    simp [operator, foreignOperands, h]
  · refine ⟨a, h, ?_⟩
    simp [operator, foreignOperands, h]

variable {v : CompareOp → Obj} {chain : List ExtensionClass}

omit [DecidableEq Obj] in
theorem pySlotEq_constantMethods (hv : R.Plain v) : ∃ a,
    (a = R.pyNotImplemented ∨ ∃ b, a = R.pyBool b) ∧
      R.pySlotEq (constantMethods v) R.foreignOperands chain = pure a := by
  rw [pySlotEq]
  split
  next => exact ⟨v .eq, hv .eq, rfl⟩
  next => exact ⟨R.pyNotImplemented, .inl rfl, rfl⟩

theorem pySlotNe_constantMethods (hv : R.Plain v) : ∃ a,
    R.pySlotNe (constantMethods v) R.foreignOperands chain = pure a := by
  rw [pySlotNe]
  split
  next => exact ⟨v .ne, rfl⟩
  next =>
    obtain ⟨a, ha | ⟨b, ha⟩, hslot⟩ := @pySlotEq_constantMethods Obj E σ R v chain hv
    · exact ⟨R.pyNotImplemented, by simp [objectNe, hslot, ha]⟩
    · exact ⟨R.pyBool (!b), by simp [objectNe, hslot, ha]⟩

omit [DecidableEq Obj] in
/-- A derived method of `functools` returns no `NotImplemented` after the test. -/
theorem functoolsResult_ne {root op : CompareOp} {d : Derivation}
    (hd : totalOrderingTable root op = some d) (b : Bool) {e n : Obj}
    (he : e ≠ R.pyNotImplemented) (hn : n ≠ R.pyNotImplemented) :
    ∃ x, x ≠ R.pyNotImplemented ∧
      R.functoolsResult root op (R.pyBool b) (pure e) (pure n) = pure x := by
  have hcases : ∀ c : Bool, ∀ x y : Obj, x ≠ R.pyNotImplemented → y ≠ R.pyNotImplemented →
      ∃ z, z ≠ R.pyNotImplemented ∧ ((if c then pure x else pure y : Method E σ Obj)) = pure z := by
    intro c x y hx hy
    cases c
    · exact ⟨y, hy, rfl⟩
    · exact ⟨x, hx, rfl⟩
  have hb := R.pyBool_ne_notImplemented b
  have hbool := R.pyBool_ne_notImplemented (!b)
  have ht := R.true_ne_notImplemented
  have hf := R.false_ne_notImplemented
  cases root <;> cases op <;> first
    | (cases hd; done)
    | (simp only [functoolsResult, isTrue_pyBool, pure_bind]
       first
        | exact ⟨_, hbool, rfl⟩
        | exact hcases b _ _ (by assumption) (by assumption))

omit [DecidableEq Obj] in
/-- Some result of the root decides about the derived method. -/
theorem functoolsResult_definite {root op : CompareOp} {d : Derivation}
    (hd : totalOrderingTable root op = some d) : ∃ b x, ∀ selfEq selfNe : Method E σ Obj,
      R.functoolsResult root op (R.pyBool b) selfEq selfNe = pure (R.pyBool x) := by
  cases root <;> cases op <;> first
    | (cases hd; done)
    | (refine ⟨true, false, fun _ _ => ?_⟩; simp [functoolsResult, pyBool, R.isTrue_true]; done)
    | (refine ⟨true, true, fun _ _ => ?_⟩; simp [functoolsResult, pyBool, R.isTrue_true]; done)
    | (refine ⟨false, true, fun _ _ => ?_⟩; simp [functoolsResult, pyBool, R.isTrue_false]; done)
    | (refine ⟨false, false, fun _ _ => ?_⟩; simp [functoolsResult, pyBool, R.isTrue_false])

/-- What Python makes of an ordering method that is derived. -/
theorem pyRichcompare_constantMethods (hv : R.Plain v) {root op : CompareOp} {b : Bool}
    (hop : op.IsOrdering) (h : comparisonEntry chain op = none)
    (hroot : pythonSource chain = some root) (hb : v root = R.pyBool b) :
    ∃ e n, e ≠ R.pyNotImplemented ∧ n ≠ R.pyNotImplemented ∧
      R.pyRichcompare (constantMethods v) R.foreignOperands chain op =
        (R.functoolsResult root op (R.pyBool b) (pure e) (pure n) : Method E σ Obj) := by
  obtain ⟨i, hi⟩ := Option.isSome_iff_exists.1 (pythonSource_spec hroot).2
  obtain ⟨a, -, ha⟩ := @pySlotEq_constantMethods Obj E σ R v chain hv
  obtain ⟨c, hc⟩ := @pySlotNe_constantMethods Obj E σ _ R v chain hv
  obtain ⟨e, he, heq⟩ := R.operator_foreignOperands (E := E) (σ := σ) a false
  obtain ⟨n, hn, hne⟩ := R.operator_foreignOperands (E := E) (σ := σ) c true
  refine ⟨e, n, he, hn, ?_⟩
  rw [R.pyRichcompare_of_ordering _ _ hop h, hroot, Option.elim_some,
    R.functoolsMethod_eq _ _ hi, ha, hc]
  have hmethod : (constantMethods v : Methods Obj E σ) i root = pure (R.pyBool b) := by
    rw [constantMethods, hb]
  simp only [hmethod, pure_bind, R.pyBool_ne_notImplemented b, if_false]
  rw [← heq, ← hne]
  rfl

/-- The code of a derived comparison whose root returns a truth value. -/
theorem derivedCode_pure (d : Derivation) (b : Bool)
    (equality : Bool → EStateM E (Frame Obj σ) Obj) (s : σ) (refs : Obj → ℤ) :
    R.derivedCode d (pure (R.pyBool b)) equality ⟨s, refs⟩ =
      R.combine d equality b ⟨s, refs⟩ := by
  simp [derivedCode, bind, EStateM.bind, callMethod, isTrueAndClose, pure, EStateM.pure,
    addRef_addRef]

theorem equalityCode_pyBool (b invert : Bool) (s : σ) (refs : Obj → ℤ) :
    R.equalityCode (pure (R.pyBool b) : Method E σ Obj) invert ⟨s, refs⟩ =
      newRef (R.pyBool (if invert then !b else b)) ⟨s, refs⟩ := by
  simp [equalityCode, bind, EStateM.bind, callMethod, isTrueAndClose, pure, EStateM.pure,
    addRef_addRef]

theorem equalityCode_notImplemented (invert : Bool) (s : σ) (refs : Obj → ℤ) :
    R.equalityCode (pure R.pyNotImplemented : Method E σ Obj) invert ⟨s, refs⟩ =
      newRef R.pyNotImplemented ⟨s, refs⟩ := by
  simp [equalityCode, bind, EStateM.bind, callMethod, pure, EStateM.pure, newRef]

/-- The comparison for equality of methods that all return `NotImplemented`. -/
theorem derivedEquality_notImplemented (heq : v .eq = R.pyNotImplemented)
    (hne : v .ne = R.pyNotImplemented) (compEntry : CompareOp → Option ℕ) (invert : Bool)
    (s : σ) (refs : Obj → ℤ) :
    R.derivedEquality (constantMethods v : Methods Obj E σ) compEntry invert ⟨s, refs⟩ =
      newRef R.pyNotImplemented ⟨s, refs⟩ := by
  rw [derivedEquality]
  cases compEntry .eq with
  | some i =>
    simp only [constantMethods, heq]
    exact R.equalityCode_notImplemented invert s refs
  | none =>
    cases compEntry .ne with
    | some i =>
      simp only [constantMethods, hne]
      exact R.equalityCode_notImplemented _ s refs
    | none => rfl

/-- The comparison for equality of methods that all return True. -/
theorem derivedEquality_true {compEntry : CompareOp → Option ℕ}
    (h : (compEntry .eq).isSome ∨ (compEntry .ne).isSome) (invert : Bool)
    (s : σ) (refs : Obj → ℤ) : ∃ b,
    R.derivedEquality (constantMethods fun _ => R.pyBool true : Methods Obj E σ) compEntry
      invert ⟨s, refs⟩ = newRef (R.pyBool b) ⟨s, refs⟩ := by
  rw [derivedEquality]
  cases heq : compEntry .eq with
  | some i => exact ⟨_, R.equalityCode_pyBool true invert s refs⟩
  | none =>
    cases hne : compEntry .ne with
    | some i => exact ⟨_, R.equalityCode_pyBool true (!invert) s refs⟩
    | none => simp [heq, hne] at h

theorem combine_pyBool (d : Derivation) {equality : Bool → EStateM E (Frame Obj σ) Obj}
    (s : σ) (refs : Obj → ℤ)
    (h : ∀ invert, ∃ b, equality invert ⟨s, refs⟩ = newRef (R.pyBool b) ⟨s, refs⟩) (b : Bool) :
    ∃ c, R.combine d equality b ⟨s, refs⟩ = newRef (R.pyBool c) ⟨s, refs⟩ := by
  rw [combine]
  cases d.equality with
  | none => exact ⟨_, rfl⟩
  | some connected =>
    obtain ⟨conn, invert⟩ := connected
    cases conn with
    | and =>
      simp only
      cases (if d.invertComp then b else !b) with
      | true => exact ⟨false, rfl⟩
      | false => exact h invert
    | or =>
      simp only
      cases (if d.invertComp then !b else b) with
      | true => exact ⟨true, rfl⟩
      | false => exact h invert

/-- For some result of the root, the test for equality decides. -/
theorem exists_combine_eq_equality {d : Derivation} {conn : LogicOp}
    {invert : Bool} (hd : d.equality = some (conn, invert)) :
    ∃ b, ∀ equality : Bool → EStateM E (Frame Obj σ) Obj,
      R.combine d equality b = equality invert := by
  cases conn with
  | and =>
    refine ⟨!d.invertComp, fun equality => ?_⟩
    rw [combine, hd]
    cases d.invertComp <;> rfl
  | or =>
    refine ⟨d.invertComp, fun equality => ?_⟩
    rw [combine, hd]
    cases d.invertComp <;> rfl

section

variable [Inhabited σ] (hfaithful : R.Faithful chain) {op : CompareOp}

include hfaithful

/-- The results of constant methods are the same objects. -/
theorem eq_of_faithful (hop : op.IsOrdering) {x y : Obj}
    (hcode : R.richcompare (constantMethods v : Methods Obj E σ) chain op
      ⟨default, fun _ => 0⟩ = newRef x ⟨default, fun _ => 0⟩)
    (hpy : R.pyRichcompare (constantMethods v : Methods Obj E σ) R.foreignOperands chain op =
      pure y) : x = y := by
  have h := (hfaithful (constantMethods v) R.foreignOperands op default fun _ => 0).1
  rw [hcode, hpy] at h
  simp only [newRef, pure, EStateM.pure, outcome, pyOutcome, R.settle_of_ordering _ hop] at h
  exact (EStateM.Result.ok.inj h).1

variable (hop : op.IsOrdering) (h : comparisonEntry chain op = none)

include hop h

/-- What Python derives, the code derives from the same method. -/
theorem orderingSource_eq_of_faithful {root : CompareOp} (hroot : pythonSource chain = some root) :
    ∃ d, totalOrderingTable root op = some d ∧ d.equality = none ∧
      orderingSource (slotClass chain) = some root := by
  have hne : ∀ source : CompareOp, (comparisonEntry chain source).isSome → source ≠ op := by
    rintro source hs rfl
    simp [h] at hs
  obtain ⟨hroot_op, hroot_entry⟩ := pythonSource_spec hroot
  obtain ⟨dr, hdr⟩ := exists_totalOrderingTable hroot_op hop (hne root hroot_entry)
  cases hsource : orderingSource (slotClass chain) with
  | none =>
    exfalso
    -- With methods that return True, the derived method of Python has a result.
    obtain ⟨e, n, he, hn, hpy⟩ := R.pyRichcompare_constantMethods (E := E) (σ := σ)
      (v := fun _ => R.pyBool true) (fun _ => .inr ⟨true, rfl⟩) hop h hroot rfl
    obtain ⟨x, hx, hres⟩ := R.functoolsResult_ne (E := E) (σ := σ) hdr true he hn
    refine hx (R.eq_of_faithful (v := fun _ => R.pyBool true) hfaithful hop ?_
      (hpy.trans hres)).symm
    rw [R.richcompare_of_ordering _ hop h, hsource, Option.elim_none]
  | some source =>
    obtain ⟨hsource_op, hsource_entry, heq⟩ := orderingSource_spec hsource
    rw [comparisonEntry_slotClass] at hsource_entry heq
    obtain ⟨i, hi⟩ := Option.isSome_iff_exists.1 hsource_entry
    obtain ⟨d, hd⟩ := exists_totalOrderingTable hsource_op hop (hne source hsource_entry)
    have hcode : ∀ (v : CompareOp → Obj) (b : Bool), v source = R.pyBool b →
        R.richcompare (constantMethods v : Methods Obj E σ) chain op ⟨default, fun _ => 0⟩ =
          R.combine d (R.derivedEquality (constantMethods v) (comparisonEntry chain)) b
            ⟨default, fun _ => 0⟩ := by
      intro v b hb
      rw [R.richcompare_of_ordering _ hop h, hsource, Option.elim_some,
        R.derivedCase_eq _ hd hi]
      simp only [constantMethods, hb]
      exact R.derivedCode_pure d b _ default fun _ => 0
    cases hequality : d.equality with
    | some connected =>
      exfalso
      -- The method for equality returns `NotImplemented`, which Python does not pass on.
      obtain ⟨conn, invert⟩ := connected
      obtain ⟨b, hb⟩ := R.exists_combine_eq_equality (E := E) (σ := σ) hequality
      have hordering : ∀ op : CompareOp, op.IsOrdering → op ≠ .eq ∧ op ≠ .ne := by
        rintro op hop'
        constructor <;> rintro rfl <;> exact hop'
      let v : CompareOp → Obj := fun op =>
        if op = .eq ∨ op = .ne then R.pyNotImplemented else R.pyBool b
      have hv : ∀ op : CompareOp, op.IsOrdering → v op = R.pyBool b := fun op hop' =>
        if_neg (not_or.2 (hordering op hop'))
      have hplain : R.Plain v := by
        intro op
        by_cases hc : op = .eq ∨ op = .ne
        · exact .inl (if_pos hc)
        · exact .inr ⟨b, if_neg hc⟩
      obtain ⟨e, n, he, hn, hpy⟩ := R.pyRichcompare_constantMethods (E := E) (σ := σ) hplain hop h
        hroot (hv root hroot_op)
      obtain ⟨x, hx, hres⟩ := R.functoolsResult_ne (E := E) (σ := σ) hdr b he hn
      refine hx (R.eq_of_faithful hfaithful hop ?_ (hpy.trans hres)).symm
      rw [hcode v b (hv source hsource_op), hb]
      exact R.derivedEquality_notImplemented (if_pos (.inl rfl)) (if_pos (.inr rfl)) _ _ _ _
    | none =>
      obtain rfl : root = source := by
        by_contra hdiffer
        -- The result of the one root decides in Python, that of the other in the code.
        obtain ⟨b, x, hpy⟩ := R.functoolsResult_definite (E := E) (σ := σ) hdr
        let c := if d.invertComp then x else !x
        let v : CompareOp → Obj := fun op => if op = root then R.pyBool b else R.pyBool c
        have hplain : R.Plain v := by
          intro op
          by_cases hc : op = root
          · exact .inr ⟨b, if_pos hc⟩
          · exact .inr ⟨c, if_neg hc⟩
        obtain ⟨e, n, -, -, hres⟩ := R.pyRichcompare_constantMethods (E := E) (σ := σ) hplain hop h
          hroot (if_pos rfl : v root = R.pyBool b)
        have heq' := R.eq_of_faithful (x := R.pyBool !x) hfaithful hop ?_ (hres.trans (hpy _ _))
        · have := R.pyBool_inj heq'
          cases x <;> cases this
        · rw [hcode v c (if_neg (Ne.symm hdiffer)), combine, hequality]
          simp only [c]
          cases d.invertComp <;> rfl
      exact ⟨d, hd, hequality, rfl⟩

/-- What Python does not derive, the code does not derive. -/
theorem orderingSource_eq_none_of_faithful (hroot : pythonSource chain = none) :
    orderingSource (slotClass chain) = none := by
  cases hsource : orderingSource (slotClass chain) with
  | none => rfl
  | some source =>
    exfalso
    obtain ⟨hsource_op, hsource_entry, heq⟩ := orderingSource_spec hsource
    rw [comparisonEntry_slotClass] at hsource_entry heq
    obtain ⟨i, hi⟩ := Option.isSome_iff_exists.1 hsource_entry
    have hne : source ≠ op := by
      rintro rfl
      simp [h] at hsource_entry
    obtain ⟨d, hd⟩ := exists_totalOrderingTable hsource_op hop hne
    -- With methods that return True, the derived comparison of the code has a result.
    obtain ⟨c, hc⟩ := R.combine_pyBool (E := E) d (default : σ) (fun _ => 0)
      (fun invert => R.derivedEquality_true heq invert default fun _ => 0) true
    refine R.pyBool_ne_notImplemented c (R.eq_of_faithful (v := fun _ => R.pyBool true)
      hfaithful hop ?_ ?_)
    · rw [R.richcompare_of_ordering _ hop h, hsource, Option.elim_some, R.derivedCase_eq _ hd hi]
      exact (R.derivedCode_pure d true _ default fun _ => 0).trans hc
    · rw [R.pyRichcompare_of_ordering _ _ hop h, hroot, Option.elim_none]

end

/-- The slot functions of a chain agree with the Python classes, for every behaviour of
    the methods and without a reference leaked or lost, exactly if the missing ordering
    methods are derived alike without a test for equality. -/
theorem faithful_iff [Inhabited σ] (chain : List ExtensionClass) :
    R.Faithful chain ↔ Meets chain := by
  constructor
  · intro hfaithful op hop h
    cases hroot : pythonSource chain with
    | none => exact .inl ⟨rfl, R.orderingSource_eq_none_of_faithful hfaithful hop h hroot⟩
    | some root =>
      obtain ⟨d, hd, hequality, hsource⟩ :=
        R.orderingSource_eq_of_faithful hfaithful hop h hroot
      exact .inr ⟨root, d, rfl, hsource, hd, hequality⟩
  · intro hmeets methods operands op s refs
    exact ⟨R.outcome_eq_of_meets hmeets methods operands op s refs,
      R.balanced_richcompare methods chain op refs s⟩

end Runtime

/-! ## A class below one with `total_ordering` -/

/-- Truth values, and `NotImplemented` as none. -/
def boolRuntime : Runtime (Option Bool) Unit Unit where
  pyNotImplemented := none
  pyTrue := some true
  pyFalse := some false
  true_ne_notImplemented := Option.some_ne_none _
  false_ne_notImplemented := Option.some_ne_none _
  true_ne_false := fun h => Bool.noConfusion (Option.some.inj h)
  isTrue o := pure (o.getD true)
  isTrue_true := rfl
  isTrue_false := rfl

/-- A class with `__eq__`, below a class with `__eq__`, `__lt__` and `total_ordering`. -/
def equalityBelowOrdered : List ExtensionClass :=
  [⟨fun op => op = .eq, false⟩, ⟨fun op => op = .eq || op = .lt, true⟩]

/-- The subclass inherits `__le__` in Python, and has none in the generated code. -/
theorem not_faithful_equalityBelowOrdered :
    ¬ ∀ chain : List ExtensionClass, boolRuntime.Faithful chain := by
  intro h
  have hle := (h equalityBelowOrdered (Runtime.constantMethods fun _ => some true)
    boolRuntime.foreignOperands .le () fun _ => 0).1
  have hres := (EStateM.Result.ok.inj hle).1
  cases hres

end AHPy.RichCompare
