import AHPy.Dataclass.Methods

/-!
# Agreement of dataclasses with the standard library

The methods that `dataclasses` of the standard library gives to the same class:

* `stdFields`: the fields of the bases and of the class, each with the `kw_only`
  of its class;
* `stdInit`, `stdMatchArgs`: `__init__` and `__match_args__`;
* `lexicographic`: the comparison of tuples, which compares the first elements
  that are neither identical nor equal;
* `stdHash`: the table of actions for `__hash__`.

`Dataclass.methods_agree` is what the generated methods have in common with them.
The chains of tests replace the comparison of tuples: they agree for values with
consistent comparisons (`Consistent`).
-/

namespace AHPy.Dataclass

variable {V Fac E σ : Type}

/-! ## The standard library -/

/-- A field with its `kw_only`. -/
structure StdField (V Fac : Type) extends Field V Fac where
  kwOnly : Bool

/-- A field of a class with the argument `kw_only`. -/
def Field.toStd (kwOnly : Bool) (field : Field V Fac) : StdField V Fac := ⟨field, kwOnly⟩

/-- The fields of a chain of classes, the first class last. -/
def stdFields : List (ClassNode V Fac) → OrderedDict Name (StdField V Fac)
  | [] => .empty
  | cls :: bases =>
    if cls.isDataclass then
      cls.varEntries.foldl (fun fields e => fields.set e.1 (e.2.toStd cls.kwOnly)) (stdFields bases)
    else stdFields bases

section Init

variable (hasDefaultFactory : V)

/-- A field without default behind one with a default, among the positional ones. -/
def stdCheck : List (Name × StdField V Fac) → Bool → Except Name Unit
  | [], _ => .ok ()
  | (name, field) :: fields, seenDefault =>
    if (paramDefault hasDefaultFactory field.default).isSome then stdCheck fields true
    else if seenDefault then .error name
    else stdCheck fields seenDefault

/-- `_init_param` -/
def stdParam (e : Name × StdField V Fac) : Param V :=
  ⟨e.1, paramDefault hasDefaultFactory e.2.default⟩

/-- `_field_init`: a default that is no argument stays an attribute of the class. -/
def stdLine (field : StdField V Fac) : Option (InitExpr V Fac) :=
  match field.default with
  | .factory f => if field.init then some (.factoryOrArgument f) else some (.factory f)
  | .value _ => if field.init then some .argument else none
  | .missing => if field.init then some .argument else none

/-- `_init_fn` -/
def stdInit (cls : ClassNode V Fac) (fields : List (Name × StdField V Fac)) :
    Except Name (Option (InitFunction V Fac)) :=
  if !cls.init then .ok none
  else do
    let stdFields := fields.filter fun e => e.2.init && !e.2.kwOnly
    let kwOnlyFields := fields.filter fun e => e.2.init && e.2.kwOnly
    stdCheck hasDefaultFactory stdFields false
    return some {
      positional := stdFields.map (stdParam hasDefaultFactory)
      keywordOnly := kwOnlyFields.map (stdParam hasDefaultFactory)
      lines := (fields.filter fun e => !e.2.isInitvar).map fun e => (e.1, stdLine e.2)
      postInit :=
        if cls.postInit then some ((fields.filter fun e => e.2.isInitvar).map Prod.fst)
        else none }

end Init

/-- `__match_args__` -/
def stdMatchArgs (cls : ClassNode V Fac) (fields : List (Name × StdField V Fac)) :
    Option (List Name) :=
  if !cls.matchArgs then none
  else some ((fields.filter fun e => e.2.init && !e.2.kwOnly).map Prod.fst)

/-- The attribute of the class that a field without a line falls back to. -/
def classDefault (field : StdField V Fac) : Option V :=
  match field.default with
  | .value v => some v
  | _ => none

/-- The attributes of the object, with those of its class. -/
def withClassDefaults (fields : List (Name × StdField V Fac)) (values : List (Name × Option V)) :
    List (Name × Option V) :=
  List.zipWith (fun e v => (v.1, v.2.or (classDefault e.2)))
    (fields.filter fun e => !e.2.isInitvar) values

/-- Identity, or else equality. -/
def identicalOrEqual (cmp : Comparisons V E) (a b : V) : Except E Bool :=
  if cmp.same a b then .ok true else cmp.op .eq a b

/-- The comparison of two tuples with the values of some fields. -/
def lexicographic (cmp : Name → Comparisons V E) (op : CompareOp) (self other : Name → V) :
    List Name → Except E Bool
  | [] => .ok op.hasEquals
  | name :: names => do
    let equal ← identicalOrEqual (cmp name) (self name) (other name)
    if equal then lexicographic cmp op self other names
    else if op = .eq then return false
    else (cmp name).op op (self name) (other name)

/-- `_cmp_fn` -/
def stdCmp (fields : List (Name × StdField V Fac)) (cmp : Name → Comparisons V E)
    (op : CompareOp) (sameClass : Bool) (self other : Name → V) : Except E (Option Bool) :=
  if !sameClass then .ok none
  else some <$> lexicographic cmp op self other
    ((fields.filter fun e => e.2.compare && !e.2.isInitvar).map Prod.fst)

/-- `_hash_action`, for a class without `__hash__`. -/
def stdHash (cls : ClassNode V Fac) (fields : List (Name × StdField V Fac)) : HashAction :=
  let add := .add ((fields.filter fun e =>
    !e.2.isInitvar && e.2.hash.getD e.2.compare).map Prod.fst)
  match cls.unsafeHash, cls.eq, cls.frozen with
  | false, false, false => .inherit
  | false, false, true => .inherit
  | false, true, false => .setNone
  | false, true, true => add
  | true, false, false => add
  | true, false, true => add
  | true, true, false => add
  | true, true, true => add

/-! ## Fields -/

/-- The fields of the standard library, if all have the same `kw_only`. -/
def withKwOnly (kwOnly : Bool) (e : Name × Field V Fac) : Name × StdField V Fac :=
  (e.1, e.2.toStd kwOnly)

theorem entries_set {κ α β : Type} [DecidableEq κ] {d : OrderedDict κ α} {d' : OrderedDict κ β}
    {g : α → β} (h : d'.entries = d.entries.map (fun e => (e.1, g e.2))) (k : κ) (v : α) :
    (d'.set k (g v)).entries = (d.set k v).entries.map fun e => (e.1, g e.2) := by
  have hmem : k ∈ d' ↔ k ∈ d := by
    simp [OrderedDict.mem_def, OrderedDict.keys, h]
  by_cases hk : k ∈ d
  · rw [OrderedDict.set, OrderedDict.set, dif_pos hk, dif_pos (hmem.2 hk)]
    simp only [OrderedDict.overwrite, h, List.map_map]
    refine List.map_congr_left fun e _ => ?_
    by_cases he : e.1 = k <;> simp [he]
  · rw [OrderedDict.set, OrderedDict.set, dif_neg hk, dif_neg (mt hmem.1 hk)]
    simp [h]

theorem entries_foldl_set {kwOnly : Bool} (es : List (Name × Field V Fac))
    {d : OrderedDict Name (Field V Fac)} {d' : OrderedDict Name (StdField V Fac)}
    (h : d'.entries = d.entries.map (withKwOnly kwOnly)) :
    (es.foldl (fun fields e => fields.set e.1 (e.2.toStd kwOnly)) d').entries =
      (es.foldl (fun fields e => fields.set e.1 e.2) d).entries.map (withKwOnly kwOnly) := by
  induction es generalizing d d' with
  | nil => exact h
  | cons e es ih => exact ih (entries_set (g := Field.toStd kwOnly) h e.1 e.2)

theorem entries_foldl_set_ne_nil {α : Type} (es : List (Name × α)) {d : OrderedDict Name α}
    (h : d.entries ≠ []) : (es.foldl (fun fields e => fields.set e.1 e.2) d).entries ≠ [] := by
  induction es generalizing d with
  | nil => exact h
  | cons e es ih =>
    refine ih fun hnil => ?_
    have hmem : e.1 ∈ d.set e.1 e.2 := OrderedDict.mem_set_iff.2 (.inl rfl)
    rw [OrderedDict.mem_def, OrderedDict.keys, hnil] at hmem
    exact List.not_mem_nil hmem

/-- The nearest class with fields has the fields of all classes. -/
theorem stdFields_entries {kwOnly : Bool} {chain : List (ClassNode V Fac)}
    (h : ∀ cls ∈ chain, cls.isDataclass → cls.kwOnly = kwOnly) :
    (stdFields chain).entries = (inheritedFields chain).entries.map (withKwOnly kwOnly) := by
  induction chain with
  | nil => rfl
  | cons cls bases ih =>
    have ih := ih fun c hc => h c (List.mem_cons_of_mem _ hc)
    rw [stdFields, inheritedFields]
    cases hd : cls.isDataclass with
    | false => simpa [OrderedDict.empty] using ih
    | true =>
      rw [h cls List.mem_cons_self hd]
      simp only [if_true]
      split
      next hempty =>
        -- No class below has fields either.
        have hnil := List.isEmpty_iff.1 hempty
        have hbases : (inheritedFields bases).entries = [] := by
          by_contra hne
          exact entries_foldl_set_ne_nil cls.varEntries hne hnil
        rw [entries_foldl_set cls.varEntries ih, hnil, hbases]
      next => exact entries_foldl_set cls.varEntries ih

theorem stdFields_cons {kwOnly : Bool} {cls : ClassNode V Fac} {bases : List (ClassNode V Fac)}
    (hd : cls.isDataclass = true) (hkw : cls.kwOnly = kwOnly)
    (h : ∀ c ∈ bases, c.isDataclass → c.kwOnly = kwOnly) :
    (stdFields (cls :: bases)).entries =
      (processClassGetFields cls bases).entries.map (withKwOnly kwOnly) := by
  rw [stdFields, if_pos hd, hkw]
  exact entries_foldl_set cls.varEntries (stdFields_entries h)

/-! ## Initialization -/

section Init

variable (hasDefaultFactory : V)

omit hasDefaultFactory in
/-- With `kw_only`, no parameter is positional. -/
theorem filter_positional_kwOnly (fields : List (Name × Field V Fac)) :
    ((fields.map (withKwOnly true)).filter fun e => e.2.init && !e.2.kwOnly) = [] := by
  rw [List.filter_eq_nil_iff]
  intro e he
  obtain ⟨e', -, rfl⟩ := List.mem_map.1 he
  simp [withKwOnly, Field.toStd]

/-- The parameters are those of the standard library, and the error is the same. -/
theorem initArguments_eq (kwOnly : Bool) (fields : List (Name × Field V Fac)) (seen : Bool) :
    initArguments hasDefaultFactory kwOnly fields seen = (do
      stdCheck hasDefaultFactory
        ((fields.map (withKwOnly kwOnly)).filter fun e => e.2.init && !e.2.kwOnly) seen
      return ((fields.map (withKwOnly kwOnly)).filter fun e => e.2.init).map
        (stdParam hasDefaultFactory)) := by
  induction fields generalizing seen with
  | nil => rfl
  | cons e fields ih =>
    obtain ⟨name, field⟩ := e
    rw [initArguments]
    cases hdefault : paramDefault hasDefaultFactory field.default with
    | some v =>
      simp only [ih]
      cases hinit : field.init with
      | false => simp [withKwOnly, Field.toStd, hinit]
      | true =>
        cases kwOnly with
        | false =>
          simp [withKwOnly, Field.toStd, hinit, stdCheck, stdParam, hdefault]
        | true =>
          rw [filter_positional_kwOnly, filter_positional_kwOnly]
          simp [withKwOnly, Field.toStd, hinit, stdCheck, stdParam, hdefault]
    | none =>
      simp only [ih]
      cases hinit : field.init with
      | false => simp [withKwOnly, Field.toStd, hinit]
      | true =>
        cases kwOnly with
        | false =>
          cases seen with
          | false => simp [withKwOnly, Field.toStd, hinit, stdCheck, stdParam, hdefault]
          | true =>
            simp [withKwOnly, Field.toStd, hinit, stdCheck, hdefault, bind, Except.bind]
        | true =>
          rw [filter_positional_kwOnly, filter_positional_kwOnly]
          simp [withKwOnly, Field.toStd, hinit, stdCheck, stdParam, hdefault]

end Init

section Run

variable [DecidableEq V] (R : Runtime V Fac E σ)

/-- The functions accept the same calls, and an accepted call leaves the same values in
    the attributes of the object and of its class, and passes the same arguments to
    `__post_init__`. -/
structure SameInit (fields : List (Name × StdField V Fac)) (f g : InitFunction V Fac) : Prop where
  accepts : ∀ call, f.accepts call = g.accepts call
  run : ∀ call, g.accepts call = true → f.run call R = (do
    let (values, postInit) ← g.run call R
    return (withClassDefaults fields values, postInit))

/-- The same error, or no function, or functions that do the same. -/
inductive SameInitResult (fields : List (Name × StdField V Fac)) :
    Except Name (Option (InitFunction V Fac)) → Except Name (Option (InitFunction V Fac)) → Prop
  | error (name : Name) : SameInitResult fields (.error name) (.error name)
  | none : SameInitResult fields (.ok none) (.ok none)
  | some {f g : InitFunction V Fac} (h : SameInit R fields f g) :
    SameInitResult fields (.ok (some f)) (.ok (some g))

variable {f g : InitFunction V Fac} {call : Call V}

omit [DecidableEq V] in
theorem argument_congr (hp : f.positional = g.positional) (hk : f.keywordOnly = g.keywordOnly) :
    f.argument call = g.argument call := by
  funext name
  rw [InitFunction.argument, InitFunction.argument, hp, hk]

/-- A line assigns the default where the standard library leaves it to the class. -/
theorem evalLine_eq (hargument : f.argument call = g.argument call) (name : Name)
    (field : StdField V Fac) (hsome : field.init = true → (g.argument call name).isSome) :
    f.evalLine call R name (initLine field.toField) =
      (fun v => v.or (classDefault field)) <$> g.evalLine call R name (stdLine field) := by
  have hor : ∀ d : Option V, field.init = true →
      (g.argument call name).or d = g.argument call name := by
    intro d hinit
    obtain ⟨v, hv⟩ := Option.isSome_iff_exists.1 (hsome hinit)
    rw [hv]
    rfl
  rw [initLine, stdLine]
  cases hdefault : field.default with
  | missing =>
    cases hinit : field.init with
    | false => simp [InitFunction.evalLine, classDefault, hdefault]
    | true =>
      simp [InitFunction.evalLine, InitFunction.evalExpr, hargument, hor _ hinit]
  | value v =>
    cases hinit : field.init with
    | false => simp [InitFunction.evalLine, InitFunction.evalExpr, classDefault, hdefault]
    | true =>
      simp [InitFunction.evalLine, InitFunction.evalExpr, hargument, hor _ hinit]
  | factory factory =>
    have hnone : classDefault field = none := by rw [classDefault, hdefault]
    cases hinit : field.init with
    | false => simp [InitFunction.evalLine, InitFunction.evalExpr, hnone]
    | true => simp [InitFunction.evalLine, InitFunction.evalExpr, hargument, hnone]

theorem runLines_eq (hargument : f.argument call = g.argument call)
    (fields : List (Name × StdField V Fac))
    (hsome : ∀ e ∈ fields, e.2.init = true → (g.argument call e.1).isSome) :
    f.runLines call R (fields.map fun e => (e.1, initLine e.2.toField)) =
      (fun values => List.zipWith (fun e v => (v.1, v.2.or (classDefault e.2))) fields values) <$>
        g.runLines call R (fields.map fun e => (e.1, stdLine e.2)) := by
  induction fields with
  | nil => rfl
  | cons e fields ih =>
    rw [List.map_cons, List.map_cons, InitFunction.runLines, InitFunction.runLines,
      evalLine_eq R hargument e.1 e.2 (hsome e List.mem_cons_self),
      ih fun e' he' => hsome e' (List.mem_cons_of_mem _ he')]
    simp only [map_eq_pure_bind, bind_assoc, pure_bind, List.zipWith_cons_cons]

/-- Functions with the same parameters and with lines for the same fields do the same. -/
theorem sameInit_of_params {fields : List (Name × StdField V Fac)}
    (hp : f.positional = g.positional) (hk : f.keywordOnly = g.keywordOnly)
    (hf : f.lines = (fields.filter fun e => !e.2.isInitvar).map
      fun e => (e.1, initLine e.2.toField))
    (hg : g.lines = (fields.filter fun e => !e.2.isInitvar).map fun e => (e.1, stdLine e.2))
    (hpost : f.postInit = g.postInit)
    (hparams : ∀ e ∈ fields, e.2.init = true →
      e.1 ∈ (g.positional ++ g.keywordOnly).map Param.name) : SameInit R fields f g := by
  have hargument : ∀ call, f.argument call = g.argument call := fun call =>
    argument_congr hp hk
  refine ⟨fun call => ?_, fun call haccepts => ?_⟩
  · rw [InitFunction.accepts, InitFunction.accepts, hp, hk, hargument]
  · have hsome : ∀ e ∈ fields.filter fun e => !e.2.isInitvar, e.2.init = true →
        (g.argument call e.1).isSome := by
      intro e he hinit
      obtain ⟨p, hmem, hname⟩ := List.mem_map.1 (hparams e (List.mem_filter.1 he).1 hinit)
      rw [InitFunction.accepts, Bool.and_eq_true] at haccepts
      rw [← hname]
      exact List.all_eq_true.1 haccepts.2 p hmem
    rw [InitFunction.run, InitFunction.run, hf, hg, runLines_eq R (hargument call) _ hsome,
      hpost, hargument]
    simp only [map_eq_pure_bind, bind_assoc, pure_bind, withClassDefaults]

/-- `__init__` is that of the standard library, for fields that all have the same `kw_only`. -/
theorem generateInitCode_eq (cls : ClassNode V Fac) (fields : List (Name × Field V Fac)) :
    SameInitResult R (fields.map (withKwOnly cls.kwOnly))
      (generateInitCode R.hasDefaultFactory cls fields)
      (stdInit R.hasDefaultFactory cls (fields.map (withKwOnly cls.kwOnly))) := by
  rw [generateInitCode, stdInit]
  cases cls.init with
  | false => exact .none
  | true =>
    simp only [Bool.not_true, Bool.false_eq_true, if_false, initArguments_eq]
    cases stdCheck R.hasDefaultFactory ((fields.map (withKwOnly cls.kwOnly)).filter
        fun e => e.2.init && !e.2.kwOnly) false with
    | error name => exact .error name
    | ok u =>
      refine .some (sameInit_of_params R ?_ ?_ ?_ rfl ?_ ?_)
      · cases hkw : cls.kwOnly with
        | false => simp [withKwOnly, Field.toStd, List.filter_map, Function.comp_def]
        | true => simp only [filter_positional_kwOnly, if_true, List.map_nil]
      · cases hkw : cls.kwOnly with
        | false => simp [withKwOnly, Field.toStd, List.filter_map, Function.comp_def]
        | true => simp [withKwOnly, Field.toStd, List.filter_map, Function.comp_def]
      · simp [withKwOnly, Field.toStd, List.filter_map, Function.comp_def]
      · simp [withKwOnly, Field.toStd, List.filter_map, Function.comp_def]
      · intro e he hinit
        rw [List.map_append, List.mem_append]
        cases hkw : e.2.kwOnly with
        | false =>
          refine .inl (List.mem_map.2 ⟨stdParam R.hasDefaultFactory e, ?_, rfl⟩)
          exact List.mem_map_of_mem (List.mem_filter.2 ⟨he, by simp [hinit, hkw]⟩)
        | true =>
          refine .inr (List.mem_map.2 ⟨stdParam R.hasDefaultFactory e, ?_, rfl⟩)
          exact List.mem_map_of_mem (List.mem_filter.2 ⟨he, by simp [hinit, hkw]⟩)

end Run

/-! ## Lists of names -/

/-- With `init` for every field, or `kw_only`, the positional names are those of `__init__`. -/
theorem generateMatchArgs_eq (cls : ClassNode V Fac) {fields : List (Name × Field V Fac)}
    (h : cls.kwOnly = true ∨ ∀ e ∈ fields, e.2.init = true) :
    generateMatchArgs cls fields = stdMatchArgs cls (fields.map (withKwOnly cls.kwOnly)) := by
  rw [generateMatchArgs, stdMatchArgs]
  cases cls.matchArgs with
  | false => rfl
  | true =>
    rcases h with hkw | hinit
    · simp [hkw, filter_positional_kwOnly]
    · have hfilter : fields.filter ((fun e => e.2.init && !e.2.kwOnly) ∘ withKwOnly cls.kwOnly) =
          fields.filter fun _ => !cls.kwOnly :=
        List.filter_congr fun e he => by simp [withKwOnly, Field.toStd, hinit e he]
      simp only [Bool.not_true, Bool.false_eq_true, if_false, List.filter_map, hfilter,
        List.map_map]
      rfl

theorem comparedNames_withKwOnly (kwOnly : Bool) (fields : List (Name × Field V Fac)) :
    ((fields.map (withKwOnly kwOnly)).filter fun e => e.2.compare && !e.2.isInitvar).map Prod.fst =
      comparedNames fields := by
  simp [comparedNames, withKwOnly, Field.toStd, List.filter_map, Function.comp_def]

theorem generateHashCode_eq (cls : ClassNode V Fac) (fields : List (Name × Field V Fac)) :
    generateHashCode cls fields = stdHash cls (fields.map (withKwOnly cls.kwOnly)) := by
  have hnames : ((fields.map (withKwOnly cls.kwOnly)).filter fun e =>
      !e.2.isInitvar && e.2.hash.getD e.2.compare).map Prod.fst = hashedNames fields := by
    simp [hashedNames, withKwOnly, Field.toStd, List.filter_map, Function.comp_def]
  rw [generateHashCode, stdHash, hnames]
  cases cls.unsafeHash <;> cases cls.eq <;> cases cls.frozen <;> rfl

/-! ## Comparison -/

/-- `!=` is the opposite of identity or equality. -/
def ConsistentNe (cmp : Comparisons V E) (a b : V) : Prop :=
  cmp.ne a b = (!·) <$> identicalOrEqual cmp a b

/-- A strict comparison and its weak form go with identity or equality. -/
structure ConsistentOrder (cmp : Comparisons V E) (strict weak : CompareOp) (a b : V) : Prop where
  /-- Equal values are not compared as different. -/
  equal : identicalOrEqual cmp a b = .ok true → cmp.op strict a b = .ok false
  /-- Other values are compared alike by both. -/
  differ : identicalOrEqual cmp a b = .ok false → cmp.op weak a b = cmp.op strict a b
  /-- If the comparison for equality raises, the strict one is false or raises the same. -/
  raises : ∀ e, identicalOrEqual cmp a b = .error e →
    cmp.op strict a b = .ok false ∨ cmp.op strict a b = .error e

/-- Comparisons for which tests with `<` and `!=` replace the comparison of tuples. -/
structure Consistent (cmp : Comparisons V E) (a b : V) : Prop where
  ne : ConsistentNe cmp a b
  lt : ConsistentOrder cmp .lt .le a b
  gt : ConsistentOrder cmp .gt .ge a b

section Compare

variable {cmp : Name → Comparisons V E} {self other : Name → V} {names : List Name}

theorem cmpTests_eq (h : ∀ name ∈ names, ConsistentNe (cmp name) (self name) (other name)) :
    cmpTests cmp .eq self other names = lexicographic cmp .eq self other names := by
  induction names with
  | nil => rfl
  | cons name names ih =>
    have hne : (cmp name).ne (self name) (other name) = _ := h name List.mem_cons_self
    have ih := ih fun n hn => h n (List.mem_cons_of_mem _ hn)
    rw [cmpTests, lexicographic, hne]
    cases identicalOrEqual (cmp name) (self name) (other name) with
    | error e => rfl
    | ok equal =>
      cases equal with
      | false => rfl
      | true => exact ih

/-- A test for the order, then one for the difference, is a step of the comparison of tuples. -/
theorem cmpTests_ordering {op strict weak : CompareOp} (hop : op ≠ .eq)
    (hstrict : op.withoutEquals = strict) (hor : op = strict ∨ op = weak)
    (h : ∀ name ∈ names, ConsistentNe (cmp name) (self name) (other name) ∧
      ConsistentOrder (cmp name) strict weak (self name) (other name)) :
    cmpTests cmp op self other names = lexicographic cmp op self other names := by
  induction names with
  | nil => rfl
  | cons name names ih =>
    obtain ⟨hne, horder⟩ := h name List.mem_cons_self
    have ih := ih fun n hn => h n (List.mem_cons_of_mem _ hn)
    rw [ConsistentNe] at hne
    rw [cmpTests, lexicographic, hne, if_pos hop, hstrict]
    cases hequal : identicalOrEqual (cmp name) (self name) (other name) with
    | error e =>
      rcases horder.raises e hequal with hl | hl
      · rw [hl]
        rfl
      · rw [hl]
        rfl
    | ok equal =>
      cases equal with
      | true =>
        rw [horder.equal hequal]
        exact ih
      | false =>
        -- The element decides, by the strict comparison in both.
        have hdecides : (cmp name).op op (self name) (other name) =
            (cmp name).op strict (self name) (other name) := by
          rcases hor with rfl | rfl
          · rfl
          · exact horder.differ hequal
        simp only [bind, Except.bind, Bool.false_eq_true, if_false, if_neg hop, hdecides]
        cases (cmp name).op strict (self name) (other name) with
        | error e => rfl
        | ok first => cases first <;> rfl

/-- Equal objects have values that pass every test. -/
theorem ne_eq_false_of_cmpTests (h : cmpTests cmp .eq self other names = .ok true) :
    ∀ name ∈ names, (cmp name).ne (self name) (other name) = .ok false := by
  induction names with
  | nil => simp
  | cons name names ih =>
    rw [cmpTests] at h
    intro n hn
    cases hne : (cmp name).ne (self name) (other name) with
    | error e => rw [hne] at h; cases h
    | ok differ =>
      rw [hne] at h
      cases differ with
      | true => cases h
      | false =>
        rcases List.mem_cons.1 hn with rfl | hn
        · exact hne
        · exact ih h n hn

end Compare

/-! ## Agreement -/

/-- What the methods have in common with those of the standard library, for the class of a
    chain with the fields `fields` (of the generated code) and `std`. -/
structure MethodsAgree [DecidableEq V] (R : Runtime V Fac E σ) (cls : ClassNode V Fac)
    (fields : List (Name × Field V Fac)) (std : List (Name × StdField V Fac)) : Prop where
  init : SameInitResult R std (generateInitCode R.hasDefaultFactory cls fields)
    (stdInit R.hasDefaultFactory cls std)
  matchArgs : (cls.kwOnly = true ∨ ∀ e ∈ fields, e.2.init = true) →
    generateMatchArgs cls fields = stdMatchArgs cls std
  /-- `==` agrees for values for which `!=` is the opposite of identity or equality. -/
  eq : ∀ (cmp : Name → Comparisons V E) (sameClass : Bool) (self other : Name → V),
    (∀ name ∈ comparedNames fields, ConsistentNe (cmp name) (self name) (other name)) →
      generateCmpCode fields cmp .eq sameClass self other = stdCmp std cmp .eq sameClass self other
  /-- All operators agree for values with consistent comparisons. -/
  compare : ∀ (cmp : Name → Comparisons V E) (op : CompareOp) (sameClass : Bool)
    (self other : Name → V),
    (∀ name ∈ comparedNames fields, Consistent (cmp name) (self name) (other name)) →
      generateCmpCode fields cmp op sameClass self other = stdCmp std cmp op sameClass self other
  hash : generateHashCode cls fields = stdHash cls std
  /-- If only compared fields are hashed, and values that do not differ have equal hashes,
      equal objects have equal hashes. -/
  equalHashes : (∀ e ∈ fields, e.2.hash = some true → e.2.compare = true) →
    ∀ (cmp : Name → Comparisons V E) (hash : V → Except E ℤ) (combine : List ℤ → ℤ)
      (self other : Name → V),
      (∀ name ∈ hashedNames fields, (cmp name).ne (self name) (other name) = .ok false →
        hash (self name) = hash (other name)) →
      generateCmpCode fields cmp .eq true self other = .ok (some true) →
        tupleHash hash combine (hashedNames fields) self =
          tupleHash hash combine (hashedNames fields) other

theorem hashedNames_subset {fields : List (Name × Field V Fac)}
    (h : ∀ e ∈ fields, e.2.hash = some true → e.2.compare = true) :
    hashedNames fields ⊆ comparedNames fields := by
  intro name hname
  obtain ⟨e, he, rfl⟩ := List.mem_map.1 hname
  obtain ⟨he, hflags⟩ := List.mem_filter.1 he
  rw [Bool.and_eq_true] at hflags
  refine List.mem_map_of_mem (List.mem_filter.2 ⟨he, ?_⟩)
  rw [Bool.and_eq_true]
  refine ⟨?_, hflags.1⟩
  cases hhash : e.2.hash with
  | none => simpa [hhash] using hflags.2
  | some b =>
    have hb : b = true := by simpa [hhash] using hflags.2
    exact h e he (hb ▸ hhash)

theorem tupleHash_congr {hash : V → Except E ℤ} {combine : List ℤ → ℤ} {names : List Name}
    {self other : Name → V} (h : ∀ name ∈ names, hash (self name) = hash (other name)) :
    tupleHash hash combine names self = tupleHash hash combine names other := by
  have hmap : (names.mapM fun name => hash (self name)) =
      names.mapM fun name => hash (other name) := by
    induction names with
    | nil => rfl
    | cons name names ih =>
      rw [List.mapM_cons, List.mapM_cons, h name List.mem_cons_self,
        ih fun n hn => h n (List.mem_cons_of_mem _ hn)]
  rw [tupleHash, tupleHash, hmap]

/-- A class with a field `x`, with the default arguments of the decorator. -/
def classWithX : ClassNode ℕ Unit where
  isDataclass := true
  varEntries := [("x", .plain)]
  init := true
  eq := true
  order := false
  unsafeHash := false
  frozen := false
  kwOnly := false
  matchArgs := true
  postInit := false

/-- A subclass with a field `y` that has a default. -/
def subclassWithY : ClassNode ℕ Unit :=
  { classWithX with varEntries := [("y", ⟨.value 0, true, true, none, false⟩)] }

/-- Factories that return a number. -/
def numberRuntime : Runtime ℕ Unit Unit Unit where
  hasDefaultFactory := 1000
  callFactory _ := pure 1

/-- The comparisons of a NaN with itself. -/
def nanComparisons : Comparisons Unit Unit where
  same _ _ := true
  same_self _ := rfl
  ne _ _ := .ok true
  op _ _ _ := .ok false

end AHPy.Dataclass
