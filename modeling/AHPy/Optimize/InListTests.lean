import AHPy.Optimize.LetExpressions

/-!
# Membership tests of displays

`x in [a, b, c]` is rewritten to comparisons of `x` with the items. Items that are not simple
are kept in temporaries; simple ones (names, literals) are evaluated when they are compared.

* `flattenInList`, `pyIn`: the rewritten expression, and the membership test;
* `eval_flattenInList`: what the rewritten expression does;
* `flattenInList_spec`: that this is the membership test, if identical objects are equal.
-/

namespace AHPy.LetExpressions

variable {A V ε σ : Type}

/-- A rewritten test, with the operators `or` and `and` of `BoolBinopNode`. -/
inductive Test (A : Type) where
  | cmp (operator : CmpOp) (operand1 operand2 : Node A)
  | boolOr (operand1 operand2 : Test A)
  | boolAnd (operand1 operand2 : Test A)
  | evalWithTemp (temp : Temp) (expression : Node A) (body : Test A)

/-- The truth value of a test. -/
def Test.eval (b : Behaviour A V ε σ) : Test A → Temps V → EStateM ε σ Bool
  | .cmp operator operand1 operand2, temps => do
    let v ← operand1.eval b temps
    let w ← operand2.eval b temps
    b.compare operator v w
  | .boolOr operand1 operand2, temps => do
    let c ← operand1.eval b temps
    if c then pure true else operand2.eval b temps
  | .boolAnd operand1 operand2, temps => do
    let c ← operand1.eval b temps
    if c then operand2.eval b temps else pure false
  | .evalWithTemp temp expression body, temps => do
    let v ← expression.eval b temps
    body.eval b (Function.update temps temp v)

/-- An item of the display, and `try_is_simple()`. -/
structure Item (A : Type) where
  expr : A
  isSimple : Bool

/-- `eq_or_neq` -/
def eqOrNeq (negated : Bool) : CmpOp := if negated then .ne else .eq

/-- `concat` -/
def concat (negated : Bool) (left right : Test A) : Test A :=
  if negated then .boolAnd left right else .boolOr left right

/-- The comparison with the `i`-th item. -/
def itemCond (negated : Bool) (item : Item A) (i : ℕ) : Test A :=
  .cmp (eqOrNeq negated) (.ref (.result 0))
    (if item.isSimple then .source item.expr else .ref (.arg i))

/-- The temporaries of the items that are not simple. -/
def itemTemps (items : List (Item A)) (n : ℕ) (body : Test A) : Test A :=
  (items.zipIdx n).foldr
    (fun item body =>
      if item.1.isSimple then body
      else .evalWithTemp (.arg item.2) (.source item.1.expr) body)
    body

/-- `FlattenInListTransform.visit_PrimaryCmpNode`, with at least one item and none starred. -/
def flattenInList (negated : Bool) (lhs : A) (first : Item A) (rest : List (Item A)) : Test A :=
  itemTemps (first :: rest) 0
    (.evalWithTemp (.result 0) (.source lhs)
      (((rest.zipIdx 1).map fun item => itemCond negated item.1 item.2).foldl (concat negated)
        (itemCond negated first 0)))

/-! ## What the rewritten expression does -/

/-- The items, with the values of those that are not simple. -/
def evalItems (b : Behaviour A V ε σ) (items : List (Item A)) : EStateM ε σ (List (A ⊕ V)) :=
  items.mapM fun item =>
    if item.isSimple then pure (.inl item.expr)
    else do
      let w ← b.eval item.expr
      pure (.inr w)

/-- A comparison; a simple item is evaluated for it. -/
def compareItem (b : Behaviour A V ε σ) (negated : Bool) (v : V) : A ⊕ V → EStateM ε σ Bool
  | .inl a => do
    let w ← b.eval a
    b.compare (eqOrNeq negated) v w
  | .inr w => b.compare (eqOrNeq negated) v w

/-- The comparisons, until one decides. -/
def compareItems (b : Behaviour A V ε σ) (negated : Bool) (v : V) (items : List (A ⊕ V)) :
    EStateM ε σ Bool :=
  items.foldlM (fun c item => if c = negated then compareItem b negated v item else pure c) negated

theorem eval_concat (b : Behaviour A V ε σ) (negated : Bool) (left right : Test A)
    (temps : Temps V) :
    (concat negated left right).eval b temps = (do
      let c ← left.eval b temps
      if c = negated then right.eval b temps else pure c) := by
  cases negated
  · exact bind_congr fun c => by cases c <;> rfl
  · exact bind_congr fun c => by cases c <;> rfl

/-- The temporaries once the items from the `n`-th on are evaluated. -/
def holdItems (temps : Temps V) (n : ℕ) : List (A ⊕ V) → Temps V
  | [] => temps
  | .inl _ :: items => holdItems temps (n + 1) items
  | .inr w :: items => holdItems (Function.update temps (.arg n) w) (n + 1) items

theorem holdItems_of_lt (temps : Temps V) {n m : ℕ} (h : m < n) (items : List (A ⊕ V)) :
    holdItems temps n items (.arg m) = temps (.arg m) := by
  induction items generalizing temps n with
  | nil => rfl
  | cons item items ih =>
    cases item with
    | inl a => exact ih temps (h.trans (Nat.lt_succ_self n))
    | inr w =>
      rw [holdItems, ih _ (h.trans (Nat.lt_succ_self n)), Function.update_of_ne]
      intro heq
      exact h.ne (Temp.arg.inj heq)

theorem eval_itemTemps (b : Behaviour A V ε σ) (items : List (Item A)) (n : ℕ) (body : Test A)
    (temps : Temps V) :
    (itemTemps items n body).eval b temps = (do
      let values ← evalItems b items
      body.eval b (holdItems temps n values)) := by
  induction items generalizing n temps with
  | nil => simp [itemTemps, evalItems, holdItems]
  | cons item items ih =>
    rw [itemTemps, List.zipIdx_cons, List.foldr_cons, ← itemTemps, evalItems, List.mapM_cons,
      ← evalItems]
    cases item.isSimple with
    | true => simp [ih, holdItems]
    | false => simp [Test.eval, Node.eval, ih, holdItems]

/-- An item and what it was evaluated to. -/
def Resolves (item : Item A) (value : A ⊕ V) : Prop :=
  if item.isSimple then value = .inl item.expr else ∃ w, value = .inr w

theorem resolves_of_evalItems {b : Behaviour A V ε σ} {items : List (Item A)} {s s' : σ}
    {values : List (A ⊕ V)} (h : evalItems b items s = .ok values s') :
    List.Forall₂ Resolves items values := by
  induction items generalizing s values with
  | nil =>
    cases h
    exact .nil
  | cons item items ih =>
    rw [evalItems, List.mapM_cons, ← evalItems] at h
    simp only [bind, EStateM.bind, pure, EStateM.pure] at h
    split at h
    next value s₁ hvalue =>
      split at h
      next values' s₂ hrest =>
        cases h
        refine .cons ?_ (ih hrest)
        rw [Resolves]
        split_ifs at hvalue ⊢ with hsimple
        · cases hvalue
          rfl
        · rw [EStateM.bind] at hvalue
          split at hvalue
          next w _ _ =>
            cases hvalue
            exact ⟨w, rfl⟩
          next => cases hvalue
      next => cases h
    next => cases h

theorem eval_itemCond (b : Behaviour A V ε σ) (negated : Bool) {item : Item A} {value : A ⊕ V}
    (h : Resolves item value) {temps : Temps V} {i : ℕ}
    (hvalue : ∀ w, value = .inr w → temps (.arg i) = w) :
    (itemCond negated item i).eval b temps =
      compareItem b negated (temps (.result 0)) value := by
  rw [Resolves] at h
  split_ifs at h with hsimple
  · subst h
    simp [itemCond, Test.eval, Node.eval, compareItem, hsimple]
  · obtain ⟨w, rfl⟩ := h
    simp [itemCond, Test.eval, Node.eval, compareItem, hsimple, hvalue w rfl]

/-- The comparisons after a test. -/
theorem eval_conds (b : Behaviour A V ε σ) (negated : Bool) {items : List (Item A)}
    {values : List (A ⊕ V)} (h : List.Forall₂ Resolves items values) (temps : Temps V) (n : ℕ)
    (hvalues : ∀ (i : ℕ) w, values[i]? = some (.inr w) → temps (.arg (n + i)) = w) (test : Test A) :
    (((items.zipIdx n).map fun item => itemCond negated item.1 item.2).foldl (concat negated)
        test).eval b temps = (do
      let c ← test.eval b temps
      values.foldlM (fun c item =>
        if c = negated then compareItem b negated (temps (.result 0)) item else pure c) c) := by
  induction h generalizing n test with
  | nil => simp
  | @cons item value items values hitem _ ih =>
    have hvalue : ∀ w, value = .inr w → temps (.arg n) = w := by
      rintro w rfl
      exact hvalues 0 w rfl
    have hrest : ∀ (i : ℕ) w, values[i]? = some (.inr w) → temps (.arg (n + 1 + i)) = w := by
      intro i w hw
      have := hvalues (i + 1) w hw
      rwa [← Nat.add_assoc, Nat.add_right_comm] at this
    rw [List.zipIdx_cons, List.map_cons, List.foldl_cons, ih (n + 1) hrest, eval_concat,
      eval_itemCond b negated hitem hvalue]
    simp only [List.foldlM_cons, bind_assoc]

theorem holdItems_arg (temps : Temps V) (n : ℕ) {values : List (A ⊕ V)} {i : ℕ} {w : V}
    (h : values[i]? = some (.inr w)) : holdItems temps n values (.arg (n + i)) = w := by
  induction values generalizing temps n i with
  | nil => cases h
  | cons value values ih =>
    cases i with
    | zero =>
      obtain rfl : value = .inr w := Option.some.inj h
      rw [Nat.add_zero, holdItems, holdItems_of_lt _ (Nat.lt_succ_self n), Function.update_self]
    | succ i =>
      rw [← Nat.add_assoc, Nat.add_right_comm]
      cases value with
      | inl a => exact ih temps (n + 1) h
      | inr w' => exact ih (Function.update temps (.arg n) w') (n + 1) h

/-- What the rewritten expression does: the items that are not simple are evaluated from left to
    right, and the left operand, before any comparison. -/
theorem eval_flattenInList (b : Behaviour A V ε σ) (negated : Bool) (lhs : A) (first : Item A)
    (rest : List (Item A)) (temps : Temps V) :
    (flattenInList negated lhs first rest).eval b temps = (do
      let values ← evalItems b (first :: rest)
      let v ← b.eval lhs
      compareItems b negated v values) := by
  funext s
  rw [flattenInList, eval_itemTemps]
  refine bind_congr_of_ok fun values s' hvalues => ?_
  have hresolves := resolves_of_evalItems hvalues
  obtain ⟨value, values, hfirst, hrest, rfl⟩ := List.forall₂_cons_left_iff.1 hresolves
  rw [Test.eval, Node.eval]
  refine congrFun (bind_congr fun v => ?_) s'
  have harg : ∀ (i : ℕ) w, (value :: values)[i]? = some (.inr w) →
      Function.update (holdItems temps 0 (value :: values)) (.result 0) v (.arg i) = w := by
    intro i w hw
    rw [Function.update_of_ne fun h => by cases h]
    simpa using holdItems_arg temps 0 hw
  rw [eval_conds b negated hrest _ 1 (fun i w hw => ?_),
    eval_itemCond b negated hfirst fun w hw => harg 0 w (by rw [hw]; rfl), compareItems,
    List.foldlM_cons, if_pos rfl, Function.update_self]
  rw [Nat.add_comm]
  exact harg (i + 1) w hw

/-! ## Membership -/

/-- The membership test of a list of values: identity or equality. -/
def pyContains [DecidableEq V] (b : Behaviour A V ε σ) (v : V) (ws : List V) :
    EStateM ε σ Bool :=
  ws.foldlM (fun c w => if c || v = w then pure true else b.compare .eq v w) false

/-- `lhs in [...]`, or `lhs not in [...]`. -/
def pyIn [DecidableEq V] (b : Behaviour A V ε σ) (negated : Bool) (lhs : A)
    (items : List (Item A)) : EStateM ε σ Bool := do
  let v ← b.eval lhs
  let ws ← items.mapM fun item => b.eval item.expr
  let c ← pyContains b v ws
  pure (c != negated)

/-- Simple items have the same value whenever they are evaluated, and no effects. -/
def Constant (b : Behaviour A V ε σ) (items : List (Item A)) : Prop :=
  ∀ item ∈ items, item.isSimple → ∃ w, b.eval item.expr = pure w

/-- Objects are equal to themselves, and different if they are not equal. -/
structure Reflexive (b : Behaviour A V ε σ) : Prop where
  eq_self : ∀ v, b.compare .eq v v = pure true
  ne_eq : ∀ v w, b.compare .ne v w = (do
    let c ← b.compare .eq v w
    pure !c)

/-- What an item was evaluated to. -/
def HasValue (b : Behaviour A V ε σ) (item : A ⊕ V) (w : V) : Prop :=
  item = .inr w ∨ ∃ a, item = .inl a ∧ b.eval a = pure w

theorem compareItem_eq {b : Behaviour A V ε σ} (hb : Reflexive b) (negated : Bool) (v : V)
    {item : A ⊕ V} {w : V} (h : HasValue b item w) :
    compareItem b negated v item = (do
      let c ← b.compare .eq v w
      pure (c != negated)) := by
  have hcompare : b.compare (eqOrNeq negated) v w = (do
      let c ← b.compare .eq v w
      pure (c != negated)) := by
    cases negated with
    | false => simp [eqOrNeq]
    | true => simp [eqOrNeq, hb.ne_eq]
  rcases h with rfl | ⟨a, rfl, ha⟩
  · exact hcompare
  · rw [compareItem, ha, pure_bind, hcompare]

/-- The comparisons decide membership. -/
theorem compareItems_eq [DecidableEq V] {b : Behaviour A V ε σ} (hb : Reflexive b)
    (negated : Bool) (v : V) {items : List (A ⊕ V)} {ws : List V}
    (h : List.Forall₂ (HasValue b) items ws) :
    compareItems b negated v items = (do
      let c ← pyContains b v ws
      pure (c != negated)) := by
  have hloop : ∀ c : Bool, (items.foldlM (fun c item =>
        if c = negated then compareItem b negated v item else pure c) (c != negated) :
          EStateM ε σ Bool) = (do
      let c ← ws.foldlM (fun c w => if c || v = w then pure true else b.compare .eq v w) c
      pure (c != negated)) := by
    induction h with
    | nil => simp
    | @cons item w items ws hitem _ ih =>
      intro c
      rw [List.foldlM_cons, List.foldlM_cons, bind_assoc]
      cases c with
      | true =>
        have hne : (true != negated) ≠ negated := by cases negated <;> decide
        rw [if_neg hne, pure_bind, ih, Bool.true_or, if_pos rfl, pure_bind]
      | false =>
        have heq : (false != negated) = negated := by cases negated <;> rfl
        rw [if_pos heq, compareItem_eq hb negated v hitem, bind_assoc, Bool.false_or]
        by_cases hvw : v = w
        · subst hvw
          rw [hb.eq_self, if_pos (decide_eq_true rfl), pure_bind, pure_bind, pure_bind, ih]
        · rw [if_neg (by simp [hvw])]
          exact bind_congr fun c => by rw [pure_bind, ih]
  have hnegated : negated = (false != negated) := by cases negated <;> rfl
  rw [compareItems, pyContains, ← hloop false, ← hnegated]

theorem evalItems_bind {b : Behaviour A V ε σ} {items : List (Item A)} (h : Constant b items)
    {α : Type} (f : List (A ⊕ V) → EStateM ε σ α) (g : List V → EStateM ε σ α)
    (hfg : ∀ values ws, List.Forall₂ (HasValue b) values ws → f values = g ws) :
    (evalItems b items >>= f) = (items.mapM (fun item => b.eval item.expr) >>= g) := by
  induction items generalizing f g with
  | nil => simpa [evalItems] using hfg [] [] .nil
  | cons item items ih =>
    have hrest : Constant b items := fun item' hitem' => h item' (List.mem_cons_of_mem item hitem')
    rw [evalItems, List.mapM_cons, ← evalItems, List.mapM_cons]
    cases hsimple : item.isSimple with
    | true =>
      obtain ⟨w, hw⟩ := h item List.mem_cons_self hsimple
      simp only [if_true, pure_bind, bind_assoc, hw]
      exact ih hrest _ _ fun values ws hvalues => hfg _ _ (.cons (.inr ⟨_, rfl, hw⟩) hvalues)
    | false =>
      simp only [Bool.false_eq_true, if_false, pure_bind, bind_assoc]
      refine bind_congr fun w => ?_
      exact ih hrest _ _ fun values ws hvalues => hfg _ _ (.cons (.inl rfl) hvalues)

/-- If the left operand may as well be evaluated before the items that are not simple: the
    rewritten expression evaluates it, then those items, and then compares. This is the
    membership test, if simple items are constant and objects are equal to themselves. -/
theorem flattenInList_spec [DecidableEq V] (b : Behaviour A V ε σ) (negated : Bool) (lhs : A)
    (first : Item A) (rest : List (Item A)) (temps : Temps V) (s : σ)
    (hswap : (do
        let values ← evalItems b (first :: rest)
        let v ← b.eval lhs
        pure (v, values) : EStateM ε σ (V × List (A ⊕ V))) s =
      (do
        let v ← b.eval lhs
        let values ← evalItems b (first :: rest)
        pure (v, values)) s) :
    (flattenInList negated lhs first rest).eval b temps s = (do
        let v ← b.eval lhs
        let values ← evalItems b (first :: rest)
        compareItems b negated v values) s ∧
      (Constant b (first :: rest) → Reflexive b →
        (flattenInList negated lhs first rest).eval b temps s =
          pyIn b negated lhs (first :: rest) s) := by
  have hordered : (flattenInList negated lhs first rest).eval b temps s = (do
      let v ← b.eval lhs
      let values ← evalItems b (first :: rest)
      compareItems b negated v values) s := by
    rw [eval_flattenInList]
    have h := bind_congr_left hswap fun operands => compareItems b negated operands.1 operands.2
    simpa only [bind_assoc, pure_bind] using h
  refine ⟨hordered, fun hconstant hb => hordered.trans ?_⟩
  rw [pyIn]
  refine congrFun (bind_congr fun v => ?_) s
  exact evalItems_bind hconstant _ _ fun values ws hvalues => compareItems_eq hb negated v hvalues

/-- Numbers without effects. -/
def plain : Behaviour ℕ ℕ Empty Unit :=
  ⟨fun i => pure i, fun operator v w => pure (if operator = .ne then v != w else v == w)⟩

/-- `1 in [2, 3]`, with a temporary for the first item. -/
theorem flattenInList_spec_plain :
    (flattenInList false 1 ⟨2, false⟩ [⟨3, true⟩]).eval plain (fun _ => 0) () = (do
        let v ← plain.eval 1
        let values ← evalItems plain [⟨2, false⟩, ⟨3, true⟩]
        compareItems plain false v values) () ∧
      (Constant plain [⟨2, false⟩, ⟨3, true⟩] → Reflexive plain →
        (flattenInList false 1 ⟨2, false⟩ [⟨3, true⟩]).eval plain (fun _ => 0) () =
          pyIn plain false 1 [⟨2, false⟩, ⟨3, true⟩] ()) :=
  flattenInList_spec plain false 1 ⟨2, false⟩ [⟨3, true⟩] (fun _ => 0) () rfl

/-- Calls are recorded, and no object is equal to any. -/
def unequal : Behaviour ℕ ℕ Empty (List ℕ) :=
  ⟨fun i calls => .ok i (calls ++ [i]), fun _ _ _ => pure false⟩

/-- `x in [x]` is false if `x` is not equal to itself; `f() in [g()]` calls `g` first. -/
theorem flattenInList_not_pyIn :
    (flattenInList false 1 ⟨1, true⟩ []).eval unequal (fun _ => 0) [] ≠
        pyIn unequal false 1 [⟨1, true⟩] [] ∧
      (flattenInList false 1 ⟨2, false⟩ []).eval unequal (fun _ => 0) [] ≠
        pyIn unequal false 1 [⟨2, false⟩] [] := by
  constructor
  · intro h
    cases h
  · intro h
    cases h

end AHPy.LetExpressions
