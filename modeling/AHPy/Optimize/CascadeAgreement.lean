import AHPy.Lib.Outcomes
import AHPy.Optimize.ComparisonCascades

/-!
# When folded cascades are kept

The results of the links of a chain decide whether it does the same after the rewrite.
The value of a chain is that of a rich comparison, where a link that is true has been left
out after it; and a falsy result is tested twice, where a cascade ends with it before
another node.

* `tail_eq`: from a comparison on, a chain that is kept does the same;
* `scripted`: comparisons and truth values that follow a script;
* `visitPrimaryCmpNode_iff`, `visitNot_iff`: when the rewrites keep what they have to.
-/

namespace AHPy.ConstantFolding

variable {A C V ε σ : Type} {ct : CompileTime C} {b : Behaviour A C V ε σ}

/-! ## Decided links -/

/-- The results belong to the operands of the links. -/
def Linked (ct : CompileTime C) : Operand A C → List (Link A C × Option Bool) → Prop
  | _, [] => True
  | left, (link, result) :: rest =>
    result = linkResult ct left link ∧ Linked ct link.operand2 rest

theorem linked_linkResults (left : Operand A C) (links : List (Link A C)) :
    Linked ct left (linkResults ct left links) := by
  induction links generalizing left with
  | nil => trivial
  | cons link links ih => exact ⟨rfl, ih link.operand2⟩

theorem map_fst_linkResults (left : Operand A C) (links : List (Link A C)) :
    (linkResults ct left links).map Prod.fst = links := by
  induction links generalizing left with
  | nil => rfl
  | cons link links ih => rw [linkResults, List.map_cons, ih]

theorem Linked.decided {left : Operand A C} {link : Link A C} {t : Bool}
    {rest : List (Link A C × Option Bool)} (h : Linked ct left ((link, some t) :: rest)) :
    ∃ c d, left = .constant c ∧ link.operand2 = .constant d ∧
      ct.result link.operator c d = some t := by
  obtain ⟨c, hc, h'⟩ := Option.bind_eq_some_iff.1 h.1.symm
  obtain ⟨d, hd, h''⟩ := Option.bind_eq_some_iff.1 h'
  refine ⟨c, d, ?_, ?_, h''⟩
  · cases left with
    | constant c' => rw [Option.some.inj hc]
    | expr a => cases hc
  · cases hop : link.operand2 with
    | constant d' =>
      rw [hop] at hd
      rw [Option.some.inj hd]
    | expr a =>
      rw [hop] at hd
      cases hd

/-- Constants compare as they did. -/
theorem Faithful.compare_eq (hb : Faithful ct b) {operator : CmpOperator} {c d : C} {t : Bool}
    (h : ct.result operator c d = some t) :
    b.compare operator (b.const c) (b.const d) = pure (b.bool t) := by
  cases operator with
  | rich operator => exact hb.rich_eq operator c d t h
  | is negated =>
    obtain ⟨t', ht', rfl⟩ := Option.map_eq_some_iff.1 h
    rw [Behaviour.compare, hb.identical_eq c d t' ht', pure_bind]
  | contains negated =>
    obtain ⟨t', ht', rfl⟩ := Option.map_eq_some_iff.1 h
    rw [Behaviour.compare, hb.contains_eq c d t' ht', pure_bind]

/-- A value that an operand may have. -/
def ValueOf (b : Behaviour A C V ε σ) (operand : Operand A C) (v : V) : Prop :=
  ∀ c, operand = .constant c → v = b.const c

theorem valueOf_constant (c : C) : ValueOf b (.constant c) (b.const c) := fun _ h => by
  cases h
  rfl

/-- A value that a comparison may have. -/
def ResultOf (b : Behaviour A C V ε σ) (operator : CmpOperator) (r : V) : Prop :=
  operator.isRich = false → ∃ t, r = b.bool t

theorem bind_operand_congr {α : Type} {operand : Operand A C} {f g : V → EStateM ε σ α}
    (h : ∀ v, ValueOf b operand v → f v = g v) :
    (b.operand operand >>= f) = (b.operand operand >>= g) := by
  cases operand with
  | constant c =>
    rw [Behaviour.operand, pure_bind, pure_bind]
    refine h _ fun c' hc => ?_
    cases hc
    rfl
  | expr a =>
    refine bind_congr fun v => h v fun c hc => ?_
    cases hc

theorem bind_compare_congr {α : Type} {operator : CmpOperator} {v w : V} {f g : V → EStateM ε σ α}
    (h : ∀ r, ResultOf b operator r → f r = g r) :
    (b.compare operator v w >>= f) = (b.compare operator v w >>= g) := by
  cases operator with
  | rich operator => exact bind_congr fun r => h r fun hr => absurd hr (by simp [CmpOperator.isRich])
  | is negated =>
    simp only [Behaviour.compare, bind_assoc, pure_bind]
    exact bind_congr fun t => h _ fun _ => ⟨_, rfl⟩
  | contains negated =>
    simp only [Behaviour.compare, bind_assoc, pure_bind]
    exact bind_congr fun t => h _ fun _ => ⟨_, rfl⟩

/-! ## Chains that are kept -/

theorem test_bool (hb : Faithful ct b) (t : Bool) (next : EStateM ε σ V) :
    b.test (pure (b.bool t)) next = if t then next else pure (b.bool t) := by
  simp only [Behaviour.test, pure_bind, hb.truth_bool]

/-- A link between constants: the result is that of compile time. -/
theorem tail_decided (hb : Faithful ct b) {left : Operand A C} {link : Link A C} {t : Bool}
    {rest : List (Link A C × Option Bool)} (h : Linked ct left ((link, some t) :: rest)) {r v : V}
    (hv : ValueOf b left v) (links : List (Link A C)) :
    ∃ d, link.operand2 = .constant d ∧ b.tail r v (link :: links) =
      b.test (pure r) (b.tail (b.bool t) (b.const d) links) := by
  obtain ⟨c, d, rfl, hd, hresult⟩ := h.decided
  refine ⟨d, hd, ?_⟩
  rw [Behaviour.tail, Behaviour.test, pure_bind]
  refine bind_congr fun t' => ?_
  rw [hd, Behaviour.operand, pure_bind, hv c rfl, hb.compare_eq hresult, pure_bind]

theorem tail_false (hb : Faithful ct b) (v : V) (links : List (Link A C)) :
    b.tail (b.bool false) v links = pure (b.bool false) := by
  cases links with
  | nil => rfl
  | cons link links =>
    rw [Behaviour.tail, hb.truth_bool, pure_bind]
    exact if_neg Bool.false_ne_true

theorem tail_allTrue (hb : Faithful ct b) {left : Operand A C}
    {results : List (Link A C × Option Bool)} (h : Linked ct left results)
    (htrue : allTrue results = true) {v : V} (hv : ValueOf b left v) :
    b.tail (b.bool true) v (results.map Prod.fst) = pure (b.bool true) := by
  induction results generalizing left v with
  | nil => rfl
  | cons result rest ih =>
    obtain ⟨link, result⟩ := result
    rw [allTrue, List.all_cons, Bool.and_eq_true, beq_iff_eq] at htrue
    obtain rfl : result = some true := htrue.1
    obtain ⟨d, hd, htail⟩ := tail_decided hb h (r := b.bool true) hv (rest.map Prod.fst)
    rw [List.map_cons, htail, test_bool hb, if_pos rfl]
    refine ih h.2 htrue.2 fun c hc => ?_
    rw [hd] at hc
    cases hc
    rfl

theorem evalAfter_nil (r : V) : evalAfter b r ([] : List (Node A C)) = pure r := rfl

theorem evalAfter_of_ne {nodes : List (Node A C)} (h : nodes ≠ []) (r : V) :
    evalAfter b r nodes = b.test (pure r) (evalNodes b nodes) := by
  rw [evalAfter, if_neg]
  rwa [List.isEmpty_iff]

theorem tail_bind {α : Type} (r v : V) (link : Link A C) (links : List (Link A C))
    (f : V → EStateM ε σ α) : (b.tail r v (link :: links) >>= f) = (do
      let t ← b.truth r
      if t then
        let w ← b.operand link.operand2
        let r' ← b.compare link.operator v w
        b.tail r' w links >>= f
      else f r) := by
  rw [Behaviour.tail, bind_assoc]
  refine bind_congr fun t => ?_
  cases t with
  | true => simp only [if_true, bind_assoc]
  | false => simp only [Bool.false_eq_true, if_false, pure_bind]

/-- From the result of a comparison on, the cascade and the nodes after it do what the chain
    does. -/
def KeepsTail (ct : CompileTime C) (b : Behaviour A C V ε σ)
    (results : List (Link A C × Option Bool)) : Prop :=
  ∀ (operator : CmpOperator) (left : Operand A C) (r v : V), Linked ct left results →
    ValueOf b left v → ResultOf b operator r →
    (operator.isRich = true → safeBefore results = true) →
    (b.tail r v (undecided results) >>= fun x => evalAfter b x (after results)) =
      b.tail r v (results.map Prod.fst)

/-- From a constant on, the nodes do what the chain does. -/
def KeepsNodes (ct : CompileTime C) (b : Behaviour A C V ε σ)
    (results : List (Link A C × Option Bool)) : Prop :=
  ∀ c, Linked ct (.constant c) results → evalNodes b (nodesFrom ⟨.constant c, []⟩ results) =
    b.tail (b.bool true) (b.const c) (results.map Prod.fst)

/-- The nodes from a link on that is not decided. -/
theorem evalNodes_undecided {operand1 : Operand A C} {link : Link A C}
    {rest : List (Link A C × Option Bool)} (h : KeepsTail ct b rest)
    (hlinked : Linked ct link.operand2 rest)
    (hsafe : link.operator.isRich = true → safeBefore rest = true) :
    evalNodes b (nodesFrom ⟨operand1, []⟩ ((link, none) :: rest)) =
      b.chain operand1 link (rest.map Prod.fst) := by
  have hnodes : nodesFrom ⟨operand1, []⟩ ((link, none) :: rest) =
      .primaryCmp operand1 link (undecided rest) :: after rest := by
    rw [nodesFrom_eq]
    rfl
  rw [hnodes, evalNodes_cons]
  simp only [Behaviour.chain, bind_assoc]
  refine bind_congr fun v => bind_operand_congr fun w hw => bind_compare_congr fun r hr => ?_
  exact h link.operator link.operand2 r w hlinked hw hr hsafe

theorem keepsTail_cons_undecided (hb : Faithful ct b) {link : Link A C}
    {rest : List (Link A C × Option Bool)} (h : KeepsTail ct b rest)
    (hsafe : link.operator.isRich = true → safeBefore rest = true) :
    KeepsTail ct b ((link, none) :: rest) := by
  intro operator left r v hlinked _ hr hsafe'
  rw [undecided, tail_bind, List.map_cons, Behaviour.tail]
  by_cases hrich : operator.isRich = true
  · -- No node comes after the cascade: a result that is false is the value.
    have hafter : after rest = [] := (after_eq_nil_iff rest).2 (hsafe' hrich)
    refine bind_congr fun t => ?_
    cases t with
    | true =>
      simp only [if_true]
      refine bind_operand_congr fun w hw => bind_compare_congr fun r' hr' => ?_
      exact h link.operator link.operand2 r' w hlinked.2 hw hr' hsafe
    | false =>
      simp only [Bool.false_eq_true, if_false, after, hafter, evalAfter_nil]
  · obtain ⟨t, rfl⟩ := hr (Bool.not_eq_true _ ▸ hrich)
    rw [hb.truth_bool, pure_bind, pure_bind]
    cases t with
    | true =>
      simp only [if_true]
      refine bind_operand_congr fun w hw => bind_compare_congr fun r' hr' => ?_
      exact h link.operator link.operand2 r' w hlinked.2 hw hr' hsafe
    | false =>
      simp only [Bool.false_eq_true, if_false]
      by_cases hafter : after ((link, none) :: rest) = []
      · rw [hafter, evalAfter_nil]
      · rw [evalAfter_of_ne hafter, test_bool hb, if_neg Bool.false_ne_true]

theorem keepsTail_cons_true (hb : Faithful ct b) {link : Link A C}
    {rest : List (Link A C × Option Bool)} (h : KeepsNodes ct b rest) :
    KeepsTail ct b ((link, some true) :: rest) := by
  intro operator left r v hlinked hv hr hsafe
  obtain ⟨d, hd, htail⟩ := tail_decided hb hlinked (r := r) hv (rest.map Prod.fst)
  have hlinked' : Linked ct (.constant d) rest := hd ▸ hlinked.2
  rw [List.map_cons, htail, undecided, Behaviour.tail, pure_bind, after, hd]
  by_cases hnil : nodesFrom ⟨.constant d, []⟩ rest = []
  · have htrue := (nodesFrom_eq_nil_iff _ _).1 hnil
    have hrich : operator.isRich = false := by
      rw [← Bool.not_eq_true]
      intro hrich
      have hsafe := hsafe hrich
      rw [safeBefore, htrue] at hsafe
      cases hsafe
    obtain ⟨t, rfl⟩ := hr hrich
    rw [hnil, evalAfter_nil, test_bool hb, tail_allTrue hb hlinked' htrue (valueOf_constant d)]
    cases t <;> rfl
  · rw [evalAfter_of_ne hnil, h d hlinked']

theorem keepsTail_cons_false (hb : Faithful ct b) {link : Link A C}
    {rest : List (Link A C × Option Bool)} : KeepsTail ct b ((link, some false) :: rest) := by
  intro operator left r v hlinked hv _ _
  obtain ⟨d, -, htail⟩ := tail_decided hb hlinked (r := r) hv (rest.map Prod.fst)
  rw [List.map_cons, htail, undecided, Behaviour.tail, pure_bind, after, tail_false hb]
  rfl

/-- By induction on the results. -/
theorem keeps_spec (hb : Faithful ct b) {results : List (Link A C × Option Bool)}
    (h : keeps results = true) : KeepsTail ct b results ∧ KeepsNodes ct b results := by
  induction results with
  | nil =>
    refine ⟨fun operator left r v _ _ _ _ => ?_, fun c _ => rfl⟩
    rw [undecided, after, List.map_nil, Behaviour.tail, pure_bind, evalAfter_nil]
  | cons result rest ih =>
    obtain ⟨link, _ | _ | _⟩ := result
    · rw [keeps, Bool.and_eq_true, Bool.or_eq_true, Bool.not_eq_true'] at h
      obtain ⟨hsafe, hrest⟩ := h
      have hsafe' : link.operator.isRich = true → safeBefore rest = true := fun hrich =>
        hsafe.resolve_left (by simp [hrich])
      obtain ⟨htail, -⟩ := ih hrest
      refine ⟨keepsTail_cons_undecided hb htail hsafe', fun c hlinked => ?_⟩
      rw [evalNodes_undecided htail hlinked.2 hsafe', List.map_cons, Behaviour.tail,
        hb.truth_bool, pure_bind, if_pos rfl, Behaviour.chain, Behaviour.operand, pure_bind]
    · refine ⟨keepsTail_cons_false hb, fun c hlinked => ?_⟩
      obtain ⟨d, -, htail⟩ := tail_decided hb hlinked (r := b.bool true)
        (valueOf_constant c) (rest.map Prod.fst)
      rw [List.map_cons, htail, test_bool hb, if_pos rfl, tail_false hb]
      rfl
    · obtain ⟨-, hnodes⟩ := ih h
      refine ⟨keepsTail_cons_true hb hnodes, fun c hlinked => ?_⟩
      obtain ⟨d, hd, htail⟩ := tail_decided hb hlinked (r := b.bool true)
        (valueOf_constant c) (rest.map Prod.fst)
      rw [List.map_cons, htail, test_bool hb, if_pos rfl, ← hnodes d (hd ▸ hlinked.2), nodesFrom,
        hd]
      rfl

/-! ## What the rewrites have to keep -/

/-- The rewritten chain does what the chain does, whatever comparisons do. -/
def Preserved (ct : CompileTime C) (operand1 : Operand A C) (first : Link A C)
    (cascade : List (Link A C)) : Prop :=
  ∀ (V ε σ : Type) (b : Behaviour A C V ε σ), Faithful ct b →
    (visitPrimaryCmpNode ct operand1 first cascade).eval b = b.chain operand1 first cascade

/-- A chain whose first link is decided begins with a constant. -/
theorem chain_eq_tail (hb : Faithful ct b) {c : C} (first : Link A C) (cascade : List (Link A C)) :
    b.chain (.constant c) first cascade = b.tail (b.bool true) (b.const c) (first :: cascade) := by
  rw [Behaviour.tail, hb.truth_bool, pure_bind, if_pos rfl, Behaviour.chain, Behaviour.operand,
    pure_bind]

theorem evalNodes_of_keeps (hb : Faithful ct b) {operand1 : Operand A C} {first : Link A C}
    {result : Option Bool} {rest : List (Link A C × Option Bool)}
    (hlinked : Linked ct operand1 ((first, result) :: rest))
    (h : keeps ((first, result) :: rest) = true) :
    evalNodes b (nodesFrom ⟨operand1, []⟩ ((first, result) :: rest)) =
      b.chain operand1 first (rest.map Prod.fst) := by
  cases result with
  | none =>
    rw [keeps, Bool.and_eq_true, Bool.or_eq_true, Bool.not_eq_true'] at h
    exact evalNodes_undecided (keeps_spec hb h.2).1 hlinked.2 fun hrich =>
      h.1.resolve_left (by simp [hrich])
  | some t =>
    obtain ⟨c, d, rfl, -⟩ := hlinked.decided
    rw [(keeps_spec hb h).2 c hlinked, chain_eq_tail hb]
    rfl

theorem preserved_of_keeps {operand1 : Operand A C} {first : Link A C} {cascade : List (Link A C)}
    (h : keeps (linkResults ct operand1 (first :: cascade)) = true) :
    Preserved ct operand1 first cascade := by
  intro V ε σ b hb
  have hnodes := evalNodes_of_keeps hb (linked_linkResults operand1 (first :: cascade)) h
  rw [map_fst_linkResults] at hnodes
  rw [visitPrimaryCmpNode_eq, eval_treeOf, ← hnodes, linkResults]

/-! ## Comparisons that follow a script -/

/-- The objects of a scripted run: the results of rich comparisons have a truth value. -/
inductive Value (C : Type) where
  | const (c : C)
  | bool (t : Bool)
  | result (t : Bool)
  | object

/-- What is left of the script, and how often a result was tested. -/
abbrev Script := List Bool × ℕ

/-- The next entry of the script. -/
def nextEntry : EStateM Empty Script Bool := fun s => .ok (s.1.headD true) (s.1.tail, s.2)

/-- A comparison that is decided for two constants. -/
def decidedOr {α : Type} (decided : C → C → Option α) (x : EStateM Empty Script α) :
    Value C → Value C → EStateM Empty Script α
  | .const c, .const d => (decided c d).elim x pure
  | _, _ => x

/-- Comparisons that are not decided follow the script. -/
def scripted (A : Type) (ct : CompileTime C) : Behaviour A C (Value C) Empty Script where
  eval _ := pure .object
  const := .const
  bool := .bool
  rich operator := decidedOr (fun c d => (ct.rich operator c d).map .bool)
    (do
      let t ← nextEntry
      pure (.result t))
  identical := decidedOr ct.identical nextEntry
  contains := decidedOr ct.contains nextEntry
  truth
    | .bool t => pure t
    | .result t => fun s => .ok t (s.1, s.2 + 1)
    | _ => pure true

theorem faithful_scripted : Faithful ct (scripted A ct) := by
  refine ⟨fun t => rfl, fun operator c d t h => ?_, fun c d t h => ?_, fun c d t h => ?_⟩ <;>
    simp [scripted, decidedOr, h]

/-- The entry with which a comparison has a result that is `t`. -/
def CmpOperator.entry : CmpOperator → Bool → Bool
  | .rich _, t => t
  | .is negated, t => negated ^^ t
  | .contains negated, t => negated ^^ t

/-- The result of a comparison that follows the script. -/
def CmpOperator.outcome (operator : CmpOperator) (t : Bool) : Value C :=
  if operator.isRich then .result t else .bool t

/-- The values of an operand in a scripted run. -/
def Operand.scriptedValue : Operand A C → Value C
  | .constant c => .const c
  | .expr _ => .object

theorem operand_scripted (operand : Operand A C) :
    (scripted A ct).operand operand = pure operand.scriptedValue := by
  cases operand <;> rfl

/-- A comparison that is not decided follows the script. -/
theorem decidedOr_of_none {α : Type} {decided : C → C → Option α} {x : EStateM Empty Script α}
    {left right : Operand A C}
    (h : ∀ c d, left = .constant c → right = .constant d → decided c d = none) :
    decidedOr decided x left.scriptedValue right.scriptedValue = x := by
  cases left with
  | constant c =>
    cases right with
    | constant d =>
      have hnone := h c d rfl rfl
      simp only [Operand.scriptedValue, decidedOr, hnone, Option.elim_none]
    | expr a => rfl
  | expr a => rfl

theorem compare_scripted {left : Operand A C} {link : Link A C}
    (h : linkResult ct left link = none) (t : Bool) (script : List Bool) (n : ℕ) :
    (scripted A ct).compare link.operator left.scriptedValue link.operand2.scriptedValue
      (link.operator.entry t :: script, n) = .ok (link.operator.outcome t) (script, n) := by
  have hnone : ∀ c d, left = .constant c → link.operand2 = .constant d →
      ct.result link.operator c d = none := by
    intro c d hc hd
    rw [linkResult, hc, hd] at h
    exact h
  generalize link.operator = operator at hnone
  cases operator with
  | rich operator =>
    have hx : (scripted A ct).rich operator left.scriptedValue link.operand2.scriptedValue = (do
        let t ← nextEntry
        pure (.result t)) := decidedOr_of_none fun c d hc hd => by
      have hcd : ct.rich operator c d = none := hnone c d hc hd
      rw [hcd, Option.map_none]
    rw [Behaviour.compare, hx]
    rfl
  | is negated =>
    have hx : (scripted A ct).identical left.scriptedValue link.operand2.scriptedValue =
        nextEntry := decidedOr_of_none fun c d hc hd => Option.map_eq_none_iff.1 (hnone c d hc hd)
    rw [Behaviour.compare, hx]
    cases negated <;> cases t <;> rfl
  | contains negated =>
    have hx : (scripted A ct).contains left.scriptedValue link.operand2.scriptedValue =
        nextEntry := decidedOr_of_none fun c d hc hd => Option.map_eq_none_iff.1 (hnone c d hc hd)
    rw [Behaviour.compare, hx]
    cases negated <;> cases t <;> rfl

theorem bind_eq_of_eq {α β : Type} {x y : EStateM ε σ α} {s s' : σ} (h : x s = y s')
    (f : α → EStateM ε σ β) : (x >>= f) s = (y >>= f) s' := by
  change EStateM.bind x f s = EStateM.bind y f s'
  rw [EStateM.bind, EStateM.bind, h]

/-- The state after the test of a result. -/
def tested (operator : CmpOperator) (n : ℕ) : ℕ := if operator.isRich then n + 1 else n

theorem truth_outcome (operator : CmpOperator) (t : Bool) (script : List Bool) (n : ℕ) :
    (scripted A ct).truth (operator.outcome t) (script, n) = .ok t (script, tested operator n) := by
  rw [CmpOperator.outcome, tested]
  cases operator <;> rfl

theorem test_outcome (operator : CmpOperator) (t : Bool) (script : List Bool) (n : ℕ)
    (next : EStateM Empty Script (Value C)) :
    (scripted A ct).test (pure (operator.outcome t)) next (script, n) =
      if t then next (script, tested operator n)
      else .ok (operator.outcome t) (script, tested operator n) := by
  rw [Behaviour.test, pure_bind, bind_of_ok (truth_outcome operator t script n)]
  cases t <;> rfl

/-- One comparison of a chain. -/
theorem step_scripted {left : Operand A C} {link : Link A C} (h : linkResult ct left link = none)
    (t : Bool) (script : List Bool) (n : ℕ) {α : Type}
    (f : Value C → Value C → EStateM Empty Script α) :
    (do
      let w ← (scripted A ct).operand link.operand2
      let r ← (scripted A ct).compare link.operator left.scriptedValue w
      f r w : EStateM Empty Script α) (link.operator.entry t :: script, n) =
    f (link.operator.outcome t) link.operand2.scriptedValue (script, n) := by
  rw [operand_scripted, pure_bind, bind_of_ok (compare_scripted h t script n)]

/-- One link of a chain, after a result that is true. -/
theorem tail_scripted {left : Operand A C} {link : Link A C} (h : linkResult ct left link = none)
    (operator : CmpOperator) (t : Bool) (script : List Bool) (n : ℕ) (links : List (Link A C)) :
    (scripted A ct).tail (operator.outcome true) left.scriptedValue (link :: links)
        (link.operator.entry t :: script, n) =
      (scripted A ct).tail (link.operator.outcome t) link.operand2.scriptedValue links
        (script, tested operator n) := by
  rw [Behaviour.tail, bind_of_ok (truth_outcome operator true _ n), if_pos rfl]
  exact step_scripted h t script _ fun r w => (scripted A ct).tail r w links

theorem tail_scripted_false (operator : CmpOperator) (v : Value C) (script : List Bool) (n : ℕ)
    (link : Link A C) (links : List (Link A C)) :
    (scripted A ct).tail (operator.outcome false) v (link :: links) (script, n) =
      .ok (operator.outcome false) (script, tested operator n) := by
  rw [Behaviour.tail, bind_of_ok (truth_outcome operator false _ n)]
  rfl

variable (ct) in
/-- A result that is false is the value of the chain. -/
theorem exists_tail_false (operator : CmpOperator) (v : Value C) (script : List Bool) (n : ℕ)
    (links : List (Link A C)) : ∃ n', (scripted A ct).tail (operator.outcome false) v links
      (script, n) = .ok (operator.outcome false) (script, n') := by
  cases links with
  | nil => exact ⟨n, rfl⟩
  | cons link links => exact ⟨_, tail_scripted_false operator v script n link links⟩

theorem chain_scripted {operand1 : Operand A C} {link : Link A C}
    (h : linkResult ct operand1 link = none) (t : Bool) (script : List Bool) (n : ℕ)
    (links : List (Link A C)) :
    (scripted A ct).chain operand1 link links (link.operator.entry t :: script, n) =
      (scripted A ct).tail (link.operator.outcome t) link.operand2.scriptedValue links
        (script, n) := by
  rw [Behaviour.chain, operand_scripted, pure_bind]
  exact step_scripted h t script n fun r w => (scripted A ct).tail r w links

theorem scriptedValue_valueOf (operand : Operand A C) :
    ValueOf (scripted A ct) operand operand.scriptedValue := by
  rintro c rfl
  rfl

/-! ## Chains that are not kept -/

/-- For some script the cascade and the nodes after it do not do what the chain does. -/
def BreaksTail (ct : CompileTime C) (results : List (Link A C × Option Bool)) : Prop :=
  ∀ (operator : CmpOperator) (left : Operand A C), Linked ct left results →
    (operator.isRich = true ∧ safeBefore results = false ∨ keeps results = false) →
    ∃ t script, ∀ n, ((scripted A ct).tail (operator.outcome t) left.scriptedValue
        (undecided results) >>= fun x => evalAfter (scripted A ct) x (after results)) (script, n) ≠
      (scripted A ct).tail (operator.outcome t) left.scriptedValue (results.map Prod.fst)
        (script, n)

def BreaksNodes (ct : CompileTime C) (results : List (Link A C × Option Bool)) : Prop :=
  ∀ c, Linked ct (.constant c : Operand A C) results → keeps results = false → ∃ script, ∀ n,
    evalNodes (scripted A ct) (nodesFrom ⟨.constant c, []⟩ results) (script, n) ≠
      (scripted A ct).tail (.bool true) (.const c) (results.map Prod.fst) (script, n)

/-- The nodes from a link on that is not decided. -/
theorem evalNodes_ne {operand1 : Operand A C} {link : Link A C}
    {rest : List (Link A C × Option Bool)} (hresult : linkResult ct operand1 link = none)
    {t : Bool} {script : List Bool} {n : ℕ}
    (h : ((scripted A ct).tail (link.operator.outcome t) link.operand2.scriptedValue
        (undecided rest) >>= fun x => evalAfter (scripted A ct) x (after rest)) (script, n) ≠
      (scripted A ct).tail (link.operator.outcome t) link.operand2.scriptedValue
        (rest.map Prod.fst) (script, n)) :
    evalNodes (scripted A ct) (nodesFrom ⟨operand1, []⟩ ((link, none) :: rest))
        (link.operator.entry t :: script, n) ≠
      (scripted A ct).chain operand1 link (rest.map Prod.fst)
        (link.operator.entry t :: script, n) := by
  have hnodes : nodesFrom ⟨operand1, []⟩ ((link, none) :: rest) =
      .primaryCmp operand1 link (undecided rest) :: after rest := by
    rw [nodesFrom_eq]
    rfl
  rw [hnodes, evalNodes_cons]
  simp only [Behaviour.chain, operand_scripted operand1, bind_assoc, pure_bind]
  rw [step_scripted hresult t script n fun r w => (scripted A ct).tail r w (undecided rest) >>=
      fun x => evalAfter (scripted A ct) x (after rest),
    step_scripted hresult t script n fun r w => (scripted A ct).tail r w (rest.map Prod.fst)]
  exact h

theorem breaksTail_cons_undecided {link : Link A C} {rest : List (Link A C × Option Bool)}
    (h : BreaksTail ct rest) : BreaksTail ct ((link, none) :: rest) := by
  intro operator left hlinked hbad
  by_cases hrest : keeps ((link, none) :: rest) = false
  · -- The difference comes later.
    have hbad' : link.operator.isRich = true ∧ safeBefore rest = false ∨ keeps rest = false := by
      rw [keeps, Bool.and_eq_false_iff, Bool.or_eq_false_iff, Bool.not_eq_false'] at hrest
      exact hrest
    obtain ⟨t, script, hne⟩ := h link.operator link.operand2 hlinked.2 hbad'
    refine ⟨true, link.operator.entry t :: script, fun n => ?_⟩
    rw [undecided, bind_eq_of_eq (tail_scripted hlinked.1.symm operator t script n _),
      List.map_cons, tail_scripted hlinked.1.symm]
    exact hne _
  · -- A result that is false is tested twice.
    obtain ⟨hrich, hsafe⟩ := hbad.resolve_right hrest
    have hafter : after ((link, none) :: rest) ≠ [] := by
      rw [Ne, after_eq_nil_iff, Bool.not_eq_true]
      exact hsafe
    refine ⟨false, [], fun n => ?_⟩
    rw [undecided, bind_of_ok (tail_scripted_false operator _ [] n _ _), evalAfter_of_ne hafter,
      test_outcome, if_neg Bool.false_ne_true, List.map_cons, tail_scripted_false, tested, tested,
      if_pos hrich, if_pos hrich]
    intro heq
    injection heq with _ hstate
    exact absurd (Prod.mk.inj hstate).2 (by omega)

theorem keeps_of_allTrue {results : List (Link A C × Option Bool)} (h : allTrue results = true) :
    keeps results = true := by
  induction results with
  | nil => rfl
  | cons result rest ih =>
    obtain ⟨link, result⟩ := result
    rw [allTrue, List.all_cons, Bool.and_eq_true, beq_iff_eq] at h
    obtain rfl : result = some true := h.1
    exact ih h.2

theorem breaksTail_cons_true {link : Link A C} {rest : List (Link A C × Option Bool)}
    (h : BreaksNodes ct rest) : BreaksTail ct ((link, some true) :: rest) := by
  intro operator left hlinked hbad
  obtain ⟨d, hd, htail⟩ := tail_decided faithful_scripted hlinked
    (r := operator.outcome true) (scriptedValue_valueOf left) (rest.map Prod.fst)
  have hlinked' : Linked ct (.constant d) rest := hd ▸ hlinked.2
  rw [undecided, after, hd]
  simp only [Behaviour.tail, pure_bind]
  by_cases htrue : allTrue rest = true
  · -- The value of the chain is `True`, and not the result.
    have hnil := (nodesFrom_eq_nil_iff (.constant d) rest).2 htrue
    have hrich : operator.isRich = true := by
      refine (hbad.resolve_right ?_).1
      rw [keeps, keeps_of_allTrue htrue]
      exact Bool.noConfusion
    refine ⟨true, [], fun n => ?_⟩
    rw [hnil, evalAfter_nil, List.map_cons, htail, test_outcome, if_pos rfl]
    have hvalue := tail_allTrue faithful_scripted hlinked' htrue (valueOf_constant d)
    rw [hvalue, CmpOperator.outcome, if_pos hrich]
    intro heq
    injection heq with hresult
    cases hresult
  · have hne : nodesFrom ⟨.constant d, []⟩ rest ≠ [] := fun hnil =>
      htrue ((nodesFrom_eq_nil_iff _ _).1 hnil)
    have hrest : keeps rest = false := by
      refine hbad.resolve_left fun hsafe => ?_
      rw [safeBefore, Bool.not_eq_false'] at hsafe
      exact htrue hsafe.2
    obtain ⟨script, hdiffers⟩ := h d hlinked' hrest
    refine ⟨true, script, fun n => ?_⟩
    rw [evalAfter_of_ne hne, List.map_cons, htail, test_outcome, test_outcome, if_pos rfl,
      if_pos rfl]
    exact hdiffers _

/-- By induction on the results. -/
theorem breaks_spec (results : List (Link A C × Option Bool)) :
    BreaksTail ct results ∧ BreaksNodes ct results := by
  induction results with
  | nil =>
    constructor
    · intro operator left _ hbad
      rcases hbad with ⟨-, hsafe⟩ | hkeeps
      · cases hsafe
      · cases hkeeps
    · intro c _ hkeeps
      cases hkeeps
  | cons result rest ih =>
    obtain ⟨link, _ | _ | _⟩ := result
    · refine ⟨breaksTail_cons_undecided ih.1, fun c hlinked hkeeps => ?_⟩
      rw [keeps, Bool.and_eq_false_iff, Bool.or_eq_false_iff, Bool.not_eq_false'] at hkeeps
      obtain ⟨t, script, hne⟩ := ih.1 link.operator link.operand2 hlinked.2 hkeeps
      refine ⟨link.operator.entry t :: script, fun n => ?_⟩
      have hscripted : Faithful ct (scripted A ct) := faithful_scripted
      have hchain := chain_eq_tail hscripted (c := c) link (rest.map Prod.fst)
      have htail : (scripted A ct).tail (.bool true) (.const c)
          (((link, none) :: rest).map Prod.fst) =
          (scripted A ct).chain (.constant c) link (rest.map Prod.fst) := hchain.symm
      rw [htail]
      exact evalNodes_ne hlinked.1.symm (hne n)
    · constructor
      · intro operator left _ hbad
        rcases hbad with ⟨-, hsafe⟩ | hkeeps
        · cases hsafe
        · cases hkeeps
      · intro c _ hkeeps
        cases hkeeps
    · refine ⟨breaksTail_cons_true ih.2, fun c hlinked hkeeps => ?_⟩
      obtain ⟨d, hd, htail⟩ := tail_decided faithful_scripted hlinked
        (r := (scripted A ct).bool true) (valueOf_constant c) (rest.map Prod.fst)
      obtain ⟨script, hne⟩ := ih.2 d (hd ▸ hlinked.2) hkeeps
      refine ⟨script, fun n => ?_⟩
      have htail' : (scripted A ct).tail (.bool true) (.const c)
          (((link, some true) :: rest).map Prod.fst) =
          (scripted A ct).tail (.bool true) (.const d) (rest.map Prod.fst) := by
        refine htail.trans ?_
        rw [test_bool faithful_scripted, if_pos rfl]
        rfl
      rw [htail', nodesFrom, hd]
      exact hne n

theorem exists_evalNodes_ne {operand1 : Operand A C} {first : Link A C} {result : Option Bool}
    {rest : List (Link A C × Option Bool)} (hlinked : Linked ct operand1 ((first, result) :: rest))
    (h : keeps ((first, result) :: rest) = false) :
    evalNodes (scripted A ct) (nodesFrom ⟨operand1, []⟩ ((first, result) :: rest)) ≠
      (scripted A ct).chain operand1 first (rest.map Prod.fst) := by
  cases result with
  | none =>
    rw [keeps, Bool.and_eq_false_iff, Bool.or_eq_false_iff, Bool.not_eq_false'] at h
    obtain ⟨t, script, hne⟩ := (breaks_spec rest).1 first.operator first.operand2 hlinked.2 h
    exact fun heq => evalNodes_ne hlinked.1.symm (hne 0) (congrFun heq _)
  | some t =>
    obtain ⟨c, d, rfl, -⟩ := hlinked.decided
    obtain ⟨script, hne⟩ := (breaks_spec _).2 c hlinked h
    rw [chain_eq_tail faithful_scripted]
    exact fun heq => hne 0 (congrFun heq _)

/-- When the rewritten chain does what the chain does. -/
theorem preserved_iff (operand1 : Operand A C) (first : Link A C) (cascade : List (Link A C)) :
    Preserved ct operand1 first cascade ↔
      keeps (linkResults ct operand1 (first :: cascade)) = true := by
  refine ⟨fun h => ?_, preserved_of_keeps⟩
  by_contra hkeeps
  rw [Bool.not_eq_true] at hkeeps
  have heq := h (Value C) Empty Script (scripted A ct) faithful_scripted
  have hne := exists_evalNodes_ne (linked_linkResults operand1 (first :: cascade)) hkeeps
  rw [map_fst_linkResults] at hne
  rw [visitPrimaryCmpNode_eq, eval_treeOf] at heq
  exact hne heq

/-! ## Negated comparisons -/

/-- After the links that are left out comes a cascade of two links or more, the first of them
    with an operator that is negated. -/
def negatesCascade : List (Link A C × Option Bool) → Bool
  | [] => false
  | (_, some false) :: _ => false
  | (_, some true) :: rest => negatesCascade rest
  | (link, none) :: rest => !link.operator.isRich && closes rest && !(undecided rest).isEmpty

/-- `not` of a chain that has been visited has the truth value that it had. -/
def NotPreserved (ct : CompileTime C) (operand1 : Operand A C) (first : Link A C)
    (cascade : List (Link A C)) : Prop :=
  ∀ (V ε σ : Type) (b : Behaviour A C V ε σ), Faithful ct b →
    ((visitNot ct (visitPrimaryCmpNode ct operand1 first cascade)).eval b >>= b.truth) =
      ((Node.not (visitPrimaryCmpNode ct operand1 first cascade)).eval b >>= b.truth)

theorem foldl_and (node node' : Node A C) (nodes : List (Node A C)) :
    ∃ l r, (node' :: nodes).foldl .and node = .and l r := by
  induction nodes generalizing node node' with
  | nil => exact ⟨node, node', rfl⟩
  | cons node'' nodes ih => exact ih (.and node node') node''

/-- What a chain may become. -/
inductive Visited (ct : CompileTime C) (negates : Bool) : Node A C → Prop
  | primaryCmp {operand1 : Operand A C} {link : Link A C}
      {rest : List (Link A C × Option Bool)} (h : Linked ct operand1 ((link, none) :: rest))
      (hnegates : negates = (!link.operator.isRich && !(undecided rest).isEmpty)) :
      Visited ct negates (.primaryCmp operand1 link (undecided rest))
  | bool {t : Bool} (hnegates : negates = false) : Visited ct negates (.bool t)
  | and {l r : Node A C} (hnegates : negates = false) : Visited ct negates (.and l r)

theorem visited_treeOf {operand1 : Operand A C} {results : List (Link A C × Option Bool)}
    (h : Linked ct operand1 results) :
    Visited ct (negatesCascade results) (treeOf (nodesFrom ⟨operand1, []⟩ results)) := by
  induction results generalizing operand1 with
  | nil => exact .bool rfl
  | cons result rest ih =>
    obtain ⟨link, _ | _ | _⟩ := result
    · have hnodes : nodesFrom ⟨operand1, []⟩ ((link, none) :: rest) =
          .primaryCmp operand1 link (undecided rest) :: after rest := by
        rw [nodesFrom_eq]
        rfl
      rw [hnodes]
      by_cases hafter : after rest = []
      · have hcloses := (after_eq_nil_iff rest).1 hafter
        rw [hafter]
        refine .primaryCmp h ?_
        rw [negatesCascade, hcloses, Bool.and_true]
      · have hcloses : closes rest = false := by
          rw [← Bool.not_eq_true, ← after_eq_nil_iff]
          exact hafter
        obtain ⟨node, nodes, hcons⟩ := List.exists_cons_of_ne_nil hafter
        obtain ⟨l, r, hfold⟩ := foldl_and (.primaryCmp operand1 link (undecided rest)) node nodes
        rw [hcons, treeOf, hfold]
        refine .and ?_
        rw [negatesCascade, hcloses, Bool.and_false, Bool.false_and]
    · exact .bool rfl
    · exact ih h.2

/-- `not` of one comparison that is negated. -/
theorem compare_negated (hb : Faithful ct b) {operator operator' : CmpOperator}
    (h : negateOperator operator = some operator') (v w : V) :
    b.compare operator' v w = (do
      let r ← b.compare operator v w
      let t ← b.truth r
      pure (b.bool !t)) := by
  cases operator with
  | rich operator => cases h
  | is negated =>
    obtain rfl := Option.some.inj h
    simp only [Behaviour.compare, bind_assoc, pure_bind, hb.truth_bool]
    refine bind_congr fun t => ?_
    cases negated <;> cases t <;> rfl
  | contains negated =>
    obtain rfl := Option.some.inj h
    simp only [Behaviour.compare, bind_assoc, pure_bind, hb.truth_bool]
    refine bind_congr fun t => ?_
    cases negated <;> cases t <;> rfl

theorem isRich_of_negateOperator {operator operator' : CmpOperator}
    (h : negateOperator operator = some operator') :
    operator.isRich = false ∧ operator'.isRich = false ∧
      ∀ t, operator'.entry t = operator.entry !t := by
  cases operator with
  | rich operator => cases h
  | is negated =>
    obtain rfl := Option.some.inj h
    refine ⟨rfl, rfl, fun t => ?_⟩
    cases negated <;> cases t <;> rfl
  | contains negated =>
    obtain rfl := Option.some.inj h
    refine ⟨rfl, rfl, fun t => ?_⟩
    cases negated <;> cases t <;> rfl

theorem linkResult_negated {operand1 : Operand A C} {link : Link A C} {operator : CmpOperator}
    (h : linkResult ct operand1 link = none) (hnegate : negateOperator link.operator = some operator) :
    linkResult ct operand1 { link with operator := operator } = none := by
  obtain ⟨operator', operand2⟩ := link
  cases operand1 with
  | expr a => rfl
  | constant c =>
    cases operand2 with
    | expr a => rfl
    | constant d =>
      cases operator' with
      | rich operator' => cases hnegate
      | is negated =>
        obtain rfl := Option.some.inj hnegate
        exact Option.map_eq_none_iff.2 (Option.map_eq_none_iff.1 h)
      | contains negated =>
        obtain rfl := Option.some.inj hnegate
        exact Option.map_eq_none_iff.2 (Option.map_eq_none_iff.1 h)

theorem linkResults_undecided {left : Operand A C} {rest : List (Link A C × Option Bool)}
    (h : Linked ct left rest) :
    linkResults ct left (undecided rest) = (undecided rest).map fun link => (link, none) := by
  induction rest generalizing left with
  | nil => rfl
  | cons result rest ih =>
    obtain ⟨link, _ | _⟩ := result
    · rw [undecided, linkResults, List.map_cons, ih h.2, ← h.1]
    · rfl

theorem nodesFrom_undecided (last : Cascade A C) (links : List (Link A C)) :
    nodesFrom last (links.map fun link => (link, none)) =
      Cascade.node { last with links := last.links ++ links } := by
  induction links generalizing last with
  | nil => rw [List.append_nil]; rfl
  | cons link links ih =>
    rw [List.map_cons, nodesFrom, ih, Cascade.append, List.append_assoc]
    rfl

/-- The chain with its first operator negated is visited again, and stays what it is. -/
theorem visitNot_primaryCmp {operand1 : Operand A C} {link : Link A C}
    {rest : List (Link A C × Option Bool)} (h : Linked ct operand1 ((link, none) :: rest))
    {operator : CmpOperator} (hnegate : negateOperator link.operator = some operator) :
    visitNot ct (.primaryCmp operand1 link (undecided rest)) =
      .primaryCmp operand1 { link with operator := operator } (undecided rest) := by
  have hresults : linkResults ct operand1
      ({ link with operator := operator } :: undecided rest) =
        ({ link with operator := operator } :: undecided rest).map fun link => (link, none) := by
    rw [linkResults, linkResult_negated h.1.symm hnegate, linkResults_undecided h.2, List.map_cons]
  rw [visitNot, hnegate]
  dsimp only
  rw [visitPrimaryCmpNode_eq, hresults, nodesFrom_undecided]
  rfl

theorem eval_not (node : Node A C) : (Node.not node).eval b = (do
    let v ← node.eval b
    let t ← b.truth v
    pure (b.bool !t)) := rfl

/-- A single comparison is negated. -/
theorem eval_negated (hb : Faithful ct b) {operand1 : Operand A C} {link : Link A C}
    {operator : CmpOperator} (hnegate : negateOperator link.operator = some operator) :
    (Node.primaryCmp operand1 { link with operator := operator } []).eval b =
      (Node.not (.primaryCmp operand1 link [])).eval b := by
  rw [eval_not]
  simp only [Node.eval, Node.evalThen, Behaviour.chain, Behaviour.tail, bind_pure, bind_assoc]
  simp only [compare_negated hb hnegate]

/-- In a cascade only the first comparison is negated. -/
theorem eval_negated_ne {operand1 : Operand A C} {link : Link A C}
    {rest : List (Link A C × Option Bool)} (h : Linked ct operand1 ((link, none) :: rest))
    {operator : CmpOperator} (hnegate : negateOperator link.operator = some operator)
    (hne : undecided rest ≠ []) :
    ((Node.primaryCmp operand1 { link with operator := operator } (undecided rest)).eval
        (scripted A ct) >>= (scripted A ct).truth) ≠
      ((Node.not (.primaryCmp operand1 link (undecided rest))).eval (scripted A ct) >>=
        (scripted A ct).truth) := by
  obtain ⟨hrich, hrich', hentry⟩ := isRich_of_negateOperator hnegate
  cases rest with
  | nil => exact absurd rfl hne
  | cons result rest =>
    obtain ⟨link₂, _ | _⟩ := result
    · -- The first comparison is true, and the second one is false.
      set script := [link.operator.entry true, link₂.operator.entry false] with hscript
      have hfolded : ∃ n, (Node.primaryCmp operand1 { link with operator := operator }
          (undecided ((link₂, none) :: rest))).eval (scripted A ct) (script, 0) =
            .ok (operator.outcome false) ([link₂.operator.entry false], n) := by
        have hchain := chain_scripted (linkResult_negated h.1.symm hnegate) false
          [link₂.operator.entry false] 0 (undecided ((link₂, none) :: rest))
        rw [hentry] at hchain
        obtain ⟨n, hn⟩ := exists_tail_false ct operator link.operand2.scriptedValue
          [link₂.operator.entry false] 0 (undecided ((link₂, none) :: rest))
        exact ⟨n, hchain.trans hn⟩
      have hplain : ∃ n, (Node.primaryCmp operand1 link
          (undecided ((link₂, none) :: rest))).eval (scripted A ct) (script, 0) =
            .ok (link₂.operator.outcome false) ([], n) := by
        have hchain := chain_scripted h.1.symm true [link₂.operator.entry false] 0
          (undecided ((link₂, none) :: rest))
        rw [undecided, tail_scripted h.2.1.symm] at hchain
        obtain ⟨n, hn⟩ := exists_tail_false ct link₂.operator
          link₂.operand2.scriptedValue [] (tested link.operator 0) (undecided rest)
        exact ⟨n, hchain.trans hn⟩
      obtain ⟨n, hn⟩ := hfolded
      obtain ⟨n', hn'⟩ := hplain
      intro heq
      have heq' := congrFun heq (script, 0)
      rw [bind_of_ok hn, truth_outcome, eval_not, bind_assoc, bind_of_ok hn', bind_assoc,
        bind_of_ok (truth_outcome link₂.operator false [] n')] at heq'
      injection heq' with hvalue
      cases hvalue
    · exact absurd rfl hne

/-- When `not` keeps the truth value of a chain. -/
theorem notPreserved_iff (operand1 : Operand A C) (first : Link A C) (cascade : List (Link A C)) :
    NotPreserved ct operand1 first cascade ↔
      negatesCascade (linkResults ct operand1 (first :: cascade)) = false := by
  have hvisited : Visited ct (negatesCascade (linkResults ct operand1 (first :: cascade)))
      (visitPrimaryCmpNode ct operand1 first cascade) := by
    rw [visitPrimaryCmpNode_eq]
    exact visited_treeOf (linked_linkResults operand1 (first :: cascade))
  rw [NotPreserved]
  generalize visitPrimaryCmpNode ct operand1 first cascade = node at hvisited
  generalize negatesCascade (linkResults ct operand1 (first :: cascade)) = negates at hvisited
  cases hvisited with
  | @primaryCmp operand link rest hlinked hnegates =>
    cases hnegate : negateOperator link.operator with
    | none =>
      have hrich : link.operator.isRich = true := by
        cases hop : link.operator with
        | rich operator => rfl
        | is negated =>
          rw [hop] at hnegate
          cases hnegate
        | contains negated =>
          rw [hop] at hnegate
          cases hnegate
      rw [hnegates, hrich]
      refine ⟨fun _ => rfl, fun _ V ε σ b _ => ?_⟩
      rw [visitNot, hnegate]
    | some operator =>
      obtain ⟨hrich, -, -⟩ := isRich_of_negateOperator hnegate
      rw [hnegates, hrich, visitNot_primaryCmp hlinked hnegate]
      by_cases hnil : undecided rest = []
      · rw [hnil]
        refine ⟨fun _ => rfl, fun _ V ε σ b hb => ?_⟩
        rw [eval_negated hb hnegate]
      · have hempty : (undecided rest).isEmpty = false := by
          rwa [← Bool.not_eq_true, List.isEmpty_iff]
        rw [hempty]
        refine ⟨fun hall => ?_, fun hfalse => absurd hfalse (by decide)⟩
        exact absurd (hall (Value C) Empty Script (scripted A ct) faithful_scripted)
          (eval_negated_ne hlinked hnegate hnil)
  | @bool t hnegates =>
    refine ⟨fun _ => hnegates, fun _ V ε σ b hb => ?_⟩
    simp only [visitNot, Node.eval, Node.evalThen, pure_bind, hb.truth_bool]
  | @and l r hnegates => exact ⟨fun _ => hnegates, fun _ V ε σ b _ => rfl⟩

/-- The two rewrites keep what they have to if and only if no result of a comparison is lost or
    tested twice, and no cascade is negated by its first link. -/
theorem visitPrimaryCmpNode_iff (ct : CompileTime C) (operand1 : Operand A C) (first : Link A C)
    (cascade : List (Link A C)) :
    Preserved ct operand1 first cascade ∧ NotPreserved ct operand1 first cascade ↔
      keeps (linkResults ct operand1 (first :: cascade)) = true ∧
        negatesCascade (linkResults ct operand1 (first :: cascade)) = false :=
  and_congr (preserved_iff operand1 first cascade) (notPreserved_iff operand1 first cascade)

/-! ## Integers -/

/-- Integers at compile time; they are no containers. -/
def intCompileTime : CompileTime ℤ where
  rich
    | .lt, c, d => some (decide (c < d))
    | .le, c, d => some (decide (c ≤ d))
    | .eq, c, d => some (decide (c = d))
    | .ne, c, d => some (decide (c ≠ d))
    | .ge, c, d => some (decide (c ≥ d))
    | .gt, c, d => some (decide (c > d))
  identical c d := some (decide (c = d))
  contains _ _ := none

/-- `a < 1 < 2` becomes `a < 1`, and `not (a is b is c)` becomes `a is not b is c`. -/
theorem not_preserved_int :
    ¬ Preserved intCompileTime (.expr 'a') ⟨.rich .lt, .constant 1⟩ [⟨.rich .lt, .constant 2⟩] ∧
      ¬ NotPreserved intCompileTime (.expr 'a') ⟨.is false, .expr 'b'⟩
        [⟨.is false, .expr 'c'⟩] := by
  rw [preserved_iff, notPreserved_iff]
  decide

end AHPy.ConstantFolding
