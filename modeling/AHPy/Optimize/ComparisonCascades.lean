import Mathlib

/-!
# Folding comparison cascades

`ConstantFolding.visit_PrimaryCmpNode` and `_handle_NotNode`. The links of a chain
`e0 op1 e1 op2 e2 ...` whose operands are constants are decided at compile time: a link
that is true is left out, and the chain falls into several chains there; a link that is
false ends the chain.

* `Behaviour.tail`: what a chain does, from a result on;
* `Preserved`, `NotPreserved`: what the two rewrites have to keep;
* `Keeps`: the results of the links for which the first one does.

A comparison with an operand that is no constant may do anything: have effects, raise an
exception, return any object; the truth value of an object may do so too, except for the
objects `True` and `False`.
-/

namespace AHPy.ConstantFolding

/-! ## Comparisons -/

inductive RichOperator where
  | lt
  | le
  | eq
  | ne
  | ge
  | gt

/-- The operator of a comparison: `is_not` and `not_in` are negated. -/
inductive CmpOperator where
  | rich (operator : RichOperator)
  | is (negated : Bool)
  | contains (negated : Bool)

def CmpOperator.isRich : CmpOperator → Bool
  | .rich _ => true
  | .is _ => false
  | .contains _ => false

/-- `_negate_operator` -/
def negateOperator : CmpOperator → Option CmpOperator
  | .rich _ => none
  | .is negated => some (.is !negated)
  | .contains negated => some (.contains !negated)

/-- An operand, with its `constant_result`. -/
inductive Operand (A C : Type) where
  | constant (c : C)
  | expr (a : A)

def Operand.constantResult {A C : Type} : Operand A C → Option C
  | .constant c => some c
  | .expr _ => none

/-- A `CmpNode`, without the node that hangs off it. -/
structure Link (A C : Type) where
  operator : CmpOperator
  operand2 : Operand A C

/-- The comparisons of constants at compile time: some fail, and those of strings of different
    types are not made. -/
structure CompileTime (C : Type) where
  rich : RichOperator → C → C → Option Bool
  identical : C → C → Option Bool
  contains : C → C → Option Bool

/-- `calculate_cascaded_constant_result` -/
def CompileTime.result {C : Type} (ct : CompileTime C) : CmpOperator → C → C → Option Bool
  | .rich operator, c, d => ct.rich operator c d
  | .is negated, c, d => (ct.identical c d).map (negated ^^ ·)
  | .contains negated, c, d => (ct.contains c d).map (negated ^^ ·)

/-! ## Trees -/

inductive Node (A C : Type) where
  | bool (value : Bool)
  | primaryCmp (operand1 : Operand A C) (first : Link A C) (cascade : List (Link A C))
  | and (operand1 operand2 : Node A C)
  | not (operand : Node A C)

variable {A C V ε σ : Type}

/-- The `constant_result` of a link. -/
def linkResult (ct : CompileTime C) (left : Operand A C) (link : Link A C) : Option Bool :=
  left.constantResult.bind fun c => link.operand2.constantResult.bind fun d =>
    ct.result link.operator c d

/-- The links of a chain with their `constant_result`. -/
def linkResults (ct : CompileTime C) :
    Operand A C → List (Link A C) → List (Link A C × Option Bool)
  | _, [] => []
  | left, link :: links => (link, linkResult ct left link) :: linkResults ct link.operand2 links

/-- A partial cascade. -/
structure Cascade (A C : Type) where
  operand1 : Operand A C
  links : List (Link A C)

def Cascade.append (cascade : Cascade A C) (link : Link A C) : Cascade A C :=
  { cascade with links := cascade.links ++ [link] }

/-- The node of a cascade with links. -/
def Cascade.node (cascade : Cascade A C) : List (Node A C) :=
  match cascade.links with
  | [] => []
  | first :: links => [.primaryCmp cascade.operand1 first links]

/-- The loop that collects partial cascades, the last of them apart; and whether the chain ends
    with `False`. -/
def collect (cascades : List (Cascade A C)) (last : Cascade A C) :
    List (Link A C × Option Bool) → List (Cascade A C) × Bool
  | [] => (cascades ++ [last], false)
  | (_, some false) :: _ => (cascades ++ [last], true)
  | (link, some true) :: rest => collect (cascades ++ [last]) ⟨link.operand2, []⟩ rest
  | (link, none) :: rest => collect cascades (last.append link) rest

/-- `cmp_nodes` -/
def cmpNodes (collected : List (Cascade A C) × Bool) : List (Node A C) :=
  collected.1.flatMap Cascade.node ++ if collected.2 then [.bool false] else []

/-- `visit_PrimaryCmpNode` -/
def visitPrimaryCmpNode (ct : CompileTime C) (operand1 : Operand A C) (first : Link A C)
    (cascade : List (Link A C)) : Node A C :=
  match cascade with
  | [] =>
    match linkResult ct operand1 first with
    | some value => .bool value
    | none => .primaryCmp operand1 first []
  | _ :: _ =>
    match cmpNodes (collect [] ⟨operand1, []⟩ (linkResults ct operand1 (first :: cascade))) with
    | [] => .bool true
    | node :: nodes => nodes.foldl .and node

/-- `_handle_NotNode`, and `visit_UnopNode` of a `not` whose operand has been visited. -/
def visitNot (ct : CompileTime C) : Node A C → Node A C
  | .bool value => .bool !value
  | .primaryCmp operand1 first cascade =>
    match negateOperator first.operator with
    | some operator => visitPrimaryCmpNode ct operand1 { first with operator := operator } cascade
    | none => .not (.primaryCmp operand1 first cascade)
  | node => .not node

/-! ## Evaluation -/

/-- What expressions, comparisons and truth values do. -/
structure Behaviour (A C V ε σ : Type) where
  eval : A → EStateM ε σ V
  const : C → V
  bool : Bool → V
  rich : RichOperator → V → V → EStateM ε σ V
  identical : V → V → EStateM ε σ Bool
  contains : V → V → EStateM ε σ Bool
  truth : V → EStateM ε σ Bool

/-- Booleans are what they are, and constants compare as they did at compile time. -/
structure Faithful (ct : CompileTime C) (b : Behaviour A C V ε σ) : Prop where
  truth_bool : ∀ t, b.truth (b.bool t) = pure t
  rich_eq : ∀ operator c d t, ct.rich operator c d = some t →
    b.rich operator (b.const c) (b.const d) = pure (b.bool t)
  identical_eq : ∀ c d t, ct.identical c d = some t → b.identical (b.const c) (b.const d) = pure t
  contains_eq : ∀ c d t, ct.contains c d = some t → b.contains (b.const c) (b.const d) = pure t

namespace Behaviour

variable (b : Behaviour A C V ε σ)

def operand : Operand A C → EStateM ε σ V
  | .constant c => pure (b.const c)
  | .expr a => b.eval a

def compare : CmpOperator → V → V → EStateM ε σ V
  | .rich operator, v, w => b.rich operator v w
  | .is negated, v, w => do
    let t ← b.identical v w
    pure (b.bool (negated ^^ t))
  | .contains negated, v, w => do
    let t ← b.contains v w
    pure (b.bool (negated ^^ t))

/-- The rest of a chain, after a comparison with the result `r` and the right operand `v`. -/
def tail (r v : V) : List (Link A C) → EStateM ε σ V
  | [] => pure r
  | link :: links => do
    let t ← b.truth r
    if t then
      let w ← b.operand link.operand2
      let r' ← b.compare link.operator v w
      tail r' w links
    else pure r

def chain (operand1 : Operand A C) (first : Link A C) (cascade : List (Link A C)) :
    EStateM ε σ V := do
  let v ← b.operand operand1
  let w ← b.operand first.operand2
  let r ← b.compare first.operator v w
  b.tail r w cascade

/-- The left operand of an `and`, before `next`. -/
def test (x next : EStateM ε σ V) : EStateM ε σ V := do
  let v ← x
  let t ← b.truth v
  if t then next else pure v

end Behaviour

/-- The evaluation of a tree, and of a tree that comes before `next` in an `and`: an `and` in
    an `and` does not test its result again (`BoolBinopNode.generate_bool_evaluation_code`). -/
def Node.evalThen (b : Behaviour A C V ε σ) : Node A C → Option (EStateM ε σ V) → EStateM ε σ V
  | .and operand1 operand2, next => operand1.evalThen b (some (operand2.evalThen b next))
  | .bool value, none => pure (b.bool value)
  | .bool value, some next => b.test (pure (b.bool value)) next
  | .primaryCmp operand1 first cascade, none => b.chain operand1 first cascade
  | .primaryCmp operand1 first cascade, some next => b.test (b.chain operand1 first cascade) next
  | .not operand, none => do
    let v ← operand.evalThen b none
    let t ← b.truth v
    pure (b.bool !t)
  | .not operand, some next => b.test (do
    let v ← operand.evalThen b none
    let t ← b.truth v
    pure (b.bool !t)) next

def Node.eval (b : Behaviour A C V ε σ) (node : Node A C) : EStateM ε σ V := node.evalThen b none

/-! ## The links of a cascade, and what comes after it -/

/-- The links that are appended to a cascade. -/
def undecided : List (Link A C × Option Bool) → List (Link A C)
  | [] => []
  | (link, none) :: rest => link :: undecided rest
  | (_, some _) :: _ => []

/-- The nodes from a cascade on. -/
def nodesFrom (last : Cascade A C) : List (Link A C × Option Bool) → List (Node A C)
  | [] => last.node
  | (_, some false) :: _ => last.node ++ [.bool false]
  | (link, some true) :: rest => last.node ++ nodesFrom ⟨link.operand2, []⟩ rest
  | (link, none) :: rest => nodesFrom (last.append link) rest

/-- The nodes after a cascade. -/
def after : List (Link A C × Option Bool) → List (Node A C)
  | [] => []
  | (_, some false) :: _ => [.bool false]
  | (link, some true) :: rest => nodesFrom ⟨link.operand2, []⟩ rest
  | (_, none) :: rest => after rest

/-- All that is left is true. -/
def allTrue (results : List (Link A C × Option Bool)) : Bool :=
  results.all fun result => result.2 == some true

/-- No node comes after the cascade. -/
def closes : List (Link A C × Option Bool) → Bool
  | [] => true
  | (_, some false) :: _ => false
  | (_, some true) :: rest => allTrue rest
  | (_, none) :: rest => closes rest

/-- What may follow a rich comparison that is not decided: its result is not tested twice, and
    it is not the value of the chain if links that are true follow. -/
def safeBefore : List (Link A C × Option Bool) → Bool
  | [] => true
  | (_, some false) :: _ => true
  | (_, some true) :: rest => !allTrue rest
  | (_, none) :: rest => closes rest

/-- The results for which the chain is kept. -/
def keeps : List (Link A C × Option Bool) → Bool
  | [] => true
  | (_, some false) :: _ => true
  | (_, some true) :: rest => keeps rest
  | (link, none) :: rest => (!link.operator.isRich || safeBefore rest) && keeps rest

theorem cmpNodes_collect (cascades : List (Cascade A C)) (last : Cascade A C)
    (results : List (Link A C × Option Bool)) :
    cmpNodes (collect cascades last results) =
      cascades.flatMap Cascade.node ++ nodesFrom last results := by
  induction results generalizing cascades last with
  | nil => simp [collect, cmpNodes, nodesFrom]
  | cons result rest ih =>
    obtain ⟨link, _ | _ | _⟩ := result
    · exact ih cascades (last.append link)
    · simp [collect, cmpNodes, nodesFrom]
    · rw [collect, ih, nodesFrom]
      simp

theorem nodesFrom_eq (last : Cascade A C) (results : List (Link A C × Option Bool)) :
    nodesFrom last results =
      Cascade.node { last with links := last.links ++ undecided results } ++ after results := by
  induction results generalizing last with
  | nil => simp [nodesFrom, undecided, after]
  | cons result rest ih =>
    obtain ⟨link, _ | _ | _⟩ := result
    · rw [nodesFrom, ih]
      simp [Cascade.append, undecided, after]
    · simp [nodesFrom, undecided, after]
    · simp [nodesFrom, undecided, after]

/-- The nodes of a chain in one tree. -/
def treeOf : List (Node A C) → Node A C
  | [] => .bool true
  | node :: nodes => nodes.foldl .and node

theorem visitPrimaryCmpNode_eq (ct : CompileTime C) (operand1 : Operand A C) (first : Link A C)
    (cascade : List (Link A C)) : visitPrimaryCmpNode ct operand1 first cascade =
      treeOf (nodesFrom ⟨operand1, []⟩ (linkResults ct operand1 (first :: cascade))) := by
  cases cascade with
  | nil =>
    rw [visitPrimaryCmpNode, linkResults, linkResults]
    cases linkResult ct operand1 first with
    | none => rfl
    | some t => cases t <;> rfl
  | cons link links =>
    have hnodes := cmpNodes_collect [] ⟨operand1, []⟩
      (linkResults ct operand1 (first :: link :: links))
    rw [List.flatMap_nil, List.nil_append] at hnodes
    simp only [visitPrimaryCmpNode, hnodes]
    rfl

theorem nodesFrom_eq_nil_iff (operand1 : Operand A C) (results : List (Link A C × Option Bool)) :
    nodesFrom ⟨operand1, []⟩ results = [] ↔ allTrue results = true := by
  induction results generalizing operand1 with
  | nil => simp [nodesFrom, Cascade.node, allTrue]
  | cons result rest ih =>
    obtain ⟨link, _ | _ | _⟩ := result
    · rw [nodesFrom_eq]
      simp [undecided, Cascade.node, allTrue]
    · simp [nodesFrom, allTrue]
    · have hrest := ih link.operand2
      simp only [nodesFrom, Cascade.node, List.nil_append, hrest]
      simp [allTrue]

theorem after_eq_nil_iff (results : List (Link A C × Option Bool)) :
    after results = [] ↔ closes results = true := by
  induction results with
  | nil => simp [after, closes]
  | cons result rest ih =>
    obtain ⟨link, _ | _ | _⟩ := result
    · exact ih
    · simp [after, closes]
    · exact nodesFrom_eq_nil_iff link.operand2 rest

/-! ## Evaluation of the nodes -/

section

variable {b : Behaviour A C V ε σ}

/-- The nodes one after the other. -/
def evalNodes (b : Behaviour A C V ε σ) : List (Node A C) → EStateM ε σ V
  | [] => pure (b.bool true)
  | [node] => node.evalThen b none
  | node :: node' :: nodes => node.evalThen b (some (evalNodes b (node' :: nodes)))

/-- The nodes after a node with the value `r`. -/
def evalAfter (b : Behaviour A C V ε σ) (r : V) (nodes : List (Node A C)) : EStateM ε σ V :=
  if nodes.isEmpty then pure r else b.test (pure r) (evalNodes b nodes)

theorem eval_foldl (node : Node A C) (nodes : List (Node A C)) :
    (nodes.foldl .and node).eval b = evalNodes b (node :: nodes) := by
  induction nodes generalizing node with
  | nil => rfl
  | cons node' nodes ih =>
    rw [List.foldl_cons, ih]
    cases nodes <;> rfl

theorem eval_treeOf (nodes : List (Node A C)) : (treeOf nodes).eval b = evalNodes b nodes := by
  cases nodes with
  | nil => rfl
  | cons node nodes => exact eval_foldl node nodes

theorem evalNodes_cons (operand1 : Operand A C) (first : Link A C) (cascade : List (Link A C))
    (nodes : List (Node A C)) :
    evalNodes b (.primaryCmp operand1 first cascade :: nodes) =
      b.chain operand1 first cascade >>= fun r => evalAfter b r nodes := by
  cases nodes with
  | nil =>
    simp only [evalAfter, List.isEmpty_nil, if_true, bind_pure]
    rfl
  | cons node nodes =>
    simp only [evalAfter, List.isEmpty_cons, Bool.false_eq_true, if_false, Behaviour.test,
      pure_bind]
    rfl

end

end AHPy.ConstantFolding
