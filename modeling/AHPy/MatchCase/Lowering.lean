import AHPy.MatchCase.Patterns

/-!
# The code of `match` statements

The code that is built for a pattern in two halves: an expression that tells whether it
matches (`getComparisonNode`), which leaves the objects it has looked at in temporaries, and
assignments to the targets (`createTargetAssignments`), which read them. The temporaries of a
pattern are named by its place in the pattern of the case.

* `Test`, `Stmt`: the code, and its runs, which may read temporaries that were never set;
* `refactorCases`: cases that become clauses of an `if` statement;
* `runMatch`: the code of a statement.
-/

namespace AHPy.MatchCase

/-! ## Code -/

/-- The place of a pattern, from the inside: alternatives have numbers from 1, items from 0. -/
abbrev Path := List ℕ

/-- The expression of a subject. -/
inductive Subject
  /-- the subject of the statement -/
  | root
  /-- an element of `subject_temps` -/
  | temp (p : Path)
  /-- a `ResultRefNode` -/
  | ref (p : Path)

/-- `get_index_from_int`: a number, or the `length_temp` less a number -/
inductive Index
  | fromStart (i : ℕ)
  | fromEnd (i : ℕ)

/-- `make_indexing_node`, of the sequence pattern at a place -/
inductive ItemNode
  | index (base : Subject) (p : Path) (i : Index)
  /-- `SliceToListNode` -/
  | slice (base : Subject) (p : Path) (start stop : Option Index)

mutual

/-- The expression of a comparison. -/
inductive Test (Obj V : Type)
  /-- `BoolNode` -/
  | bool (b : Bool)
  /-- `MatchValuePrimaryCmpNode`, with `==` -/
  | equals (s : Subject) (v : V)
  /-- `MatchValuePrimaryCmpNode`, with `is` -/
  | is (s : Subject) (o : Obj)
  /-- `__Pyx_MatchCase_IsSequence` -/
  | isSequence (s : Subject)
  /-- the comparison of `len(…)`, which may be assigned to the `length_temp` -/
  | length (s : Subject) (lengthTemp : Option Path) (exact : Bool) (n : ℕ)
  /-- `TempResultFromStatNode`: an assignment to a subject, and the test of it -/
  | letSubject (p : Path) (item : ItemNode) (t : Test Obj V)
  | and (a b : Test Obj V)
  | or (a b : Test Obj V)
  /-- the truth of an integer, which may be assigned to the `which_alternative_temp` -/
  | which (temp : Option Path) (e : IntExpr Obj V)

/-- The number of an alternative. -/
inductive IntExpr (Obj V : Type)
  | const (n : ℕ)
  /-- `CondExprNode`, with 0 for a test that fails -/
  | cond (t : Test Obj V) (n : ℕ)
  | or (a b : IntExpr Obj V)

end

/-- The assignments to targets. -/
inductive Stmt (Obj V : Type)
  | skip
  | assign (x : Name) (s : Subject)
  | assignValue (x : Name) (v : ValueNode Obj V)
  | seq (a b : Stmt Obj V)
  /-- a clause of an `IfStatNode` that compares the `which_alternative_temp` -/
  | ifWhich (p : Path) (n : ℕ) (body rest : Stmt Obj V)
  /-- `LetNode` -/
  | letRef (p : Path) (item : ItemNode) (body : Stmt Obj V)

variable {Obj V ε ω : Type}

/-! ## Comparisons -/

/-- `generate_binop_tree_from_list` -/
def binopTree {α : Type} (op : α → α → α) (default : α) : List α → α
  | [] => default
  | [a] => a
  | a :: b :: l =>
    let split := (l.length + 2) / 2
    op (binopTree op default ((a :: b :: l).take split))
      (binopTree op default ((a :: b :: l).drop split))
termination_by l => l.length
decreasing_by
  all_goals simp
  all_goals omega

/-- `isinstance(test, BoolNode) and test.value` -/
def Test.isTrue : Test Obj V → Bool
  | .bool b => b
  | _ => false

namespace PatternNode

mutual

/-- `is_simple_value_comparison` -/
def isSimpleValueComparison : PatternNode Obj V → Bool
  | value _ _ => true
  | assign _ _ _ => true
  | or alternatives _ => areReallySimple alternatives
  | sequence _ _ => false

/-- `is_really_simple_value_comparison`, of all alternatives -/
def areReallySimple : List (PatternNode Obj V) → Bool
  | [] => true
  | a :: as => (a.isSimpleValueComparison && a.getTargets.isEmpty) && areReallySimple as

end

/-- The comparison with a value. -/
def valueTest (s : Subject) : ValueNode Obj V → Test Obj V
  | .constant o => .is s o
  | .expression v _ => .equals s v

mutual

/-- `get_simple_comparison_node` -/
def getSimpleComparisonNode : PatternNode Obj V → Subject → Test Obj V
  | value v _, s => valueTest s v
  | assign _ _ _, _ => .bool true
  | or alternatives _, s => binopTree .or (.bool false) (simpleChecks alternatives s)
  | sequence _ _, _ => .bool false

/-- The checks of alternatives, up to one that is always true. -/
def simpleChecks : List (PatternNode Obj V) → Subject → List (Test Obj V)
  | [], _ => []
  | a :: as, s =>
    let check := getSimpleComparisonNode a s
    if check.isTrue then [check] else check :: simpleChecks as s

end

/-- `generate_subjects`: the item of the pattern `n`. -/
def itemNode (patterns : List (PatternNode Obj V)) (base : Subject) (p : Path) (n : ℕ) : ItemNode :=
  match starIndex patterns with
  | none => .index base p (.fromStart n)
  | some star =>
    if n < star then .index base p (.fromStart n)
    else if n = star then
      .slice base p (if star = 0 then none else some (.fromStart star))
        (if patterns.length - 1 = star then none
          else some (.fromEnd (patterns.length - 1 - star)))
    else .index base p (.fromEnd (patterns.length - n))

/-- The assignments of `as` targets: of the value itself, if it is simple. -/
def asAssignments (pattern : PatternNode Obj V) (s : Subject) : List (Stmt Obj V) :=
  pattern.asTargets.map fun x =>
    match pattern with
    | value (.constant o) _ => .assignValue x (.constant o)
    | value (.expression v true) _ => .assignValue x (.expression v true)
    | _ => .assign x s

/-- `StatListNode`; none, if there are no statements. -/
def statList : List (Stmt Obj V) → Option (Stmt Obj V)
  | [] => none
  | s :: ss => some (ss.foldl .seq s)

mutual

/-- `create_target_assignments` -/
def createTargetAssignments : PatternNode Obj V → Subject → Path → Option (Stmt Obj V)
  | value v asTargets, s, _ => statList (asAssignments (value v asTargets) s)
  | assign target isStar asTargets, s, _ =>
    statList (asAssignments (assign target isStar asTargets) s ++
      target.toList.map fun x => .assign x s)
  | or alternatives asTargets, s, p =>
    statList (asAssignments (or alternatives asTargets) s ++
      (createAlternatives alternatives s p 1).toList)
  | sequence patterns asTargets, s, p =>
    statList (asAssignments (sequence patterns asTargets) s ++
      createItems patterns (itemNode patterns s p) p 0)

/-- The clauses for the alternatives from number `n` on. -/
def createAlternatives : List (PatternNode Obj V) → Subject → Path → ℕ → Option (Stmt Obj V)
  | [], _, _, _ => none
  | a :: as, s, p, n =>
    match createTargetAssignments a s (n :: p) with
    | none => createAlternatives as s p (n + 1)
    | some body => some (.ifWhich p n body ((createAlternatives as s p (n + 1)).getD .skip))

/-- The assignments for the items from position `n` on. -/
def createItems : List (PatternNode Obj V) → (ℕ → ItemNode) → Path → ℕ → List (Stmt Obj V)
  | [], _, _, _ => []
  | a :: as, item, p, n =>
    (if a.isIrrefutable then
      if a.getTargets = [] then []
      else ((createTargetAssignments a (.ref (n :: p)) (n :: p)).map
        (.letRef (n :: p) (item n))).toList
    else (createTargetAssignments a (.temp (n :: p)) (n :: p)).toList) ++
      createItems as item p (n + 1)

end

/-- The temporary of the alternatives, if one of them has assignments. -/
def whichAlternativeTemp (alternatives : List (PatternNode Obj V)) (s : Subject) (p : Path) :
    Option Path :=
  (createAlternatives alternatives s p 1).map fun _ => p

mutual

/-- `get_comparison_node` -/
def getComparisonNode : PatternNode Obj V → Subject → Path → Test Obj V
  | value v _, s, _ => valueTest s v
  | assign _ _ _, _, _ => .bool true
  | or alternatives asTargets, s, p =>
    if areReallySimple alternatives then getSimpleComparisonNode (or alternatives asTargets) s
    else .which (whichAlternativeTemp alternatives s p)
      (binopTree .or (.const 0) (conditions alternatives s p 1))
  | sequence patterns _, s, p =>
    binopTree .and (.bool true) (.isSequence s ::
      lengthTests patterns s p ++ patternTests patterns (itemNode patterns s p) p 0)

/-- The test of the length, but for a single star. -/
def lengthTests (patterns : List (PatternNode Obj V)) (s : Subject) (p : Path) :
    List (Test Obj V) :=
  match starIndex patterns with
  | none => [.length s none true patterns.length]
  | some _ =>
    if patterns.length = 1 then [] else [.length s (some p) false (patterns.length - 1)]

/-- The numbers of the alternatives from number `n` on, up to one that is always true. -/
def conditions : List (PatternNode Obj V) → Subject → Path → ℕ → List (IntExpr Obj V)
  | [], _, _, _ => []
  | a :: as, s, p, n =>
    match getComparisonNode a s (n :: p) with
    | .bool true => [.const n]
    | .bool false => .const 0 :: conditions as s p (n + 1)
    | t => .cond t n :: conditions as s p (n + 1)

/-- The tests of the items from position `n` on, but for irrefutable ones. -/
def patternTests : List (PatternNode Obj V) → (ℕ → ItemNode) → Path → ℕ → List (Test Obj V)
  | [], _, _, _ => []
  | a :: as, item, p, n =>
    (if a.isIrrefutable then []
    else [.letSubject (n :: p) (item n) (getComparisonNode a (.temp (n :: p)) (n :: p))]) ++
      patternTests as item p (n + 1)

end

end PatternNode

/-! ## Runs of code -/

/-- The temporaries that are set. -/
structure Temps (Obj : Type) where
  subjects : Path → Option Obj
  refs : Path → Option Obj
  lengths : Path → Option ℕ
  which : Path → Option ℕ

/-- No temporary is set. -/
def Temps.unset : Temps Obj := ⟨fun _ => none, fun _ => none, fun _ => none, fun _ => none⟩

/-- A run of C code, which has no result if it reads what is not set or not there. -/
def Code (Obj ε ω α : Type) := Temps Obj → ω → Option (Except ε (α × Temps Obj) × ω)

namespace Code

variable {α β : Type}

instance : Monad (Code Obj ε ω) where
  pure a := fun T w => some (.ok (a, T), w)
  bind x f := fun T w =>
    match x T w with
    | none => none
    | some (.ok (a, T'), w') => f a T' w'
    | some (.error e, w') => some (.error e, w')

/-- A run of Python code. -/
def lift (x : Run ε ω α) : Code Obj ε ω α := fun T w =>
  match x w with
  | (.ok a, w') => some (.ok (a, T), w')
  | (.error e, w') => some (.error e, w')

/-- What the temporaries give. -/
def read (f : Temps Obj → Option α) : Code Obj ε ω α := fun T w =>
  (f T).map fun a => (.ok (a, T), w)

def modify (f : Temps Obj → Temps Obj) : Code Obj ε ω Unit := fun T w => some (.ok ((), f T), w)

end Code

/-- The object of a subject. -/
def Subject.get (root : Obj) (T : Temps Obj) : Subject → Option Obj
  | .root => some root
  | .temp p => T.subjects p
  | .ref p => T.refs p

/-- The value of an index. -/
def Index.get (T : Temps Obj) (p : Path) : Index → Option ℕ
  | .fromStart i => some i
  | .fromEnd i => (T.lengths p).bind fun n => if i ≤ n then some (n - i) else none

/-- The object of an item, which must be there: bounds are not checked. -/
def ItemNode.get (rt : Runtime Obj V ε ω) (root : Obj) (T : Temps Obj) : ItemNode → Option Obj
  | .index base p i => do
    let xs ← (base.get root T).bind rt.items
    let i ← i.get T p
    xs[i]?
  | .slice base p start stop => do
    let xs ← (base.get root T).bind rt.items
    let start ← start.elim (some 0) (Index.get T p)
    let stop ← stop.elim (some xs.length) (Index.get T p)
    some (rt.list ((xs.take stop).drop start))

def Temps.setSubject (p : Path) (o : Obj) (T : Temps Obj) : Temps Obj :=
  { T with subjects := Function.update T.subjects p (some o) }

def Temps.setRef (p : Path) (o : Obj) (T : Temps Obj) : Temps Obj :=
  { T with refs := Function.update T.refs p (some o) }

def Temps.setLength (p : Option Path) (n : ℕ) (T : Temps Obj) : Temps Obj :=
  p.elim T fun p => { T with lengths := Function.update T.lengths p (some n) }

def Temps.setWhich (p : Option Path) (n : ℕ) (T : Temps Obj) : Temps Obj :=
  p.elim T fun p => { T with which := Function.update T.which p (some n) }

variable [DecidableEq Obj] (rt : Runtime Obj V ε ω) (root : Obj)

mutual

/-- A comparison. -/
def Test.eval : Test Obj V → Code Obj ε ω Bool
  | .bool b => pure b
  | .equals s v => do
    let o ← Code.read fun T => s.get root T
    Code.lift (rt.equals v o)
  | .is s c => do
    let o ← Code.read fun T => s.get root T
    pure (decide (o = c))
  | .isSequence s => do
    let o ← Code.read fun T => s.get root T
    pure (rt.items o).isSome
  | .length s lengthTemp exact n => do
    let xs ← Code.read fun T => (s.get root T).bind rt.items
    Code.modify (.setLength lengthTemp xs.length)
    pure (if exact then decide (xs.length = n) else decide (n ≤ xs.length))
  | .letSubject p item t => do
    let x ← Code.read fun T => item.get rt root T
    Code.modify (.setSubject p x)
    t.eval
  | .and a b => do if ← a.eval then b.eval else pure false
  | .or a b => do if ← a.eval then pure true else b.eval
  | .which temp e => do
    let n ← e.eval
    Code.modify (.setWhich temp n)
    pure (decide (n ≠ 0))

/-- The number of an alternative, or 0. -/
def IntExpr.eval : IntExpr Obj V → Code Obj ε ω ℕ
  | .const n => pure n
  | .cond t n => do if ← t.eval then pure n else pure 0
  | .or a b => do
    let n ← a.eval
    if n ≠ 0 then pure n else b.eval

end

/-- The value of a value pattern, evaluated again. -/
def ValueNode.eval : ValueNode Obj V → Run ε ω Obj
  | .constant o => pure o
  | .expression v _ => rt.evaluate v

/-- Assignments. -/
def Stmt.exec : Stmt Obj V → Env Obj → Code Obj ε ω (Env Obj)
  | .skip, env => pure env
  | .assign x s, env => do
    let o ← Code.read fun T => s.get root T
    pure (Function.update env x (some o))
  | .assignValue x v, env => do
    let o ← Code.lift (v.eval rt)
    pure (Function.update env x (some o))
  | .seq a b, env => do
    let env ← a.exec env
    b.exec env
  | .ifWhich p n body rest, env => do
    let k ← Code.read fun T => T.which p
    if k = n then body.exec env else rest.exec env
  | .letRef p item body, env => do
    let x ← Code.read fun T => item.get rt root T
    Code.modify (.setRef p x)
    body.exec env

/-- Assignments, if there are any. -/
def execAssignments (assignments : Option (Stmt Obj V)) (env : Env Obj) : Code Obj ε ω (Env Obj) :=
  assignments.elim (pure env) fun s => s.exec rt root env

/-! ## Statements -/

/-- A clause of an `if` statement: its condition, the assignments, and the case of its body. -/
structure IfClause (Obj V : Type) where
  condition : Test Obj V
  assignments : Option (Stmt Obj V)
  number : ℕ

/-- The cases after `refactor_cases`. -/
inductive NewCase (Obj V ε ω : Type)
  /-- `SubstitutedMatchCaseNode` -/
  | ifStat (clauses : List (IfClause Obj V))
  | case (number : ℕ) (c : MatchCaseNode Obj V ε ω)

/-- `MatchCaseNode.is_simple_value_comparison` -/
def MatchCaseNode.isSimpleValueComparison (c : MatchCaseNode Obj V ε ω) : Bool :=
  c.guard.isNone && c.pattern.isSimpleValueComparison

/-- The `if` statement of the clauses so far, if there are any. -/
def closeIf (clauses : List (IfClause Obj V)) : List (NewCase Obj V ε ω) :=
  if clauses = [] then [] else [.ifStat clauses]

/-- The loop of `refactor_cases`, with the clauses of the current `if` statement. -/
def refactorLoop : List (MatchCaseNode Obj V ε ω) → ℕ → List (IfClause Obj V) →
    List (NewCase Obj V ε ω)
  | [], _, clauses => closeIf clauses
  | c :: cs, n, clauses =>
    if c.isSimpleValueComparison then
      refactorLoop cs (n + 1) (clauses ++ [⟨c.pattern.getSimpleComparisonNode .root,
        c.pattern.createTargetAssignments .root [], n⟩])
    else closeIf clauses ++ .case n c :: refactorLoop cs (n + 1) []

/-- `refactor_cases` -/
def refactorCases (cs : List (MatchCaseNode Obj V ε ω)) : List (NewCase Obj V ε ω) :=
  refactorLoop cs 0 []

/-- The clauses of an `if` statement: the case of the body that runs, if any. -/
def runClauses : List (IfClause Obj V) → Env Obj → Code Obj ε ω (Option ℕ × Env Obj)
  | [], env => pure (none, env)
  | c :: cs, env => do
    if ← c.condition.eval rt root then
      let env ← execAssignments rt root c.assignments env
      pure (some c.number, env)
    else runClauses cs env

/-- `MatchCaseNode.generate_execution_code` -/
def runCase (n : ℕ) (c : MatchCaseNode Obj V ε ω) (env : Env Obj) :
    Code Obj ε ω (Option ℕ × Env Obj) := do
  if ← (c.pattern.getComparisonNode .root []).eval rt root then
    let env ← execAssignments rt root (c.pattern.createTargetAssignments .root []) env
    let (holds, env) ← Code.lift (runGuard c.guard env)
    pure (if holds then some n else none, env)
  else pure (none, env)

/-- `MatchNode.generate_execution_code` -/
def runMatch : List (NewCase Obj V ε ω) → Env Obj → Code Obj ε ω (Option ℕ × Env Obj)
  | [], env => pure (none, env)
  | c :: cs, env => do
    let (r, env) ← match c with
      | .ifStat clauses => runClauses rt root clauses env
      | .case n c => runCase rt root n c env
    match r with
    | some n => pure (some n, env)
    | none => runMatch cs env

end AHPy.MatchCase
