import AHPy.Lib.CInteger

/-!
# The switch transform

`if` statements, conditional expressions, boolean expressions and comparisons
that test one C integer variable against constants become C `switch`
statements. The conditions are flattened into a polarity, the variable and the
constants (`extractConditions`), from which the switch is built
(`visitIfStatNode`, `visitCondExprNode`, `visitBoolBinopNode`,
`visitPrimaryCmpNode`).

The conditions have the truth value their C code computes (`Cond.eval`): an
equality converts both operands to a common type, and a test for a character of
a string literal converts its operand to a character first. A switch converts
its labels to the promoted type of its operand instead, and is not valid C if
two labels are the same (`Switch.run`).
-/

namespace AHPy

/-! ## Operands -/

/-- The type of an operand, as far as the transform looks at it. -/
inductive OperandType where
  | int (t : CIntType)
  | enum (t : CIntType)
  | other

/-- The C integer type, if the operand has one. -/
def OperandType.cType : OperandType → Option CIntType
  | int t | enum t => some t
  | other => none

def OperandType.isInt : OperandType → Bool
  | int _ => true
  | _ => false

def OperandType.isEnum : OperandType → Bool
  | enum _ => true
  | _ => false

/-- A variable or an attribute of one. -/
inductive Path where
  | name (name : String)
  | attr (obj : Path) (name : String)

/-- What is known of a variable: its type, its name in C, and its value if it
    is constant. -/
structure Entry where
  type : OperandType
  cname : String
  isConst : Option ℤ
  enumIntValue : Option ℤ
  /-- The value of a constant is one of its type. -/
  inRange_const : ∀ v ∈ isConst, ∀ t ∈ type.cType, t.InRange v

/-- The variables in scope, the signedness of `char`, and whether the transform is enabled. -/
structure Scope where
  entry : Path → Entry
  isPyAttr : Path → Bool
  charSigned : Bool
  useSwitch : Bool

/-- The values of the variables. -/
abbrev Env := Path → ℤ

/-- The values are of the types of the variables, and those of the constants. -/
structure Scope.Valid (Γ : Scope) (env : Env) : Prop where
  inRange : ∀ p, ∀ t ∈ (Γ.entry p).type.cType, t.InRange (env p)
  const : ∀ p, ∀ v ∈ (Γ.entry p).isConst, env p = v

/-- A string literal: its code points, or its bytes. -/
inductive StringLiteral where
  | unicode (value : List (Fin 0x110000))
  | bytes (value : List (Fin 256))

/-- The constant results of literals, as Python compares them. -/
inductive PyConst where
  | int (value : ℤ)
  | byte (value : Fin 256)
  deriving DecidableEq

/-- The operands of comparisons. -/
inductive Operand where
  | name (name : String)
  | attr (obj : Operand) (name : String)
  | resultRef (expression : Operand)
  | literal (value : ℤ) (type : OperandType) (constantResult : Option PyConst)
  | string (value : StringLiteral)
  | other (value : Env → ℤ) (type : OperandType)

namespace Operand

/-- Strip references to the results of other expressions. -/
def unwrapNode : Operand → Operand
  | resultRef expression => expression.unwrapNode
  | o => o

/-- The variable an operand names, if any. -/
def path : Operand → Option Path
  | name n => some (.name n)
  | attr obj n => obj.path.map (.attr · n)
  | resultRef expression => expression.path
  | _ => none

variable (Γ : Scope)

def type (o : Operand) : OperandType :=
  match o.path with
  | some p => (Γ.entry p).type
  | none => typeOf o
where
  /-- The type of an operand that names no variable. -/
  typeOf : Operand → OperandType
    | literal _ t _ | other _ t => t
    | resultRef expression => typeOf expression
    | _ => .other

/-- The value of an operand. -/
def value (env : Env) (o : Operand) : ℤ :=
  match o.path with
  | some p => env p
  | none => valueOf o
where
  /-- The value of an operand that names no variable, as one of its type. -/
  valueOf : Operand → ℤ
    | literal v t _ => wrap t v
    | other f t => wrap t (f env)
    | resultRef expression => valueOf expression
    | _ => 0
  wrap (t : OperandType) (v : ℤ) : ℤ :=
    match t.cType with
    | some t => t.convert v
    | none => v

def isLiteral : Operand → Bool
  | literal .. | string _ => true
  | _ => false

/-- The entry of an operand, if it has one. -/
def entry (o : Operand) : Option Entry := o.path.map Γ.entry

def hasConstEntry (o : Operand) : Bool :=
  match o.entry Γ with
  | some e => e.isConst.isSome
  | none => false

/-- The value of a constant operand. -/
def constValue (o : Operand) : ℤ :=
  match o.entry Γ with
  | some e => e.isConst.getD 0
  | none => value.valueOf (fun _ => 0) o

end Operand

/-! ## Conditions -/

/-- The operators of comparisons. -/
inductive CmpOp where
  | eq
  | ne
  | in_
  | notIn
  | other (truth : ℤ → ℤ → Bool)

inductive BoolOp where
  | and
  | or
  deriving DecidableEq

/-- The conditions the transform looks into, and all others. A comparison may
    be cascaded, and may compare Python objects. -/
inductive Cond where
  | coerceToTemp (arg : Cond)
  | coerceToBoolean (arg : Cond)
  | boolBinopResult (arg : Cond)
  | evalWithTemp (subexpression : Cond)
  | typecast (operand : Cond)
  | primaryCmp (operator : CmpOp) (operand1 operand2 : Operand) (cascade : Option (Env → Bool))
    (isPythonComparison : Bool)
  | boolBinop (operator : BoolOp) (operand1 operand2 : Cond)
  | other (truth : Env → Bool)

/-- `a == b`, as C compares operands of integer types. -/
def cmpEqual (t t' : OperandType) (a b : ℤ) : Bool :=
  match t.cType, t'.cType with
  | some t, some t' => CIntType.Equal t t' a b
  | _, _ => a == b

/-- The type `Py_UCS4` of code points. -/
def ucs4 : CIntType := .unsignedInt

/-- `x in literal`, for an integer `x`, which is converted to a character first. -/
def StringLiteral.contains : StringLiteral → ℤ → Bool
  | unicode value, x => value.any fun c => ucs4.convert x == (c.val : ℤ)
  | bytes value, x => value.any fun b => CIntType.unsignedChar.convert x == (b.val : ℤ)

section Eval

variable (Γ : Scope) (env : Env)

/-- The truth value of a comparison, before it is cascaded. -/
def CmpOp.eval : CmpOp → Operand → Operand → Bool
  | eq, a, b => cmpEqual (a.type Γ) (b.type Γ) (a.value env) (b.value env)
  | ne, a, b => !cmpEqual (a.type Γ) (b.type Γ) (a.value env) (b.value env)
  | in_, a, .string s => s.contains (a.value env)
  | notIn, a, .string s => !s.contains (a.value env)
  | in_, _, _ => false
  | notIn, _, _ => true
  | other truth, a, b => truth (a.value env) (b.value env)

/-- The truth value of a condition. The wrappers do not change it. -/
def Cond.eval : Cond → Bool
  | coerceToTemp c | coerceToBoolean c | boolBinopResult c | evalWithTemp c | typecast c => c.eval
  | primaryCmp op a b cascade _ => op.eval Γ env a b && (cascade.map (· env)).getD true
  | boolBinop .and c c' => c.eval && c'.eval
  | boolBinop .or c c' => c.eval || c'.eval
  | other truth => truth env

end Eval

/-! ## Extraction -/

section Extraction

variable (Γ : Scope)

/-- Two operands name the same variable, and not an attribute of a Python object. -/
def isCommonValue : Operand → Operand → Bool
  | .resultRef e, b => isCommonValue e b
  | .name n, b =>
    match b.unwrapNode with
    | .name n' => n == n'
    | _ => false
  | .attr obj n, b =>
    match b.unwrapNode with
    | .attr obj' n' => !isPyAttr (.attr obj n) && isCommonValue obj obj' && n == n'
    | _ => false
  | _, _ => false
where
  /-- Attributes of anything but variables are not looked at. -/
  isPyAttr (o : Operand) : Bool :=
    match o.path with
    | some p => Γ.isPyAttr p
    | none => true

/-- The variable and the constant of a comparison, in either order. -/
def constantOperand (a b : Operand) : Option (Operand × Operand) :=
  if isCommonValue Γ a a && (b.isLiteral || b.hasConstEntry Γ) then some (a, b)
  else if isCommonValue Γ b b && (a.isLiteral || a.hasConstEntry Γ) then some (b, a)
  else none

/-- The node for a code point. -/
def intNode (c : Fin 0x110000) : Operand := .literal c.val (.int .int) (some (.int c.val))

/-- The node for a byte: a C character constant, of type `int`. -/
def charNode (b : Fin 256) : Operand :=
  .literal (if Γ.charSigned ∧ 128 ≤ b.val then b.val - 256 else b.val) (.int .int)
    (some (.byte b))

/-- The characters of a string, without duplicates and in order. -/
def extractInStringConditions : StringLiteral → List Operand
  | .unicode value => (value.dedup.insertionSort (· ≤ ·)).map intNode
  | .bytes value => (value.dedup.insertionSort (· ≤ ·)).map (charNode Γ)

/-- The polarity, the variable and the constants of a condition, if it compares
    one variable with constants only. -/
def extractConditions : Cond → Bool → Option (Bool × Operand × List Operand)
  | .coerceToTemp c, allowNotIn | .coerceToBoolean c, allowNotIn
  | .boolBinopResult c, allowNotIn | .evalWithTemp c, allowNotIn
  | .typecast c, allowNotIn => extractConditions c allowNotIn
  | .primaryCmp op operand1 operand2 cascade isPythonComparison, allowNotIn =>
    if cascade.isSome then none
    else
      match op, (operand1.type Γ).isInt, operand2 with
      | .in_, true, .string s => some (false, operand1, extractInStringConditions Γ s)
      | .notIn, true, .string s =>
        if allowNotIn then some (true, operand1, extractInStringConditions Γ s) else none
      | op, _, operand2 =>
        if isPythonComparison then none
        else
          match op with
          | .eq => (constantOperand Γ operand1 operand2).map fun (x, c) => (false, x, [c])
          | .ne =>
            if allowNotIn then
              (constantOperand Γ operand1 operand2).map fun (x, c) => (true, x, [c])
            else none
          | _ => none
  | .boolBinop op operand1 operand2, allowNotIn =>
    if op = .or ∨ allowNotIn ∧ op = .and then
      let allowNotIn := decide (op = .and)
      match extractConditions operand1 allowNotIn, extractConditions operand2 allowNotIn with
      | some (notIn1, t1, c1), some (notIn2, t2, c2) =>
        if notIn1 = notIn2 ∧ isCommonValue Γ t1 t2 ∧ (!notIn1 || allowNotIn) then
          some (notIn1, t1, c1 ++ c2)
        else none
      | _, _ => none
    else none
  | .other _, _ => none

/-- Extract the conditions on a variable, which has to be `commonVar` if given,
    and to be of an integer type like the constants. -/
def extractCommonConditions (commonVar : Option Operand) (condition : Cond) (allowNotIn : Bool) :
    Option (Bool × Operand × List Operand) :=
  match extractConditions Γ condition allowNotIn with
  | none => none
  | some (notIn, var, conditions) =>
    if commonVar.any fun v => !isCommonValue Γ var v then none
    else if ((var.type Γ).isInt || (var.type Γ).isEnum) &&
        conditions.all fun c => (c.type Γ).isInt || (c.type Γ).isEnum then
      some (notIn, var, conditions)
    else none

/-- What `hasDuplicateValues` remembers of a constant. -/
inductive SeenKey where
  | const (value : PyConst)
  | cname (name : String)
  deriving DecidableEq

/-- The key of a constant: its value, or its name in C if the value is not known. -/
def seenKey : Operand → Option SeenKey
  | .literal _ _ (some r) => some (.const r)
  | o =>
    match o.entry Γ with
    | some e =>
      match e.type, e.enumIntValue with
      | .enum _, some v => some (.const (.int v))
      | _, _ => some (.cname e.cname)
    | none => none

/-- Whether a constant occurs twice, or is not known well enough. -/
def hasDuplicateValues : List Operand → List SeenKey → Bool
  | [], _ => false
  | value :: values, seen =>
    match seenKey Γ value with
    | some key => if key ∈ seen then true else hasDuplicateValues values (key :: seen)
    | none => true

end Extraction

/-! ## Switches -/

/-- A case of a switch. -/
structure SwitchCase (α : Type) where
  conditions : List Operand
  body : α

/-- A C `switch` statement, with bodies in `α`. -/
structure Switch (α : Type) where
  test : Operand
  cases : List (SwitchCase α)
  elseClause : α

section Run

variable (Γ : Scope)

/-- The label of a constant: its value, converted to the promoted type of the test. -/
def label (t : OperandType) (c : Operand) : ℤ :=
  match t.cType with
  | some t => t.promote.convert (c.constValue Γ)
  | none => c.constValue Γ

/-- The labels of constants. -/
def labels (t : OperandType) (conditions : List Operand) : List ℤ := conditions.map (label Γ t)

/-- The body a switch takes. There is none if two labels are the same: it is
    not valid C then. -/
def Switch.run {α : Type} (sw : Switch α) (env : Env) : Option α :=
  if (sw.cases.flatMap fun c => labels Γ (sw.test.type Γ) c.conditions).Nodup then
    let taken := sw.cases.find? fun c =>
      sw.test.value env ∈ labels Γ (sw.test.type Γ) c.conditions
    some ((taken.map (·.body)).getD sw.elseClause)
  else none

/-! ## The visitor -/

/-- A switch with one case, taken if the truth value is `true` (or `false`, for `notIn`). -/
def buildSimpleSwitchStatement {α : Type} (commonVar : Operand) (conditions : List Operand)
    (notIn : Bool) (trueVal falseVal : α) : Switch α :=
  let (trueBody, falseBody) := if notIn then (falseVal, trueVal) else (trueVal, falseVal)
  { test := commonVar.unwrapNode
    cases := [⟨conditions, trueBody⟩]
    elseClause := falseBody }

/-- The switch for an expression whose value depends on a condition. -/
def visitCondition {α : Type} (condition : Cond) (trueVal falseVal : α) : Option (Switch α) :=
  if !Γ.useSwitch then none
  else
    match extractCommonConditions Γ none condition true with
    | none => none
    | some (notIn, commonVar, conditions) =>
      if conditions.length < 2 || hasDuplicateValues Γ conditions [] then none
      else some (buildSimpleSwitchStatement commonVar conditions notIn trueVal falseVal)

/-- `trueVal if condition else falseVal`. -/
def visitCondExprNode {α : Type} (condition : Cond) (trueVal falseVal : α) : Option (Switch α) :=
  visitCondition Γ condition trueVal falseVal

/-- `operand1 operator operand2`. -/
def visitBoolBinopNode (operator : BoolOp) (operand1 operand2 : Cond) : Option (Switch Bool) :=
  visitCondition Γ (.boolBinop operator operand1 operand2) true false

/-- A comparison. -/
def visitPrimaryCmpNode (operator : CmpOp) (operand1 operand2 : Operand)
    (cascade : Option (Env → Bool)) (isPythonComparison : Bool) : Option (Switch Bool) :=
  visitCondition Γ (.primaryCmp operator operand1 operand2 cascade isPythonComparison) true false

/-- A clause of an `if` statement. -/
structure IfClause (α : Type) where
  condition : Cond
  body : α

/-- The cases for clauses, all on `commonVar` if given, and their variable. -/
def ifCases {α : Type} (commonVar : Option Operand) :
    List (IfClause α) → Option (Option Operand × List (SwitchCase α))
  | [] => some (commonVar, [])
  | ifClause :: ifClauses =>
    match extractCommonConditions Γ commonVar ifClause.condition false with
    | none => none
    | some (_, var, conditions) =>
      match ifCases (some var) ifClauses with
      | none => none
      | some (var, cases) => some (var, ⟨conditions, ifClause.body⟩ :: cases)

/-- The switch for an `if` statement. -/
def visitIfStatNode {α : Type} (ifClauses : List (IfClause α)) (elseClause : α) :
    Option (Switch α) :=
  if !Γ.useSwitch then none
  else
    match ifCases Γ none ifClauses with
    | some (some commonVar, cases) =>
      let conditionValues := cases.flatMap (·.conditions)
      if conditionValues.length < 2 || hasDuplicateValues Γ conditionValues [] then none
      else some { test := commonVar.unwrapNode, cases := cases, elseClause := elseClause }
    | _ => none

/-- The body an `if` statement takes. -/
def evalIf {α : Type} (env : Env) (elseClause : α) : List (IfClause α) → α
  | [] => elseClause
  | ifClause :: ifClauses =>
    if ifClause.condition.eval Γ env then ifClause.body else evalIf env elseClause ifClauses

end Run

end AHPy
