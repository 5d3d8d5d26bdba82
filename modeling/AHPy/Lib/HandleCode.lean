import Mathlib

/-!
# C code over handles

A small imperative language for generated C code whose variables own resources:
handles, builders, argument trackers. A variable is *dead* (not yet declared,
closed, or moved from), *null*, or *live* with the object it denotes. Running
code can go wrong in three ways, all of which are the exit `Exit.fault`: a dead
variable is used, closed or moved; a live variable is overwritten (its resource
leaks); code jumps to a label that no enclosing statement has.

* `Code.exec`: the run of code on a machine, with fuel for the loops only.
-/

namespace AHPy.HandleCode

/-- What a C variable that owns a resource holds. -/
inductive Content (Obj : Type)
  | dead
  | null
  | live (o : Obj)

namespace Content

variable {Obj : Type}

/-- The object a variable denotes, if it denotes one. -/
def object : Content Obj → Option Obj
  | .live o => some o
  | _ => none

/-- The content of a variable that was assigned the result of a call, which is
    null when the call failed. -/
def ofResult : Option Obj → Content Obj
  | some o => .live o
  | none => .null

@[simp] theorem object_ofResult (r : Option Obj) : (ofResult r).object = r := by
  rcases r with _ | o <;> rfl

@[simp] theorem ofResult_ne_dead (r : Option Obj) : ofResult r ≠ .dead := by
  rcases r with _ | o <;> simp [ofResult]

end Content

/-- Operands of a runtime call. -/
inductive Arg (V : Type)
  | handle (x : V)
  | int (v : V)

/-- Values of operands. -/
inductive Value (Obj : Type)
  | handle (o : Option Obj)
  | int (i : Int)

/-- C integer expressions. -/
inductive IntExpr (V : Type)
  | lit (i : Int)
  | var (v : V)
  | add (a b : IntExpr V)
  | sub (a b : IntExpr V)

/-- C order relations between integers. -/
inductive Relation
  | lt
  | le
  | gt
  | ge

/-- Conditions of C statements; `call` and `fails` ask the runtime for a result
    that is not zero, or negative. -/
inductive Test (V Op : Type)
  | isNull (x : V)
  | notNull (x : V)
  | nonzero (e : IntExpr V)
  | zero (e : IntExpr V)
  | rel (r : Relation) (a b : IntExpr V)
  | call (op : Op) (args : List (Arg V))
  | fails (op : Op) (args : List (Arg V))
  | and (s t : Test V Op)
  | or (s t : Test V Op)
  | always

/-- The test `v < 0` of a status. -/
abbrev Test.negative {V Op : Type} (v : V) : Test V Op := .rel .lt (.var v) (.lit 0)

/-- C statements. `declares` says that the statement also declares the variable
    it assigns. A call gives up the variables `takes`, and closing a variable
    ends those that depend on it (`also`). -/
inductive Code (V Op : Type)
  | skip
  | seq (c d : Code V Op)
  | block (c : Code V Op)
  | call (declares : Bool) (x : V) (op : Op) (args : List (Arg V)) (takes : List V)
  | null (declares : Bool) (x : V)
  | move (x y : V)
  | close (x : V) (also : List V)
  | status (x : V) (op : Op) (args : List (Arg V))
  | set (declares : Bool) (x : V) (e : IntExpr V)
  | effect (op : Op) (args : List (Arg V))
  | ite (t : Test V Op) (c d : Code V Op)
  | loop (t : Test V Op) (c step : Code V Op)
  | brk
  | cont
  | ret (x : Option V)
  | jump (l : V)
  | labelled (l : V) (c d : Code V Op)

/-- Statements one after another. -/
def Code.seqs {V Op : Type} : List (Code V Op) → Code V Op
  | [] => .skip
  | c :: cs => .seq c (seqs cs)

/-- What the generated code runs on: the calls with a result that is a handle,
    and those with an integer result. -/
structure Runtime (Op Obj W : Type) where
  eval : Op → List (Value Obj) → W → Option Obj × W
  test : Op → List (Value Obj) → W → Int × W

/-- The variables of a function, and the rest of the world. -/
structure Machine (V Obj W : Type) where
  vars : V → Content Obj
  ints : V → Int
  world : W

/-- How a run of code ends. -/
inductive Exit (V Obj : Type)
  | normal
  | brk
  | cont
  | ret (v : Option Obj)
  | jump (l : V)
  | fault

variable {V Op Obj W : Type} [DecidableEq V]

/-- The end of a run: how it ended, and on what machine. -/
abbrev Outcome (V Obj W : Type) := Exit V Obj × Machine V Obj W

/-! ## Runs -/

namespace Machine

variable (rt : Runtime Op Obj W) (m : Machine V Obj W)

/-- The value of an operand; a dead variable has none. -/
def read : Arg V → Option (Value Obj)
  | .handle x =>
    match m.vars x with
    | .dead => none
    | c => some (.handle c.object)
  | .int v => some (.int (m.ints v))

/-- The values of all operands. -/
def readAll (args : List (Arg V)) : Option (List (Value Obj)) := args.mapM m.read

/-- The machine with the content of `x` replaced. -/
def put (x : V) (c : Content Obj) : Machine V Obj W :=
  { m with vars := Function.update m.vars x c }

/-- The machine with the variables `xs` dead. -/
def kill (xs : List V) : Machine V Obj W :=
  { m with vars := fun y => if y ∈ xs then .dead else m.vars y }

/-- `x = content`: a live `x` would leak. -/
def store (x : V) (c : Content Obj) : Outcome V Obj W :=
  match m.vars x with
  | .live _ => (.fault, m)
  | _ => (.normal, m.put x c)

/-- `x = op(args)`, which gives up the variables `takes`. -/
def call (x : V) (op : Op) (args : List (Arg V)) (takes : List V) : Outcome V Obj W :=
  match m.readAll args with
  | none => (.fault, m)
  | some vs =>
    let r := rt.eval op vs m.world
    store { m.kill takes with world := r.2 } x (.ofResult r.1)

/-- `x = y`, which moves the resource. -/
def move (x y : V) : Outcome V Obj W :=
  match m.vars y with
  | .dead => (.fault, m)
  | c => store (m.put y .dead) x c

/-- `Close(x)`, a no-op on null. -/
def close (x : V) (also : List V) : Outcome V Obj W :=
  match m.vars x with
  | .dead => (.fault, m)
  | _ => (.normal, m.kill (x :: also))

/-- `int x = op(args)`. -/
def status (x : V) (op : Op) (args : List (Arg V)) : Outcome V Obj W :=
  match m.readAll args with
  | none => (.fault, m)
  | some vs =>
    let r := rt.test op vs m.world
    (.normal, { m with ints := Function.update m.ints x r.1, world := r.2 })

/-- `op(args)`, for its effect. -/
def effect (op : Op) (args : List (Arg V)) : Outcome V Obj W :=
  match m.readAll args with
  | none => (.fault, m)
  | some vs => (.normal, { m with world := (rt.eval op vs m.world).2 })

/-- `return x`, which moves the resource to the caller. -/
def ret : Option V → Outcome V Obj W
  | none => (.ret none, m)
  | some x =>
    match m.vars x with
    | .dead => (.fault, m)
    | c => (.ret c.object, m.put x .dead)

/-- The value of an integer expression. -/
def int : IntExpr V → Int
  | .lit i => i
  | .var v => m.ints v
  | .add a b => int a + int b
  | .sub a b => int a - int b

end Machine

/-- The value of a relation. -/
def Relation.holds : Relation → Int → Int → Bool
  | .lt, a, b => decide (a < b)
  | .le, a, b => decide (a ≤ b)
  | .gt, a, b => decide (b < a)
  | .ge, a, b => decide (b ≤ a)

/-- The value of a condition; looking at a dead variable has none. -/
def Test.eval (rt : Runtime Op Obj W) :
    Test V Op → Machine V Obj W → Option (Bool × Machine V Obj W)
  | .isNull x, m =>
    match m.vars x with
    | .dead => none
    | c => some (c.object.isNone, m)
  | .notNull x, m =>
    match m.vars x with
    | .dead => none
    | c => some (c.object.isSome, m)
  | .nonzero e, m => some (decide (m.int e ≠ 0), m)
  | .zero e, m => some (decide (m.int e = 0), m)
  | .rel r a b, m => some (r.holds (m.int a) (m.int b), m)
  | .call op args, m =>
    match m.readAll args with
    | none => none
    | some vs =>
      let r := rt.test op vs m.world
      some (decide (r.1 ≠ 0), { m with world := r.2 })
  | .fails op args, m =>
    match m.readAll args with
    | none => none
    | some vs =>
      let r := rt.test op vs m.world
      some (decide (r.1 < 0), { m with world := r.2 })
  | .and s t, m =>
    match s.eval rt m with
    | some (true, m') => t.eval rt m'
    | r => r
  | .or s t, m =>
    match s.eval rt m with
    | some (false, m') => t.eval rt m'
    | r => r
  | .always, m => some (true, m)

/-- What follows code that ended normally. -/
def andThen (r : Option (Outcome V Obj W))
    (next : Machine V Obj W → Option (Outcome V Obj W)) : Option (Outcome V Obj W) :=
  match r with
  | some (.normal, m) => next m
  | r => r

/-- What follows the body of a loop. -/
def afterBody (r : Option (Outcome V Obj W))
    (next : Machine V Obj W → Option (Outcome V Obj W)) : Option (Outcome V Obj W) :=
  match r with
  | some (.normal, m) => next m
  | some (.cont, m) => next m
  | some (.brk, m) => some (.normal, m)
  | r => r

/-- What follows code up to the label `l`. -/
def afterLabel (l : V) (r : Option (Outcome V Obj W))
    (next : Machine V Obj W → Option (Outcome V Obj W)) : Option (Outcome V Obj W) :=
  match r with
  | some (.normal, m) => next m
  | some (.jump l', m) => if l' = l then next m else some (.jump l', m)
  | r => r

/-- The iterations of a loop: `none` when the fuel does not suffice. -/
def iterate (test : Machine V Obj W → Option (Bool × Machine V Obj W))
    (body step : Machine V Obj W → Option (Outcome V Obj W)) :
    Nat → Machine V Obj W → Option (Outcome V Obj W)
  | 0, _ => none
  | n + 1, m =>
    match test m with
    | none => some (.fault, m)
    | some (false, m') => some (.normal, m')
    | some (true, m') =>
      afterBody (body m') fun m'' => andThen (step m'') (iterate test body step n)

/-- The run of code; `none` when the fuel does not suffice for a loop. -/
def Code.exec (rt : Runtime Op Obj W) (fuel : Nat) :
    Code V Op → Machine V Obj W → Option (Outcome V Obj W)
  | .skip, m => some (.normal, m)
  | .seq c d, m => andThen (c.exec rt fuel m) (d.exec rt fuel)
  | .block c, m => c.exec rt fuel m
  | .call _ x op args takes, m => some (m.call rt x op args takes)
  | .null _ x, m => some (m.store x .null)
  | .move x y, m => some (m.move x y)
  | .close x also, m => some (m.close x also)
  | .status x op args, m => some (m.status rt x op args)
  | .set _ x e, m => some (.normal, { m with ints := Function.update m.ints x (m.int e) })
  | .effect op args, m => some (m.effect rt op args)
  | .ite t c d, m =>
    match t.eval rt m with
    | none => some (.fault, m)
    | some (true, m') => c.exec rt fuel m'
    | some (false, m') => d.exec rt fuel m'
  | .loop t c step, m => iterate (t.eval rt) (c.exec rt fuel) (step.exec rt fuel) fuel m
  | .brk, m => some (.brk, m)
  | .cont, m => some (.cont, m)
  | .ret x, m => some (m.ret x)
  | .jump l, m => some (.jump l, m)
  | .labelled l c d, m => afterLabel l (c.exec rt fuel m) (d.exec rt fuel)

end AHPy.HandleCode
