import AHPy.Lib.HandleCode

/-!
# Runs of code over handles

`Yields`: code ends, in an outcome that has a property. The rules follow a run
statement by statement: each says which outcome a statement has on a machine, and
leaves the rest of the code to go on from it.
-/

namespace AHPy.HandleCode

attribute [local simp] Code.exec Test.eval

variable {V Op Obj W : Type} [DecidableEq V]

/-! ## Machines -/

namespace Machine

variable (m : Machine V Obj W) (x y : V) (c : Content Obj) (xs : List V)

@[simp]
theorem put_vars : (m.put x c).vars y = if y = x then c else m.vars y := Function.update_apply ..

@[simp]
theorem kill_vars : (m.kill xs).vars y = if y ∈ xs then .dead else m.vars y := rfl

@[simp] theorem put_world : (m.put x c).world = m.world := rfl

@[simp] theorem kill_ints : (m.kill xs).ints = m.ints := rfl

@[simp]
theorem kill_nil : m.kill [] = m := by
  rw [kill]
  simp

theorem kill_kill (ys : List V) : (m.kill xs).kill ys = m.kill (xs ++ ys) := by
  rw [kill, kill, kill]
  congr 1
  funext y
  by_cases hy : y ∈ ys <;> by_cases hy' : y ∈ xs <;> simp [hy, hy']

end Machine

/-! ## Outcomes -/

/-- `c` ends, in an outcome with the property. -/
def Yields (rt : Runtime Op Obj W) (fuel : ℕ) (c : Code V Op) (m : Machine V Obj W)
    (Φ : Outcome V Obj W → Prop) : Prop :=
  ∃ o, c.exec rt fuel m = some o ∧ Φ o

/-- Outcomes after which code goes on in `Ψ`, and others with the property `Φ`. -/
def Onward (Ψ : Machine V Obj W → Prop) (Φ : Outcome V Obj W → Prop) :
    Outcome V Obj W → Prop
  | (.normal, m) => Ψ m
  | o => Φ o

section

variable {Ψ : Machine V Obj W → Prop} {Φ : Outcome V Obj W → Prop} {m : Machine V Obj W}

omit [DecidableEq V] in
@[simp] theorem onward_ret {v : Option Obj} : Onward Ψ Φ (.ret v, m) = Φ (.ret v, m) := rfl

end

/-- Outcomes after which code up to the label `l` goes on in `Ψ`, and others with the property
    `Φ`. -/
def AtLabel (l : V) (Ψ : Machine V Obj W → Prop) (Φ : Outcome V Obj W → Prop) :
    Outcome V Obj W → Prop
  | (.normal, m) => Ψ m
  | (.jump l', m) => if l' = l then Ψ m else Φ (.jump l', m)
  | o => Φ o

namespace Yields

variable {rt : Runtime Op Obj W} {fuel : ℕ} {c d : Code V Op} {m : Machine V Obj W}
  {Φ Φ' : Outcome V Obj W → Prop} {x y : V} {args : List (Arg V)} {vs : List (Value Obj)}

theorem imp (h : Yields rt fuel c m Φ) (hΦ : ∀ o, Φ o → Φ' o) : Yields rt fuel c m Φ' := by
  obtain ⟨o, ho, h⟩ := h
  exact ⟨o, ho, hΦ o h⟩

theorem seq (h : Yields rt fuel c m (Onward (fun m' => Yields rt fuel d m' Φ) Φ)) :
    Yields rt fuel (.seq c d) m Φ := by
  obtain ⟨⟨e, m'⟩, ho, h⟩ := h
  rw [Yields, Code.exec, ho]
  cases e with
  | normal => exact h
  | brk | cont | fault => exact ⟨_, rfl, h⟩
  | ret v => exact ⟨_, rfl, h⟩
  | jump l => exact ⟨_, rfl, h⟩

theorem skip (h : Φ (.normal, m)) : Yields rt fuel .skip m Φ := ⟨_, rfl, h⟩

/-- A call whose result goes to a variable that owns nothing. -/
theorem call {declares : Bool} {op : Op} {takes : List V} (hargs : m.readAll args = some vs)
    (hx : ((m.kill takes).vars x).object = none)
    (h : Φ (.normal, Machine.put { m.kill takes with world := (rt.eval op vs m.world).2 } x
      (.ofResult (rt.eval op vs m.world).1))) :
    Yields rt fuel (.call declares x op args takes) m Φ := by
  refine ⟨_, ?_, h⟩
  rw [Code.exec, Machine.call, hargs]
  cases hv : (m.kill takes).vars x with
  | live o =>
    rw [hv] at hx
    cases hx
  | dead => simp only [Machine.store, hv]
  | null => simp only [Machine.store, hv]

theorem null {declares : Bool} (hx : (m.vars x).object = none) (h : Φ (.normal, m.put x .null)) :
    Yields rt fuel (.null declares x) m Φ := by
  refine ⟨_, ?_, h⟩
  rw [Code.exec, Machine.store]
  cases hv : m.vars x with
  | live o =>
    rw [hv] at hx
    cases hx
  | dead => rfl
  | null => rfl

theorem close {also : List V} (hx : m.vars x ≠ .dead) (h : Φ (.normal, m.kill (x :: also))) :
    Yields rt fuel (.close x also) m Φ := by
  refine ⟨_, ?_, h⟩
  rw [Code.exec, Machine.close]
  cases hv : m.vars x with
  | dead => exact absurd hv hx
  | live o => rfl
  | null => rfl

/-- Several variables closed, each of them once. -/
theorem closes {xs : List V} (hnodup : xs.Nodup) (hlive : ∀ x ∈ xs, m.vars x ≠ .dead)
    (h : Φ (.normal, m.kill xs)) :
    Yields rt fuel (.seqs (xs.map fun x => .close x [])) m Φ := by
  induction xs generalizing m with
  | nil =>
    rw [Machine.kill_nil] at h
    exact skip h
  | cons x xs ih =>
    obtain ⟨hx, hnodup⟩ := List.nodup_cons.1 hnodup
    refine seq (close (hlive x List.mem_cons_self) (ih hnodup (fun y hy => ?_) ?_))
    · have hyx : y ≠ x := fun hyx => hx (hyx ▸ hy)
      rw [Machine.kill_vars, if_neg (by simpa using hyx)]
      exact hlive y (List.mem_cons_of_mem x hy)
    · rw [Machine.kill_kill]
      exact h

theorem status {op : Op} (hargs : m.readAll args = some vs)
    (h : Φ (.normal, { m with ints := Function.update m.ints x (rt.test op vs m.world).1,
                              world := (rt.test op vs m.world).2 })) :
    Yields rt fuel (.status x op args) m Φ := by
  refine ⟨_, ?_, h⟩
  rw [Code.exec, Machine.status, hargs]

theorem set {declares : Bool} {e : IntExpr V}
    (h : Φ (.normal, { m with ints := Function.update m.ints x (m.int e) })) :
    Yields rt fuel (.set declares x e) m Φ := ⟨_, rfl, h⟩

theorem effect {op : Op} (hargs : m.readAll args = some vs)
    (h : Φ (.normal, { m with world := (rt.eval op vs m.world).2 })) :
    Yields rt fuel (.effect op args) m Φ := by
  refine ⟨_, ?_, h⟩
  rw [Code.exec, Machine.effect, hargs]

theorem ite {t : Test V Op} {b : Bool} {m' : Machine V Obj W} (ht : t.eval rt m = some (b, m'))
    (h : Yields rt fuel (if b then c else d) m' Φ) : Yields rt fuel (.ite t c d) m Φ := by
  rw [Yields, Code.exec, ht]
  cases b with
  | true => exact h
  | false => exact h

theorem ret (h : Φ (.ret none, m)) : Yields rt fuel (.ret none) m Φ := ⟨_, rfl, h⟩

theorem retVar {v : Content Obj} (hx : m.vars x = v) (hv : v ≠ .dead)
    (h : Φ (.ret v.object, m.put x .dead)) : Yields rt fuel (.ret (some x)) m Φ := by
  refine ⟨_, ?_, h⟩
  rw [Code.exec, Machine.ret]
  subst hx
  cases hv' : m.vars x with
  | dead => exact absurd hv' hv
  | live o => rfl
  | null => rfl

theorem jump {l : V} (h : Φ (.jump l, m)) : Yields rt fuel (.jump l) m Φ := ⟨_, rfl, h⟩

/-- Code up to a label. -/
theorem labelled {l : V} (h : Yields rt fuel c m (AtLabel l (fun m' => Yields rt fuel d m' Φ) Φ)) :
    Yields rt fuel (.labelled l c d) m Φ := by
  obtain ⟨⟨e, m'⟩, ho, h⟩ := h
  rw [Yields, Code.exec, ho]
  cases e with
  | normal => exact h
  | brk | cont | fault => exact ⟨_, rfl, h⟩
  | ret v => exact ⟨_, rfl, h⟩
  | jump l' =>
    rw [AtLabel] at h
    rw [afterLabel]
    by_cases hl : l' = l
    · rw [if_pos hl] at h ⊢
      exact h
    · rw [if_neg hl] at h ⊢
      exact ⟨_, rfl, h⟩

end Yields

/-! ## Tests -/

namespace Test

variable {rt : Runtime Op Obj W} {m : Machine V Obj W} {x : V} {v : Content Obj}

omit [DecidableEq V] in
theorem eval_isNull (hx : m.vars x = v) (hv : v ≠ .dead) :
    (Test.isNull x : Test V Op).eval rt m = some (v.object.isNone, m) := by
  rw [eval, hx]
  cases v with
  | dead => exact absurd rfl hv
  | live o => rfl
  | null => rfl

omit [DecidableEq V] in
theorem eval_notNull (hx : m.vars x = v) (hv : v ≠ .dead) :
    (Test.notNull x : Test V Op).eval rt m = some (v.object.isSome, m) := by
  rw [eval, hx]
  cases v with
  | dead => exact absurd rfl hv
  | live o => rfl
  | null => rfl

omit [DecidableEq V] in
theorem eval_negative :
    (Test.negative x : Test V Op).eval rt m = some (decide (m.ints x < 0), m) := rfl

omit [DecidableEq V] in
theorem eval_call {op : Op} {args : List (Arg V)} {vs : List (Value Obj)}
    (hargs : m.readAll args = some vs) :
    (Test.call op args).eval rt m =
      some (decide ((rt.test op vs m.world).1 ≠ 0),
        { m with world := (rt.test op vs m.world).2 }) := by
  rw [eval, hargs]

end Test

end AHPy.HandleCode
