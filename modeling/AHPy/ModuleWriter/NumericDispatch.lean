import AHPy.Lib.HandleRuns
import AHPy.ModuleWriter.NumericSlots

/-!
# The dispatch of slots for numbers

* `yields_code`: the emitted function returns the value of the slot, with the types closed;
* `numericSlot_returns`: which methods it calls, and on which receivers.
-/

namespace AHPy.ModuleWriter

open HandleCode Interpreter

variable {Obj W : Type} [DecidableEq Obj]

/-- The machines of a slot. -/
abbrev SlotMachine (Obj W : Type) := Machine SlotVar Obj (World Obj W)

/-- The operands are borrowed; `c` is the modulus of a ternary slot. -/
structure Operands (m : SlotMachine Obj W) (ternary : Bool) (a b c : Obj) : Prop where
  left : m.vars .left = .live a
  right : m.vars .right = .live b
  modulus : ternary = true → m.vars .modulus = .live c

/-- Both types are known, and owned. -/
structure Ready (m : SlotMachine Obj W) (ternary : Bool) (a b c : Obj) : Prop
    extends Operands m ternary a b c where
  leftType : ∃ t, m.vars .leftType = .live t
  rightType : ∃ t, m.vars .rightType = .live t
  result : m.vars .result = .dead

/-- Nothing is owned, and the operands are still borrowed. -/
structure Released (m : SlotMachine Obj W) (ternary : Bool) (a b c : Obj) : Prop
    extends Operands m ternary a b c where
  leftType : (m.vars .leftType).object = none
  rightType : (m.vars .rightType).object = none
  result : (m.vars .result).object = none

variable {I : Interpreter Obj W} {m : SlotMachine Obj W} {ternary : Bool} {a b c : Obj}

theorem attempt_append (modulus : Option Obj) (cs ds : List (Candidate Obj)) (w : World Obj W) :
    I.attempt modulus (cs ++ ds) w =
      if (I.attempt modulus cs w).1 = none then I.attempt modulus ds (I.attempt modulus cs w).2
      else I.attempt modulus cs w := by
  induction cs generalizing w with
  | nil => rfl
  | cons d cs ih =>
    obtain ⟨method, receiver, other⟩ := d
    rw [List.cons_append, attempt, attempt]
    rcases I.helper method receiver other modulus w with ⟨_ | r, w'⟩
    · rfl
    · by_cases hr : r = I.notImplemented
      · simp only [if_pos hr, ih]
      · simp only [if_neg hr]
        rfl

/-- How code that tries methods ends: it goes on if there is no result, goes to the label after an
    exception, and returns a result. -/
def Tried (ternary : Bool) (a b c : Obj) :
    Option (Option Obj) × World Obj W → HandleCode.Outcome SlotVar Obj (World Obj W) → Prop
  | (none, w), (e, m) => e = .normal ∧ m.world = w ∧ Ready m ternary a b c
  | (some none, w), (e, m) => e = .jump .bad ∧ m.world = w ∧ Operands m ternary a b c ∧
      (∃ t, m.vars .leftType = .live t) ∧ (∃ t, m.vars .rightType = .live t) ∧
      m.vars .result = .null
  | (some (some v), w), (e, m) => e = .ret (some v) ∧ m.world = w ∧ Released m ternary a b c

/-- If code goes on, it is with the same integers. -/
def KeepsInts (m : SlotMachine Obj W) (o : HandleCode.Outcome SlotVar Obj (World Obj W)) : Prop :=
  o.1 = .normal → o.2.ints = m.ints

/-- The modulus is passed on by ternary slots. -/
abbrev modulusArg (ternary : Bool) (c : Obj) : Option Obj := if ternary then some c else none

/-- A call of a helper tries its method. -/
theorem yields_appendHelperCall (h : Ready m ternary a b c) (method : NumericMethod) {fuel : ℕ}
    {receiver other : SlotVar} {r o : Obj} (hr : m.vars receiver = .live r)
    (ho : m.vars other = .live o) :
    Yields I.runtime fuel (appendHelperCall ternary method receiver other) m fun out =>
      Tried ternary a b c (I.attempt (modulusArg ternary c) [(method, r, o)] m.world) out ∧
        KeepsInts m out := by
  obtain ⟨lt, hlt⟩ := h.leftType
  obtain ⟨rt, hrt⟩ := h.rightType
  have hread : m.readAll ([.handle receiver, .handle other] ++
      if ternary then [.handle .modulus] else []) =
      some ([.handle (some r), .handle (some o)] ++
        if ternary then [.handle (some c)] else []) := by
    cases ternary with
    | false => simp [Machine.readAll, Machine.read, hr, ho, Content.object]
    | true => simp [Machine.readAll, Machine.read, hr, ho, h.modulus rfl, Content.object]
  have heval : I.runtime.eval (.helper method)
      ([.handle (some r), .handle (some o)] ++ if ternary then [.handle (some c)] else []) m.world =
      I.helper method r o (modulusArg ternary c) m.world := by
    cases ternary <;> rfl
  refine .seq (.call hread (by simp [h.result, Content.object]) (.seq ?_))
  rw [heval, Machine.kill_nil, attempt]
  rcases I.helper method r o (modulusArg ternary c) m.world with ⟨_ | v, w⟩
  · -- An exception: the result is null.
    refine .ite (Test.eval_isNull (v := .null) (by simp [Content.ofResult]) (by simp)) (.jump ?_)
    refine ⟨⟨rfl, rfl, ⟨?_, ?_, fun ht => ?_⟩, ⟨lt, ?_⟩, ⟨rt, ?_⟩, ?_⟩, fun he => by cases he⟩
    · simpa using h.left
    · simpa using h.right
    · simpa using h.modulus ht
    · simpa using hlt
    · simpa using hrt
    · simp [Content.ofResult]
  · refine .ite (Test.eval_isNull (v := .live v) (by simp [Content.ofResult]) (by simp)) (.skip ?_)
    refine .seq (.ite (Test.eval_call (?_ : _ = some [.handle (some v)])) ?_)
    · simp [Machine.readAll, Machine.read, Content.ofResult, Content.object]
    have htest : I.runtime.test .isNotImplemented [.handle (some v)] w =
        (if v = I.notImplemented then 1 else 0, w) := rfl
    by_cases hv : v = I.notImplemented
    · -- The result is closed, and the next method is tried.
      rw [Machine.put_world, htest, if_pos hv]
      refine .skip (.seq (.close (by simp [Content.ofResult]) (.skip ?_)))
      simp only [if_pos hv, attempt]
      refine ⟨⟨rfl, rfl, ⟨⟨?_, ?_, fun ht => ?_⟩, ⟨lt, ?_⟩, ⟨rt, ?_⟩, ?_⟩⟩, fun _ => rfl⟩
      · simpa using h.left
      · simpa using h.right
      · simpa using h.modulus ht
      · simpa using hlt
      · simpa using hrt
      · simp
    · rw [Machine.put_world, htest, if_neg hv]
      refine .seq (.close (by simp [hrt]) (.seq (.close (by simp [hlt]) (.seq ?_))))
      refine .retVar (v := .live v) (by simp [Content.ofResult]) (by simp) ?_
      simp only [onward_ret, if_neg hv]
      refine ⟨⟨rfl, rfl, ⟨?_, ?_, fun ht => ?_⟩, ?_, ?_, ?_⟩, fun he => by cases he⟩
      · simpa using h.left
      · simpa using h.right
      · simpa using h.modulus ht
      · simp [Content.object]
      · simp [Content.object]
      · simp [Content.object]

/-- Code that tries methods, followed by code that tries more. -/
theorem yields_seq_of_tried {fuel : ℕ} {code code' : SlotCode} {cs ds : List (Candidate Obj)}
    (hcode : Yields I.runtime fuel code m fun o =>
      Tried ternary a b c (I.attempt (modulusArg ternary c) cs m.world) o ∧ KeepsInts m o)
    (hcode' : ∀ m', Ready m' ternary a b c → m'.ints = m.ints →
      Yields I.runtime fuel code' m' fun o =>
      Tried ternary a b c (I.attempt (modulusArg ternary c) ds m'.world) o ∧ KeepsInts m' o) :
    Yields I.runtime fuel (.seq code code') m fun o =>
      Tried ternary a b c (I.attempt (modulusArg ternary c) (cs ++ ds) m.world) o ∧
        KeepsInts m o := by
  refine .seq (hcode.imp fun o ⟨htried, hints⟩ => ?_)
  rw [attempt_append]
  obtain ⟨e, m'⟩ := o
  rcases hres : I.attempt (modulusArg ternary c) cs m.world with ⟨_ | _ | v, w⟩
  all_goals rw [hres] at htried
  · obtain ⟨rfl, rfl, hready⟩ := htried
    rw [if_pos rfl]
    refine (hcode' m' hready (hints rfl)).imp fun o' ⟨htried', hints'⟩ => ?_
    exact ⟨htried', fun he => (hints' he).trans (hints rfl)⟩
  · obtain ⟨rfl, hrest⟩ := htried
    rw [if_neg (by simp)]
    exact ⟨⟨rfl, hrest⟩, fun he => by cases he⟩
  · obtain ⟨rfl, hrest⟩ := htried
    rw [if_neg (by simp)]
    exact ⟨⟨rfl, hrest⟩, fun he => by cases he⟩

/-- A call of a helper under the flag of its receiver. -/
theorem yields_ite_appendHelperCall (h : Ready m ternary a b c) (method : NumericMethod) {fuel : ℕ}
    (flag : SlotVar) {receiver other : SlotVar} {r o : Obj} (hr : m.vars receiver = .live r)
    (ho : m.vars other = .live o) :
    Yields I.runtime fuel
      (.ite (.nonzero (.var flag)) (appendHelperCall ternary method receiver other) .skip) m
      fun out => Tried ternary a b c (I.attempt (modulusArg ternary c)
        (if m.ints flag ≠ 0 then [(method, r, o)] else []) m.world) out ∧ KeepsInts m out := by
  refine .ite (b := decide (m.ints flag ≠ 0)) rfl ?_
  by_cases hflag : m.ints flag = 0
  · rw [if_neg (by simpa using hflag), if_neg (not_not.2 hflag)]
    exact .skip ⟨⟨rfl, rfl, h⟩, fun _ => rfl⟩
  · rw [if_pos (by simpa using hflag), if_pos hflag]
    exact yields_appendHelperCall h method hr ho

theorem yields_skip_tried (h : Ready m ternary a b c) {fuel : ℕ} :
    Yields I.runtime fuel .skip m fun o =>
      Tried ternary a b c (I.attempt (modulusArg ternary c) [] m.world) o ∧ KeepsInts m o :=
  .skip ⟨⟨rfl, rfl, h⟩, fun _ => rfl⟩

omit [DecidableEq Obj] in
theorem Ready.withInts (h : Ready m ternary a b c) (ints : SlotVar → ℤ) :
    Ready { m with ints := ints } ternary a b c :=
  ⟨⟨h.left, h.right, h.modulus⟩, h.leftType, h.rightType, h.result⟩

/-- The calls of the helpers try the methods of the operands that match. -/
theorem yields_dispatch (slot : NumericSlot) (h : Ready m slot.ternary a b c) {fuel : ℕ} :
    Yields I.runtime fuel slot.dispatch m (Tried slot.ternary a b c
      (I.attempt (modulusArg slot.ternary c) (slot.candidates (m.ints .leftMatches ≠ 0)
        (m.ints .rightMatches ≠ 0) a b) m.world)) := by
  obtain ⟨left, right, marker, ternary⟩ := slot
  rw [NumericSlot.dispatch, NumericSlot.candidates]
  cases left with
  | none =>
    cases right with
    | none =>
      refine (yields_seq_of_tried (yields_skip_tried h) fun m₁ h₁ _ =>
        yields_seq_of_tried (yields_skip_tried h₁) fun m₂ h₂ _ =>
          yields_seq_of_tried (yields_skip_tried h₂) fun m₃ h₃ _ => yields_skip_tried h₃).imp ?_
      intro o ho
      simpa using ho.1
    | some right =>
      dsimp only
      by_cases hboth : m.ints .leftMatches ≠ 0 ∧ m.ints .rightMatches ≠ 0
      · -- Both operands match: the reflected method is tried first, and not again.
        have htest : (Test.and (.nonzero (.var .leftMatches)) (.nonzero (.var .rightMatches))).eval
            I.runtime m = some (true, m) := by
          simp [Test.eval, Machine.int, hboth.1, hboth.2]
        have hcall : Yields I.runtime fuel _ m _ := yields_appendHelperCall h right h.right h.left
        refine .seq (.ite htest (.seq (hcall.imp fun o ho => ?_)))
        obtain ⟨e, m'⟩ := o
        obtain ⟨htried, -⟩ := ho
        simp only [hboth.1, hboth.2, ne_eq, not_false_eq_true, decide_true, if_true,
          Option.toList_none, Option.toList_some, List.map_nil, List.map_cons, List.nil_append]
        rcases hres : I.attempt (modulusArg ternary c) [(right, b, a)] m.world with ⟨_ | _ | v, w⟩
        all_goals rw [hres] at htried
        · obtain ⟨rfl, hw, hready⟩ := htried
          have hzero {ints : SlotVar → ℤ} (hi : ints .rightMatches = 0) :
              (Test.nonzero (.var .rightMatches)).eval I.runtime { m' with ints := ints } =
                some (false, { m' with ints := ints }) := by
            simp [Test.eval, Machine.int, hi]
          refine .seq (.set (.skip (.seq (.skip (.seq (.ite (hzero ?_) (.skip (.skip ?_))))))))
          · simp [Machine.int]
          · exact ⟨rfl, hw, hready.withInts _⟩
        · obtain ⟨rfl, hrest⟩ := htried
          exact ⟨rfl, hrest⟩
        · obtain ⟨rfl, hrest⟩ := htried
          exact ⟨rfl, hrest⟩
      · have htest : (Test.and (.nonzero (.var .leftMatches)) (.nonzero (.var .rightMatches))).eval
            I.runtime m = some (false, m) := by
          by_cases hl : m.ints .leftMatches = 0
          · simp [Test.eval, Machine.int, hl]
          · have hr : m.ints .rightMatches = 0 := by simpa [hl] using hboth
            simp [Test.eval, Machine.int, hl, hr]
        refine .seq (.ite htest (.skip ?_))
        refine (yields_seq_of_tried (yields_skip_tried h) fun m₁ h₁ hints₁ =>
          yields_seq_of_tried
            (hints₁ ▸ yields_ite_appendHelperCall h₁ right .rightMatches h₁.right h₁.left)
            fun m₂ h₂ _ => yields_skip_tried h₂).imp ?_
        intro o ho
        simpa using ho.1
  | some left =>
    cases right with
    | none =>
      refine (yields_seq_of_tried (yields_skip_tried h) fun m₁ h₁ hints₁ =>
        yields_seq_of_tried
          (hints₁ ▸ yields_ite_appendHelperCall h₁ left .leftMatches h₁.left h₁.right)
          fun m₂ h₂ _ => yields_seq_of_tried (yields_skip_tried h₂) fun m₃ h₃ _ =>
            yields_skip_tried h₃).imp ?_
      intro o ho
      simpa using ho.1
    | some right =>
      refine (yields_seq_of_tried (yields_skip_tried h) fun m₁ h₁ hints₁ =>
        yields_seq_of_tried
          (hints₁ ▸ yields_ite_appendHelperCall h₁ left .leftMatches h₁.left h₁.right)
          fun m₂ h₂ hints₂ => yields_seq_of_tried ((hints₂.trans hints₁) ▸
            yields_ite_appendHelperCall h₂ right .rightMatches h₂.right h₂.left) fun m₃ h₃ _ =>
              yields_skip_tried h₃).imp ?_
      intro o ho
      simpa using ho.1

/-! ## The emitted function -/

/-- The function returns the result, with nothing left open. -/
def Returns (ternary : Bool) (a b c : Obj) (r : Option Obj × World Obj W)
    (o : HandleCode.Outcome SlotVar Obj (World Obj W)) : Prop :=
  o.1 = .ret r.1 ∧ o.2.world = r.2 ∧ Released o.2 ternary a b c

/-- Before the function runs. -/
structure Entered (m : SlotMachine Obj W) (ternary : Bool) (a b c : Obj) : Prop
    extends Operands m ternary a b c where
  leftType : m.vars .leftType = .dead
  rightType : m.vars .rightType = .dead
  result : m.vars .result = .dead

/-- The code after the label closes the types. -/
theorem yields_badCode {fuel : ℕ} (h : Operands m ternary a b c)
    (hl : ∃ t, m.vars .leftType = .live t) (hr : ∃ t, m.vars .rightType = .live t)
    (hresult : (m.vars .result).object = none) :
    Yields I.runtime fuel NumericSlot.badCode m (Returns ternary a b c (none, m.world)) := by
  obtain ⟨lt, hlt⟩ := hl
  obtain ⟨rt, hrt⟩ := hr
  refine .seq (.ite (Test.eval_notNull hrt (by simp)) (.close (by simp [hrt]) ?_))
  refine .seq (.close (by simp [hlt]) (.seq (.ret ?_)))
  refine ⟨rfl, rfl, ⟨?_, ?_, fun ht => ?_⟩, ?_, ?_, ?_⟩
  · simpa using h.left
  · simpa using h.right
  · simpa using h.modulus ht
  · simp [Content.object]
  · simp [Content.object]
  · simpa using hresult

/-- After the methods were tried, the function returns what they gave. -/
theorem afterDispatch_of_tried (slot : NumericSlot) {fuel : ℕ} {candidates : List (Candidate Obj)}
    {w : World Obj W} {o : HandleCode.Outcome SlotVar Obj (World Obj W)}
    (h : Tried slot.ternary a b c (I.attempt (modulusArg slot.ternary c) candidates w) o) :
    Onward
      (fun m' => Yields I.runtime fuel
        (.seqs [.close .rightType [], .close .leftType [],
          .call true .result .notImplemented [] [], .ret (some .result)]) m'
        (AtLabel .bad (fun m' => Yields I.runtime fuel NumericSlot.badCode m'
            (Returns slot.ternary a b c (I.tryAll (modulusArg slot.ternary c) candidates w)))
          (Returns slot.ternary a b c (I.tryAll (modulusArg slot.ternary c) candidates w))))
      (AtLabel .bad (fun m' => Yields I.runtime fuel NumericSlot.badCode m'
          (Returns slot.ternary a b c (I.tryAll (modulusArg slot.ternary c) candidates w)))
        (Returns slot.ternary a b c (I.tryAll (modulusArg slot.ternary c) candidates w))) o := by
  obtain ⟨e, m⟩ := o
  rw [tryAll]
  rcases hres : I.attempt (modulusArg slot.ternary c) candidates w with ⟨_ | _ | v, w'⟩
  all_goals rw [hres] at h
  · obtain ⟨rfl, rfl, hready⟩ := h
    obtain ⟨lt, hlt⟩ := hready.leftType
    obtain ⟨rt, hrt⟩ := hready.rightType
    refine .seq (.close (by simp [hrt]) (.seq (.close (by simp [hlt]) (.seq ?_))))
    refine .call (show _ = some [] from rfl) (by simp [hready.result, Content.object]) (.seq ?_)
    refine .retVar (by simp; rfl) (by simp) ⟨?_, rfl, ⟨?_, ?_, fun ht => ?_⟩, ?_, ?_, ?_⟩
    · simp only [Content.object_ofResult]
      rfl
    · simpa using hready.left
    · simpa using hready.right
    · simpa using hready.modulus ht
    · simp [Content.object]
    · simp [Content.object]
    · simp [Content.object]
  · obtain ⟨rfl, rfl, hoperands, hl, hr, hresult⟩ := h
    exact yields_badCode hoperands hl hr (by simp [hresult, Content.object])
  · obtain ⟨rfl, rfl, hreleased⟩ := h
    exact ⟨rfl, rfl, hreleased⟩

/-- Once the types are known, the function tries the methods and returns their result. -/
theorem yields_matchTypes (slot : NumericSlot) (h : Ready m slot.ternary a b c) {fuel : ℕ}
    {lt rt : Obj} (hlt : m.vars .leftType = .live lt) (hrt : m.vars .rightType = .live rt) :
    Yields I.runtime fuel slot.matchTypes m
      (AtLabel .bad
        (fun m' => Yields I.runtime fuel NumericSlot.badCode m' (Returns slot.ternary a b c
          (slot.afterQuery I a b (modulusArg slot.ternary c)
            (slot.queryMarkers I lt rt m.world))))
        (Returns slot.ternary a b c
          (slot.afterQuery I a b (modulusArg slot.ternary c)
            (slot.queryMarkers I lt rt m.world)))) := by
  have hread {m' : SlotMachine Obj W} {x : SlotVar} {t : Obj} (hx : m'.vars x = .live t) :
      m'.readAll [.handle x] = some [.handle (some t)] := by
    simp [Machine.readAll, Machine.read, hx, Content.object]
  have htest {o : Obj} {w : World Obj W} : I.runtime.test (.hasAttr slot.marker)
      [.handle (some o)] w = lift (I.hasAttr o slot.marker) w := rfl
  rw [NumericSlot.queryMarkers]
  refine .seq (.status (hread hlt) (.seq ?_))
  rw [htest]
  rcases lift (I.hasAttr lt slot.marker) m.world with ⟨l, w₁⟩
  refine .ite Test.eval_negative ?_
  simp only [Function.update_self, decide_eq_true_eq]
  by_cases hl : l < 0
  · simp only [if_pos hl]
    exact .jump (yields_badCode ⟨h.left, h.right, h.modulus⟩ h.leftType h.rightType
      (by simp [h.result, Content.object]))
  · simp only [if_neg hl]
    refine .skip (.seq (.status (hread hrt) (.seq ?_)))
    rw [htest]
    rcases lift (I.hasAttr rt slot.marker) w₁ with ⟨r, w₂⟩
    refine .ite Test.eval_negative ?_
    simp only [Function.update_self, decide_eq_true_eq]
    by_cases hr : r < 0
    · simp only [if_pos hr]
      exact .jump (yields_badCode ⟨h.left, h.right, h.modulus⟩ h.leftType h.rightType
        (by simp [h.result, Content.object]))
    · simp only [if_neg hr]
      have hready (ints : SlotVar → ℤ) :
          Ready (⟨m.vars, ints, w₂⟩ : SlotMachine Obj W) slot.ternary a b c :=
        ⟨⟨h.left, h.right, h.modulus⟩, h.leftType, h.rightType, h.result⟩
      refine .skip (.seq ((yields_dispatch slot (hready _)).imp fun o htried => ?_))
      have hl' : Function.update (Function.update m.ints .leftMatches l) .rightMatches r
          .leftMatches = l := by simp
      simp only [hl', Function.update_self] at htried
      exact afterDispatch_of_tried slot htried

/-- The emitted function returns the value of the slot. -/
theorem yields_code (slot : NumericSlot) (h : Entered m slot.ternary a b c) {fuel : ℕ} :
    Yields I.runtime fuel slot.code m
      (Returns slot.ternary a b c (slot.value I a b (modulusArg slot.ternary c) m.world)) := by
  have hread {m' : SlotMachine Obj W} {x : SlotVar} {t : Obj} (hx : m'.vars x = .live t) :
      m'.readAll [.handle x] = some [.handle (some t)] := by
    simp [Machine.readAll, Machine.read, hx, Content.object]
  have heval {o : Obj} {w : World Obj W} : I.runtime.eval .type [.handle (some o)] w =
      lift (I.typeOf o) w := rfl
  rw [NumericSlot.value, NumericSlot.query]
  refine .labelled (.seq (.seq (.call (hread h.left) (by simp [h.leftType, Content.object]) ?_)))
  rw [heval, Machine.kill_nil]
  rcases lift (I.typeOf a) m.world with ⟨_ | lt, w₁⟩
  · refine .seq (.null (by simp [h.rightType, Content.object]) (.seq ?_))
    refine .ite (Test.eval_isNull (v := .null) (by simp [Content.ofResult]) (by simp)) (.ret ?_)
    refine ⟨rfl, rfl, ⟨?_, ?_, fun ht => ?_⟩, ?_, ?_, ?_⟩
    · simpa using h.left
    · simpa using h.right
    · simpa using h.modulus ht
    · simp [Content.ofResult, Content.object]
    · simp [Content.object]
    · simp [h.result, Content.object]
  · refine .seq (.null (by simp [h.rightType, Content.object]) (.seq ?_))
    refine .ite (Test.eval_isNull (v := .live lt) (by simp [Content.ofResult]) (by simp)) (.skip ?_)
    refine .seq (.call (hread (by simpa using h.right)) (by simp [Content.object]) ?_)
    rw [heval, Machine.kill_nil]
    simp only [Machine.put_world]
    rcases lift (I.typeOf b) w₁ with ⟨_ | rt, w₂⟩
    · refine .seq (.ite (Test.eval_isNull (v := .null) (by simp [Content.ofResult]) (by simp)) ?_)
      refine .seq (.close (by simp [Content.ofResult]) (.seq (.ret ?_)))
      refine ⟨rfl, rfl, ⟨?_, ?_, fun ht => ?_⟩, ?_, ?_, ?_⟩
      · simpa using h.left
      · simpa using h.right
      · simpa using h.modulus ht
      · simp [Content.object]
      · simp [Content.ofResult, Content.object]
      · simp [h.result, Content.object]
    · refine .seq
        (.ite (Test.eval_isNull (v := .live rt) (by simp [Content.ofResult]) (by simp)) ?_)
      have hready (m' : SlotMachine Obj W) (hm' : m' = Machine.put ⟨Machine.vars (Machine.put
          (Machine.put ⟨m.vars, m.ints, w₁⟩ .leftType (.live lt)) .rightType .null), m.ints, w₂⟩
          .rightType (.live rt)) : Ready m' slot.ternary a b c := by
        subst hm'
        refine ⟨⟨?_, ?_, fun ht => ?_⟩, ⟨lt, ?_⟩, ⟨rt, ?_⟩, ?_⟩
        · simpa using h.left
        · simpa using h.right
        · simpa using h.modulus ht
        · simp
        · simp
        · simpa using h.result
      refine .skip (.skip (yields_matchTypes slot (hready _ rfl) ?_ ?_))
      · simp
      · simp

/-! ## Receivers -/

/-- The type object `i` is of an extension type with the bases, the first one without bases. -/
inductive Types.Chain (w : Types) : ℕ → List ExtensionType → ExtensionType → Prop
  | root {i : ℕ} {t : TypeObject} {e : ExtensionType} : w.objects[i]? = some t →
      t.extension = some e → t.bases = [] → Chain w i [] e
  | derived {i j : ℕ} {t : TypeObject} {e b : ExtensionType} {bases : List ExtensionType} :
      w.objects[i]? = some t → t.extension = some e → t.bases = [j] → Chain w j bases b →
      Chain w i (bases ++ [b]) e

/-- The extension type has type objects, which are all made with the same bases. -/
structure Types.Compiled (w : Types) (bases : List ExtensionType) (e : ExtensionType) : Prop where
  defines : w.Defines e
  chain : ∀ (i : ℕ) (t : TypeObject) (e' : ExtensionType), w.objects[i]? = some t →
    t.extension = some e' → e'.SameType e → w.Chain i bases e

variable {w : Types} {i : ℕ} {bases : List ExtensionType} {e : ExtensionType}

/-- Objects of a type have the storage of each type of its chain. -/
theorem Types.Chain.isInstance (h : w.Chain i bases e) {d : ExtensionType} (hd : d ∈ bases ++ [e]) :
    w.IsInstance i d := by
  induction h with
  | root ht he _ =>
    obtain rfl := List.mem_singleton.1 hd
    exact ⟨_, _, _, .refl _, ht, he, rfl, rfl⟩
  | derived ht he hbases _ ih =>
    rcases List.mem_append.1 hd with hd | hd
    · refine (ih hd).of_derives (.base ht ?_ (.refl _))
      rw [hbases]
      exact List.mem_singleton.2 rfl
    · obtain rfl := List.mem_singleton.1 hd
      exact ⟨_, _, _, .refl _, ht, he, rfl, rfl⟩

/-- Instances of a type are instances of each type of its chain. -/
theorem Types.Compiled.isInstance (h : w.Compiled bases e) (hi : w.IsInstance i e)
    {d : ExtensionType} (hd : d ∈ bases ++ [e]) : w.IsInstance i d := by
  obtain ⟨j, t, e', hij, ht, he', hsame⟩ := hi
  exact ((h.chain j t e' ht he' hsame).isInstance hd).of_derives hij

/-- Exactly the instances of the type have the marker. -/
theorem Types.Compiled.hasAttr_iff (h : w.Compiled bases e) (hw : w.Identified) :
    w.HasAttr i e.marker ↔ w.IsInstance i e := by
  refine ⟨hw.isInstance e h.defines i, fun ⟨j, t, e', hij, ht, he', hsame⟩ => ?_⟩
  have hmarker : e.marker = e'.marker :=
    typeSlotMarkerAttribute_inj.2 (.inl ⟨hsame.1.symm, hsame.2.symm⟩)
  exact ⟨j, t, hij, ht, .inl ⟨e', he', .inl hmarker⟩⟩

/-- The method of a type is that of the nearest type of its chain that defines it. -/
theorem effectiveMethod_eq_some {chain : List ExtensionType} {name : Name} {method : NumericMethod}
    (h : effectiveMethod chain name = some method) :
    method.name = name ∧ ∃ before after, chain = before ++ method.definer :: after ∧
      name ∈ method.definer.members ∧ ∀ d ∈ after, name ∉ d.members := by
  induction chain using List.reverseRecOn with
  | nil => cases h
  | append_singleton chain d ih =>
    rw [effectiveMethod, List.foldl_append, List.foldl_cons, List.foldl_nil] at h
    split at h
    next hmem =>
      rw [List.contains_iff_mem] at hmem
      cases h
      exact ⟨rfl, chain, [], rfl, hmem, fun d' hd' => absurd hd' List.not_mem_nil⟩
    next hmem =>
      rw [List.contains_iff_mem] at hmem
      obtain ⟨hname, before, after, rfl, hdefines, hafter⟩ := ih h
      refine ⟨hname, before, after ++ [d], by simp, hdefines, fun d' hd' => ?_⟩
      rcases List.mem_append.1 hd' with hd' | hd'
      · exact hafter d' hd'
      · obtain rfl := List.mem_singleton.1 hd'
        exact hmem

/-- What HPy documents about the functions that slots call, where type objects are those of `w`:
    `typeIndex` is the type of an object, and `denotes` the type that a handle to a type is to. -/
structure Interpreter.Behaves (I : Interpreter Obj W) (w : Types) (typeIndex denotes : Obj → ℕ) :
    Prop where
  typeOf : ∀ o s t s', I.typeOf o s = (some t, s') → denotes t = typeIndex o
  hasAttr : ∀ t n s r s', I.hasAttr t n s = (r, s') → 0 ≤ r → (r ≠ 0 ↔ w.HasAttr (denotes t) n)

theorem calls_helper (method : NumericMethod) (receiver other : Obj) (modulus : Option Obj)
    (world : World Obj W) :
    ∃ calls, (I.helper method receiver other modulus world).2.calls = world.calls ++ calls ∧
      ∀ call ∈ calls, call = (method, receiver) := by
  have hcall (m : Option Obj) : (I.callMethod method receiver other m world).2.calls =
      world.calls ++ [(method, receiver)] := rfl
  cases modulus with
  | none => exact ⟨_, hcall none, fun call h => List.mem_singleton.1 h⟩
  | some c =>
    rw [helper]
    split_ifs
    · exact ⟨_, hcall _, fun call h => List.mem_singleton.1 h⟩
    · exact ⟨_, hcall _, fun call h => List.mem_singleton.1 h⟩
    · exact ⟨[], (List.append_nil _).symm, fun call h => absurd h List.not_mem_nil⟩

/-- Trying candidates calls their methods on their receivers. -/
theorem calls_attempt (modulus : Option Obj) (cs : List (Candidate Obj)) (world : World Obj W) :
    ∃ calls, (I.attempt modulus cs world).2.calls = world.calls ++ calls ∧
      ∀ call ∈ calls, ∃ other, (call.1, call.2, other) ∈ cs := by
  induction cs generalizing world with
  | nil => exact ⟨[], (List.append_nil _).symm, fun call h => absurd h List.not_mem_nil⟩
  | cons d cs ih =>
    obtain ⟨method, receiver, other⟩ := d
    obtain ⟨calls, hcalls, hmem⟩ := calls_helper (I := I) method receiver other modulus world
    have hfirst : ∀ call ∈ calls, ∃ other', (call.1, call.2, other') ∈
        (method, receiver, other) :: cs := by
      intro call h
      rw [hmem call h]
      exact ⟨other, List.mem_cons_self⟩
    rw [attempt]
    rcases hres : I.helper method receiver other modulus world with ⟨_ | r, world'⟩
    all_goals rw [hres] at hcalls
    · exact ⟨calls, hcalls, hfirst⟩
    · by_cases hr : r = I.notImplemented
      · obtain ⟨calls', hcalls', hmem'⟩ := ih world'
        simp only [if_pos hr]
        refine ⟨calls ++ calls', ?_, fun call h => ?_⟩
        · rw [hcalls', hcalls, List.append_assoc]
        · rcases List.mem_append.1 h with h | h
          · exact hfirst call h
          · obtain ⟨other', h⟩ := hmem' call h
            exact ⟨other', List.mem_cons_of_mem _ h⟩
      · simp only [if_neg hr]
        exact ⟨calls, hcalls, hfirst⟩

theorem calls_tryAll (modulus : Option Obj) (cs : List (Candidate Obj)) (world : World Obj W) :
    ∃ calls, (I.tryAll modulus cs world).2.calls = world.calls ++ calls ∧
      ∀ call ∈ calls, ∃ other, (call.1, call.2, other) ∈ cs := by
  obtain ⟨calls, hcalls, hmem⟩ := calls_attempt (I := I) modulus cs world
  refine ⟨calls, ?_, hmem⟩
  rw [tryAll]
  rcases hres : I.attempt modulus cs world with ⟨_ | r, world'⟩
  all_goals
    rw [hres] at hcalls
    exact hcalls

/-- The methods of the slot on the operands that are instances of its type: the forward one on the
    left operand, then the reflected one on the right operand, also for two operands of one
    type. -/
noncomputable def applicable (w : Types) (bases : List ExtensionType) (e : ExtensionType)
    (family : NumericFamily) (typeIndex : Obj → ℕ) (a b : Obj) : List (Candidate Obj) :=
  open Classical in
  (if w.IsInstance (typeIndex a) e then
    (effectiveMethod (bases ++ [e]) family.leftName).toList.map fun method => (method, a, b)
    else []) ++
  if w.IsInstance (typeIndex b) e then
    (effectiveMethod (bases ++ [e]) family.rightName).toList.map fun method => (method, b, a) else []

variable {typeIndex denotes : Obj → ℕ} {slot : NumericSlot} {family : NumericFamily}

omit [DecidableEq Obj] in
/-- Methods that apply are called on instances of the type that defines them. -/
theorem isInstance_of_mem_applicable (h : w.Compiled bases e) {method : NumericMethod}
    {receiver other : Obj}
    (hmem : (method, receiver, other) ∈ applicable w bases e family typeIndex a b) :
    method.definer ∈ bases ++ [e] ∧ w.IsInstance (typeIndex receiver) method.definer := by
  have hdefiner {name : Name} (hm : effectiveMethod (bases ++ [e]) name = some method) :
      method.definer ∈ bases ++ [e] := by
    obtain ⟨-, before, after, hchain, -⟩ := effectiveMethod_eq_some hm
    rw [hchain]
    exact List.mem_append_right _ List.mem_cons_self
  rw [applicable, List.mem_append] at hmem
  rcases hmem with hmem | hmem
  all_goals
    split at hmem
    next hi =>
      obtain ⟨method', hm, heq⟩ := List.mem_map.1 hmem
      obtain ⟨rfl, rfl, -⟩ : method' = method ∧ _ = receiver ∧ _ = other := by simpa using heq
      have hd := hdefiner (Option.mem_toList.1 hm)
      exact ⟨hd, h.isInstance hi hd⟩
    next hi => exact absurd hmem List.not_mem_nil

omit [DecidableEq Obj] in
/-- The queries of the slot tell which operands are instances of its type, and call no methods. -/
theorem query_spec (hw : w.Identified) (he : w.Compiled bases e)
    (hslot : numericSlot bases e family = some slot) (hI : I.Behaves w typeIndex denotes)
    (world : World Obj W) :
    (slot.query I a b world).2.calls = world.calls ∧
      ∀ l r, (slot.query I a b world).1 = some (l, r) →
        slot.candidates l r a b = applicable w bases e family typeIndex a b := by
  have hmarker : slot.marker = e.marker ∧
      slot.left = effectiveMethod (bases ++ [e]) family.leftName ∧
      slot.right = effectiveMethod (bases ++ [e]) family.rightName := by
    rw [numericSlot] at hslot
    split at hslot
    · cases hslot
      exact ⟨rfl, rfl, rfl⟩
    · cases hslot
  obtain ⟨hmarker, hleft, hright⟩ := hmarker
  classical
  have hmatches {o t : Obj} {s s' : W} {n : ℤ} (ht : denotes t = typeIndex o)
      (hn : I.hasAttr t slot.marker s = (n, s')) (hpos : ¬n < 0) :
      n ≠ 0 ↔ w.IsInstance (typeIndex o) e := by
    rw [hI.hasAttr _ _ _ _ _ hn (not_lt.1 hpos), hmarker, ht, he.hasAttr_iff hw]
  rw [NumericSlot.query]
  rcases hlt : I.typeOf a world.state with ⟨_ | lt, s₁⟩
  · simp only [lift, hlt]
    exact ⟨trivial, fun l r h => by cases h⟩
  rcases hrt : I.typeOf b s₁ with ⟨_ | rt, s₂⟩
  · simp only [lift, hlt, hrt]
    exact ⟨trivial, fun l r h => by cases h⟩
  rcases hl : I.hasAttr lt slot.marker s₂ with ⟨l, s₃⟩
  rcases hr : I.hasAttr rt slot.marker s₃ with ⟨r, s₄⟩
  simp only [lift, hlt, hrt, NumericSlot.queryMarkers, hl, hr]
  by_cases hneg : l < 0
  · rw [if_pos hneg]
    exact ⟨rfl, fun l r h => by cases h⟩
  rw [if_neg hneg]
  by_cases hneg' : r < 0
  · rw [if_pos hneg']
    exact ⟨rfl, fun l r h => by cases h⟩
  rw [if_neg hneg']
  refine ⟨rfl, fun l' r' h => ?_⟩
  obtain ⟨rfl, rfl⟩ : decide (l ≠ 0) = l' ∧ decide (r ≠ 0) = r' := by simpa using h
  have hl' := hmatches (hI.typeOf _ _ _ _ hlt) hl hneg
  have hr' := hmatches (hI.typeOf _ _ _ _ hrt) hr hneg'
  rw [NumericSlot.candidates, applicable, hleft, hright]
  exact congrArg₂ (· ++ ·) (if_congr (decide_eq_true_iff.trans hl') rfl rfl)
    (if_congr (decide_eq_true_iff.trans hr') rfl rfl)

/-- A slot for numbers, where the markers tell the types of the program apart: it returns what its
    applicable methods give, unless it cannot be asked which operands match; methods are only
    called on instances of the types that define them; and the types that were opened are
    closed. -/
theorem numericSlot_returns (hw : w.Identified) (he : w.Compiled bases e)
    (hslot : numericSlot bases e family = some slot) (hI : I.Behaves w typeIndex denotes)
    (hm : Entered m slot.ternary a b c) (fuel : ℕ) :
    ∃ v m', slot.code.exec I.runtime fuel m = some (.ret v, m') ∧ Released m' slot.ternary a b c ∧
      (((slot.query I a b m.world).1 = none ∧
          (v, m'.world) = (none, (slot.query I a b m.world).2)) ∨
        (slot.query I a b m.world).1 ≠ none ∧ (v, m'.world) = I.tryAll (modulusArg slot.ternary c)
          (applicable w bases e family typeIndex a b) (slot.query I a b m.world).2) ∧
      ∃ calls, m'.world.calls = m.world.calls ++ calls ∧ ∀ call ∈ calls,
        call.1.definer ∈ bases ++ [e] ∧ w.IsInstance (typeIndex call.2) call.1.definer := by
  have hyields : Yields I.runtime fuel slot.code m _ := yields_code slot hm
  obtain ⟨⟨exit, m'⟩, hexec, hexit, hworld, hreleased⟩ := hyields
  obtain ⟨hcalls, hcandidates⟩ := query_spec (a := a) (b := b) hw he hslot hI m.world
  rw [NumericSlot.value] at hexit hworld
  rcases hquery : slot.query I a b m.world with ⟨_ | ⟨l, r⟩, world⟩
  all_goals
    rw [hquery] at hexit hworld hcalls hcandidates
    rw [NumericSlot.afterQuery] at hexit hworld
    dsimp only at hexit hworld hcalls
    subst hexit
  · refine ⟨_, m', hexec, hreleased, .inl ⟨rfl, ?_⟩, [], ?_, ?_⟩
    · rw [hworld]
    · rw [hworld, hcalls, List.append_nil]
    · exact fun call h => absurd h List.not_mem_nil
  · rw [hcandidates l r rfl] at hexec hworld
    obtain ⟨calls, hall, hmem⟩ := calls_tryAll (I := I) (modulusArg slot.ternary c)
      (applicable w bases e family typeIndex a b) world
    refine ⟨_, m', hexec, hreleased, .inr ⟨by simp, ?_⟩, calls, ?_, fun call h => ?_⟩
    · rw [hworld]
    · rw [hworld, hall, hcalls]
    · obtain ⟨other, hother⟩ := hmem call h
      exact isInstance_of_mem_applicable he hother

/-! ## One type -/

/-- The calls that the data model of Python prescribes: the reflected method is only called for
    operands of different types. -/
def dataModelCandidates (forward reflected : Option NumericMethod) (sameType : Bool) (a b : Obj) :
    List (Candidate Obj) :=
  (forward.toList.map fun method => (method, a, b)) ++
    if sameType then [] else reflected.toList.map fun method => (method, b, a)

theorem not_reserved_radd : ∀ n ∈ ["__radd__".toList], ¬typeSlotMarkerPrefix <+: n := by
  decide

/-- A type with the reflected method only. -/
def reflectedAddOnly : ExtensionType :=
  ⟨"bootstrap_types".toList, "ReflectedAddOnly".toList, ["__radd__".toList], not_reserved_radd⟩

/-- A program with that type. -/
def reflectedTypes : Types := ⟨rootTypes [reflectedAddOnly], bases_lt_rootTypes _⟩

def addFamily : NumericFamily := .binary "nb_add" "__add__" "__radd__"

def reflectedAddSlot : NumericSlot :=
  ⟨none, some ⟨reflectedAddOnly, "__radd__".toList⟩, reflectedAddOnly.marker, false⟩

/-- Objects: instances of the type are 0 and 1, `NotImplemented` is 2, `None` is 3, the handles to
    the type and to other types are 4 and 5, and methods return 6. -/
def reflectedInterpreter : Interpreter ℕ Unit where
  typeOf o s := (some (if o < 2 then 4 else 5), s)
  hasAttr t n s :=
    (if t = 4 ∧ (n = reflectedAddOnly.marker ∨ reflectedAddOnly.members.contains n = true)
      then 1 else 0, s)
  call _ _ _ _ s := (some 6, s)
  takesModulus _ := false
  typeError s := s
  pyNone := 3
  notImplemented := 2
  dup o s := (some o, s)

/-- A call of the slot. -/
def slotMachine (a b c : ℕ) : SlotMachine ℕ Unit where
  vars
    | .left => .live a
    | .right => .live b
    | .modulus => .live c
    | _ => .dead
  ints _ := 0
  world := ⟨(), []⟩

theorem getElem?_reflectedTypes {j : ℕ} {t : TypeObject}
    (h : reflectedTypes.objects[j]? = some t) :
    j = 0 ∧ t = ⟨some reflectedAddOnly, [], fun _ => false⟩ := by
  cases j with
  | zero => exact ⟨rfl, (Option.some.inj h).symm⟩
  | succ j => cases h

theorem hasAttr_reflectedTypes {k : ℕ} {n : Name} :
    reflectedTypes.HasAttr k n ↔
      k = 0 ∧ (n = reflectedAddOnly.marker ∨ n ∈ reflectedAddOnly.members) := by
  constructor
  · rintro ⟨j, t, hkj, ht, hown⟩
    obtain ⟨rfl, rfl⟩ := getElem?_reflectedTypes ht
    have hk : k = 0 := by
      cases hkj with
      | refl => rfl
      | base hk hj _ => exact (getElem?_reflectedTypes hk).1
    refine ⟨hk, ?_⟩
    rcases hown with ⟨e, he, h⟩ | h
    · cases he
      exact h
    · cases h
  · rintro ⟨rfl, h⟩
    exact ⟨0, _, .refl 0, rfl, .inl ⟨_, rfl, h⟩⟩

theorem identified_reflectedTypes : reflectedTypes.Identified := by
  have hdefines {e : ExtensionType} (he : reflectedTypes.Defines e) : e = reflectedAddOnly := by
    obtain ⟨j, t, ht, he⟩ := he
    obtain ⟨-, rfl⟩ := getElem?_reflectedTypes ht
    cases he
    rfl
  refine Types.Separate.identified ⟨fun e e' he he' _ => ?_, fun e he i t ht h => ?_⟩
  · rw [hdefines he, hdefines he']
    exact ⟨rfl, rfl⟩
  · obtain ⟨-, rfl⟩ := getElem?_reflectedTypes ht
    cases h

theorem compiled_reflectedTypes : reflectedTypes.Compiled [] reflectedAddOnly where
  defines := ⟨0, _, rfl, rfl⟩
  chain i t e' ht _ _ := by
    obtain ⟨rfl, -⟩ := getElem?_reflectedTypes ht
    exact .root rfl rfl rfl

theorem behaves_reflectedInterpreter : reflectedInterpreter.Behaves reflectedTypes
    (fun o => if o < 2 then 0 else 1) (fun t => if t = 4 then 0 else 1) where
  typeOf o s t s' h := by
    simp only [reflectedInterpreter, Prod.mk.injEq, Option.some.injEq] at h
    rw [← h.1]
    split <;> rfl
  hasAttr t n s r s' h _ := by
    simp only [reflectedInterpreter, Prod.mk.injEq] at h
    rw [← h.1, hasAttr_reflectedTypes]
    by_cases ht : t = 4
    · simp [ht, or_iff_not_imp_left]
    · simp [ht]

theorem entered_slotMachine (a b c : ℕ) : Entered (slotMachine a b c) false a b c :=
  ⟨⟨rfl, rfl, fun h => by cases h⟩, rfl, rfl, rfl⟩

theorem numericSlot_returns_reflected :
    ∃ v m', reflectedAddSlot.code.exec reflectedInterpreter.runtime 0 (slotMachine 7 1 3) =
        some (.ret v, m') ∧ Released m' false 7 1 3 := by
  have hslot : numericSlot [] reflectedAddOnly addFamily = some reflectedAddSlot := rfl
  obtain ⟨v, m', hexec, hreleased, -⟩ := numericSlot_returns identified_reflectedTypes
    compiled_reflectedTypes hslot behaves_reflectedInterpreter (entered_slotMachine 7 1 3) 0
  exact ⟨v, m', hexec, hreleased⟩

/-- Two operands of one type: the slot calls the reflected method, which the data model of Python
    does not. -/
theorem numericSlot_sameType :
    numericSlot [] reflectedAddOnly addFamily = some reflectedAddSlot ∧
    (∃ m', reflectedAddSlot.code.exec reflectedInterpreter.runtime 0 (slotMachine 0 1 3) =
      some (.ret (some 6), m')) ∧
    (reflectedInterpreter.tryAll none (dataModelCandidates reflectedAddSlot.left
      reflectedAddSlot.right true 0 1) (slotMachine 0 1 3).world).1 = some 2 := by
  refine ⟨rfl, ?_, rfl⟩
  exact ⟨_, rfl⟩

end AHPy.ModuleWriter
