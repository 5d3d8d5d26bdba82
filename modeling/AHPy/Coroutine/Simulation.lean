import AHPy.Coroutine.Activations

/-!
# Simulation of compiled generators by generators of Python

Both take the same steps. A compiled generator calls `am_send` where Python calls `__next__` or
`send`, and gets the value that a generator returns where Python gets a `StopIteration`; what
user code sees is the same.

* `Corresponds`: the fields of a compiled generator, and the state of a generator of Python;
* `Related`: compiled code and Python code at the same place;
* `Meets`: steps that the code is right for;
* `step_related`: such steps lead from related states to related states.
-/

namespace AHPy.Coroutine

variable {Obj V E : Type}

/-! ## Frames and calls -/

def Caller.plain : Caller → Caller
  | .amSend => .method
  | caller => caller

/-- The frame in Python, where `am_send` is not used. -/
def Frame.plain : Frame Obj V E → Frame Obj V E
  | .object o caller => .object o caller.plain
  | .body g caller => .body g caller.plain
  | .starting g caller label d => .starting g caller.plain label d
  | .delegate g caller _ => .delegate g caller.plain false
  | .throwing g => .throwing g
  | .closing g e => .closing g e

/-- Whether the frame was called by `am_send`. -/
def Frame.byAmSend : Frame Obj V E → Bool
  | .object _ caller => caller.isAmSend
  | .body _ caller => caller.isAmSend
  | .starting _ caller _ _ => caller.isAmSend
  | .delegate _ caller _ => caller.isAmSend
  | .throwing _ => false
  | .closing _ _ => false

/-- Whether the upper frame has called `am_send`. -/
def awaitsAmSend : List (Frame Obj V E) → Bool
  | .delegate _ _ amSend :: _ => amSend
  | _ => false

/-- Frames are called by the frames under them. -/
def Chained : List (Frame Obj V E) → Prop
  | [] => True
  | f :: stack => f.byAmSend = awaitsAmSend stack ∧ Chained stack

/-- `__next__` for `send(None)`, and no `am_send`: generators do the same. -/
def Op.normal : Op V E → Op V E
  | .send none => .next
  | op => op.plain

/-- Calls that an object does not tell from each other. -/
structure Op.Same (kind : Kind) (op op' : Op V E) : Prop where
  generator : kind = .generator → op'.normal = op.normal
  object : kind ≠ .generator → op' = op.plain
  isAmSend : op'.isAmSend = false

/-- `am_send` does not raise `StopIteration`, and methods do. -/
def Res.Fits (awaited : Bool) : Res V E → Prop
  | .value _ => True
  | .returned _ => awaited = true
  | .raised e => awaited = true → e.isStopIteration = false

/-! ## Generators -/

variable (st : Setting Obj)

/-- `yieldfrom_am_send` -/
def Setting.slot (yf : Option Obj) : Bool := yf.any st.amSendSlot

/-- The fields of a compiled generator in a state. -/
inductive Corresponds : CoroutineObject Obj → GenState Obj → Prop
  | created : Corresponds .new .created
  | suspended {label : ℤ} (yf : Option Obj) : 0 < label →
    Corresponds ⟨label, false, yf, st.slot yf⟩ (.suspended yf)
  | running {label : ℤ} (yf : Option Obj) : 0 ≤ label → (yf ≠ none → 0 < label) →
    Corresponds ⟨label, true, yf, st.slot yf⟩ (.running yf)
  | closed : Corresponds ⟨-1, false, none, false⟩ .closed

/-- The same generators and calls. -/
structure SameCalls (s : CompiledState Obj V E) (p : PyState Obj V E) : Prop where
  gens : ∀ g, Corresponds st (s.gens g) (p.gens g)
  stack : p.stack = s.stack.map Frame.plain
  chained : Chained s.stack

/-- What happens next is the same. -/
inductive Follows (awaited : Bool) : Control Obj V E → Control Obj V E → Prop
  | user (i : Input V E) : awaited = false → Follows awaited (.user i) (.user i)
  | call (o : Obj) {op op' : Op V E} : op.isAmSend = awaited → op.Same (st.kind o) op' →
    Follows awaited (.call o op) (.call o op')
  | ret {r : Res V E} : r.Fits awaited → Follows awaited (.ret r) (.ret r.plain)

/-- Compiled code and Python code at the same place. -/
structure Related (s : CompiledState Obj V E) (p : PyState Obj V E) : Prop extends
    SameCalls st s p where
  control : Follows st (awaitsAmSend s.stack) s.control p.control

/-- The value that is sent, if it is not `None`. -/
def Op.sends : Op V E → Option V
  | .send v => v
  | .amSend v => v
  | _ => none

/-- Steps that the code is right for. -/
structure Meets (s : CompiledState Obj V E) (event : Option (Event Obj V E)) : Prop where
  /-- No value but `None` is sent to a generator that has not started. -/
  started : ∀ g op, s.control = .call g op → st.kind g = .generator →
    (s.gens g).isRunning = false → (s.gens g).resumeLabel = 0 → op.sends = none
  /-- A generator that has finished is not resumed by `am_send`. -/
  resumed : ∀ g op, s.control = .call g op → st.kind g = .generator →
    (s.gens g).isRunning = false → (s.gens g).resumeLabel = -1 → op.isAmSend = false
  /-- A body that is closed returns `None`, if it returns. -/
  closed : ∀ g stack v, s.stack = .body g .close :: stack → event = some (.return v) → v = none

variable {st}

theorem Frame.runsUser_plain (f : Frame Obj V E) : f.plain.runsUser = f.runsUser := by
  cases f <;> rfl

/-! ## Results -/

theorem Res.plain_plain (r : Res V E) : r.plain.plain = r.plain := by cases r <;> rfl

theorem Res.fetchStopIterationValue_plain (r : Res V E) :
    r.plain.fetchStopIterationValue = r.fetchStopIterationValue := by
  cases r <;> rfl

theorem Op.plain_plain (op : Op V E) : op.plain.plain = op.plain := by
  rcases op with _ | v | e | _ | ⟨_ | v⟩ <;> rfl

/-- The result for the caller in Python. -/
theorem pyResult_plain (caller : Caller) (r : Res V E)
    (h : caller = .close → ∀ v, r = .returned v → v = none) :
    pyResult caller.plain r = (caller.result r).plain := by
  cases caller with
  | amSend => rfl
  | method => exact (Res.plain_plain r).symm
  | close =>
    cases r with
    | value v => rfl
    | returned v =>
      obtain rfl := h rfl v rfl
      rfl
    | raised e =>
      simp only [pyResult, Caller.plain, Caller.result]
      split_ifs <;> rfl

theorem Caller.result_fits (caller : Caller) (r : Res V E)
    (h : caller = .amSend → ∀ e, r = .raised e → e.isStopIteration = false) :
    (caller.result r).Fits caller.isAmSend := by
  cases caller with
  | amSend =>
    cases r with
    | value v => trivial
    | returned v => rfl
    | raised e => exact fun _ => h rfl e rfl
  | method =>
    cases r with
    | value v => trivial
    | returned v => exact fun hfalse => by cases hfalse
    | raised e => exact fun hfalse => by cases hfalse
  | close =>
    rcases r with v | ⟨_ | v⟩ | e
    · exact fun hfalse => by cases hfalse
    · trivial
    · exact fun hfalse => by cases hfalse
    · simp only [Caller.result]
      split_ifs
      · trivial
      · exact fun hfalse => by cases hfalse

theorem Res.fits_raised {e : Exc V E} (he : e.isStopIteration = false) (awaited : Bool) :
    (Res.raised e : Res V E).Fits awaited := fun _ => he

theorem replaceStopIteration_eq (hst : st.generatorStop = true) (e : Exc V E) :
    st.replaceStopIteration e = pep479 e := by
  rw [Setting.replaceStopIteration, pep479, hst, Bool.true_and]

theorem pep479_isStopIteration (e : Exc V E) : (pep479 e).isStopIteration = false := by
  rw [pep479]
  split_ifs with h
  · rfl
  · exact Bool.eq_false_of_not_eq_true h

/-- How `__Pyx_Coroutine_AmSend` resumes what a generator delegates to. -/
def Setting.sendOp (d : Obj) (v : Value V) : Op V E :=
  if st.slot (some d) then .amSend v
  else if (st.kind d).isGenerator then .send v
  else v.elim .next fun v => .send (some v)

theorem Setting.sendOp_isAmSend (d : Obj) (v : Value V) :
    (st.sendOp d v : Op V E).isAmSend = st.slot (some d) := by
  rw [Setting.sendOp]
  split_ifs with hslot hkind
  · exact hslot.symm
  · exact (Bool.eq_false_of_not_eq_true hslot).symm
  · cases v <;> exact (Bool.eq_false_of_not_eq_true hslot).symm

/-- It is `__next__` or `send` in Python. -/
theorem Setting.sendOp_same (d : Obj) (v : Value V) :
    (st.sendOp d v : Op V E).Same (st.kind d) (v.elim .next fun v => .send (some v)) := by
  rw [Setting.sendOp]
  split_ifs with hslot hkind
  · cases v <;> exact ⟨fun _ => rfl, fun _ => rfl, rfl⟩
  · have hgen : st.kind d = .generator := by
      cases hk : st.kind d with
      | generator => rfl
      | object send throw close amSend =>
        rw [hk] at hkind
        cases hkind
    cases v <;> exact ⟨fun _ => rfl, fun hne => absurd hgen hne, rfl⟩
  · cases v <;> exact ⟨fun _ => rfl, fun _ => rfl, rfl⟩

theorem Op.same_self {op : Op V E} (h : op.isAmSend = false) (kind : Kind) : op.Same kind op := by
  refine ⟨fun _ => rfl, fun _ => ?_, h⟩
  cases op with
  | amSend v => cases h
  | _ => rfl

theorem Corresponds.isRunning {c : CoroutineObject Obj} {t : GenState Obj} (h : Corresponds st c t) :
    c.isRunning = t.isRunning := by
  cases h <;> rfl

/-! ## Ends of steps -/

section

variable [DecidableEq Obj] {s : CompiledState Obj V E} {p : PyState Obj V E} {g : Obj}
  {c : CoroutineObject Obj} {t : GenState Obj} {caller : Caller}

theorem corresponds_update (h : ∀ g, Corresponds st (s.gens g) (p.gens g)) (hg : Corresponds st c t)
    (g' : Obj) :
    Corresponds st (Function.update s.gens g c g') (Function.update p.gens g t g') := by
  rcases eq_or_ne g' g with rfl | hne
  · rw [Function.update_self, Function.update_self]
    exact hg
  · rw [Function.update_of_ne hne, Function.update_of_ne hne]
    exact h g'

theorem SameCalls.runBody (h : SameCalls st s p) (hg : Corresponds st c t)
    (hcaller : caller.isAmSend = awaitsAmSend s.stack) (i : Input V E) :
    Related st (s.runBody g c caller i) (p.runBody g t caller.plain i) where
  gens := corresponds_update h.gens hg
  stack := by simp only [State.runBody, h.stack, List.map_cons, Frame.plain]
  chained := ⟨hcaller, h.chained⟩
  control := .user i rfl

theorem SameCalls.callObject (h : SameCalls st s p) (hg : Corresponds st c t)
    {f f' : Frame Obj V E} (hf' : f' = f.plain) (hf : f.byAmSend = awaitsAmSend s.stack) {d : Obj}
    {op op' : Op V E} (ham : op.isAmSend = awaitsAmSend [f]) (hop : op.Same (st.kind d) op') :
    Related st (s.callObject g c f d op) (p.callObject g t f' d op') where
  gens := corresponds_update h.gens hg
  stack := by simp only [State.callObject, h.stack, hf', List.map_cons]
  chained := ⟨hf, h.chained⟩
  control := by
    refine .call d (ham.trans ?_) hop
    cases f <;> rfl

omit [DecidableEq Obj] in
theorem SameCalls.ret (h : SameCalls st s p) {r : Res V E} (hr : r.Fits (awaitsAmSend s.stack)) :
    Related st { s with control := .ret r } { p with control := .ret r.plain } :=
  ⟨⟨h.gens, h.stack, h.chained⟩, .ret hr⟩

theorem SameCalls.leave (h : SameCalls st s p) (hg : Corresponds st { c with isRunning := false } t)
    (hcaller : caller.isAmSend = awaitsAmSend s.stack) {r : Res V E}
    (hr : caller = .amSend → ∀ e, r = .raised e → e.isStopIteration = false)
    (hclose : caller = .close → ∀ v, r = .returned v → v = none) :
    Related st (leave g c caller r s) (p.reply g t (pyResult caller.plain r)) where
  gens := corresponds_update h.gens hg
  stack := h.stack
  chained := h.chained
  control := by
    have hfits := Caller.result_fits caller r hr
    rw [hcaller] at hfits
    rw [State.reply, pyResult_plain caller r hclose]
    exact .ret hfits

/-- A generator that has finished is left as it is. -/
theorem SameCalls.leave_closed (h : SameCalls st s p) (hc : { c with isRunning := false } = s.gens g)
    {r : Res V E} (hr : (caller.result r).Fits (awaitsAmSend s.stack)) :
    Related st (Coroutine.leave g c caller r s)
      { p with control := .ret (caller.result r).plain } := by
  have hsame : Coroutine.leave g c caller r s = { s with control := .ret (caller.result r) } := by
    rw [Coroutine.leave, State.reply, hc, Function.update_eq_self]
  rw [hsame]
  exact h.ret hr

/-! ## Functions -/

theorem sendEx_of_pos (hc : 0 < c.resumeLabel) (sent : Except (Exc V E) (Value V)) :
    sendEx st g c caller sent s = s.runBody g c caller (sentInput sent) := by
  unfold sendEx
  rw [if_neg (by omega), if_neg (by omega)]

theorem exitBody_related (h : SameCalls st s p) (hcaller : caller.isAmSend = awaitsAmSend s.stack)
    {r : Res V E} (hr : caller = .amSend → ∀ e, r = .raised e → e.isStopIteration = false)
    (hclose : caller = .close → ∀ v, r = .returned v → v = none) :
    Related st (exitBody g c caller r s) (p.reply g .closed (pyResult caller.plain r)) :=
  h.leave .closed hcaller hr hclose

theorem exitError_related (hst : st.generatorStop = true) (h : SameCalls st s p)
    (hcaller : caller.isAmSend = awaitsAmSend s.stack) (e : Exc V E) :
    Related st (exitError st g c caller e s)
      (p.reply g .closed (pyResult caller.plain (.raised (pep479 e)))) := by
  rw [exitError, replaceStopIteration_eq hst]
  refine exitBody_related h hcaller (fun _ e' he' => ?_) fun _ v hv => by cases hv
  cases he'
  exact pep479_isStopIteration e

/-! ### Calls of generators -/

theorem pyCall_normal (kind : Obj → Kind) (op : Op V E) :
    pyCall kind g op.normal p = pyCall kind g op p := by
  rcases op with _ | ⟨_ | v⟩ | e | _ | ⟨_ | v⟩ <;> rfl

theorem pyCall_of_isRunning {kind : Obj → Kind} (h : (p.gens g).isRunning = true) (op : Op V E) :
    pyCall kind g op p = { p with control := .ret (.raised alreadyExecuting) } := by
  obtain ⟨yf, hyf⟩ : ∃ yf, p.gens g = .running yf := by
    cases hp : p.gens g with
    | running yf => exact ⟨yf, rfl⟩
    | _ =>
      rw [hp] at h
      cases h
  cases op <;> simp only [pyCall, pySend, pyThrow, pyClose, hyf]

/-- A generator is resumed that delegates. -/
theorem delegate_related (h : SameCalls st s p) {label : ℤ} (hlabel : 0 < label) (d : Obj)
    (hcaller : caller.isAmSend = awaitsAmSend s.stack) {amSend : Bool} {op op' : Op V E}
    (ham : op.isAmSend = amSend) (hop : op.Same (st.kind d) op') :
    Related st
      (s.callObject g ⟨label, true, some d, st.slot (some d)⟩ (.delegate g caller amSend) d op)
      (p.callObject g (.running (some d)) (.delegate g caller.plain false) d op') :=
  h.callObject (f := .delegate g caller amSend) (.running (some d) hlabel.le fun _ => hlabel) rfl
    hcaller ham hop

/-- A method of what a generator delegates to is called. -/
theorem callMethod_related (h : SameCalls st s p) {label : ℤ} (hlabel : 0 < label) (d : Obj)
    {f : Frame Obj V E} (hf : f = f.plain) (hby : f.byAmSend = awaitsAmSend s.stack)
    (haw : false = awaitsAmSend [f]) {op : Op V E} (hop : op.isAmSend = false) :
    Related st (s.callObject g ⟨label, true, some d, st.slot (some d)⟩ f d op)
      (p.callObject g (.running (some d)) f d op) :=
  h.callObject (.running (some d) hlabel.le fun _ => hlabel) hf hby (hop.trans haw)
    (Op.same_self hop (st.kind d))

theorem amSend_delegate (label : ℤ) (d : Obj) (v : Value V) :
    amSend st g ⟨label, true, some d, st.slot (some d)⟩ caller v s =
      s.callObject g ⟨label, true, some d, st.slot (some d)⟩ (.delegate g caller (st.slot (some d))) d
        (st.sendOp d v) := by
  unfold amSend Setting.sendOp
  cases st.slot (some d) <;> rfl

theorem amSend_of_none (label : ℤ) (b : Bool) (v : Value V) :
    amSend st g ⟨label, true, none, b⟩ caller v s =
      sendEx st g ⟨label, true, none, b⟩ caller (.ok v) s := by
  unfold amSend
  cases b <;> rfl

/-- The calls that resume a generator: `__next__`, `send` and `am_send`. -/
theorem amSend_related (h : SameCalls st s p) (hc : s.gens g = c) (ht : p.gens g = t)
    (hct : Corresponds st c t) (hg : c.isRunning = false)
    (hcaller : caller.isAmSend = awaitsAmSend s.stack) (hclose : caller ≠ .close) {v : Value V}
    (hstarted : c.resumeLabel = 0 → v = none) (hresumed : c.resumeLabel = -1 → caller = .method) :
    Related st (amSend st g { c with isRunning := true } caller v s) (pySend g v p) := by
  have hplain : caller.plain = .method := by
    cases caller with
    | amSend => rfl
    | method => rfl
    | close => exact absurd rfl hclose
  cases hct with
  | created =>
    obtain rfl := hstarted rfl
    simp only [pySend, ht, ← hplain]
    exact h.runBody (.running none le_rfl fun hne => absurd rfl hne) hcaller _
  | suspended yf hlabel =>
    cases yf with
    | none =>
      simp only [pySend, ht, ← hplain]
      rw [amSend_of_none, sendEx_of_pos (by exact hlabel)]
      exact h.runBody (.running none hlabel.le fun _ => hlabel) hcaller _
    | some d =>
      simp only [pySend, ht, ← hplain]
      rw [amSend_delegate]
      exact delegate_related h hlabel d hcaller (st.sendOp_isAmSend d v) (st.sendOp_same d v)
  | running yf h₀ h₁ => cases hg
  | closed =>
    obtain rfl := hresumed rfl
    simp only [pySend, ht]
    exact h.leave_closed hc.symm fun hfalse => by
      rw [← hcaller] at hfalse
      cases hfalse

theorem Op.same_next (b : Bool) (kind : Kind) :
    (if b then .amSend none else .next : Op V E).Same kind .next := by
  cases b <;> exact ⟨fun _ => rfl, fun _ => rfl, rfl⟩

theorem generatorNext_delegate (label : ℤ) (d : Obj) :
    generatorNext st g ⟨label, true, some d, st.slot (some d)⟩ s =
      s.callObject g ⟨label, true, some d, st.slot (some d)⟩ (.delegate g .method (st.slot (some d))) d
        (if st.slot (some d) then .amSend none else .next) := by
  unfold generatorNext
  cases st.slot (some d) <;> rfl

/-- `__next__` -/
theorem generatorNext_related (h : SameCalls st s p) (hc : s.gens g = c) (ht : p.gens g = t)
    (hct : Corresponds st c t) (hg : c.isRunning = false)
    (hcaller : Caller.method.isAmSend = awaitsAmSend s.stack) :
    Related st (generatorNext st g { c with isRunning := true } s) (pySend g none p) := by
  by_cases hyf : c.yieldfrom = none
  · have heq : generatorNext st g { c with isRunning := true } s =
        amSend st g { c with isRunning := true } .method none s := by
      unfold generatorNext amSend
      simp only [hyf]
    rw [heq]
    exact amSend_related h hc ht hct hg hcaller (by simp) (fun _ => rfl) fun _ => rfl
  · cases hct with
    | created => exact absurd rfl hyf
    | suspended yf hlabel =>
      obtain ⟨d, rfl⟩ := Option.ne_none_iff_exists'.1 hyf
      simp only [pySend, ht]
      rw [generatorNext_delegate]
      refine delegate_related h hlabel d hcaller ?_ (Op.same_next _ _)
      cases st.slot (some d) <;> rfl
    | running yf h₀ h₁ => cases hg
    | closed => exact absurd rfl hyf

/-- `throw` -/
theorem throw_related (hst : st.generatorStop = true) (h : SameCalls st s p) (hc : s.gens g = c)
    (ht : p.gens g = t) (hct : Corresponds st c t) (hg : c.isRunning = false)
    (hcaller : Caller.method.isAmSend = awaitsAmSend s.stack) (e : Exc V E) :
    Related st (throw st g { c with isRunning := true } e s) (pyThrow st.kind g e p) := by
  cases hct with
  | created =>
    simp only [pyThrow, ht]
    exact exitError_related hst h hcaller e
  | @suspended label yf hlabel =>
    have hbody : Related st
        (sendEx st g ⟨label, true, none, false⟩ .method (.error e) s)
        (p.runBody g (.running none) .method (.exc e)) := by
      rw [sendEx_of_pos (by exact hlabel)]
      exact h.runBody (.running none hlabel.le fun _ => hlabel) hcaller _
    cases yf with
    | none =>
      simp only [pyThrow, ht]
      exact hbody
    | some d =>
      simp only [pyThrow, ht, throw]
      split_ifs
      · refine callMethod_related h hlabel d rfl ?_ rfl rfl
        exact hcaller
      · exact hbody
      · refine callMethod_related h hlabel d rfl ?_ rfl rfl
        exact hcaller
      · exact hbody
  | running yf h₀ h₁ => cases hg
  | closed =>
    simp only [pyThrow, ht]
    exact h.leave_closed hc.symm fun hfalse => by
      rw [← hcaller] at hfalse
      cases hfalse

/-- `close` -/
theorem close_related (hst : st.generatorStop = true) (h : SameCalls st s p) (hc : s.gens g = c)
    (ht : p.gens g = t) (hct : Corresponds st c t) (hg : c.isRunning = false)
    (hcaller : Caller.close.isAmSend = awaitsAmSend s.stack) :
    Related st (close st g { c with isRunning := true } s) (pyClose st.kind g p) := by
  cases hct with
  | created =>
    simp only [pyClose, ht]
    exact exitError_related hst h hcaller .generatorExit
  | @suspended label yf hlabel =>
    have hbody : Related st
        (sendEx st g ⟨label, true, none, false⟩ .close (.error .generatorExit) s)
        (p.runBody g (.running none) .close (.exc .generatorExit)) := by
      rw [sendEx_of_pos (by exact hlabel)]
      exact h.runBody (.running none hlabel.le fun _ => hlabel) hcaller _
    cases yf with
    | none =>
      simp only [pyClose, ht]
      exact hbody
    | some d =>
      simp only [pyClose, ht, close]
      split_ifs
      · refine callMethod_related h hlabel d rfl ?_ rfl rfl
        exact hcaller
      · exact hbody
  | running yf h₀ h₁ => cases hg
  | closed =>
    simp only [pyClose, ht]
    have hfits : (Caller.close.result (.raised .generatorExit) : Res V E).Fits
        (awaitsAmSend s.stack) := trivial
    exact h.leave_closed hc.symm hfits

/-- A call of a generator. -/
theorem callGenerator_related (hst : st.generatorStop = true) (h : SameCalls st s p) {op op' : Op V E}
    (ham : op.isAmSend = awaitsAmSend s.stack) (hop : op'.normal = op.normal)
    (hstarted : (s.gens g).isRunning = false → (s.gens g).resumeLabel = 0 → op.sends = none)
    (hresumed : (s.gens g).isRunning = false → (s.gens g).resumeLabel = -1 → op.isAmSend = false) :
    Related st (callGenerator st g op s) (pyCall st.kind g op' p) := by
  rw [← pyCall_normal, hop, pyCall_normal]
  cases hg : (s.gens g).isRunning with
  | true =>
    have hpy : pyCall st.kind g op p = { p with control := .ret (.raised alreadyExecuting) } :=
      pyCall_of_isRunning ((h.gens g).isRunning.symm.trans hg) op
    rw [callGenerator, if_pos hg, hpy]
    exact h.ret (Res.fits_raised rfl _)
  | false =>
    have hct := h.gens g
    rw [callGenerator, if_neg (by simp [hg])]
    cases op with
    | next => exact generatorNext_related h rfl rfl hct hg ham
    | send v =>
      have hcaller : Caller.method.isAmSend = awaitsAmSend s.stack := ham
      exact amSend_related h rfl rfl hct hg hcaller (by simp) (hstarted hg) fun _ => rfl
    | amSend v =>
      have hcaller : Caller.amSend.isAmSend = awaitsAmSend s.stack := ham
      exact amSend_related h rfl rfl hct hg hcaller (by simp) (hstarted hg) fun hlabel => by
        cases hresumed hg hlabel
    | throw e => exact throw_related hst h rfl rfl hct hg ham e
    | close => exact close_related hst h rfl rfl hct hg ham

/-! ### Results of calls -/

/-- A body goes on after a delegation. -/
theorem resume_related (h : SameCalls st s p) (hct : Corresponds st (s.gens g) (p.gens g)) {d : Obj}
    (hp : p.gens g = .running (some d)) (hcaller : caller.isAmSend = awaitsAmSend s.stack)
    (sent : Except (Exc V E) (Value V)) :
    Related st (sendEx st g (s.gens g).undelegate caller sent s)
      (p.runBody g (.running none) caller.plain (sentInput sent)) := by
  rw [hp] at hct
  generalize hc : s.gens g = c at hct
  cases hct with
  | @running label yf h₀ h₁ =>
    have hlabel : 0 < label := h₁ (Option.some_ne_none d)
    rw [sendEx_of_pos (by exact hlabel)]
    exact h.runBody (.running none h₀ fun _ => hlabel) hcaller _

/-- A generator yields what it delegates to has yielded. -/
theorem yieldFrom_related (h : SameCalls st s p) (hct : Corresponds st (s.gens g) (p.gens g))
    {d : Obj} (hp : p.gens g = .running (some d)) (hcaller : caller.isAmSend = awaitsAmSend s.stack)
    (v : Value V) :
    Related st (leave g (s.gens g) caller (.value v) s)
      (p.reply g (.suspended (p.gens g).yieldfrom) (pyResult caller.plain (.value v))) := by
  rw [hp] at hct ⊢
  generalize hc : s.gens g = c at hct
  cases hct with
  | running yf h₀ h₁ =>
    refine h.leave (.suspended (some d) (h₁ (Option.some_ne_none d))) hcaller ?_ ?_
    · rintro - e he
      cases he
    · rintro - v hv
      cases hv

/-- What a frame makes of a result. -/
theorem returnTo_related (h : SameCalls st s p) {f : Frame Obj V E}
    (hf : f.plain.Fits p.gens) (hobject : f.owner ≠ none) (hbody : ∀ g caller, f ≠ .body g caller)
    (hby : f.byAmSend = awaitsAmSend s.stack) {r : Res V E} (hr : r.Fits (awaitsAmSend [f])) :
    Related st (returnTo st f r s) (pyReturnTo f.plain r.plain p) := by
  cases f with
  | object o caller => exact absurd rfl hobject
  | body g caller => exact absurd rfl (hbody g caller)
  | starting g caller label d =>
    have hp : p.gens g = .running none := hf
    have hct := h.gens g
    rw [hp] at hct
    have hbody : Related st
        (s.runBody g (s.gens g) caller (sentInput r.fetchStopIterationValue))
        (p.runBody g (.running none) caller.plain (sentInput r.plain.fetchStopIterationValue)) := by
      rw [Res.fetchStopIterationValue_plain]
      exact h.runBody hct hby _
    cases r with
    | value v =>
      have hlabel : (0 : ℤ) < label + 1 := Int.lt_add_one_iff.2 (Int.natCast_nonneg label)
      refine h.leave (.suspended (some d) hlabel) hby ?_ ?_
      · rintro - e he
        cases he
      · rintro - v hv
        cases hv
    | returned v => exact hbody
    | raised e => exact hbody
  | delegate g caller amSend =>
    obtain ⟨d, hp⟩ : ∃ d, p.gens g = .running (some d) := hf
    have hct := h.gens g
    cases r with
    | value v => cases amSend <;> exact yieldFrom_related h hct hp hby v
    | returned v => cases amSend <;> exact resume_related h hct hp hby (.ok v)
    | raised e =>
      have hresume := resume_related h hct hp hby
      cases amSend with
      | true =>
        have he : (Res.raised e : Res V E).fetchStopIterationValue = .error e := by
          have hstop : e.isStopIteration = false := hr rfl
          cases e with
          | stopIteration v => cases hstop
          | _ => rfl
        simp only [returnTo, pyReturnTo, Frame.plain, Res.plain, he]
        exact hresume (.error e)
      | false => exact hresume _
  | throwing g =>
    obtain ⟨d, hp⟩ : ∃ d, p.gens g = .running (some d) := hf
    have hct := h.gens g
    have hcaller : Caller.method.isAmSend = awaitsAmSend s.stack := hby
    cases r with
    | value v => exact yieldFrom_related h hct hp hcaller v
    | returned v => exact resume_related h hct hp hcaller (.ok v)
    | raised e => exact resume_related h hct hp hcaller _
  | closing g e =>
    obtain ⟨d, hp⟩ : ∃ d, p.gens g = .running (some d) := hf
    have hct := h.gens g
    have hmethod : Caller.method.isAmSend = awaitsAmSend s.stack := hby
    have hclose : Caller.close.isAmSend = awaitsAmSend s.stack := hby
    cases r with
    | value v =>
      cases e with
      | none => exact resume_related h hct hp hclose (.error .generatorExit)
      | some e => exact resume_related h hct hp hmethod (.error e)
    | returned v => cases hr
    | raised e' =>
      cases e with
      | none => exact resume_related h hct hp hclose (.error e')
      | some e => exact resume_related h hct hp hmethod (.error e')

/-- What a body does. -/
theorem bodyStep_related (hst : st.generatorStop = true) (h : SameCalls st s p)
    (hp : p.gens g = .running none) (hcaller : caller.isAmSend = awaitsAmSend s.stack)
    {event : Event Obj V E} (hclosed : caller = .close → ∀ v, event = .return v → v = none) :
    Option.Rel (Related st) (bodyStep st g caller event s) (pyBodyStep g caller.plain event p) := by
  have hct := h.gens g
  rw [hp] at hct
  cases event with
  | call o op => exact .none
  | yield label v =>
    refine .some (h.leave ?_ hcaller ?_ ?_)
    · generalize hc : s.gens g = c at hct
      cases hct with
      | running yf h₀ h₁ =>
        exact .suspended none (Int.lt_add_one_iff.2 (Int.natCast_nonneg label))
    · rintro - e he
      cases he
    · rintro - v hv
      cases hv
  | yieldFrom label d =>
    refine .some (h.callObject hct rfl ?_ rfl (Op.same_self rfl (st.kind d)))
    exact hcaller
  | «return» v =>
    refine .some (exitBody_related h hcaller ?_ ?_)
    · rintro - e he
      cases he
    · rintro hclose v' hv'
      cases hv'
      exact hclosed hclose v rfl
  | raise e => exact .some (exitError_related hst h hcaller e)

/-! ### Steps -/

omit [DecidableEq Obj] in
/-- The code of an object is entered. -/
theorem enterObject_related (h : SameCalls st s p) {op op' : Op V E}
    (ham : op.isAmSend = awaitsAmSend s.stack) (hop : op' = op.plain) (hop' : op'.isAmSend = false)
    (o : Obj) (send throw close : Bool) :
    Related st (s.enterObject o op send throw close) (p.enterObject o op' send throw close) := by
  have hmissing (name : String) : Related st
      { s with control := .ret (.raised (.attributeError name)) }
      { p with control := .ret (.raised (.attributeError name)) } := h.ret (Res.fits_raised rfl _)
  have henter : Related st
      { s with
        stack := .object o (if op.isAmSend then .amSend else .method) :: s.stack
        control := .user (.called op.plain) }
      { p with stack := .object o .method :: p.stack, control := .user (.called op'.plain) } := by
    refine ⟨⟨h.gens, ?_, ?_, h.chained⟩, ?_⟩
    · rw [h.stack, List.map_cons]
      cases op.isAmSend <;> rfl
    · rw [← ham]
      cases op.isAmSend <;> rfl
    · rw [hop, Op.plain_plain]
      exact .user _ rfl
  have hplain : op'.plain = op.plain := by rw [hop, Op.plain_plain]
  rw [hplain] at henter
  unfold State.enterObject
  rw [hop', hplain]
  generalize op.plain = method at henter
  cases method with
  | next => exact henter
  | amSend v => exact henter
  | send v =>
    cases send with
    | true => exact henter
    | false => exact hmissing _
  | throw e =>
    cases throw with
    | true => exact henter
    | false => exact hmissing _
  | close =>
    cases close with
    | true => exact henter
    | false => exact hmissing _

/-- A call. -/
theorem stepCall_related (hst : st.generatorStop = true) (h : SameCalls st s p) {o : Obj}
    {op op' : Op V E} (ham : op.isAmSend = awaitsAmSend s.stack) (hop : op.Same (st.kind o) op')
    (hc : s.control = .call o op) (hm : Meets st s none) :
    Related st ((generators st).stepCall st.kind o op s)
      ((pyGenerators st.kind).stepCall st.kind o op' p) := by
  unfold Machine.stepCall
  cases hk : st.kind o with
  | generator =>
    exact callGenerator_related hst h ham (hop.generator hk) (hm.started o op hc hk)
      (hm.resumed o op hc hk)
  | object send throw close amSend =>
    exact enterObject_related h ham (hop.object (by simp [hk])) hop.isAmSend o send throw close

/-- A result, for the upper frame. -/
theorem stepReturn_related (h : SameCalls st s p) (hp : Activated p.gens p.stack) {r : Res V E}
    (hr : r.Fits (awaitsAmSend s.stack)) :
    Related st ((generators st).stepReturn r s) ((pyGenerators st.kind).stepReturn r.plain p) := by
  have huser (hawaits : awaitsAmSend s.stack = false) :
      Related st { s with control := .user r.input } { p with control := .user r.plain.input } := by
    refine ⟨⟨h.gens, h.stack, h.chained⟩, ?_⟩
    cases r <;> exact .user _ hawaits
  obtain ⟨hgens, hstack, hchained⟩ := h
  unfold Machine.stepReturn
  rw [hstack] at hp ⊢
  cases hs : s.stack with
  | nil =>
    rw [hstack, hs] at huser
    exact huser rfl
  | cons f stack =>
    rw [hs] at hp hr hchained
    rw [hstack, hs] at huser
    have hr' : r.Fits (awaitsAmSend [f]) := by cases f <;> exact hr
    have hsame : SameCalls st { s with stack } { p with stack := stack.map Frame.plain } :=
      ⟨hgens, rfl, hchained.2⟩
    have hfits := hp.fits f.plain List.mem_cons_self
    have hreturn (howner : f.owner ≠ none) (hbody : ∀ g caller, f ≠ .body g caller) :=
      returnTo_related hsame hfits howner hbody hchained.1 hr'
    cases f with
    | object o caller => exact huser rfl
    | body g caller => exact huser rfl
    | starting g caller label d => exact hreturn (by simp [Frame.owner]) (by simp)
    | delegate g caller amSend => exact hreturn (by simp [Frame.owner]) (by simp)
    | throwing g => exact hreturn (by simp [Frame.owner]) (by simp)
    | closing g e => exact hreturn (by simp [Frame.owner]) (by simp)

omit [DecidableEq Obj] in
/-- A result of the code of an object. -/
theorem objectResult_related (h : SameCalls st s p) (hcaller : caller.isAmSend = awaitsAmSend s.stack)
    (event : Event Obj V E) :
    Option.Rel (Related st)
      ((objectResult caller event).map fun r => { s with control := .ret r })
      ((objectResult caller.plain event).map fun r => { p with control := .ret r }) := by
  cases event with
  | «return» v =>
    cases caller <;> exact .some (h.ret (r := .value v) trivial)
  | raise e =>
    cases caller with
    | amSend =>
      cases e with
      | stopIteration v => exact .some (h.ret (r := .returned v) hcaller.symm)
      | _ => exact .some (h.ret (Res.fits_raised rfl _))
    | method =>
      have hresult : objectResult .method (.raise e : Event Obj V E) = some (.raised e) := by
        cases e <;> rfl
      rw [show Caller.method.plain = .method from rfl, hresult]
      refine .some (h.ret (r := .raised e) fun hawaits => ?_)
      rw [← hcaller] at hawaits
      cases hawaits
    | close =>
      have hresult : objectResult .close (.raise e : Event Obj V E) = some (.raised e) := by
        cases e <;> rfl
      rw [show Caller.close.plain = .close from rfl, hresult]
      refine .some (h.ret (r := .raised e) fun hawaits => ?_)
      rw [← hcaller] at hawaits
      cases hawaits
  | _ => cases caller <;> exact .none

/-- What user code does. -/
theorem stepUser_related (hst : st.generatorStop = true) (h : SameCalls st s p)
    (hp : Activated p.gens p.stack) (hawaits : awaitsAmSend s.stack = false)
    {event : Event Obj V E} (hm : Meets st s (some event)) :
    Option.Rel (Related st) ((generators st).stepUser event s)
      ((pyGenerators st.kind).stepUser event p) := by
  by_cases hcall : ∃ o op, event = .call o op
  · obtain ⟨o, op, rfl⟩ := hcall
    cases ham : op.isAmSend with
    | true =>
      simp only [Machine.stepUser, ham, if_true]
      exact .none
    | false =>
      simp only [Machine.stepUser, ham]
      exact .some ⟨⟨h.gens, h.stack, h.chained⟩,
        .call o (ham.trans hawaits.symm) (Op.same_self ham (st.kind o))⟩
  · obtain ⟨hgens, hstack, hchained⟩ := h
    have hcalls (o : Obj) (op : Op V E) : event ≠ .call o op := fun h => hcall ⟨o, op, h⟩
    have hother (hs : ∀ f ∈ s.stack.head?, f.runsUser = false) :
        Option.Rel (Related st) ((generators st).stepUser event s)
          ((pyGenerators st.kind).stepUser event p) := by
      rw [Machine.stepUser_none hcalls hs, Machine.stepUser_none hcalls fun f hf => ?_]
      · exact .none
      · rw [hstack, List.head?_map, Option.mem_map] at hf
        obtain ⟨f', hf', rfl⟩ := hf
        rw [Frame.runsUser_plain]
        exact hs f' hf'
    cases hs : s.stack with
    | nil => exact hother (by simp [hs])
    | cons f stack =>
      rw [hs] at hchained
      rw [hs, List.map_cons] at hstack
      rw [hstack] at hp
      have hsame : SameCalls st { s with stack } { p with stack := stack.map Frame.plain } :=
        ⟨hgens, rfl, hchained.2⟩
      have hfits := hp.fits f.plain List.mem_cons_self
      cases f with
      | body g caller =>
        rw [Machine.stepUser_body hcalls hs, Machine.stepUser_body hcalls hstack]
        exact bodyStep_related hst hsame hfits hchained.1 fun hclose v hv =>
          hm.closed g stack v (by rw [hs, hclose]) (by rw [hv])
      | object o caller =>
        rw [Machine.stepUser_object hcalls hs, Machine.stepUser_object hcalls hstack]
        exact objectResult_related hsame hchained.1 event
      | _ => exact hother (by simp [hs, Frame.runsUser])

/-- A step leads from related states to related states. -/
theorem step_related (hst : st.generatorStop = true) (h : Related st s p)
    (hp : Activated p.gens p.stack) {event : Option (Event Obj V E)} (hm : Meets st s event) :
    Option.Rel (Related st) ((generators st).step st.kind s event)
      ((pyGenerators st.kind).step st.kind p event) := by
  obtain ⟨hsame, hcontrol⟩ := h
  generalize hc : s.control = control at hcontrol
  generalize hc' : p.control = control' at hcontrol
  simp only [Machine.step, hc, hc']
  cases hcontrol with
  | user i hawaits =>
    cases event with
    | none => exact .none
    | some event => exact stepUser_related hst hsame hp hawaits hm
  | call o ham hop =>
    cases event with
    | some event => exact .none
    | none => exact .some (stepCall_related hst hsame ham hop hc hm)
  | ret hr =>
    cases event with
    | some event => exact .none
    | none => exact .some (stepReturn_related hsame hp hr)

end

end AHPy.Coroutine
