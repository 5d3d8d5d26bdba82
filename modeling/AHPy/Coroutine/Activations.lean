import AHPy.Coroutine.Generators

/-!
# Generators that run

A generator of Python runs exactly while there is a frame for it, and there is never a second
one. Its state is known from the frame.

* `Activated`: the generators that run, and their frames;
* `ActivatedBut.stop`, `ActivatedBut.start`: what steps do to one generator;
* `pyStep_kept`: every step keeps the invariant, and closed generators stay closed.
-/

namespace AHPy.Coroutine

variable {Obj V E : Type}

/-- The generator that a frame belongs to. -/
def Frame.owner : Frame Obj V E → Option Obj
  | .object _ _ => none
  | .body g _ => some g
  | .starting g _ _ _ => some g
  | .delegate g _ _ => some g
  | .throwing g => some g
  | .closing g _ => some g

/-- The generators that have a frame. -/
def owners (stack : List (Frame Obj V E)) : List Obj := stack.filterMap Frame.owner

def GenState.isRunning : GenState Obj → Bool
  | .running _ => true
  | _ => false

/-- The state of the generator that a frame belongs to: it delegates while it calls a method of an
    iterator, but for the first time. -/
def Frame.Fits (gens : Obj → GenState Obj) : Frame Obj V E → Prop
  | .object _ _ => True
  | .body g _ => gens g = .running none
  | .starting g _ _ _ => gens g = .running none
  | .delegate g _ _ => ∃ d, gens g = .running (some d)
  | .throwing g => ∃ d, gens g = .running (some d)
  | .closing g _ => ∃ d, gens g = .running (some d)

/-- The generators that run are those that have a frame, and each has one. -/
structure Activated (gens : Obj → GenState Obj) (stack : List (Frame Obj V E)) : Prop where
  fits : ∀ f ∈ stack, f.Fits gens
  nodup : (owners stack).Nodup
  running : ∀ g, (gens g).isRunning = true → g ∈ owners stack

/-- The same, but for a generator that has no frame. -/
structure ActivatedBut (gens : Obj → GenState Obj) (stack : List (Frame Obj V E)) (g : Obj) :
    Prop where
  fits : ∀ f ∈ stack, f.Fits gens
  nodup : (owners stack).Nodup
  not_mem : g ∉ owners stack
  running : ∀ g', g' ≠ g → (gens g').isRunning = true → g' ∈ owners stack

variable {gens : Obj → GenState Obj} {stack : List (Frame Obj V E)} {f : Frame Obj V E} {g : Obj}

theorem Frame.Fits.isRunning (h : f.Fits gens) (hf : f.owner = some g) :
    (gens g).isRunning = true := by
  cases f with
  | object o caller => cases hf
  | body g' caller =>
    obtain rfl : g' = g := Option.some.inj hf
    rw [show gens g' = .running none from h]
    rfl
  | starting g' caller label d =>
    obtain rfl : g' = g := Option.some.inj hf
    rw [show gens g' = .running none from h]
    rfl
  | delegate g' caller amSend =>
    obtain rfl : g' = g := Option.some.inj hf
    obtain ⟨d, hd⟩ := h
    rw [hd]
    rfl
  | throwing g' =>
    obtain rfl : g' = g := Option.some.inj hf
    obtain ⟨d, hd⟩ := h
    rw [hd]
    rfl
  | closing g' e =>
    obtain rfl : g' = g := Option.some.inj hf
    obtain ⟨d, hd⟩ := h
    rw [hd]
    rfl

/-- A frame whose generator runs is not that of a closed one. -/
theorem Frame.Fits.ne_closed (h : f.Fits gens) (hf : f.owner = some g) : gens g ≠ .closed := by
  intro hclosed
  have hrun := h.isRunning hf
  rw [hclosed] at hrun
  cases hrun

theorem mem_owners : g ∈ owners stack ↔ ∃ f ∈ stack, f.owner = some g := List.mem_filterMap

theorem Activated.isRunning (h : Activated gens stack) (hg : g ∈ owners stack) :
    (gens g).isRunning = true := by
  obtain ⟨f, hf, hown⟩ := mem_owners.1 hg
  exact (h.fits f hf).isRunning hown

/-- A generator that does not run has no frame. -/
theorem Activated.but (h : Activated gens stack) (hg : (gens g).isRunning = false) :
    ActivatedBut gens stack g where
  fits := h.fits
  nodup := h.nodup
  not_mem hmem := by
    rw [h.isRunning hmem] at hg
    cases hg
  running g' _ := h.running g'

/-- Without the upper frame. -/
theorem Activated.tail (h : Activated gens (f :: stack)) (hf : f.owner = some g) :
    ActivatedBut gens stack g := by
  have howners : owners (f :: stack) = g :: owners stack := List.filterMap_cons_some hf
  have hnodup := h.nodup
  rw [howners, List.nodup_cons] at hnodup
  refine ⟨fun f' hf' => h.fits f' (List.mem_cons_of_mem f hf'), hnodup.2, hnodup.1,
    fun g' hne hrun => ?_⟩
  have hmem := h.running g' hrun
  rw [howners, List.mem_cons] at hmem
  exact hmem.resolve_left hne

section

variable [DecidableEq Obj] {t : GenState Obj}

theorem Frame.Fits.update (h : f.Fits gens) (hf : f.owner ≠ some g) :
    f.Fits (Function.update gens g t) := by
  have hne (g' : Obj) (hown : f.owner = some g') : Function.update gens g t g' = gens g' :=
    Function.update_of_ne (fun heq : g' = g => hf (heq ▸ hown)) _ _
  cases f with
  | object o caller => trivial
  | body g' caller => exact (hne g' rfl).trans h
  | starting g' caller label d => exact (hne g' rfl).trans h
  | delegate g' caller amSend =>
    obtain ⟨d, hd⟩ := h
    exact ⟨d, (hne g' rfl).trans hd⟩
  | throwing g' =>
    obtain ⟨d, hd⟩ := h
    exact ⟨d, (hne g' rfl).trans hd⟩
  | closing g' e =>
    obtain ⟨d, hd⟩ := h
    exact ⟨d, (hne g' rfl).trans hd⟩

theorem ActivatedBut.fits_update (h : ActivatedBut gens stack g) :
    ∀ f ∈ stack, f.Fits (Function.update gens g t) := fun f hf =>
  (h.fits f hf).update fun hown => h.not_mem (mem_owners.2 ⟨f, hf, hown⟩)

/-- The generator does not run, or not any more. -/
theorem ActivatedBut.stop (h : ActivatedBut gens stack g) (ht : t.isRunning = false) :
    Activated (Function.update gens g t) stack := by
  refine ⟨h.fits_update, h.nodup, fun g' hrun => ?_⟩
  rcases eq_or_ne g' g with rfl | hne
  · rw [Function.update_self, ht] at hrun
    cases hrun
  · rw [Function.update_of_ne hne] at hrun
    exact h.running g' hne hrun

/-- The generator runs. -/
theorem ActivatedBut.start (h : ActivatedBut gens stack g) (hf : f.owner = some g)
    (hfits : f.Fits (Function.update gens g t)) :
    Activated (Function.update gens g t) (f :: stack) := by
  have howners : owners (f :: stack) = g :: owners stack := List.filterMap_cons_some hf
  refine ⟨List.forall_mem_cons.2 ⟨hfits, h.fits_update⟩, ?_, fun g' hrun => ?_⟩
  · rw [howners, List.nodup_cons]
    exact ⟨h.not_mem, h.nodup⟩
  · rw [howners, List.mem_cons]
    rcases eq_or_ne g' g with rfl | hne
    · exact .inl rfl
    · rw [Function.update_of_ne hne] at hrun
      exact .inr (h.running g' hne hrun)

end

/-! ## Steps -/

/-- The invariant holds, and generators that were closed are closed. -/
structure Kept (gens : Obj → GenState Obj) (s' : PyState Obj V E) : Prop where
  activated : Activated s'.gens s'.stack
  closed : ∀ g, gens g = .closed → s'.gens g = .closed

section

variable [DecidableEq Obj] {kind : Obj → Kind} {s : PyState Obj V E}

omit [DecidableEq Obj] in
theorem Activated.kept (h : Activated s.gens s.stack) (c : Control Obj V E) :
    Kept s.gens { s with control := c } :=
  ⟨h, fun _ hg => hg⟩

theorem update_closed (hg : s.gens g ≠ .closed) (t : GenState Obj) (g' : Obj)
    (hclosed : s.gens g' = .closed) : Function.update s.gens g t g' = .closed := by
  rw [Function.update_of_ne (fun heq : g' = g => hg (heq ▸ hclosed)), hclosed]

theorem ActivatedBut.reply (h : ActivatedBut s.gens s.stack g) (hg : s.gens g ≠ .closed)
    {t : GenState Obj} (ht : t.isRunning = false) (r : Res V E) : Kept s.gens (s.reply g t r) :=
  ⟨h.stop ht, update_closed hg t⟩

theorem ActivatedBut.runBody (h : ActivatedBut s.gens s.stack g) (hg : s.gens g ≠ .closed)
    (caller : Caller) (i : Input V E) : Kept s.gens (s.runBody g (.running none) caller i) :=
  ⟨h.start rfl (Function.update_self _ _ _), update_closed hg _⟩

theorem ActivatedBut.callObject (h : ActivatedBut s.gens s.stack g) (hg : s.gens g ≠ .closed)
    {t : GenState Obj} (hf : f.owner = some g) (hfits : f.Fits (Function.update s.gens g t)) (d : Obj)
    (op : Op V E) : Kept s.gens (s.callObject g t f d op) :=
  ⟨h.start hf hfits, update_closed hg t⟩

theorem pySend_kept (h : Activated s.gens s.stack) (g : Obj) (v : Value V) :
    Kept s.gens (pySend g v s) := by
  cases hg : s.gens g with
  | created =>
    have hbut := h.but (g := g) (by rw [hg]; rfl)
    simp only [pySend, hg]
    cases v with
    | none => exact hbut.runBody (by simp [hg]) _ _
    | some v => exact h.kept _
  | suspended yf =>
    have hbut := h.but (g := g) (by rw [hg]; rfl)
    cases yf with
    | none =>
      simp only [pySend, hg]
      exact hbut.runBody (by simp [hg]) _ _
    | some d =>
      simp only [pySend, hg]
      refine hbut.callObject (by simp [hg]) rfl ?_ _ _
      exact ⟨d, Function.update_self _ _ _⟩
  | running yf =>
    simp only [pySend, hg]
    exact h.kept _
  | closed =>
    simp only [pySend, hg]
    exact h.kept _

theorem pyThrow_kept (h : Activated s.gens s.stack) (g : Obj) (e : Exc V E) :
    Kept s.gens (pyThrow kind g e s) := by
  cases hg : s.gens g with
  | created =>
    simp only [pyThrow, hg]
    exact (h.but (g := g) (by rw [hg]; rfl)).reply (by simp [hg]) rfl _
  | suspended yf =>
    have hbut := h.but (g := g) (by rw [hg]; rfl)
    cases yf with
    | none =>
      simp only [pyThrow, hg]
      exact hbut.runBody (by simp [hg]) _ _
    | some d =>
      simp only [pyThrow, hg]
      split_ifs
      · refine hbut.callObject (by simp [hg]) rfl ?_ _ _
        exact ⟨d, Function.update_self _ _ _⟩
      · exact hbut.runBody (by simp [hg]) _ _
      · refine hbut.callObject (by simp [hg]) rfl ?_ _ _
        exact ⟨d, Function.update_self _ _ _⟩
      · exact hbut.runBody (by simp [hg]) _ _
  | running yf =>
    simp only [pyThrow, hg]
    exact h.kept _
  | closed =>
    simp only [pyThrow, hg]
    exact h.kept _

theorem pyClose_kept (h : Activated s.gens s.stack) (g : Obj) :
    Kept s.gens (pyClose kind g s) := by
  cases hg : s.gens g with
  | created =>
    simp only [pyClose, hg]
    exact (h.but (g := g) (by rw [hg]; rfl)).reply (by simp [hg]) rfl _
  | suspended yf =>
    have hbut := h.but (g := g) (by rw [hg]; rfl)
    cases yf with
    | none =>
      simp only [pyClose, hg]
      exact hbut.runBody (by simp [hg]) _ _
    | some d =>
      simp only [pyClose, hg]
      split_ifs
      · refine hbut.callObject (by simp [hg]) rfl ?_ _ _
        exact ⟨d, Function.update_self _ _ _⟩
      · exact hbut.runBody (by simp [hg]) _ _
  | running yf =>
    simp only [pyClose, hg]
    exact h.kept _
  | closed =>
    simp only [pyClose, hg]
    exact h.kept _

theorem pyCall_kept (h : Activated s.gens s.stack) (g : Obj) (op : Op V E) :
    Kept s.gens (pyCall kind g op s) := by
  cases op with
  | next => exact pySend_kept h g none
  | send v => exact pySend_kept h g v
  | amSend v => exact pySend_kept h g v
  | throw e => exact pyThrow_kept h g e
  | close => exact pyClose_kept h g

omit [DecidableEq Obj] in
theorem enterObject_kept (h : Activated s.gens s.stack) (o : Obj) (op : Op V E)
    (send throw close : Bool) : Kept s.gens (s.enterObject o op send throw close) := by
  have henter (caller : Caller) (c : Control Obj V E) :
      Kept s.gens { s with stack := .object o caller :: s.stack, control := c } :=
    ⟨⟨List.forall_mem_cons.2 ⟨trivial, h.fits⟩, h.nodup, h.running⟩, fun _ hg => hg⟩
  rw [State.enterObject]
  split
  · cases send with
    | true => exact henter _ _
    | false => exact h.kept _
  · cases throw with
    | true => exact henter _ _
    | false => exact h.kept _
  · cases close with
    | true => exact henter _ _
    | false => exact h.kept _
  · exact henter _ _

theorem pyReturnTo_kept (h : Activated s.gens (f :: s.stack)) (hf : f.owner = some g)
    (hbody : ∀ caller, f ≠ .body g caller) (r : Res V E) : Kept s.gens (pyReturnTo f r s) := by
  have hbut := h.tail hf
  have hg : s.gens g ≠ .closed := (h.fits f List.mem_cons_self).ne_closed hf
  cases f with
  | object o caller => cases hf
  | body g' caller =>
    cases hf
    exact absurd rfl (hbody caller)
  | starting g' caller label d =>
    cases hf
    simp only [pyReturnTo]
    split
    · exact hbut.reply hg rfl _
    · exact hbut.runBody hg _ _
  | delegate g' caller amSend =>
    cases hf
    simp only [pyReturnTo]
    split
    · exact hbut.reply hg rfl _
    · exact hbut.runBody hg _ _
  | throwing g' =>
    cases hf
    simp only [pyReturnTo]
    split
    · exact hbut.reply hg rfl _
    · exact hbut.runBody hg _ _
  | closing g' e =>
    cases hf
    simp only [pyReturnTo]
    split
    · exact hbut.runBody hg _ _
    · exact hbut.runBody hg _ _

theorem pyBodyStep_kept {caller : Caller} (h : Activated s.gens (.body g caller :: s.stack))
    {event : Event Obj V E} {s' : PyState Obj V E} (hs' : pyBodyStep g caller event s = some s') :
    Kept s.gens s' := by
  have hbut := h.tail (g := g) rfl
  have hg : s.gens g ≠ .closed := (h.fits _ List.mem_cons_self).ne_closed rfl
  cases event with
  | call o op => cases hs'
  | yield label v =>
    cases hs'
    exact hbut.reply hg rfl _
  | yieldFrom label d =>
    cases hs'
    refine hbut.callObject hg rfl ?_ _ _
    exact Function.update_self _ _ _
  | «return» v =>
    cases hs'
    exact hbut.reply hg rfl _
  | raise e =>
    cases hs'
    exact hbut.reply hg rfl _

theorem stepUser_kept (h : Activated s.gens s.stack) {event : Event Obj V E}
    {s' : PyState Obj V E} (hs' : (pyGenerators kind).stepUser event s = some s') :
    Kept s.gens s' := by
  unfold Machine.stepUser at hs'
  split at hs'
  · split_ifs at hs'
    cases hs'
    exact h.kept _
  next g caller stack _ hstack =>
    rw [hstack] at h
    exact pyBodyStep_kept (s := { s with stack }) h hs'
  next o caller stack _ hstack =>
    rw [Option.map_eq_some_iff] at hs'
    obtain ⟨r, -, rfl⟩ := hs'
    rw [hstack] at h
    exact ⟨⟨fun f hf => h.fits f (List.mem_cons_of_mem _ hf), h.nodup, h.running⟩, fun _ hg => hg⟩
  · cases hs'

theorem stepReturn_kept (h : Activated s.gens s.stack) (r : Res V E) :
    Kept s.gens ((pyGenerators kind).stepReturn r s) := by
  unfold Machine.stepReturn
  split
  next g caller label d stack hstack =>
    rw [hstack] at h
    exact pyReturnTo_kept (s := { s with stack }) h rfl (by simp) r
  next g caller amSend stack hstack =>
    rw [hstack] at h
    exact pyReturnTo_kept (s := { s with stack }) h rfl (by simp) r
  next g stack hstack =>
    rw [hstack] at h
    exact pyReturnTo_kept (s := { s with stack }) h rfl (by simp) r
  next g e stack hstack =>
    rw [hstack] at h
    exact pyReturnTo_kept (s := { s with stack }) h rfl (by simp) r
  · exact h.kept _

/-- A step of Python keeps the invariant, and closed generators stay closed. -/
theorem pyStep_kept (h : Activated s.gens s.stack) {event : Option (Event Obj V E)}
    {s' : PyState Obj V E} (hs' : (pyGenerators kind).step kind s event = some s') :
    Kept s.gens s' := by
  cases hc : s.control with
  | user i =>
    cases event with
    | none => simp [Machine.step, hc] at hs'
    | some event =>
      simp only [Machine.step, hc] at hs'
      exact stepUser_kept h hs'
  | call o op =>
    cases event with
    | some event => simp [Machine.step, hc] at hs'
    | none =>
      simp only [Machine.step, hc, Option.some.injEq] at hs'
      subst hs'
      rw [Machine.stepCall]
      split
      · exact pyCall_kept h o op
      · exact enterObject_kept h o op _ _ _
  | ret r =>
    cases event with
    | some event => simp [Machine.step, hc] at hs'
    | none =>
      simp only [Machine.step, hc, Option.some.injEq] at hs'
      subst hs'
      exact stepReturn_kept h r

end

end AHPy.Coroutine
