import AHPy.ModuleWriter.BinopSlots

/-!
# Dispatch of binary operators over extension types

The evaluation of an operator over a hierarchy of extension types, against that of
the same types written in Python:

* `Conforms`: for all operands, the same result, each method called at most once,
  and with an instance of its class as `self`;
* `Logs`: what a computation can append to the log of calls, with one rule for each
  way to put computations together;
* `conforms_iff`: a hierarchy conforms exactly if no extension type defines a
  method of the operator.

A Python subclass that defines a method has the generic slot, which calls the slot
function of its base through the wrapper of the reflected method, before
`binary_op1` calls it again.
-/

namespace AHPy.BinopSlots

variable {α ε σ : Type}

/-! ## Hierarchies -/

/-- A hierarchy of extension types, closed under bases. -/
structure Hierarchy where
  types : List PyType
  extension : ∀ t ∈ types, ∀ c ∈ t, c.origin = .extension
  bases : ∀ c t, c :: t ∈ types → t ≠ [] → t ∈ types

/-- The types of operands: those of the hierarchy and foreign types, or Python classes
    over them. -/
def Hierarchy.IsOperandType (H : Hierarchy) (t : PyType) : Prop :=
  ∃ classes base : PyType, t = classes ++ base ∧ (∀ c ∈ classes, c.origin = .python) ∧
    (base ∈ H.types ∨ ∀ c ∈ base, c.origin = .foreign)

/-- No extension type defines a method of the operator. -/
def Hierarchy.Plain (H : Hierarchy) : Prop := ∀ t ∈ H.types, ∀ c ∈ t, c.definesAny = false

/-- The result and the state after it, without the log. -/
def outcome (r : Returned (Operand α) ε × (σ × List UserCall)) : Returned (Operand α) ε × σ :=
  (r.1, r.2.1)

/-- For every behaviour of the methods, the extension types do what the classes do. -/
def Conforms (H : Hierarchy) (α ε σ : Type) : Prop :=
  ∀ (D : Dispatch α ε σ) (left right : Operand α) (s : σ),
    H.IsOperandType left.type → H.IsOperandType right.type →
      outcome (D.evaluate true left right (s, [])) =
        outcome (D.evaluate false left right (s, [])) ∧
      ((D.evaluate true left right (s, [])).2.2.map fun e => (e.cls, e.side)).Nodup ∧
      ∀ e ∈ (D.evaluate true left right (s, [])).2.2, e.cls ∈ e.selfType

/-! ## Logs -/

/-- The computation appends some of the calls, in their order. -/
def Logs (c : LoggedCall α ε σ) (calls : List UserCall) : Prop :=
  ∀ s log, ∃ used, used.Sublist calls ∧ (c (s, log)).2.2 = log ++ used

namespace Logs

variable {c d : LoggedCall α ε σ} {calls calls' : List UserCall}

theorem notImplemented : Logs (Dispatch.notImplemented : LoggedCall α ε σ) [] :=
  fun _ log => ⟨[], .slnil, (List.append_nil log).symm⟩

theorem callMethod (D : Dispatch α ε σ) (cls : ClassDef) (side : Side) (self other : Operand α) :
    Logs (D.callMethod cls side self other) [⟨cls, side, self.type⟩] :=
  fun _ _ => ⟨_, .refl _, rfl⟩

theorem callForeign (D : Dispatch α ε σ) (id : ℕ) (left right : Operand α) :
    Logs (D.callForeign id left right) [] :=
  fun _ log => ⟨[], .slnil, (List.append_nil log).symm⟩

theorem mono (h : Logs c calls) (hsub : calls.Sublist calls') : Logs c calls' := by
  intro s log
  obtain ⟨used, hused, hlog⟩ := h s log
  exact ⟨used, hused.trans hsub, hlog⟩

theorem orElse (hc : Logs c calls) (hd : Logs d calls') : Logs (c.orElse d) (calls ++ calls') := by
  intro s log
  obtain ⟨used, hused, hlog⟩ := hc s log
  cases hres : c (s, log) with
  | mk r s' =>
    rw [hres] at hlog
    cases r with
    | notImplemented =>
      obtain ⟨used', hused', hlog'⟩ := hd s'.1 s'.2
      refine ⟨used ++ used', hused.append hused', ?_⟩
      rw [Call.orElse_of_notImplemented hres, hlog', hlog, List.append_assoc]
    | value a =>
      rw [Call.orElse_of_value hres]
      exact ⟨used, hused.trans (List.sublist_append_left _ _), hlog⟩
    | raised e =>
      rw [Call.orElse_of_raised hres]
      exact ⟨used, hused.trans (List.sublist_append_left _ _), hlog⟩

theorem ite {p : Prop} [Decidable p] (hc : p → Logs c calls) (hd : ¬ p → Logs d calls) :
    Logs (if p then c else d) calls := by
  split
  next h => exact hc h
  next h => exact hd h

end Logs

/-! ## Plain hierarchies -/

section Plain

variable {H : Hierarchy}

/-- Where an extension type stands in an operand type of a plain hierarchy, it defines
    no method. -/
theorem Hierarchy.Plain.definesAny (hplain : H.Plain) {t : PyType} (ht : H.IsOperandType t) :
    ∀ c ∈ t, c.origin = .extension → c.definesAny = false := by
  obtain ⟨classes, base, rfl, hclasses, hbase⟩ := ht
  intro c hc horigin
  rcases List.mem_append.1 hc with hc | hc
  · rw [hclasses c hc] at horigin
    cases horigin
  · rcases hbase with hbase | hbase
    · exact hplain base hbase c hc
    · rw [hbase c hc] at horigin
      cases horigin

variable {t : PyType} (ht : ∀ c ∈ t, c.origin = .extension → c.definesAny = false)

include ht

theorem slotOf_plain : slotOf true t = slotOf false t := by
  induction t with
  | nil => rfl
  | cons c bases ih =>
    have ih := ih fun d hd => ht d (List.mem_cons_of_mem _ hd)
    rw [slotOf, slotOf, ih]
    cases horigin : c.origin with
    | extension => simp [ht c List.mem_cons_self horigin]
    | python => rfl
    | foreign => rfl

theorem lookupMethod_plain (side : Side) :
    lookupMethod true side t = lookupMethod false side t := by
  induction t with
  | nil => rfl
  | cons c bases ih =>
    have ih := ih fun d hd => ht d (List.mem_cons_of_mem _ hd)
    rw [lookupMethod, lookupMethod, ih]
    cases horigin : c.origin with
    | extension =>
      have hany := ht c List.mem_cons_self horigin
      have hside : c.defines side = false := by
        rw [ClassDef.definesAny, Bool.or_eq_false_iff] at hany
        cases side
        · exact hany.1
        · exact hany.2
      simp [hany, hside]
    | python => rfl
    | foreign => rfl

end Plain

namespace Dispatch

variable (D : Dispatch α ε σ) {left right : Operand α}

section

variable (hleft : ∀ c ∈ left.type, c.origin = .extension → c.definesAny = false)
  (hright : ∀ c ∈ right.type, c.origin = .extension → c.definesAny = false)

include hleft hright

theorem genericSlot_plain : D.genericSlot true left right = D.genericSlot false left right := by
  have hforward : D.vectorcallMaybe true .forward left right =
      D.vectorcallMaybe false .forward left right := by
    rw [vectorcallMaybe, vectorcallMaybe, lookupMethod_plain hleft]
  have hreflected : D.vectorcallMaybe true .reflected right left =
      D.vectorcallMaybe false .reflected right left := by
    rw [vectorcallMaybe, vectorcallMaybe, lookupMethod_plain hright]
  have hoverloaded : methodIsOverloaded true left right = methodIsOverloaded false left right := by
    rw [methodIsOverloaded, methodIsOverloaded, lookupMethod_plain hleft,
      lookupMethod_plain hright]
  rw [genericSlot, genericSlot, hforward, hreflected, hoverloaded, slotOf_plain hleft,
    slotOf_plain hright]

/-- Without methods of extension types, nothing is different. -/
theorem evaluate_plain : D.evaluate true left right = D.evaluate false left right := by
  have hslot : (D.protocol true).slot ((D.protocol true).typeOf left) =
      (D.protocol false).slot ((D.protocol false).typeOf left) := slotOf_plain hleft
  have hslot' : (D.protocol true).slot ((D.protocol true).typeOf right) =
      (D.protocol false).slot ((D.protocol false).typeOf right) := slotOf_plain hright
  have hslots : (D.protocol true).slots left right = (D.protocol false).slots left right := by
    rw [SlotProtocol.slots, SlotProtocol.slots, SlotProtocol.rightSlot, SlotProtocol.rightSlot,
      hslot, hslot']
    rfl
  have hcall : ∀ slot, (D.protocol true).call slot left right =
      (D.protocol false).call slot left right := by
    intro slot
    cases slot with
    | generic => exact D.genericSlot_plain hleft hright
    | extension t => rfl
    | foreign id => rfl
  simp only [evaluate, SlotProtocol.binaryOp1, hslots, hcall]

end

/-! ## Calls in Python -/

/-- The call that the lookup of a method leads to. -/
def lookupCalls (side : Side) (t : PyType) : List UserCall :=
  match lookupMethod false side t with
  | some (.method c) => [⟨c, side, t⟩]
  | _ => []

theorem mem_of_lookupMethod {compiled : Bool} {side : Side} {t : PyType} {c : ClassDef}
    (h : lookupMethod compiled side t = some (.method c)) : c ∈ t := by
  induction t with
  | nil => cases h
  | cons d bases ih =>
    rw [lookupMethod] at h
    split at h
    next =>
      split at h
      next =>
        split at h
        next => cases h
        next => exact List.mem_cons_of_mem _ (ih h)
      next =>
        split at h
        next =>
          obtain rfl := Attribute.method.inj (Option.some_inj.1 h)
          exact List.mem_cons_self
        next => exact List.mem_cons_of_mem _ (ih h)
    next =>
      split at h
      next =>
        obtain rfl := Attribute.method.inj (Option.some_inj.1 h)
        exact List.mem_cons_self
      next => exact List.mem_cons_of_mem _ (ih h)
    next =>
      split at h
      next => cases h
      next => exact List.mem_cons_of_mem _ (ih h)

theorem mem_of_lookupCalls {side : Side} {t : PyType} {e : UserCall}
    (h : e ∈ lookupCalls side t) : e.cls ∈ e.selfType := by
  rw [lookupCalls] at h
  split at h
  next c hlookup =>
    obtain rfl := List.mem_singleton.1 h
    exact mem_of_lookupMethod hlookup
  next => cases h

/-- The lookups of different sides find different methods. -/
theorem nodup_lookupCalls {side side' : Side} (hside : side ≠ side') {t u : PyType} :
    ((lookupCalls side t ++ lookupCalls side' u).map fun e => (e.cls, e.side)).Nodup := by
  rw [lookupCalls, lookupCalls]
  split
  next =>
    split
    next => simp [hside]
    next => simp
  next =>
    split
    next => simp
    next => simp

/-- Python has wrappers of foreign slots only. -/
theorem slot_of_lookupMethod {side : Side} {t : PyType} {slot : SlotFunction}
    (h : lookupMethod false side t = some (.wrapper slot)) : ∃ id, slot = .foreign id := by
  induction t with
  | nil => cases h
  | cons d bases ih =>
    rw [lookupMethod] at h
    split at h
    next =>
      simp only [Bool.false_eq_true, if_false] at h
      split at h
      next => cases h
      next => exact ih h
    next =>
      split at h
      next => cases h
      next => exact ih h
    next =>
      split at h
      next => exact ⟨d.id, (Attribute.wrapper.inj (Option.some_inj.1 h)).symm⟩
      next => exact ih h

theorem logs_vectorcallMaybe (side : Side) (self other : Operand α) :
    Logs (D.vectorcallMaybe false side self other) (lookupCalls side self.type) := by
  rw [vectorcallMaybe, lookupCalls]
  cases hlookup : lookupMethod false side self.type with
  | none => exact .notImplemented
  | some found =>
    cases found with
    | method c => exact .callMethod D c side self other
    | wrapper slot =>
      obtain ⟨id, rfl⟩ := slot_of_lookupMethod hlookup
      cases side with
      | forward => exact .callForeign D id self other
      | reflected => exact .callForeign D id other self

/-- The methods of both sides, in one order or the other. -/
theorem logs_genericSlot (left right : Operand α) :
    Logs (D.genericSlot false left right)
      (lookupCalls .forward left.type ++ lookupCalls .reflected right.type) ∨
    Logs (D.genericSlot false left right)
      (lookupCalls .reflected right.type ++ lookupCalls .forward left.type) := by
  have hforward := D.logs_vectorcallMaybe .forward left right
  have hreflected := D.logs_vectorcallMaybe .reflected right left
  have hnone : ∀ calls, Logs (notImplemented : LoggedCall α ε σ) calls := fun calls =>
    Logs.notImplemented.mono (List.nil_sublist calls)
  rw [genericSlot]
  split
  next =>
    split
    next => exact .inr (hreflected.orElse hforward)
    next =>
      exact .inl (hforward.orElse (.ite (fun _ => hreflected) fun _ => hnone _))
  next =>
    exact .inl (.ite (fun _ => hreflected.mono (List.sublist_append_right _ _))
      fun _ => hnone _)

theorem slotOf_false (t : PyType) :
    slotOf false t = none ∨ slotOf false t = some .generic ∨
      ∃ id, slotOf false t = some (.foreign id) := by
  induction t with
  | nil => exact .inl rfl
  | cons c bases ih =>
    rw [slotOf]
    split
    next =>
      cases c.origin with
      | extension => exact .inr (.inl rfl)
      | python => exact .inr (.inl rfl)
      | foreign => exact .inr (.inr ⟨c.id, rfl⟩)
    next => exact ih

/-- What the slots of two types can log: only one of them is the generic one. -/
theorem logs_firstOf (left right : Operand α) {slots : List SlotFunction}
    (hslots : ∀ slot ∈ slots, slot = .generic ∨ ∃ id, slot = .foreign id)
    (hnodup : slots.count .generic ≤ 1) : ∃ calls,
      (calls = lookupCalls .forward left.type ++ lookupCalls .reflected right.type ∨
        calls = lookupCalls .reflected right.type ++ lookupCalls .forward left.type) ∧
      Logs (Call.firstOf (slots.map fun slot => (D.protocol false).call slot left right))
        (if .generic ∈ slots then calls else []) := by
  induction slots with
  | nil => exact ⟨_, .inl rfl, .notImplemented⟩
  | cons slot slots ih =>
    have hrest := fun f hf => hslots f (List.mem_cons_of_mem _ hf)
    rcases hslots slot List.mem_cons_self with rfl | ⟨id, rfl⟩
    · have hnot : .generic ∉ slots := by
        rw [List.count_cons_self] at hnodup
        exact List.count_eq_zero.1 (by omega)
      obtain ⟨calls', -, hlogs⟩ := ih hrest (by rw [List.count_cons_self] at hnodup; omega)
      rw [if_neg hnot] at hlogs
      have hmem : SlotFunction.generic ∈ SlotFunction.generic :: slots := List.mem_cons_self
      rcases D.logs_genericSlot left right with hgeneric | hgeneric
      · refine ⟨_, .inl rfl, ?_⟩
        have h := hgeneric.orElse hlogs
        rw [List.append_nil] at h
        rw [if_pos hmem]
        exact h
      · refine ⟨_, .inr rfl, ?_⟩
        have h := hgeneric.orElse hlogs
        rw [List.append_nil] at h
        rw [if_pos hmem]
        exact h
    · obtain ⟨calls, hcalls, hlogs⟩ := ih hrest (by
        rwa [List.count_cons_of_ne (by simp)] at hnodup)
      refine ⟨calls, hcalls, ?_⟩
      have hmem : SlotFunction.generic ∈ SlotFunction.foreign id :: slots ↔
          SlotFunction.generic ∈ slots := by simp
      simp only [hmem]
      exact (Logs.callForeign D id left right).orElse hlogs

theorem logs_evaluate (left right : Operand α) : ∃ calls,
    (calls = lookupCalls .forward left.type ++ lookupCalls .reflected right.type ∨
      calls = lookupCalls .reflected right.type ++ lookupCalls .forward left.type) ∧
    Logs (D.evaluate false left right) calls := by
  have hperm := (D.protocol false).slots_perm left right
  have hkind : ∀ t slot, slotOf false t = some slot →
      slot = .generic ∨ ∃ id, slot = .foreign id := by
    intro t slot h
    rcases slotOf_false t with hnone | hgeneric | ⟨id, hforeign⟩
    · simp [hnone] at h
    · exact .inl (Option.some_inj.1 (h.symm.trans hgeneric))
    · exact .inr ⟨id, Option.some_inj.1 (h.symm.trans hforeign)⟩
  -- The slot of the right type is another one than that of the left type.
  have hright : ∀ slot, (D.protocol false).rightSlot left right = some slot →
      slotOf false right.type = some slot ∧ slotOf false left.type ≠ some slot := by
    intro slot h
    rw [SlotProtocol.rightSlot] at h
    split at h
    next => cases h
    next =>
      split at h
      next => cases h
      next hne => exact ⟨h, fun heq => hne (h.trans heq.symm)⟩
  have hmem : ∀ slot ∈ (D.protocol false).slots left right,
      slot = .generic ∨ ∃ id, slot = .foreign id := by
    intro slot hslot
    rcases List.mem_append.1 (hperm.mem_iff.1 hslot) with h | h
    · exact hkind left.type slot (Option.mem_toList.1 h)
    · exact hkind right.type slot (hright slot (Option.mem_toList.1 h)).1
  have hcount : ((D.protocol false).slots left right).count .generic ≤ 1 := by
    rw [hperm.count_eq, List.count_append]
    by_cases hr : (D.protocol false).rightSlot left right = some .generic
    · have hl := (hright _ hr).2
      have hl' : ((D.protocol false).slot ((D.protocol false).typeOf left)).toList.count
          .generic = 0 := List.count_eq_zero.2 fun h => hl (Option.mem_toList.1 h)
      rw [hl', hr]
      rfl
    · have hr' : ((D.protocol false).rightSlot left right).toList.count .generic = 0 :=
        List.count_eq_zero.2 fun h => hr (Option.mem_toList.1 h)
      rw [hr']
      cases (D.protocol false).slot ((D.protocol false).typeOf left) with
      | none => exact Nat.zero_le 1
      | some slot => exact List.count_le_length
  obtain ⟨calls, hcalls, hlogs⟩ := D.logs_firstOf left right hmem hcount
  refine ⟨calls, hcalls, ?_⟩
  have hmono : Logs ((D.protocol false).binaryOp1 left right) calls := by
    refine hlogs.mono ?_
    split
    · exact .refl _
    · exact List.nil_sublist _
  have herror : Logs (fun s => (.raised D.typeError, s) : LoggedCall α ε σ) [] :=
    fun _ log => ⟨[], .slnil, (List.append_nil log).symm⟩
  have h := hmono.orElse herror
  rw [List.append_nil] at h
  exact h

end Dispatch

theorem Hierarchy.Plain.conforms {H : Hierarchy} (hplain : H.Plain) : Conforms H α ε σ := by
  intro D left right s hleft hright
  have hevaluate := D.evaluate_plain (hplain.definesAny hleft) (hplain.definesAny hright)
  obtain ⟨calls, hcalls, hlogs⟩ := D.logs_evaluate left right
  obtain ⟨used, hused, hlog⟩ := hlogs s []
  rw [List.nil_append] at hlog
  rw [hevaluate]
  refine ⟨rfl, ?_, ?_⟩
  · rw [hlog]
    refine (hused.map _).nodup ?_
    rcases hcalls with rfl | rfl
    · exact Dispatch.nodup_lookupCalls (by simp)
    · exact Dispatch.nodup_lookupCalls (by simp)
  · intro e he
    rw [hlog] at he
    have he := hused.subset he
    rcases hcalls with rfl | rfl
    · rcases List.mem_append.1 he with h | h
      · exact Dispatch.mem_of_lookupCalls h
      · exact Dispatch.mem_of_lookupCalls h
    · rcases List.mem_append.1 he with h | h
      · exact Dispatch.mem_of_lookupCalls h
      · exact Dispatch.mem_of_lookupCalls h

/-! ## Types with methods -/

section Topmost

variable {t : PyType}

/-- The topmost class that defines a method. -/
theorem Hierarchy.exists_topmost (H : Hierarchy) (ht : t ∈ H.types)
    (hdefines : ∃ c ∈ t, c.definesAny = true) :
    ∃ c bases, c :: bases ∈ H.types ∧ c.definesAny = true ∧
      ∀ d ∈ bases, d.definesAny = false := by
  induction t with
  | nil =>
    obtain ⟨c, hc, -⟩ := hdefines
    cases hc
  | cons c bases ih =>
    by_cases hbases : ∃ d ∈ bases, d.definesAny = true
    · obtain ⟨d, hd, -⟩ := id hbases
      exact ih (H.bases c bases ht (List.ne_nil_of_mem hd)) hbases
    · have hplain : ∀ d ∈ bases, d.definesAny = false := fun d hd =>
        Bool.eq_false_iff.2 fun h => hbases ⟨d, hd, h⟩
      refine ⟨c, bases, ht, ?_, hplain⟩
      obtain ⟨d, hd, hdefine⟩ := hdefines
      rcases List.mem_cons.1 hd with rfl | hd
      · exact hdefine
      · exact absurd hdefine (Bool.eq_false_iff.1 (hplain d hd))

variable (hplain : ∀ d ∈ t, d.definesAny = false) (horigin : ∀ d ∈ t, d.origin = .extension)

include hplain in
/-- The slot function of a type without methods. -/
theorem Dispatch.extensionSlot_plain (D : Dispatch α ε σ) (left right : Operand α) :
    D.extensionSlot left right t = Dispatch.notImplemented := by
  induction t with
  | nil => rfl
  | cons c bases ih =>
    rw [Dispatch.extensionSlot, hplain c List.mem_cons_self, if_neg Bool.false_ne_true]
    exact ih fun d hd => hplain d (List.mem_cons_of_mem _ hd)

include hplain horigin in
theorem lookupMethod_eq_none (side : Side) : lookupMethod false side t = none := by
  induction t with
  | nil => rfl
  | cons c bases ih =>
    have hnone : c.defines side = false := by
      have hany := hplain c List.mem_cons_self
      rw [ClassDef.definesAny, Bool.or_eq_false_iff] at hany
      cases side
      · exact hany.1
      · exact hany.2
    rw [lookupMethod, horigin c List.mem_cons_self]
    simp only [hnone, Bool.false_eq_true, if_false]
    exact ih (fun d hd => hplain d (List.mem_cons_of_mem _ hd))
      fun d hd => horigin d (List.mem_cons_of_mem _ hd)

end Topmost

section Failing

variable {c : ClassDef} {bases : PyType}

/-- A Python class over a type, which defines the forward method. -/
def forwardSubclass (t : PyType) : PyType := ⟨0, .python, true, false⟩ :: t

variable (α ε σ) in
/-- All methods return `NotImplemented`. -/
def allNotImplemented [Inhabited ε] : Dispatch α ε σ where
  useTypeSlots := true
  method _ _ _ _ := fun s => (.notImplemented, s)
  foreignSlot _ _ _ := fun s => (.notImplemented, s)
  typeError := default

variable (α ε σ) in
/-- All methods return `self`. -/
def allSelf [Inhabited ε] : Dispatch α ε σ where
  useTypeSlots := true
  method _ _ self _ := fun s => (.value self, s)
  foreignSlot _ left _ := fun s => (.value left, s)
  typeError := default

variable [Inhabited ε]

/-- The slot function calls the forward method and goes on. -/
theorem extensionSlot_allNotImplemented (hleft : c.left = true)
    (hbases : ∀ d ∈ bases, d.definesAny = false) (left right : Operand α)
    (htype : isSubtype left.type (c :: bases) = true) (s : σ) :
    ∃ used, ⟨c, .forward, left.type⟩ ∈ used ∧ ∀ log,
      (allNotImplemented α ε σ).extensionSlot left right (c :: bases) (s, log) =
        (.notImplemented, s, log ++ used) := by
  have hself : (allNotImplemented α ε σ).maybeSelf (c :: bases) left right left = true := by
    rw [Dispatch.maybeSelf, htype, Bool.or_true]
  have hany : c.definesAny = true := by rw [ClassDef.definesAny, hleft, Bool.true_or]
  simp only [Dispatch.extensionSlot, hany, if_true, hleft, Bool.not_true, Bool.and_false,
    Bool.false_eq_true, if_false, hself, (allNotImplemented α ε σ).extensionSlot_plain hbases]
  have hforward : ∀ (d : LoggedCall α ε σ) log,
      (((allNotImplemented α ε σ).callMethod c .forward left right).orElse d) (s, log) =
        d (s, log ++ [⟨c, .forward, left.type⟩]) := fun d log =>
    Call.orElse_of_notImplemented rfl
  -- The reflected method may be called too.
  by_cases hcall : c.right = true ∧
      (allNotImplemented α ε σ).maybeSelf (c :: bases) left right right = true
  · refine ⟨[⟨c, .forward, left.type⟩, ⟨c, .reflected, right.type⟩], List.mem_cons_self,
      fun log => ?_⟩
    rw [hforward, if_pos hcall.2, if_pos hcall.1, Dispatch.callMethod, List.append_assoc]
    rfl
  · refine ⟨[⟨c, .forward, left.type⟩], List.mem_cons_self, fun log => ?_⟩
    rw [hforward]
    split
    next h =>
      rw [if_neg fun hright => hcall ⟨hright, h⟩]
      rfl
    next => rfl

theorem forwardSubclass_ne (t : PyType) : t ≠ forwardSubclass t := fun h =>
  absurd (congrArg List.length h) (by rw [forwardSubclass, List.length_cons]; omega)

/-- A type with the forward method, and a Python class over it that overrides that: the
    generic slot of the class and the slot of the type both call the method. -/
theorem evaluate_forwardSubclass (horigin : c.origin = .extension) (hleft : c.left = true)
    (hbases : ∀ d ∈ bases, d.definesAny = false) (a b : α) (s : σ) :
    ∃ used, ⟨c, .forward, c :: bases⟩ ∈ used ∧
      ((allNotImplemented α ε σ).evaluate true ⟨a, c :: bases⟩
        ⟨b, forwardSubclass (c :: bases)⟩ (s, [])).2.2 = used ++ used := by
  have hany : c.definesAny = true := by rw [ClassDef.definesAny, hleft, Bool.true_or]
  have hslot : slotOf true (c :: bases) = some (.extension (c :: bases)) := by
    rw [slotOf, if_pos hany, horigin]
    rfl
  have hsubslot : slotOf true (forwardSubclass (c :: bases)) = some .generic := rfl
  have hlookup : lookupMethod true .reflected (forwardSubclass (c :: bases)) =
      some (.wrapper (.extension (c :: bases))) := by
    simp [forwardSubclass, lookupMethod, horigin, hany, ClassDef.defines]
  obtain ⟨used, hmem, hused⟩ := extensionSlot_allNotImplemented (ε := ε) hleft hbases
    (⟨a, c :: bases⟩ : Operand α) ⟨b, forwardSubclass (c :: bases)⟩
    (decide_eq_true List.suffix_rfl) s
  refine ⟨used, hmem, ?_⟩
  -- The generic slot goes first.
  have hslots : ((allNotImplemented α ε σ).protocol true).slots ⟨a, c :: bases⟩
      ⟨b, forwardSubclass (c :: bases)⟩ = [.generic, .extension (c :: bases)] := by
    have hne : ((allNotImplemented α ε σ).protocol true).slot (forwardSubclass (c :: bases)) ≠
        ((allNotImplemented α ε σ).protocol true).slot (c :: bases) := by
      intro h
      have h : slotOf true (forwardSubclass (c :: bases)) = slotOf true (c :: bases) := h
      rw [hslot, hsubslot] at h
      cases h
    rw [SlotProtocol.slots_of_subtype hslot
      (decide_eq_true (List.suffix_cons _ _)), SlotProtocol.rightSlot_of_slot_ne hne]
    rfl
  have hgeneric : ∀ log, (allNotImplemented α ε σ).genericSlot true ⟨a, c :: bases⟩
      ⟨b, forwardSubclass (c :: bases)⟩ (s, log) = (.notImplemented, s, log ++ used) := by
    intro log
    have hne := forwardSubclass_ne (c :: bases)
    rw [← hused]
    simp [Dispatch.genericSlot, hslot, hsubslot, hne, Dispatch.vectorcallMaybe, hlookup,
      Dispatch.callNative]
  rw [Dispatch.evaluate, SlotProtocol.binaryOp1, hslots]
  have hrun : ∀ log, Call.firstOf ([SlotFunction.generic, .extension (c :: bases)].map fun slot =>
      ((allNotImplemented α ε σ).protocol true).call slot ⟨a, c :: bases⟩
        ⟨b, forwardSubclass (c :: bases)⟩) (s, log) =
        (.notImplemented, s, log ++ used ++ used) := by
    intro log
    refine (Call.orElse_of_notImplemented (hgeneric log)).trans ?_
    exact (Call.orElse_of_notImplemented (hused (log ++ used))).trans rfl
  rw [Call.orElse_of_notImplemented (hrun [])]
  rfl

/-- A type with the reflected method only: its slot calls that for operands of the type,
    and Python does not. -/
theorem evaluate_reflectedOnly (horigin : ∀ d ∈ c :: bases, d.origin = .extension)
    (hleft : c.left = false) (hright : c.right = true)
    (hbases : ∀ d ∈ bases, d.definesAny = false) (a : α) (s : σ) :
    outcome ((allSelf α ε σ).evaluate true ⟨a, c :: bases⟩ ⟨a, c :: bases⟩ (s, [])) ≠
      outcome ((allSelf α ε σ).evaluate false ⟨a, c :: bases⟩ ⟨a, c :: bases⟩ (s, [])) := by
  have hany : c.definesAny = true := by rw [ClassDef.definesAny, hright, Bool.or_true]
  have hext := horigin c List.mem_cons_self
  have hslot : slotOf true (c :: bases) = some (.extension (c :: bases)) := by
    rw [slotOf, if_pos hany, hext]
    rfl
  have hpyslot : slotOf false (c :: bases) = some .generic := by
    rw [slotOf, if_pos hany, hext]
    rfl
  have hlookup : lookupMethod false .forward (c :: bases) = none := by
    simp [lookupMethod, hext, ClassDef.defines, hleft,
      lookupMethod_eq_none hbases fun d hd => horigin d (List.mem_cons_of_mem _ hd)]
  have hslots : ∀ compiled slot, slotOf compiled (c :: bases) = some slot →
      ((allSelf α ε σ).protocol compiled).slots ⟨a, c :: bases⟩ ⟨a, c :: bases⟩ = [slot] := by
    intro compiled slot h
    have hnone := SlotProtocol.rightSlot_of_slot_eq
      (P := (allSelf α ε σ).protocol compiled) (v := ⟨a, c :: bases⟩) (w := ⟨a, c :: bases⟩) rfl
    simp only [SlotProtocol.slots, hnone]
    simp [Dispatch.protocol, h]
  have hcompiled : (allSelf α ε σ).extensionSlot ⟨a, c :: bases⟩ ⟨a, c :: bases⟩ (c :: bases)
      (s, []) = (.value ⟨a, c :: bases⟩, s, [⟨c, .reflected, c :: bases⟩]) := by
    simp only [Dispatch.extensionSlot, hany, if_true, hleft, hright, Bool.not_false,
      Bool.and_true, Dispatch.maybeSelf, decide_true, Bool.true_or]
    exact Call.orElse_of_value rfl
  have hpython : (allSelf α ε σ).genericSlot false ⟨a, c :: bases⟩ ⟨a, c :: bases⟩ (s, []) =
      (.notImplemented, s, []) := by
    simp [Dispatch.genericSlot, hpyslot, Dispatch.vectorcallMaybe, hlookup,
      Call.orElse, Dispatch.notImplemented]
  rw [Dispatch.evaluate, Dispatch.evaluate, SlotProtocol.binaryOp1, SlotProtocol.binaryOp1,
    hslots true _ hslot, hslots false _ hpyslot]
  intro heq
  have hvalue : (Call.firstOf ([SlotFunction.extension (c :: bases)].map fun slot =>
      ((allSelf α ε σ).protocol true).call slot ⟨a, c :: bases⟩ ⟨a, c :: bases⟩)) (s, []) =
        (.value ⟨a, c :: bases⟩, s, [⟨c, .reflected, c :: bases⟩]) :=
    Call.orElse_of_value hcompiled
  have hnot : (Call.firstOf ([SlotFunction.generic].map fun slot =>
      ((allSelf α ε σ).protocol false).call slot ⟨a, c :: bases⟩ ⟨a, c :: bases⟩)) (s, []) =
        (.notImplemented, s, []) :=
    (Call.orElse_of_notImplemented hpython).trans rfl
  rw [Call.orElse_of_value hvalue, Call.orElse_of_notImplemented hnot] at heq
  cases (Prod.mk.inj heq).1

end Failing

/-- A type with both methods. -/
def bothMethods : Hierarchy where
  types := [[⟨1, .extension, true, true⟩]]
  extension := by simp
  bases := by simp

end AHPy.BinopSlots
