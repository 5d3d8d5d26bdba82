import Mathlib

/-!
# Dispatch of binary operators

Python asks the types of both operands for a result. The left type is asked first, except
that a right type that derives from it and has a slot of its own goes before it; what
returns `NotImplemented` is passed over. Addition and multiplication then try the
sequence slots, and in-place operators begin with a slot of their own.

Objects, types, slots, exceptions and the state that calls change are parameters.

* `SlotProtocol.binaryOp1`: the slots of both types;
* `NumberProtocol.operator`: the operators;
* `SlotProtocol.binaryOp1_of_pass`: a left slot that has nothing to say is passed over;
* `NumberProtocol.operator_inplace`: an in-place operator is the operator, if the left type
  has neither in-place nor sequence slots.
-/

namespace AHPy

/-- What a call returns. -/
inductive Returned (α ε : Type*) where
  | notImplemented
  | value (a : α)
  | raised (e : ε)

/-- A call in a state, and the state after it. -/
abbrev Call (α ε σ : Type*) := σ → Returned α ε × σ

variable {α τ φ ε σ : Type*}

namespace Call

/-- Another call, if the first returns `NotImplemented`. -/
def orElse (c d : Call α ε σ) : Call α ε σ := fun s =>
  match c s with
  | (.notImplemented, s') => d s'
  | (.value a, s') => (.value a, s')
  | (.raised e, s') => (.raised e, s')

/-- The first call that does not return `NotImplemented`. -/
def firstOf : List (Call α ε σ) → Call α ε σ
  | [] => fun s => (.notImplemented, s)
  | c :: cs => c.orElse (firstOf cs)

variable {c d : Call α ε σ} {s s' : σ} {r : Returned α ε}

theorem orElse_of_notImplemented (h : c s = (.notImplemented, s')) : c.orElse d s = d s' := by
  simp only [orElse, h]

theorem orElse_of_value {a : α} (h : c s = (.value a, s')) : c.orElse d s = (.value a, s') := by
  simp only [orElse, h]

theorem orElse_of_raised {e : ε} (h : c s = (.raised e, s')) :
    c.orElse d s = (.raised e, s') := by
  simp only [orElse, h]

/-- What does not return `NotImplemented` is the result. -/
theorem orElse_of_ne (h : (c s).1 ≠ .notImplemented) : c.orElse d s = c s := by
  cases hc : c s with
  | mk r s' =>
    cases r with
    | notImplemented => exact absurd (congrArg Prod.fst hc) h
    | value a => exact orElse_of_value hc
    | raised e => exact orElse_of_raised hc

/-- What follows a call only matters if that returns `NotImplemented`. -/
theorem orElse_eq_orElse_iff {d' : Call α ε σ} : c.orElse d s = c.orElse d' s ↔
    ∀ s', c s = (.notImplemented, s') → d s' = d' s' := by
  cases hc : c s with
  | mk r s' =>
    cases r with
    | notImplemented =>
      rw [orElse_of_notImplemented hc, orElse_of_notImplemented hc]
      refine ⟨fun h s'' hs => ?_, fun h => h s' rfl⟩
      rw [← (Prod.mk.inj hs).2, h]
    | value a =>
      rw [orElse_of_value hc, orElse_of_value hc]
      exact iff_of_true rfl fun _ h => by cases h
    | raised e =>
      rw [orElse_of_raised hc, orElse_of_raised hc]
      exact iff_of_true rfl fun _ h => by cases h

theorem orElse_assoc (c d e : Call α ε σ) : (c.orElse d).orElse e = c.orElse (d.orElse e) := by
  funext s
  cases hc : c s with
  | mk r s' =>
    cases r with
    | notImplemented =>
      rw [orElse_of_notImplemented hc]
      simp only [orElse, hc]
    | value a => rw [orElse_of_value hc, orElse_of_value (orElse_of_value hc)]
    | raised x => rw [orElse_of_raised hc, orElse_of_raised (orElse_of_raised hc)]

theorem firstOf_nil_orElse : (firstOf []).orElse c = c := rfl

theorem firstOf_singleton : firstOf [c] = c := by
  funext s
  cases hc : c s with
  | mk r s' =>
    cases r with
    | notImplemented => exact orElse_of_notImplemented hc
    | value a => exact orElse_of_value hc
    | raised e => exact orElse_of_raised hc

/-- A call without an effect that returns `NotImplemented` is passed over. -/
theorem orElse_of_pass (h : ∀ s, c s = (.notImplemented, s)) : c.orElse d = d :=
  funext fun s => orElse_of_notImplemented (h s)

end Call

/-! ## The slots of both types -/

/-- Types, and their slots for an operator. Slots are compared as pointers are. -/
structure SlotProtocol (α τ φ ε σ : Type*) where
  typeOf : α → τ
  isSubtype : τ → τ → Bool
  slot : τ → Option φ
  call : φ → α → α → Call α ε σ

namespace SlotProtocol

variable [DecidableEq τ] [DecidableEq φ] (P : SlotProtocol α τ φ ε σ)

/-- The slot of the right type, if it is not that of the left one. -/
def rightSlot (v w : α) : Option φ :=
  if P.typeOf w = P.typeOf v then none
  else if P.slot (P.typeOf w) = P.slot (P.typeOf v) then none
  else P.slot (P.typeOf w)

/-- The slots in the order in which they are called. -/
def slots (v w : α) : List φ :=
  match P.slot (P.typeOf v), P.rightSlot v w with
  | none, none => []
  | none, some g => [g]
  | some f, none => [f]
  | some f, some g => if P.isSubtype (P.typeOf w) (P.typeOf v) then [g, f] else [f, g]

/-- `binary_op1` -/
def binaryOp1 (v w : α) : Call α ε σ := .firstOf ((P.slots v w).map fun f => P.call f v w)

variable {P} {v w : α} {f g : φ}

/-- The left slot goes first, unless the right type derives from the left one. -/
theorem slots_of_not_subtype (hv : P.slot (P.typeOf v) = some f)
    (hsub : P.isSubtype (P.typeOf w) (P.typeOf v) = false) :
    P.slots v w = f :: (P.rightSlot v w).toList := by
  cases hw : P.rightSlot v w with
  | none => simp only [slots, hv, hw, Option.toList_none]
  | some g => simp only [slots, hv, hw, hsub, Bool.false_eq_true, if_false, Option.toList_some]

/-- The slot of a right type that derives from the left one goes first. -/
theorem slots_of_subtype (hv : P.slot (P.typeOf v) = some f)
    (hsub : P.isSubtype (P.typeOf w) (P.typeOf v) = true) :
    P.slots v w = (P.rightSlot v w).toList ++ [f] := by
  cases hw : P.rightSlot v w with
  | none => simp only [slots, hv, hw, Option.toList_none, List.nil_append]
  | some g =>
    simp only [slots, hv, hw, if_pos hsub, Option.toList_some, List.cons_append, List.nil_append]

/-- In some order, the slots are those of both types. -/
theorem slots_perm (v w : α) : (P.slots v w).Perm
    ((P.slot (P.typeOf v)).toList ++ (P.rightSlot v w).toList) := by
  rw [slots]
  cases P.slot (P.typeOf v) with
  | none => cases P.rightSlot v w <;> exact .refl _
  | some f =>
    cases P.rightSlot v w with
    | none => exact .refl _
    | some g =>
      simp only
      split
      · exact .swap f g []
      · exact .refl _

theorem rightSlot_of_slot_eq (h : P.slot (P.typeOf w) = P.slot (P.typeOf v)) :
    P.rightSlot v w = none := by
  rw [rightSlot, if_pos h, ite_self]

theorem rightSlot_of_slot_ne (h : P.slot (P.typeOf w) ≠ P.slot (P.typeOf v)) :
    P.rightSlot v w = P.slot (P.typeOf w) := by
  rw [rightSlot, if_neg fun htype => h (congrArg P.slot htype), if_neg h]

/-- A slot of the left type without an effect that returns `NotImplemented` is passed over. -/
theorem binaryOp1_of_pass (hv : P.slot (P.typeOf v) = some f)
    (hpass : ∀ s, P.call f v w s = (.notImplemented, s))
    (hsub : P.isSubtype (P.typeOf w) (P.typeOf v) = false) :
    P.binaryOp1 v w = .firstOf ((P.rightSlot v w).toList.map fun f => P.call f v w) := by
  rw [binaryOp1, slots_of_not_subtype hv hsub]
  exact Call.orElse_of_pass hpass

/-- The result of the left slot, unless the right type derives from the left one. -/
theorem binaryOp1_of_result {s : σ} (hv : P.slot (P.typeOf v) = some f)
    (hresult : (P.call f v w s).1 ≠ .notImplemented)
    (hsub : P.isSubtype (P.typeOf w) (P.typeOf v) = false) :
    P.binaryOp1 v w s = P.call f v w s := by
  rw [binaryOp1, slots_of_not_subtype hv hsub]
  exact Call.orElse_of_ne hresult

end SlotProtocol

/-! ## Operators -/

/-- The slots of sequences. -/
structure SequenceSlots (α ε σ : Type*) where
  sqConcat : Option (α → α → Call α ε σ)
  sqRepeat : Option (α → ℤ → Call α ε σ)
  sqInplaceConcat : Option (α → α → Call α ε σ)
  sqInplaceRepeat : Option (α → ℤ → Call α ε σ)

/-- The slots of types, with what the operators try next. -/
structure NumberProtocol (α τ φ ε σ : Type*) extends SlotProtocol α τ φ ε σ where
  inplaceSlot : τ → Option (α → α → Call α ε σ)
  sequence : τ → Option (SequenceSlots α ε σ)
  /-- The number of an object that can be an index. -/
  index : α → Option (σ → Except ε ℤ × σ)
  typeError : ε

/-- The sequence slots that an operator tries. -/
inductive SequenceFallback where
  | nothing
  | concat
  | repetition

namespace NumberProtocol

variable [DecidableEq τ] [DecidableEq φ] (P : NumberProtocol α τ φ ε σ)

/-- The `TypeError` of unsupported operands. -/
def binopTypeError : Call α ε σ := fun s => (.raised P.typeError, s)

/-- `sequence_repeat` -/
def sequenceRepeat (repeatfunc : α → ℤ → Call α ε σ) (seq n : α) : Call α ε σ :=
  match P.index n with
  | none => P.binopTypeError
  | some index => fun s =>
    match index s with
    | (.error e, s') => (.raised e, s')
    | (.ok count, s') => repeatfunc seq count s'

/-- What an operator tries last. -/
def lastResort (fallback : SequenceFallback) (v w : α) : Call α ε σ :=
  match fallback with
  | .nothing => P.binopTypeError
  | .concat =>
    match (P.sequence (P.typeOf v)).bind (·.sqConcat) with
    | some f => f v w
    | none => P.binopTypeError
  | .repetition =>
    match (P.sequence (P.typeOf v)).bind (·.sqRepeat) with
    | some f => P.sequenceRepeat f v w
    | none =>
      match (P.sequence (P.typeOf w)).bind (·.sqRepeat) with
      | some f => P.sequenceRepeat f w v
      | none => P.binopTypeError

/-- What an in-place operator tries last. The right operand is not repeated if the left type
    has a record of sequence slots. -/
def inplaceLastResort (fallback : SequenceFallback) (v w : α) : Call α ε σ :=
  match fallback, P.sequence (P.typeOf v) with
  | .nothing, _ => P.binopTypeError
  | .concat, none => P.binopTypeError
  | .concat, some m =>
    match m.sqInplaceConcat.or m.sqConcat with
    | some f => f v w
    | none => P.binopTypeError
  | .repetition, some m =>
    match m.sqInplaceRepeat.or m.sqRepeat with
    | some f => P.sequenceRepeat f v w
    | none => P.binopTypeError
  | .repetition, none =>
    match (P.sequence (P.typeOf w)).bind (·.sqRepeat) with
    | some f => P.sequenceRepeat f w v
    | none => P.binopTypeError

/-- `binary_iop1` -/
def binaryIop1 (v w : α) : Call α ε σ :=
  match P.inplaceSlot (P.typeOf v) with
  | some f => (f v w).orElse (P.binaryOp1 v w)
  | none => P.binaryOp1 v w

/-- An operator, or its in-place variant. -/
def operator (fallback : SequenceFallback) (inplace : Bool) (v w : α) : Call α ε σ :=
  if inplace then (P.binaryIop1 v w).orElse (P.inplaceLastResort fallback v w)
  else (P.binaryOp1 v w).orElse (P.lastResort fallback v w)

variable {P} {v w : α} {fallback : SequenceFallback}

/-- Without slots of its own for it, the left type takes an in-place operator as the operator. -/
theorem operator_inplace (hslot : P.inplaceSlot (P.typeOf v) = none)
    (hsequence : P.sequence (P.typeOf v) = none) (inplace : Bool) :
    P.operator fallback inplace v w =
      (P.binaryOp1 v w).orElse (P.lastResort fallback v w) := by
  cases inplace with
  | false => rfl
  | true =>
    have hlast : P.inplaceLastResort fallback v w = P.lastResort fallback v w := by
      cases fallback <;> simp only [inplaceLastResort, lastResort, hsequence, Option.bind_none]
    rw [operator, if_pos rfl, hlast, binaryIop1, hslot]

end NumberProtocol

end AHPy
