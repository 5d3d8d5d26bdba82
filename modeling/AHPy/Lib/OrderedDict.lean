import Mathlib

/-!
# Insertion-ordered dictionaries

Dictionaries iterated in the order in which their keys were first inserted, as
the dictionaries of Python: overwriting the value of a key keeps its place, and
a new key goes last. The keys are distinct by construction
(`OrderedDict.nodup`), so that a dictionary is determined by its entries.

Two dictionaries are *similar* (`OrderedDict.Similar`) if they have the same
values at the same keys, whatever their orders: the equality of Python.
-/

namespace AHPy

/-- A dictionary from `κ` to `α`, in insertion order. -/
structure OrderedDict (κ α : Type*) where
  /-- The keys and their values, in insertion order. -/
  entries : List (κ × α)
  /-- A key has one value. -/
  nodup : (entries.map Prod.fst).Nodup

namespace OrderedDict

variable {κ α : Type*}

/-- The dictionary without entries. -/
def empty : OrderedDict κ α := ⟨[], List.nodup_nil⟩

instance : Inhabited (OrderedDict κ α) := ⟨empty⟩

instance [DecidableEq κ] [DecidableEq α] : DecidableEq (OrderedDict κ α) := fun d d' =>
  decidable_of_iff (d.entries = d'.entries) <| by
    cases d; cases d'; simp

/-- The keys, in insertion order. -/
def keys (d : OrderedDict κ α) : List κ := d.entries.map Prod.fst

instance : Membership κ (OrderedDict κ α) := ⟨fun d k => k ∈ d.keys⟩

theorem mem_def {d : OrderedDict κ α} {k : κ} : k ∈ d ↔ k ∈ d.keys := Iff.rfl

theorem nodup_keys (d : OrderedDict κ α) : d.keys.Nodup := d.nodup

@[simp] theorem not_mem_empty (k : κ) : k ∉ (empty : OrderedDict κ α) := List.not_mem_nil

/-- Two entries of the same key are the same. -/
theorem eq_of_mem_entries {d : OrderedDict κ α} {k : κ} {v v' : α} (h : (k, v) ∈ d.entries)
    (h' : (k, v') ∈ d.entries) : v = v' :=
  congrArg Prod.snd (List.inj_on_of_nodup_map d.nodup h h' rfl)

variable [DecidableEq κ]

instance (d : OrderedDict κ α) (k : κ) : Decidable (k ∈ d) :=
  inferInstanceAs (Decidable (k ∈ d.keys))

/-! ## Lookup -/

/-- The value of `k`, if it has one. -/
def get? (d : OrderedDict κ α) (k : κ) : Option α :=
  (d.entries.find? fun e => e.1 = k).map Prod.snd

theorem get?_eq_some_iff {d : OrderedDict κ α} {k : κ} {v : α} :
    d.get? k = some v ↔ (k, v) ∈ d.entries := by
  constructor
  · intro h
    obtain ⟨⟨k', v'⟩, hf, rfl⟩ := Option.map_eq_some_iff.1 h
    have hk : k' = k := by simpa using List.find?_some hf
    exact hk ▸ List.mem_of_find?_eq_some hf
  · intro h
    have hs : (d.entries.find? fun e => e.1 = k).isSome := by
      rw [List.find?_isSome]
      exact ⟨(k, v), h, by simp⟩
    obtain ⟨⟨k', v'⟩, hf⟩ := Option.isSome_iff_exists.1 hs
    have hk : k' = k := by simpa using List.find?_some hf
    subst hk
    rw [get?, hf, eq_of_mem_entries (List.mem_of_find?_eq_some hf) h]
    rfl

theorem mem_iff_exists_get? {d : OrderedDict κ α} {k : κ} : k ∈ d ↔ ∃ v, d.get? k = some v := by
  simp [mem_def, keys, get?_eq_some_iff]

theorem get?_eq_none_iff {d : OrderedDict κ α} {k : κ} : d.get? k = none ↔ k ∉ d := by
  rw [mem_iff_exists_get?, not_exists, Option.eq_none_iff_forall_ne_some]

@[simp] theorem get?_empty (k : κ) : (empty : OrderedDict κ α).get? k = none := rfl

theorem mem_of_get? {d : OrderedDict κ α} {k : κ} {v : α} (h : d.get? k = some v) : k ∈ d :=
  mem_iff_exists_get?.2 ⟨v, h⟩

/-! ## Update -/

/-- The entries with the value of `k` overwritten. -/
def overwrite (l : List (κ × α)) (k : κ) (v : α) : List (κ × α) :=
  l.map fun e => if e.1 = k then (k, v) else e

theorem map_fst_overwrite (l : List (κ × α)) (k : κ) (v : α) :
    (overwrite l k v).map Prod.fst = l.map Prod.fst := by
  induction l with
  | nil => rfl
  | cons e l ih =>
    rw [overwrite, List.map_cons, List.map_cons, List.map_cons, ← overwrite, ih]
    by_cases h : e.1 = k <;> simp [h]

/-- `d[k] = v`: a key of `d` keeps its place, a new key goes last. -/
def set (d : OrderedDict κ α) (k : κ) (v : α) : OrderedDict κ α :=
  if h : k ∈ d then ⟨overwrite d.entries k v, by rw [map_fst_overwrite]; exact d.nodup⟩
  else ⟨d.entries ++ [(k, v)], by
    rw [List.map_append]
    exact List.nodup_append'.2 ⟨d.nodup, by simp, by simpa [mem_def, keys] using h⟩⟩

theorem keys_set_of_mem {d : OrderedDict κ α} {k : κ} (h : k ∈ d) (v : α) :
    (d.set k v).keys = d.keys := by
  rw [set, dif_pos h, keys, map_fst_overwrite]; rfl

theorem keys_set_of_not_mem {d : OrderedDict κ α} {k : κ} (h : k ∉ d) (v : α) :
    (d.set k v).keys = d.keys ++ [k] := by
  rw [set, dif_neg h, keys, List.map_append]; rfl

theorem mem_set_iff {d : OrderedDict κ α} {k k' : κ} {v : α} :
    k' ∈ d.set k v ↔ k' = k ∨ k' ∈ d := by
  by_cases h : k ∈ d
  · rw [mem_def, keys_set_of_mem h, ← mem_def]
    exact ⟨.inr, fun h' => h'.elim (fun e => e ▸ h) id⟩
  · rw [mem_def, keys_set_of_not_mem h, List.mem_append, List.mem_singleton, ← mem_def, or_comm]

theorem get?_set_self (d : OrderedDict κ α) (k : κ) (v : α) : (d.set k v).get? k = some v := by
  rw [get?_eq_some_iff, set]
  split
  next h =>
    obtain ⟨v', h'⟩ := mem_iff_exists_get?.1 h
    exact List.mem_map.2 ⟨(k, v'), get?_eq_some_iff.1 h', if_pos rfl⟩
  next h => simp

theorem get?_set_of_ne (d : OrderedDict κ α) {k k' : κ} (hne : k' ≠ k) (v : α) :
    (d.set k v).get? k' = d.get? k' := by
  ext v'
  rw [get?_eq_some_iff, get?_eq_some_iff, set]
  split
  · -- Overwriting maps the entries of the other keys to themselves.
    simp only [overwrite, List.mem_map]
    constructor
    · rintro ⟨e, he, heq⟩
      split at heq
      · exact absurd (congrArg Prod.fst heq).symm hne
      · exact heq ▸ he
    · exact fun h => ⟨(k', v'), h, if_neg hne⟩
  · simp [hne]

theorem get?_set (d : OrderedDict κ α) (k k' : κ) (v : α) :
    (d.set k v).get? k' = if k' = k then some v else d.get? k' := by
  split
  next h => rw [h, get?_set_self]
  next h => rw [get?_set_of_ne d h]

/-- A value that is there after a change is the new one, or was there at another key. -/
theorem get?_set_cases {d : OrderedDict κ α} {k k' : κ} {v v' : α}
    (h : (d.set k v).get? k' = some v') : k' = k ∧ v' = v ∨ k' ≠ k ∧ d.get? k' = some v' := by
  rw [get?_set] at h
  split at h
  next heq => exact .inl ⟨heq, (Option.some.inj h).symm⟩
  next hne => exact .inr ⟨hne, h⟩

/-- `del d[k]`. -/
def erase (d : OrderedDict κ α) (k : κ) : OrderedDict κ α :=
  ⟨d.entries.filter fun e => e.1 ≠ k, d.nodup.sublist (List.filter_sublist.map _)⟩

theorem get?_erase (d : OrderedDict κ α) (k k' : κ) :
    (d.erase k).get? k' = if k' = k then none else d.get? k' := by
  ext v
  rw [get?_eq_some_iff, erase]
  split
  next h => simp [h]
  next h => simp [h, get?_eq_some_iff]

/-! ## Similarity -/

/-- The same values at the same keys. -/
def Similar (d d' : OrderedDict κ α) : Prop := ∀ k, d.get? k = d'.get? k

instance [DecidableEq α] (d d' : OrderedDict κ α) : Decidable (d.Similar d') :=
  decidable_of_iff (∀ k ∈ d.keys ++ d'.keys, d.get? k = d'.get? k) <| by
    refine ⟨fun h k => ?_, fun h k _ => h k⟩
    by_cases hk : k ∈ d.keys ++ d'.keys
    · exact h k hk
    · rw [List.mem_append, not_or] at hk
      rw [get?_eq_none_iff.2 hk.1, get?_eq_none_iff.2 hk.2]

theorem Similar.mem_iff {d d' : OrderedDict κ α} (h : d.Similar d') (k : κ) : k ∈ d ↔ k ∈ d' := by
  rw [mem_iff_exists_get?, mem_iff_exists_get?, h k]

end OrderedDict

end AHPy
