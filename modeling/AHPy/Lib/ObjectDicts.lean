import Mathlib

/-!
# Dictionaries of objects

Dictionaries whose keys are objects of any class: the hash of a key and its comparison with
another one may raise. An entry keeps the hash of its key; a key is compared with the entries
of its hash, in order, except with itself.

* `find_eq_false_iff`: a key is absent if it differs from all keys of its hash;
* `firstPresent_eq_none_iff_comm`: where comparisons are symmetric, no key of a dictionary is in
  another one exactly if none of the other one is in it, errors included;
* `find_append`, `update_eq_append`: keys that are absent at first stay so while entries of a
  dictionary are added one by one.
-/

namespace AHPy

/-- Hashes and comparisons of objects; `eq` compares a stored key with one that is looked up. -/
structure KeyClass (κ ε : Type) where
  hash : κ → Except ε ℤ
  eq : κ → κ → Except ε Bool

structure DictEntry (κ ν : Type) where
  key : κ
  hash : ℤ
  value : ν

namespace KeyClass

variable {κ ν ε : Type} [DecidableEq κ] (K : KeyClass κ ε)

/-- Whether an entry is that of a key. -/
def test (e : DictEntry κ ν) (h : ℤ) (k : κ) : Except ε Bool :=
  if e.hash = h then (if e.key = k then .ok true else K.eq e.key k) else .ok false

/-- Whether an entry is that of a key with the hash `h`. -/
def find : List (DictEntry κ ν) → ℤ → κ → Except ε Bool
  | [], _, _ => .ok false
  | e :: es, h, k => do
    if ← K.test e h k then return true
    find es h k

/-- `k in d`. -/
def contains (es : List (DictEntry κ ν)) (k : κ) : Except ε Bool := do
  let h ← K.hash k
  K.find es h k

/-- Overwrite the value of a key, or add an entry. -/
def insert : List (DictEntry κ ν) → DictEntry κ ν → Except ε (List (DictEntry κ ν))
  | [], x => .ok [x]
  | e :: es, x => do
    if ← K.test e x.hash x.key then return { e with value := x.value } :: es
    let es ← insert es x
    return e :: es

/-- `d[k] = v`. -/
def setItem (es : List (DictEntry κ ν)) (k : κ) (v : ν) : Except ε (List (DictEntry κ ν)) := do
  let h ← K.hash k
  K.insert es ⟨k, h, v⟩

/-- Add entries one by one, up to an error. -/
def update : List (DictEntry κ ν) → List (DictEntry κ ν) → List (DictEntry κ ν) × Option ε
  | es, [] => (es, none)
  | es, x :: xs =>
    match K.insert es x with
    | .ok es => update es xs
    | .error e => (es, some e)

/-- The outcome is not that a key is absent. -/
def Nonzero : Except ε Bool → Bool
  | .ok b => b
  | .error _ => true

/-- The first entry of `xs` whose key is in `es`, or whose lookup raises. -/
def firstPresent (es xs : List (DictEntry κ ν)) : Option (DictEntry κ ν) :=
  xs.find? fun x => Nonzero (K.contains es x.key)

/-- The entries have the hashes of their keys. -/
def Hashed (es : List (DictEntry κ ν)) : Prop := ∀ e ∈ es, K.hash e.key = .ok e.hash

/-- No entry is that of a key before it. -/
def Distinct (es : List (DictEntry κ ν)) : Prop :=
  es.Pairwise fun e x => K.test e x.hash x.key = .ok false

/-- Comparisons of a key of `es` with one of `xs` are symmetric. -/
def Symmetric (es xs : List (DictEntry κ ν)) : Prop :=
  ∀ e ∈ es, ∀ x ∈ xs, K.eq e.key x.key = K.eq x.key e.key

variable {K} {es es' xs prev : List (DictEntry κ ν)} {e x : DictEntry κ ν} {h : ℤ} {k : κ}

theorem nonzero_eq_false_iff {r : Except ε Bool} : Nonzero r = false ↔ r = .ok false := by
  rcases r with e | _ | _ <;> simp [Nonzero]

/-! ## Lookups -/

theorem find_cons_of_false (he : K.test e h k = .ok false) :
    K.find (e :: es) h k = K.find es h k := by
  rw [find, he]
  rfl

theorem find_cons_of_ne (he : K.test e h k ≠ .ok false) : K.find (e :: es) h k = K.test e h k := by
  rw [find]
  rcases hr : K.test e h k with _ | _ | _
  · rfl
  · exact absurd hr he
  · rfl

theorem find_eq_false_iff : K.find es h k = .ok false ↔ ∀ e ∈ es, K.test e h k = .ok false := by
  induction es with
  | nil => exact iff_of_true rfl fun e he => absurd he List.not_mem_nil
  | cons e es ih =>
    rw [List.forall_mem_cons, ← ih]
    by_cases he : K.test e h k = .ok false
    · rw [find_cons_of_false he]
      exact (and_iff_right he).symm
    · rw [find_cons_of_ne he]
      exact iff_of_false he fun hall => he hall.1

/-- Entries that are not those of a key do not matter for its lookup. -/
theorem find_append (hnew : ∀ e ∈ es', K.test e h k = .ok false) :
    K.find (es ++ es') h k = K.find es h k := by
  induction es with
  | nil => exact find_eq_false_iff.2 hnew
  | cons e es ih =>
    rw [List.cons_append]
    by_cases he : K.test e h k = .ok false
    · rw [find_cons_of_false he, find_cons_of_false he, ih]
    · rw [find_cons_of_ne he, find_cons_of_ne he]

theorem contains_of_hash (hk : K.hash k = .ok h) : K.contains es k = K.find es h k := by
  rw [contains, hk]
  rfl

theorem insert_of_absent (habsent : K.find es x.hash x.key = .ok false) :
    K.insert es x = .ok (es ++ [x]) := by
  rw [find_eq_false_iff] at habsent
  induction es with
  | nil => rfl
  | cons e es ih =>
    rw [List.forall_mem_cons] at habsent
    rw [insert, habsent.1]
    change (K.insert es x >>= _) = _
    rw [ih habsent.2]
    rfl

/-! ## Two dictionaries -/

theorem test_comm (hsymm : K.eq e.key x.key = K.eq x.key e.key) :
    K.test e x.hash x.key = K.test x e.hash e.key := by
  rw [test, test, hsymm]
  simp only [eq_comm]

theorem firstPresent_eq_none_iff (hxs : K.Hashed xs) :
    K.firstPresent es xs = none ↔ ∀ x ∈ xs, ∀ e ∈ es, K.test e x.hash x.key = .ok false := by
  rw [firstPresent, List.find?_eq_none]
  refine forall₂_congr fun x hx => ?_
  rw [contains_of_hash (hxs x hx), ← find_eq_false_iff, Bool.not_eq_true, nonzero_eq_false_iff]

/-- It does not matter in which dictionary the keys of the other one are looked up. -/
theorem firstPresent_eq_none_iff_comm (hes : K.Hashed es) (hxs : K.Hashed xs)
    (hsymm : K.Symmetric es xs) : K.firstPresent es xs = none ↔ K.firstPresent xs es = none := by
  rw [firstPresent_eq_none_iff hxs, firstPresent_eq_none_iff hes]
  constructor
  · intro h e he x hx
    rw [← test_comm (hsymm e he x hx)]
    exact h x hx e he
  · intro h x hx e he
    rw [test_comm (hsymm e he x hx)]
    exact h e he x hx

theorem Distinct.tail (h : K.Distinct (x :: xs)) :
    (∀ y ∈ xs, K.test x y.hash y.key = .ok false) ∧ K.Distinct xs := List.pairwise_cons.1 h

/-- An entry that is not found is added, and not found for those after it. -/
theorem forall_test_append_singleton (h : K.Distinct (x :: xs))
    (hprev : ∀ y ∈ x :: xs, ∀ e ∈ prev, K.test e y.hash y.key = .ok false) :
    ∀ y ∈ xs, ∀ e ∈ prev ++ [x], K.test e y.hash y.key = .ok false := by
  intro y hy e he
  rcases List.mem_append.1 he with he | he
  · exact hprev y (List.mem_cons_of_mem _ hy) e he
  · rw [List.mem_singleton.1 he]
    exact h.tail.1 y hy

theorem update_append (prev : List (DictEntry κ ν)) (hxs : K.Hashed xs) (hdistinct : K.Distinct xs)
    (hprev : ∀ y ∈ xs, ∀ e ∈ prev, K.test e y.hash y.key = .ok false)
    (hnone : K.firstPresent es xs = none) :
    K.update (es ++ prev) xs = (es ++ prev ++ xs, none) := by
  induction xs generalizing prev with
  | nil => rw [update, List.append_nil]
  | cons x xs ih =>
    have habsent := (firstPresent_eq_none_iff hxs).1 hnone x List.mem_cons_self
    have hinsert : K.insert (es ++ prev) x = .ok (es ++ (prev ++ [x])) := by
      rw [insert_of_absent, List.append_assoc]
      rw [find_append (hprev x List.mem_cons_self)]
      exact find_eq_false_iff.2 habsent
    have hrest : K.firstPresent es xs = none := by
      rw [firstPresent_eq_none_iff fun y hy => hxs y (List.mem_cons_of_mem _ hy)]
      exact fun y hy => (firstPresent_eq_none_iff hxs).1 hnone y (List.mem_cons_of_mem _ hy)
    rw [update, hinsert]
    change K.update (es ++ (prev ++ [x])) xs = _
    rw [ih _ (fun y hy => hxs y (List.mem_cons_of_mem _ hy)) hdistinct.tail.2
      (forall_test_append_singleton hdistinct hprev) hrest]
    simp only [List.append_assoc, List.singleton_append]

/-- Entries whose keys are not in a dictionary are added to it in order. -/
theorem update_eq_append (hxs : K.Hashed xs) (hdistinct : K.Distinct xs)
    (hnone : K.firstPresent es xs = none) : K.update es xs = (es ++ xs, none) := by
  have h := update_append [] hxs hdistinct
    (fun _ _ e he => absurd he List.not_mem_nil) hnone
  rwa [List.append_nil] at h

end KeyClass

end AHPy
