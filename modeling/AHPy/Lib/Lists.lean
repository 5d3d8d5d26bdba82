import Mathlib

/-!
# Lists
-/

/-!
## Folds that may fail

Rules for `List.foldlM` in `Except`, with an invariant that knows the elements
folded so far.

* `foldlM_ok`: if every step succeeds and keeps the invariant, so does the fold;
* `foldlM_keeps`: if every step that succeeds keeps the invariant, so does a fold
  that succeeds.
-/

namespace AHPy

universe u v w

variable {ε : Type u} {α : Type v} {β : Type w} {f : β → α → Except ε β} {I : List α → β → Prop}

theorem foldlM_ok {l d : List α} {b : β}
    (h : ∀ a ∈ l, ∀ done b, I done b → ∃ b', f b a = .ok b' ∧ I (done ++ [a]) b')
    (hb : I d b) : ∃ r, l.foldlM f b = .ok r ∧ I (d ++ l) r := by
  induction l generalizing d b with
  | nil => exact ⟨b, rfl, by rwa [List.append_nil]⟩
  | cons a l ih =>
    obtain ⟨b', hf, hb'⟩ := h a List.mem_cons_self d b hb
    obtain ⟨r, hr, hI⟩ := ih (fun a' ha' => h a' (List.mem_cons_of_mem a ha')) hb'
    refine ⟨r, ?_, by rwa [List.append_cons]⟩
    rw [List.foldlM_cons, hf]
    exact hr

theorem foldlM_keeps {l d : List α} {b r : β}
    (h : ∀ a ∈ l, ∀ done b b', I done b → f b a = .ok b' → I (done ++ [a]) b')
    (hb : I d b) (hr : l.foldlM f b = .ok r) : I (d ++ l) r := by
  induction l generalizing d b with
  | nil =>
    rw [List.append_nil]
    rw [List.foldlM_nil] at hr
    exact Except.ok.inj hr ▸ hb
  | cons a l ih =>
    rw [List.foldlM_cons] at hr
    rcases hf : f b a with e | b'
    · rw [hf] at hr
      exact absurd (show Except.error e = Except.ok r from hr) (by simp)
    · rw [hf] at hr
      rw [List.append_cons]
      exact ih (fun a' ha' => h a' (List.mem_cons_of_mem a ha'))
        (h a List.mem_cons_self d b b' hb hf) hr

/-- A fold fails as one of its steps does. -/
theorem exists_of_foldlM_error {l : List α} {b : β} {e : ε} (h : l.foldlM f b = .error e) :
    ∃ a ∈ l, ∃ b', f b' a = .error e := by
  induction l generalizing b with
  | nil => exact absurd (show Except.ok b = Except.error e from h) (by simp)
  | cons a l ih =>
    rw [List.foldlM_cons] at h
    rcases hf : f b a with e' | b'
    · rw [hf] at h
      obtain rfl : e' = e := Except.error.inj h
      exact ⟨a, List.mem_cons_self, b, hf⟩
    · rw [hf] at h
      obtain ⟨a', ha', hb'⟩ := ih h
      exact ⟨a', List.mem_cons_of_mem a ha', hb'⟩

/-- A fold of folds is one over all elements. -/
theorem foldlM_flatMap {γ : Type v} (g : γ → List α) (l : List γ) (b : β) :
    (l.flatMap g).foldlM f b = l.foldlM (fun b c => (g c).foldlM f b) b := by
  induction l generalizing b with
  | nil => rfl
  | cons c l ih =>
    rw [List.flatMap_cons, List.foldlM_append, List.foldlM_cons]
    congr 1
    funext b'
    exact ih b'

end AHPy

/-!
## Growing lists

Lists whose items are made one after another, each of them from something of its own and from
the items before it, as the declarations of a program that refer to earlier ones.

* `build`, `getElem?_build`: lists whose items can always be made;
* `grow`, `grow_getElem?`: lists whose items may be refused.
-/

namespace AHPy

variable {α β : Type*}

/-! ## Items that can be made -/

/-- The items made of the elements of a list. -/
def build (make : List β → α → β) (l : List α) : List β :=
  l.foldl (fun done a => done ++ [make done a]) []

section

variable {make : List β → α → β} {l : List α}

theorem build_append_singleton (a : α) :
    build make (l ++ [a]) = build make l ++ [make (build make l) a] := by
  rw [build, List.foldl_append]
  rfl

@[simp] theorem length_build : (build make l).length = l.length := by
  induction l using List.reverseRecOn with
  | nil => rfl
  | append_singleton l a ih =>
    rw [build_append_singleton, List.length_append, List.length_append, ih]
    rfl

/-- An item is made from those before it. -/
theorem getElem?_build (i : ℕ) :
    (build make l)[i]? = l[i]?.map (make ((build make l).take i)) := by
  induction l using List.reverseRecOn with
  | nil => rfl
  | append_singleton l a ih =>
    rw [build_append_singleton]
    rcases lt_trichotomy i l.length with hi | rfl | hi
    · rw [List.getElem?_append_left (by simpa using hi), List.getElem?_append_left hi, ih,
        List.take_append_of_le_length (by simpa using hi.le)]
    · rw [List.getElem?_append_right (by simp), List.getElem?_append_right le_rfl,
        List.take_append_of_le_length (by simp), List.take_of_length_le (by simp)]
      simp
    · rw [List.getElem?_eq_none (by simpa using hi), List.getElem?_eq_none (by simpa using hi)]
      rfl

end

/-! ## Items that may be refused -/

/-- The items made of the elements of a list, after those that are there. -/
def grow (make : List β → α → Option β) (done : List β) : List α → Option (List β)
  | [] => some done
  | a :: l => (make done a).bind fun b => grow make (done ++ [b]) l

variable {make : List β → α → Option β} {l : List α} {done result : List β}

theorem grow_extends (h : grow make done l = some result) :
    done <+: result ∧ result.length = done.length + l.length := by
  induction l generalizing done with
  | nil => exact Option.some.inj h ▸ ⟨List.prefix_rfl, rfl⟩
  | cons a l ih =>
    obtain ⟨b, -, h⟩ := Option.bind_eq_some_iff.mp h
    obtain ⟨hpre, hlen⟩ := ih h
    refine ⟨(List.prefix_append done [b]).trans hpre, ?_⟩
    simp only [hlen, List.length_append, List.length_cons, List.length_nil]
    omega

/-- An item is made from those before it. -/
theorem grow_getElem? (h : grow make done l = some result) {i : ℕ} {a : α} (ha : l[i]? = some a) :
    ∃ b, result[done.length + i]? = some b ∧
      make (result.take (done.length + i)) a = some b := by
  induction l generalizing done i with
  | nil => simp at ha
  | cons a' l ih =>
    obtain ⟨b, hb, h⟩ := Option.bind_eq_some_iff.mp h
    cases i with
    | zero =>
      obtain rfl : a' = a := by simpa using ha
      obtain ⟨⟨rest, rfl⟩, -⟩ := grow_extends h
      refine ⟨b, by simp, ?_⟩
      rw [List.append_assoc, Nat.add_zero, List.take_left]
      exact hb
    | succ i =>
      obtain ⟨b', hb', hmake⟩ := ih h ha
      rw [List.length_append, List.length_singleton, Nat.add_assoc, Nat.add_comm 1 i] at hb' hmake
      exact ⟨b', hb', hmake⟩

end AHPy

/-!
## Arrays whose first entries are taken

An array hands out its entries in order. An entry that comes back, anywhere among those
taken, is exchanged with the last one taken.

* `swapAt_perm`: exchanges permute the array;
* `cons_take_swapAt_perm`: after the exchange, the entries taken are one less, without the entry
  that came back.
-/

namespace AHPy

variable {α : Type*}

/-- Exchange two entries. -/
def swapAt (l : List α) (i j : ℕ) : List α :=
  match l[i]?, l[j]? with
  | some a, some b => (l.set i b).set j a
  | _, _ => l

variable {l : List α} {i j n : ℕ}

theorem swapAt_eq (hi : i < l.length) (hj : j < l.length) :
    swapAt l i j = (l.set i l[j]).set j l[i] := by
  rw [swapAt, List.getElem?_eq_getElem hi, List.getElem?_eq_getElem hj]

theorem swapAt_perm (hi : i < l.length) (hj : j < l.length) : (swapAt l i j).Perm l := by
  rw [swapAt_eq hi hj]
  exact List.set_set_perm hi hj

theorem take_swapAt (hi : i < n) (hj : j < n) (hn : n ≤ l.length) :
    (swapAt l i j).take n = swapAt (l.take n) i j := by
  have hlen : (l.take n).length = n := List.length_take_of_le hn
  rw [swapAt_eq (hi.trans_le hn) (hj.trans_le hn), swapAt_eq (by omega) (by omega), List.take_set,
    List.take_set, List.getElem_take, List.getElem_take]

/-- The entry that came back, and those still taken, are those that were taken. -/
theorem cons_take_swapAt_perm (hi : i ≤ n) (hn : n < l.length) :
    (l[i] :: (swapAt l i n).take n).Perm (l.take (n + 1)) := by
  have hswap : swapAt l i n = (l.set i l[n]).set n l[i] := swapAt_eq (by omega) hn
  have hlen : n < (swapAt l i n).length := by
    rw [hswap, List.length_set, List.length_set]
    exact hn
  have hlast : (swapAt l i n)[n] = l[i] := by
    simp only [hswap, List.getElem_set_self]
  have htake : (swapAt l i n).take (n + 1) = (swapAt l i n).take n ++ [l[i]] := by
    rw [List.take_add_one, List.getElem?_eq_getElem hlen, hlast]
    rfl
  have hperm : ((swapAt l i n).take (n + 1)).Perm (l.take (n + 1)) := by
    rw [take_swapAt (by omega) (by omega) (by omega)]
    exact swapAt_perm (by rw [List.length_take]; omega) (by rw [List.length_take]; omega)
  rw [htake] at hperm
  exact (List.perm_append_singleton _ _).symm.trans hperm

end AHPy
