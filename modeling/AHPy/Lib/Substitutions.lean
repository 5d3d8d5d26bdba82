import Mathlib

/-!
# Substitutions in texts

The replacement of the matches of a pattern from left to right, as regular
expressions do it, and texts that are put together from the codes of pieces.

* `Pattern.split`: the matches in a text, and the symbols between them;
* `Pattern.sub`: the text with its matches replaced;
* `split_induction`: the induction along the matches;
* `flatMap_injOn`: pieces can be read off their codes, if the first of them can.
-/

namespace AHPy

/-- What matches at the beginning of a text: the value of the match, and its length. -/
structure Pattern (α κ : Type*) where
  find : List α → Option (κ × ℕ)
  pos : ∀ {s : List α} {k : κ} {n : ℕ}, find s = some (k, n) → 0 < n

namespace Pattern

variable {α κ : Type*} (P : Pattern α κ)

/-- The pieces of a text whose first symbols belong to the last match. -/
def splitFrom : ℕ → List α → List (κ ⊕ α)
  | _, [] => []
  | n + 1, _ :: s => splitFrom n s
  | 0, c :: s =>
    match P.find (c :: s) with
    | some (k, n) => .inl k :: splitFrom (n - 1) s
    | none => .inr c :: splitFrom 0 s

/-- The matches from left to right, and the symbols between them. -/
def split (s : List α) : List (κ ⊕ α) := P.splitFrom 0 s

/-- `re.sub` -/
def sub (f : κ → List α) (s : List α) : List α :=
  (P.split s).flatMap (Sum.elim f fun c => [c])

variable {P} {c : α} {s : List α} {k : κ} {n : ℕ}

theorem splitFrom_eq (n : ℕ) (s : List α) : P.splitFrom n s = P.split (s.drop n) := by
  induction s generalizing n with
  | nil =>
    rw [List.drop_nil]
    cases n <;> rfl
  | cons c s ih =>
    cases n with
    | zero => rfl
    | succ n => exact ih n

theorem split_nil : P.split [] = [] := rfl

theorem split_of_find (h : P.find (c :: s) = some (k, n)) :
    P.split (c :: s) = .inl k :: P.split ((c :: s).drop n) := by
  obtain ⟨m, rfl⟩ := Nat.exists_eq_add_of_lt (P.pos h)
  rw [split, splitFrom, h]
  simp only [Nat.zero_add, Nat.add_sub_cancel, List.drop_succ_cons, splitFrom_eq]

theorem split_of_none (h : P.find (c :: s) = none) : P.split (c :: s) = .inr c :: P.split s := by
  rw [split, splitFrom, h]
  rfl

/-- The induction along the matches of a text. -/
theorem split_induction (P : Pattern α κ) {motive : List α → Prop} (nil : motive [])
    (piece : ∀ c s k n, P.find (c :: s) = some (k, n) → motive ((c :: s).drop n) →
      motive (c :: s))
    (symbol : ∀ c s, P.find (c :: s) = none → motive s → motive (c :: s)) (s : List α) :
    motive s := by
  induction hlength : s.length using Nat.strong_induction_on generalizing s with
  | _ length ih =>
    cases s with
    | nil => exact nil
    | cons c s =>
      cases hfind : P.find (c :: s) with
      | none => exact symbol c s hfind (ih s.length (by rw [← hlength]; simp) s rfl)
      | some found =>
        refine piece c s found.1 found.2 hfind (ih _ ?_ _ rfl)
        have hpos := P.pos hfind
        rw [← hlength, List.length_drop]
        exact Nat.sub_lt (Nat.succ_pos _) hpos

theorem sub_nil (f : κ → List α) : P.sub f [] = [] := rfl

theorem sub_of_find (f : κ → List α) (h : P.find (c :: s) = some (k, n)) :
    P.sub f (c :: s) = f k ++ P.sub f ((c :: s).drop n) := by
  rw [sub, split_of_find h, List.flatMap_cons]
  rfl

theorem sub_of_none (f : κ → List α) (h : P.find (c :: s) = none) :
    P.sub f (c :: s) = c :: P.sub f s := by
  rw [sub, split_of_none h, List.flatMap_cons]
  rfl

/-- A property of all pieces. -/
theorem forall_mem_split {p : κ ⊕ α → Prop} (hsymbol : ∀ c ∈ s, p (.inr c))
    (hpiece : ∀ k, p (.inl k)) : ∀ x ∈ P.split s, p x := by
  induction s using P.split_induction with
  | nil =>
    intro x hx
    rw [split_nil] at hx
    cases hx
  | piece c s k n hfind ih =>
    rw [split_of_find hfind, List.forall_mem_cons]
    exact ⟨hpiece k, ih fun d hd => hsymbol d (List.mem_of_mem_drop hd)⟩
  | symbol c s hfind ih =>
    rw [split_of_none hfind, List.forall_mem_cons]
    exact ⟨hsymbol c List.mem_cons_self, ih fun d hd => hsymbol d (List.mem_cons_of_mem c hd)⟩

/-- A property of all symbols, which the replacements keep. -/
theorem forall_mem_sub {p : α → Prop} {f : κ → List α}
    (hf : ∀ s k n, P.find s = some (k, n) → (∀ c ∈ s, p c) → ∀ c ∈ f k, p c)
    (hs : ∀ c ∈ s, p c) : ∀ c ∈ P.sub f s, p c := by
  induction s using P.split_induction with
  | nil =>
    intro c hc
    rw [sub_nil] at hc
    cases hc
  | piece c s k n hfind ih =>
    rw [sub_of_find f hfind, List.forall_mem_append]
    exact ⟨hf _ k n hfind hs, ih fun d hd => hs d (List.mem_of_mem_drop hd)⟩
  | symbol c s hfind ih =>
    rw [sub_of_none f hfind, List.forall_mem_cons]
    exact ⟨hs c List.mem_cons_self, ih fun d hd => hs d (List.mem_cons_of_mem c hd)⟩

/-- A text without a match stays as it is. -/
theorem sub_eq_self (f : κ → List α) (h : ∀ t, t <:+ s → P.find t = none) : P.sub f s = s := by
  induction s with
  | nil => exact sub_nil f
  | cons c s ih =>
    rw [sub_of_none f (h _ List.suffix_rfl),
      ih fun t ht => h t (ht.trans (List.suffix_cons c s))]

theorem sub_ne_nil {f : κ → List α} (hf : ∀ k, f k ≠ []) (hs : s ≠ []) : P.sub f s ≠ [] := by
  obtain ⟨c, s, rfl⟩ := List.exists_cons_of_ne_nil hs
  cases hfind : P.find (c :: s) with
  | none =>
    rw [sub_of_none f hfind]
    exact List.cons_ne_nil _ _
  | some found =>
    rw [sub_of_find f hfind]
    exact List.append_ne_nil_of_left_ne_nil (hf found.1) _

end Pattern

/-! ## Codes -/

/-- Lists of pieces are equal if their codes are, where the first piece can be read off. -/
theorem flatMap_injOn {α β : Type*} {code : β → List α} {valid : List β → Prop}
    (hnil : ∀ b, code b ≠ []) (htail : ∀ {b l}, valid (b :: l) → valid l)
    (hhead : ∀ {a b l m}, valid (a :: l) → valid (b :: m) →
      (a :: l).flatMap code = (b :: m).flatMap code → a = b) {l m : List β}
    (hl : valid l) (hm : valid m) (h : l.flatMap code = m.flatMap code) : l = m := by
  induction l generalizing m with
  | nil =>
    cases m with
    | nil => rfl
    | cons b m =>
      rw [List.flatMap_cons, List.flatMap_nil, eq_comm, List.append_eq_nil_iff] at h
      exact absurd h.1 (hnil b)
  | cons a l ih =>
    cases m with
    | nil =>
      rw [List.flatMap_cons, List.flatMap_nil, List.append_eq_nil_iff] at h
      exact absurd h.1 (hnil a)
    | cons b m =>
      obtain rfl := hhead hl hm h
      rw [List.flatMap_cons, List.flatMap_cons] at h
      rw [ih (htail hl) (htail hm) (List.append_cancel_left h)]

end AHPy
