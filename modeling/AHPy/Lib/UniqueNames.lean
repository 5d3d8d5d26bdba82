import AHPy.Lib.OrderedDict

/-!
# Names
-/

/-!
## Numbered names

Names that a generator puts together from fixed parts, decimal numbers and names
of its input are lists of characters. They are different where their fixed parts
are, or where a number is followed by no digit and the numbers are different.

* `toDigits_append_inj`: a number ends where no digit follows;
* `nodup_numbered`: names with the indices of a list are different;
* `disjoint_of_starts`: so are names with different beginnings.
-/

namespace AHPy

namespace NumberedNames

/-! ## Numbers -/

/-- A name does not go on with a digit. -/
def NoDigit (s : List Char) : Prop := ∀ c ∈ s.head?, c.isDigit = false

theorem noDigit_cons {c : Char} {s : List Char} : NoDigit (c :: s) ↔ c.isDigit = false := by
  simp [NoDigit]

theorem toDigits_inj {i j : ℕ} (h : Nat.toDigits 10 i = Nat.toDigits 10 j) : i = j := by
  have hof := congrArg (fun d => Nat.ofDigitChars 10 d 0) h
  simpa only [Nat.ofDigitChars_ten_toDigits] using hof

theorem isDigit_of_mem {i : ℕ} {c : Char} (h : c ∈ Nat.toDigits 10 i) : c.isDigit = true :=
  Nat.isDigit_of_mem_toDigits (by decide) (by decide) h

theorem exists_toDigits (i : ℕ) : ∃ c s, Nat.toDigits 10 i = c :: s ∧ c.isDigit = true := by
  obtain ⟨c, s, h⟩ := List.exists_cons_of_ne_nil (Nat.toDigits_ne_nil (n := i) (b := 10))
  exact ⟨c, s, h, isDigit_of_mem (h ▸ List.mem_cons_self)⟩

/-- A list of digits ends at the same place in both names. -/
theorem digits_append_inj {d e s t : List Char} (hd : ∀ c ∈ d, c.isDigit = true)
    (he : ∀ c ∈ e, c.isDigit = true) (hs : NoDigit s) (ht : NoDigit t) (h : d ++ s = e ++ t) :
    d = e ∧ s = t := by
  rcases List.append_eq_append_iff.mp h with ⟨a, rfl, rfl⟩ | ⟨a, rfl, rfl⟩
  · cases a with
    | nil => simp
    | cons c a =>
      have hc := he c (List.mem_append_right d List.mem_cons_self)
      rw [List.cons_append, noDigit_cons, hc] at hs
      cases hs
  · cases a with
    | nil => simp
    | cons c a =>
      have hc := hd c (List.mem_append_right e List.mem_cons_self)
      rw [List.cons_append, noDigit_cons, hc] at ht
      cases ht

/-- A number ends where no digit follows. -/
theorem toDigits_append_inj {i j : ℕ} {s t : List Char} (hs : NoDigit s) (ht : NoDigit t)
    (h : Nat.toDigits 10 i ++ s = Nat.toDigits 10 j ++ t) : i = j ∧ s = t := by
  obtain ⟨hij, hst⟩ := digits_append_inj (fun _ => isDigit_of_mem) (fun _ => isDigit_of_mem) hs ht h
  exact ⟨toDigits_inj hij, hst⟩

/-! ## Lists of names -/

variable {α : Type*}

theorem nodup_map_append {l : List (List Char)} (h : l.Nodup) (start : List Char) :
    (l.map fun s => start ++ s).Nodup :=
  h.map fun _ _ hs => List.append_cancel_left hs

/-- Names with the indices of a list in them are different. -/
theorem nodup_numbered {start : List Char} {f : α → List (List Char)} {l : List α}
    (hf : ∀ a ∈ l, (f a).Nodup) (hdigit : ∀ a ∈ l, ∀ s ∈ f a, NoDigit s) :
    (l.zipIdx.flatMap fun p => (f p.1).map fun s => start ++ (Nat.toDigits 10 p.2 ++ s)).Nodup := by
  rw [List.nodup_flatMap]
  constructor
  · intro p hp
    refine List.Nodup.map ?_ (hf p.1 (List.fst_mem_of_mem_zipIdx hp))
    intro s t hst
    exact List.append_cancel_left (List.append_cancel_left hst)
  · have hidx := List.nodup_zipIdx_map_snd l
    rw [List.Nodup, List.pairwise_map] at hidx
    refine hidx.imp_of_mem ?_
    intro p q hp hq hne n hnp hnq
    obtain ⟨s, hs, rfl⟩ := List.mem_map.mp hnp
    obtain ⟨t, ht, hst⟩ := List.mem_map.mp hnq
    refine hne (toDigits_append_inj ?_ ?_ (List.append_cancel_left hst)).1.symm
    · exact hdigit q.1 (List.fst_mem_of_mem_zipIdx hq) t ht
    · exact hdigit p.1 (List.fst_mem_of_mem_zipIdx hp) s hs

/-- Names with different beginnings are different. -/
theorem disjoint_of_starts {l l' : List (List Char)} {p q : List Char}
    (hl : ∀ n ∈ l, p <+: n) (hl' : ∀ n ∈ l', q <+: n) (hp : ¬ p <+: q) (hq : ¬ q <+: p) :
    l.Disjoint l' := by
  intro n hn hn'
  rcases List.prefix_or_prefix_of_prefix (hl n hn) (hl' n hn') with h | h
  · exact hp h
  · exact hq h

end NumberedNames

/-!
## Unique names

A generator of names keeps the names in use, each with the counter that was last tried
for it. A name that is in use is replaced by a numbered one.

* `uniqueName_spec`: a name that is not in use is found, if the numbered ones are different.
-/

variable {κ : Type*} [DecidableEq κ]

/-- The search for a name, with the counter of `value`. -/
def uniqueNameLoop (format : ℕ → κ) (value : κ) :
    ℕ → OrderedDict κ ℕ → κ → Option (κ × OrderedDict κ ℕ)
  | 0, _, _ => none
  | fuel + 1, used, name =>
    if name ∈ used then
      (used.get? value).bind fun counter =>
        uniqueNameLoop format value fuel (used.set value (counter + 1)) (format (counter + 1))
    else some (name, used.set name 1)

def uniqueName (format : ℕ → κ) (used : OrderedDict κ ℕ) (value : κ) :
    Option (κ × OrderedDict κ ℕ) :=
  uniqueNameLoop format value (used.entries.length + 1) used value

variable {format : ℕ → κ} {value : κ}

/-- The names that were tried are in use. With more fuel than names in use, a new one is
    found: the counter makes every name that is tried a new one. -/
theorem uniqueNameLoop_spec (hinj : Function.Injective format) (fuel : ℕ)
    (used : OrderedDict κ ℕ) (name : κ) (tried : List κ)
    (hname : name = value ∨ ∃ n, name = format n) (hvalue : name ∈ used → value ∈ used)
    (hnodup : tried.Nodup) (htried : ∀ t ∈ tried, t ∈ used) (hnew : name ∉ tried)
    (hnext : ∀ c ∈ used.get? value, ∀ n, c < n → format n ∉ name :: tried)
    (hfuel : used.entries.length < tried.length + fuel) :
    ∃ name' used', uniqueNameLoop format value fuel used name = some (name', used') ∧
      name' ∉ used ∧ (∀ k, k ∈ used' ↔ k = name' ∨ k ∈ used) ∧
      (name' = value ∨ ∃ n, name' = format n) := by
  induction fuel generalizing used name tried with
  | zero =>
    -- Not more names are in use than there are.
    have hsubset : tried ⊆ used.keys := htried
    have hle := (List.subperm_of_subset hnodup hsubset).length_le
    rw [OrderedDict.keys, List.length_map] at hle
    omega
  | succ fuel ih =>
    rw [uniqueNameLoop]
    by_cases hin : name ∈ used
    · obtain ⟨c, hc⟩ := OrderedDict.mem_iff_exists_get?.1 (hvalue hin)
      have hmem : ∀ k, k ∈ used.set value (c + 1) ↔ k ∈ used := by
        intro k
        rw [OrderedDict.mem_set_iff, or_iff_right_iff_imp]
        rintro rfl
        exact hvalue hin
      have hlength : (used.set value (c + 1)).entries.length = used.entries.length := by
        have h := congrArg List.length (OrderedDict.keys_set_of_mem (hvalue hin) (c + 1))
        simpa [OrderedDict.keys] using h
      have hlater : ∀ c' ∈ (used.set value (c + 1)).get? value, ∀ n, c' < n →
          format n ∉ format (c + 1) :: name :: tried := by
        intro c' hc' n hn
        rw [OrderedDict.get?_set_self] at hc'
        obtain rfl := Option.some.inj hc'
        rw [List.mem_cons, not_or]
        exact ⟨fun h => by have := hinj h; omega, hnext c hc n (by omega)⟩
      rw [if_pos hin, hc, Option.bind_some]
      obtain ⟨name', used', hloop, hfresh, hused, hform⟩ :=
        ih (used.set value (c + 1)) (format (c + 1)) (name :: tried) (.inr ⟨_, rfl⟩)
          (fun _ => (hmem value).2 (hvalue hin)) (List.nodup_cons.2 ⟨hnew, hnodup⟩)
          (fun t ht => (hmem t).2 ((List.mem_cons.1 ht).elim (· ▸ hin) (htried t)))
          (hnext c hc (c + 1) (Nat.lt_succ_self c)) hlater
          (by rw [hlength, List.length_cons]; omega)
      exact ⟨name', used', hloop, fun h => hfresh ((hmem _).2 h), fun k => by rw [hused, hmem],
        hform⟩
    · rw [if_neg hin]
      exact ⟨name, _, rfl, hin, fun k => OrderedDict.mem_set_iff, hname⟩

/-- A name that is not in use is found. -/
theorem uniqueName_spec (hinj : Function.Injective format) (hne : ∀ n, format n ≠ value)
    (used : OrderedDict κ ℕ) :
    ∃ name used', uniqueName format used value = some (name, used') ∧ name ∉ used ∧
      (∀ k, k ∈ used' ↔ k = name ∨ k ∈ used) ∧ (name = value ∨ ∃ n, name = format n) :=
  uniqueNameLoop_spec hinj _ used value [] (.inl rfl) id List.nodup_nil (by simp) (by simp)
    (fun _ _ n _ => by simpa using hne n) (by simp)

/-!
## Generations of names

A name that is used again gets a new generation: a number counted up in a
dictionary. Stamped with its generation (`stamp`), it differs from all names
stamped before, whatever characters the names contain.

* `stamp_inj`: the name and the generation can be read off a stamp;
* `Counted.stamp_next`: the next stamp of a name is new.
-/

namespace Generations

/-- `"%s#%d" % (name, generation)`. -/
def stamp (name : String) (generation : ℕ) : String := name ++ "#" ++ toString generation

theorem toList_stamp (name : String) (generation : ℕ) :
    (stamp name generation).toList = name.toList ++ '#' :: Nat.toDigits 10 generation := by
  simp [stamp, String.toList_append]

theorem not_mem_toDigits (n : ℕ) : '#' ∉ Nat.toDigits 10 n := fun h => by
  have hdigit := NumberedNames.isDigit_of_mem h
  revert hdigit
  decide

/-- Words are split at the last `#`. -/
theorem append_hash_inj {s t d e : List Char} (hd : '#' ∉ d) (he : '#' ∉ e)
    (h : s ++ '#' :: d = t ++ '#' :: e) : s = t ∧ d = e := by
  rcases List.append_eq_append_iff.1 h with ⟨m, rfl, hm⟩ | ⟨m, rfl, hm⟩
  · cases m with
    | nil => exact ⟨(List.append_nil s).symm, (List.cons.inj hm).2⟩
    | cons c m =>
      rw [(List.cons.inj hm).2] at hd
      exact absurd (List.mem_append_right m List.mem_cons_self) hd
  · cases m with
    | nil => exact ⟨List.append_nil t, (List.cons.inj hm).2.symm⟩
    | cons c m =>
      rw [(List.cons.inj hm).2] at he
      exact absurd (List.mem_append_right m List.mem_cons_self) he

/-- What follows the last `#` is the generation. -/
theorem stamp_inj {c c' : String} {g g' : ℕ} (h : stamp c g = stamp c' g') : c = c' ∧ g = g' := by
  have hl := congrArg String.toList h
  rw [toList_stamp, toList_stamp] at hl
  obtain ⟨hc, hg⟩ := append_hash_inj (not_mem_toDigits g) (not_mem_toDigits g') hl
  exact ⟨String.ext hc, NumberedNames.toDigits_inj hg⟩

/-! ## Counting -/

/-- The next generation of a name: `generations.get(name, 0) + 1`. -/
def next (generations : OrderedDict String ℕ) (name : String) : ℕ :=
  (generations.get? name).getD 0 + 1

/-- The identities are stamps with generations counted so far. -/
def Counted (generations : OrderedDict String ℕ) (identities : String → Prop) : Prop :=
  ∀ n, identities n → ∃ c g g', n = stamp c g ∧ generations.get? c = some g' ∧ g ≤ g'

variable {generations : OrderedDict String ℕ} {identities identities' : String → Prop}

/-- The next stamp of a name is new. -/
theorem Counted.stamp_next (h : Counted generations identities) (c : String) :
    ¬ identities (stamp c (next generations c)) := by
  intro hn
  obtain ⟨c', g, g', hs, hg', hle⟩ := h _ hn
  obtain ⟨rfl, rfl⟩ := stamp_inj hs
  rw [next, hg', Option.getD_some] at hle
  exact absurd hle (Nat.not_succ_le_self g')

theorem Counted.mono (h : Counted generations identities) (hi : ∀ n, identities' n → identities n) :
    Counted generations identities' :=
  fun n hn => h n (hi n hn)

/-- Counting a name up. -/
theorem Counted.set (h : Counted generations identities) (c : String)
    (hi : ∀ n, identities' n → identities n ∨ n = stamp c (next generations c)) :
    Counted (generations.set c (next generations c)) identities' := by
  intro n hn
  rcases hi n hn with hn | rfl
  · obtain ⟨c', g, g', hs, hg', hle⟩ := h n hn
    by_cases hc : c' = c
    · subst hc
      refine ⟨c', g, _, hs, OrderedDict.get?_set_self _ _ _, hle.trans ?_⟩
      rw [next, hg', Option.getD_some]
      exact Nat.le_succ g'
    · exact ⟨c', g, g', hs, (generations.get?_set_of_ne hc _).trans hg', hle⟩
  · exact ⟨c, _, _, rfl, OrderedDict.get?_set_self _ _ _, le_rfl⟩

end Generations

end AHPy
