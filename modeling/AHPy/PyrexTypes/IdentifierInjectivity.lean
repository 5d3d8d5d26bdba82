import AHPy.ModuleWriter.SymbolUniqueness
import AHPy.PyrexTypes.TypeIdentifier

/-!
# Injectivity of type identifiers

Which declarations have the same identifier:

* `SameUpToSpaces`: texts that differ in spaces next to punctuation, to other
  spaces, to double underscores, and before `const `;
* `tokens_inj`: the codes of the characters can be told apart;
* `Faithful`: types with the same identifier have the same declaration up to such
  spaces, as far as the identifiers are not cut off.

A digest of six digits cannot keep all the identifiers apart that are cut off.
-/

namespace AHPy.TypeIdentifier

open ModuleWriter (isWordChar isCIdentifier IsWord)
open NumberedNames

/-! ## Spaces -/

/-- One space is dropped. -/
inductive DropsSpace : Text → Text → Prop
  | before {c : Char} {s : Text} : isWordChar c = false → DropsSpace (' ' :: c :: s) (c :: s)
  | after {c : Char} {s : Text} : isWordChar c = false → DropsSpace (c :: ' ' :: s) (c :: s)
  | beforeDunder {s : Text} : DropsSpace (' ' :: '_' :: '_' :: s) ('_' :: '_' :: s)
  | afterDunder {s : Text} : DropsSpace ('_' :: '_' :: ' ' :: s) ('_' :: '_' :: s)
  | beforeConst {s : Text} : DropsSpace (' ' :: ("const ".toList ++ s)) ("const ".toList ++ s)
  | cons {c : Char} {s t : Text} : DropsSpace s t → DropsSpace (c :: s) (c :: t)

/-- The texts differ in spaces that can be dropped. -/
def SameUpToSpaces : Text → Text → Prop := Relation.EqvGen DropsSpace

namespace SameUpToSpaces

variable {s t u : Text}

theorem refl (s : Text) : SameUpToSpaces s s := Relation.EqvGen.refl s

theorem symm (h : SameUpToSpaces s t) : SameUpToSpaces t s := Relation.EqvGen.symm _ _ h

theorem trans (h : SameUpToSpaces s t) (h' : SameUpToSpaces t u) : SameUpToSpaces s u :=
  Relation.EqvGen.trans _ _ _ h h'

theorem of_drops (h : DropsSpace s t) : SameUpToSpaces s t := Relation.EqvGen.rel _ _ h

theorem cons (c : Char) (h : SameUpToSpaces s t) : SameUpToSpaces (c :: s) (c :: t) := by
  induction h with
  | rel s t h => exact of_drops h.cons
  | refl s => exact refl _
  | symm s t _ ih => exact ih.symm
  | trans s t u _ _ ih ih' => exact ih.trans ih'

theorem append_left (p : Text) (h : SameUpToSpaces s t) : SameUpToSpaces (p ++ s) (p ++ t) := by
  induction p with
  | nil => exact h
  | cons c p ih => exact ih.cons c

/-- Without their spaces, the texts are equal. -/
theorem filter_eq (h : SameUpToSpaces s t) : s.filter (· ≠ ' ') = t.filter (· ≠ ' ') := by
  induction h with
  | rel s t h =>
    induction h with
    | before => simp
    | after => simp [List.filter_cons]
    | beforeDunder => simp
    | afterDunder => simp
    | beforeConst => simp
    | @cons c s t _ ih => simp only [List.filter_cons, ih]
  | refl s => rfl
  | symm s t _ ih => exact ih.symm
  | trans s t u _ _ ih ih' => exact ih.trans ih'

end SameUpToSpaces

/-- A run of spaces is a space. -/
theorem same_replicate (n : ℕ) (r : Text) :
    SameUpToSpaces (List.replicate (n + 1) ' ' ++ r) (' ' :: r) := by
  induction n with
  | zero => exact .refl _
  | succ n ih => exact .trans (.of_drops (.before (c := ' ') (by decide))) ih

/-- A text that begins with a space begins with a run of spaces. -/
theorem exists_run (s : Text) : ∃ n r, ' ' :: s = List.replicate (n + 1) ' ' ++ r ∧
    ((' ' :: s).takeWhile (· == ' ')).length = n + 1 := by
  induction s with
  | nil => exact ⟨0, [], rfl, rfl⟩
  | cons c s ih =>
    by_cases hc : c = ' '
    · obtain ⟨n, r, hr, hlength⟩ := ih
      subst hc
      refine ⟨n + 1, r, by rw [hr]; rfl, ?_⟩
      rw [List.takeWhile_cons_of_pos (by decide), List.length_cons, hlength]
    · refine ⟨0, c :: s, rfl, ?_⟩
      rw [List.takeWhile_cons_of_pos (by decide), List.takeWhile_cons_of_neg (by simpa using hc)]
      rfl

theorem same_collapseSpaces (s : Text) : SameUpToSpaces s (collapseSpaces s) := by
  rw [collapseSpaces]
  induction s using spaces.split_induction with
  | nil => exact .refl _
  | piece c s k n hfind ih =>
    rw [Pattern.sub_of_find _ hfind]
    rw [spaces] at hfind
    simp only [List.head?_cons, Option.some.injEq] at hfind
    split at hfind
    next hspace =>
      subst hspace
      obtain ⟨-, rfl⟩ := Prod.mk.inj (Option.some_inj.1 hfind)
      obtain ⟨n, r, hr, hlength⟩ := exists_run s
      rw [hlength, hr, List.drop_left' List.length_replicate] at ih
      rw [hlength, hr, List.drop_left' List.length_replicate]
      exact (same_replicate n r).trans (ih.cons ' ')
    next => cases hfind
  | symbol c s hfind ih =>
    rw [Pattern.sub_of_none _ hfind]
    exact ih.cons c

theorem nonWord_find {s : Text} {c : Char} {n : ℕ} (h : nonWord.find s = some (c, n)) :
    ∃ r, s = c :: r ∧ isWordChar c = false ∧ n = 1 := by
  cases s with
  | nil => cases h
  | cons d s =>
    rw [nonWord] at h
    simp only at h
    split at h
    next => cases h
    next hd =>
      obtain ⟨rfl, rfl⟩ := Prod.mk.inj (Option.some_inj.1 h)
      exact ⟨s, rfl, Bool.eq_false_iff.2 hd, rfl⟩

/-- The spaces around the matches of a pattern can be dropped. -/
structure Spaceless {κ : Type} (P : Pattern Char κ) (text : κ → Text) : Prop where
  find : ∀ {s k n}, P.find s = some (k, n) → ∃ r, s = text k ++ r ∧ n = (text k).length
  before : ∀ {s k n}, P.find s = some (k, n) → SameUpToSpaces (' ' :: s) s
  after : ∀ {s k n} (r : Text), P.find s = some (k, n) →
    SameUpToSpaces (text k ++ ' ' :: r) (text k ++ r)

namespace Spaceless

variable {κ : Type} {P : Pattern Char κ} {text : κ → Text}

theorem trailed (h : Spaceless P text) {lead : ℕ} {s : Text} {k : κ} {n : ℕ}
    (hfind : trailed P lead s = some (k, n)) :
    ∃ m, P.find s = some (k, m) ∧ lead ≤ n ∧
      SameUpToSpaces s (text k ++ s.drop (n - lead)) := by
  obtain ⟨⟨k', m⟩, hm, heq⟩ := Option.map_eq_some_iff.1 hfind
  obtain ⟨rfl, rfl⟩ := Prod.mk.inj heq
  obtain ⟨r, hr, rfl⟩ := h.find hm
  refine ⟨_, hm, by omega, ?_⟩
  simp only [Nat.add_assoc, Nat.add_sub_cancel_left, ← List.drop_drop]
  rw [hr, List.drop_left, optionalSpace]
  split
  next hspace =>
    cases r with
    | nil => cases hspace
    | cons c r =>
      obtain rfl := Option.some_inj.1 hspace
      exact h.after r hm
  next => exact .refl _

theorem same_sub (h : Spaceless P text) (s : Text) :
    SameUpToSpaces s ((spaced P).sub text s) := by
  induction s using (spaced P).split_induction with
  | nil => exact .refl _
  | piece c s k n hfind ih =>
    rw [Pattern.sub_of_find _ hfind]
    refine .trans ?_ (ih.append_left _)
    rcases Option.or_eq_some_iff.1 hfind with hfind | ⟨-, hfind⟩
    · split at hfind
      next hspace =>
        obtain rfl := Option.some_inj.1 hspace
        obtain ⟨m, hm, hn, hsame⟩ := h.trailed hfind
        obtain ⟨l, rfl⟩ := Nat.exists_eq_add_of_le' hn
        exact (h.before hm).trans hsame
      next => cases hfind
    · obtain ⟨m, -, -, hsame⟩ := h.trailed hfind
      exact hsame
  | symbol c s hfind ih =>
    rw [Pattern.sub_of_none _ hfind]
    exact ih.cons c

end Spaceless

theorem spaceless_nonWord : Spaceless nonWord fun c => [c] where
  find {s k n} h := by
    obtain ⟨r, rfl, -, rfl⟩ := nonWord_find h
    exact ⟨r, rfl, rfl⟩
  before {s k n} h := by
    obtain ⟨r, rfl, hk, -⟩ := nonWord_find h
    exact .of_drops (.before hk)
  after {s k n} r h := by
    obtain ⟨-, -, hk, -⟩ := nonWord_find h
    exact .of_drops (.after hk)

namespace Special

theorem find_pattern {s : Text} {k : Special} {n : ℕ} (h : pattern.find s = some (k, n)) :
    ∃ r, s = k.key ++ r ∧ n = k.key.length := by
  obtain ⟨k', hk, heq⟩ := Option.map_eq_some_iff.1 h
  obtain ⟨rfl, rfl⟩ := Prod.mk.inj heq
  have hstarts := List.find?_some hk
  obtain ⟨r, hr⟩ := List.isPrefixOf_iff_prefix.1 hstarts
  exact ⟨r, hr.symm, rfl⟩

theorem same_before (k : Special) (r : Text) :
    SameUpToSpaces (' ' :: (k.key ++ r)) (k.key ++ r) := by
  refine .of_drops ?_
  cases k with
  | dunder => exact .beforeDunder
  | const => exact .beforeConst
  | _ => exact .before (by decide)

theorem same_after (k : Special) (r : Text) :
    SameUpToSpaces (k.key ++ ' ' :: r) (k.key ++ r) := by
  cases k with
  | dunder => exact .of_drops .afterDunder
  | const => exact .append_left "const".toList (.of_drops (.after (c := ' ') (by decide)))
  | fwref => exact .append_left ['&'] (.of_drops (.after (c := '&') (by decide)))
  | ellipsis => exact .append_left ['.', '.'] (.of_drops (.after (c := '.') (by decide)))
  | namespaceSep => exact .append_left [':'] (.of_drops (.after (c := ':') (by decide)))
  | _ => exact .of_drops (.after (by decide))

theorem spaceless_pattern : Spaceless pattern key where
  find h := find_pattern h
  before {s k n} h := by
    obtain ⟨r, rfl, -⟩ := find_pattern h
    exact k.same_before r
  after {s k n} r _ := k.same_after r

end Special

/-! ## Fragments -/

/-- The keys in a declaration, and the characters between them. -/
def fragments (safe : Text) : List (Special ⊕ Char) :=
  (spaced Special.pattern).split (dropSpaces (collapseSpaces safe))

/-- Declarations with the same fragments differ in spaces only. -/
theorem same_of_fragments_eq {s t : Text} (h : fragments s = fragments t) :
    SameUpToSpaces s t := by
  have hsame : ∀ safe, SameUpToSpaces safe
      ((fragments safe).flatMap (Sum.elim Special.key fun c => [c])) := fun safe =>
    (same_collapseSpaces safe).trans
      ((spaceless_nonWord.same_sub _).trans (Special.spaceless_pattern.same_sub _))
  have hs := hsame s
  rw [h] at hs
  exact hs.trans (hsame t).symm

example : fragments "struct __foo".toList = fragments "struct__foo".toList := by decide

/-- What is made of a character that is in no key. -/
def charCode (c : Char) : Text := if isWordChar c then [c] else '_' :: '_' :: upperHex c.toNat

theorem escapeCodes_eq (s : Text) : escapeCodes s = s.flatMap charCode := by
  rw [escapeCodes]
  induction s using nonWord.split_induction with
  | nil => rfl
  | piece c s k n hfind ih =>
    obtain ⟨r, hr, hc, rfl⟩ := nonWord_find hfind
    obtain ⟨rfl, rfl⟩ := List.cons.inj hr
    rw [Pattern.sub_of_find _ hfind, List.flatMap_cons, charCode, hc, if_neg Bool.false_ne_true]
    exact congrArg _ ih
  | symbol c s hfind ih =>
    have hc : isWordChar c = true := by
      rw [nonWord] at hfind
      simp only at hfind
      split at hfind
      next h => exact h
      next => cases hfind
    rw [Pattern.sub_of_none _ hfind, List.flatMap_cons, charCode, hc, if_pos rfl, ih]
    rfl

/-! ## Tokens -/

/-- A fragment, or the separator of the identifiers of a list. -/
abbrev Token := Option (Special ⊕ Char)

def tokenCode : Token → Text
  | none => "__and_".toList
  | some (.inl k) => k.escaped
  | some (.inr c) => charCode c

theorem uncapped_eq (safe : Text) :
    uncapped safe = ((fragments safe).map some).flatMap tokenCode := by
  rw [uncapped, escapeCodes_eq, escapeSpecialTypeCharacters, Pattern.sub, List.flatMap_assoc,
    List.flatMap_map]
  refine List.flatMap_congr fun x _ => ?_
  cases x with
  | inl k =>
    cases k <;> decide
  | inr c => exact List.append_nil _

theorem tokenCode_char (c : Char) : tokenCode (some (.inr c)) = charCode c := rfl

theorem charCode_of_not_word {c : Char} (hc : isWordChar c = false) :
    charCode c = '_' :: '_' :: upperHex c.toNat := by
  rw [charCode, hc, if_neg Bool.false_ne_true]

/-- The characters of the token can be in a declaration. -/
def Printable : Token → Prop
  | some (.inr c) => isPrintable c = true
  | _ => True

/-- The code of the token begins with two underscores. -/
def IsEscape : Token → Prop
  | some (.inr c) => isWordChar c = false
  | _ => True

theorem isPrintable_iff {c : Char} : isPrintable c = true ↔ 32 ≤ c.toNat ∧ c.toNat < 127 := by
  rw [isPrintable, Bool.and_eq_true, decide_eq_true_iff, decide_eq_true_iff, Char.le_def,
    Char.le_def, UInt32.le_iff_toNat_le, UInt32.le_iff_toNat_le]
  exact and_congr Iff.rfl Nat.lt_succ_iff.symm

theorem upperHex_printable {c : Char} (h : isPrintable c = true) :
    upperHex c.toNat =
      [(c.toNat / 16).digitChar.toUpper, (c.toNat % 16).digitChar.toUpper] := by
  have hall : ∀ n < 127, 32 ≤ n →
      upperHex n = [(n / 16).digitChar.toUpper, (n % 16).digitChar.toUpper] := by decide
  obtain ⟨hlow, hhigh⟩ := isPrintable_iff.1 h
  exact hall c.toNat hhigh hlow

theorem upperHex_inj {c d : Char} (hc : isPrintable c = true) (hd : isPrintable d = true)
    {u v : Text} (h : upperHex c.toNat ++ u = upperHex d.toNat ++ v) : c = d := by
  have hdigit : ∀ i < 16, ∀ j < 16, i.digitChar.toUpper = j.digitChar.toUpper → i = j := by decide
  have hclt := (isPrintable_iff.1 hc).2
  have hdlt := (isPrintable_iff.1 hd).2
  rw [upperHex_printable hc, upperHex_printable hd] at h
  have hfirst := (List.cons.inj h).1
  have hsecond := (List.cons.inj (List.cons.inj h).2).1
  have hhigh := hdigit (c.toNat / 16) (by omega) (d.toNat / 16) (by omega) hfirst
  have hlow := hdigit (c.toNat % 16) (by omega) (d.toNat % 16) (by omega) hsecond
  refine Char.toNat_inj.1 ?_
  rw [← Nat.div_add_mod c.toNat 16, ← Nat.div_add_mod d.toNat 16, hhigh, hlow]

/-- The tokens that are no characters. -/
def keyTokens : List Token := none :: Special.alternatives.map fun k => some (.inl k)

theorem keyTokens_apart :
    ∀ x ∈ keyTokens, ∀ y ∈ keyTokens, tokenCode x <+: tokenCode y → x = y := by decide

theorem key_shape {x : Token} (hx : x ∈ keyTokens) :
    ∃ d r, tokenCode x = '_' :: '_' :: d :: r ∧ d ≠ '_' ∧ d.isDigit = false := by
  rcases List.mem_cons.1 hx with rfl | hx
  · exact ⟨_, _, rfl, by decide, by decide⟩
  · obtain ⟨k, -, rfl⟩ := List.mem_map.1 hx
    cases k <;> exact ⟨_, _, rfl, by decide, by decide⟩

theorem hex_shape {c : Char} (hc : isPrintable c = true) (hword : isWordChar c = false) :
    ∃ d r, tokenCode (some (.inr c)) = '_' :: '_' :: d :: r ∧ d ≠ '_' ∧ d.isDigit = true := by
  have hdigit : ∀ i < 8, i.digitChar.toUpper ≠ '_' ∧ i.digitChar.toUpper.isDigit = true := by
    decide
  obtain ⟨hne, hd⟩ := hdigit (c.toNat / 16) (by have := (isPrintable_iff.1 hc).2; omega)
  refine ⟨_, [(c.toNat % 16).digitChar.toUpper], ?_, hne, hd⟩
  rw [tokenCode_char, charCode_of_not_word hword, upperHex_printable hc]

theorem IsEscape.kind {x : Token} (hx : IsEscape x) :
    x ∈ keyTokens ∨ ∃ c, x = some (.inr c) ∧ isWordChar c = false := by
  rcases x with _ | k | c
  · exact .inl List.mem_cons_self
  · refine .inl (List.mem_cons_of_mem _ (List.mem_map_of_mem ?_))
    cases k <;> decide
  · exact .inr ⟨c, rfl, hx⟩

theorem escape_shape {x : Token} (hx : IsEscape x) (hp : Printable x) :
    ∃ d r, tokenCode x = '_' :: '_' :: d :: r ∧ d ≠ '_' := by
  rcases hx.kind with hkey | ⟨c, rfl, hc⟩
  · obtain ⟨d, r, h, hne, -⟩ := key_shape hkey
    exact ⟨d, r, h, hne⟩
  · obtain ⟨d, r, h, hne, -⟩ := hex_shape hp hc
    exact ⟨d, r, h, hne⟩

/-- The first of two escapes can be read off. -/
theorem escape_inj {x y : Token} (hx : IsEscape x) (hy : IsEscape y) (hpx : Printable x)
    (hpy : Printable y) {u v : Text} (h : tokenCode x ++ u = tokenCode y ++ v) : x = y := by
  -- Only the codes of characters go on with a digit.
  have hmixed : ∀ {x c} {u v : Text}, x ∈ keyTokens → isPrintable c = true →
      isWordChar c = false → tokenCode x ++ u ≠ tokenCode (some (.inr c)) ++ v := by
    intro x c u v hx hpc hc h
    obtain ⟨d, r, hd, -, hdigit⟩ := key_shape hx
    obtain ⟨e, q, he, -, hdigit'⟩ := hex_shape hpc hc
    rw [hd, he] at h
    obtain rfl := (List.cons.inj (List.cons.inj (List.cons.inj h).2).2).1
    rw [hdigit] at hdigit'
    cases hdigit'
  rcases hx.kind with hkx | ⟨c, rfl, hc⟩
  · rcases hy.kind with hky | ⟨d, rfl, hd⟩
    · rcases List.prefix_or_prefix_of_prefix (List.prefix_append _ u)
        (h ▸ List.prefix_append _ v) with hpre | hpre
      · exact keyTokens_apart x hkx y hky hpre
      · exact (keyTokens_apart y hky x hkx hpre).symm
    · exact absurd h (hmixed hkx hpy hd)
  · rcases hy.kind with hky | ⟨d, rfl, hd⟩
    · exact absurd h.symm (hmixed hky hpx hc)
    · have hcode : ∀ {c}, isWordChar c = false →
          tokenCode (some (.inr c)) = '_' :: '_' :: upperHex c.toNat := by
        intro c hc
        rw [tokenCode_char, charCode_of_not_word hc]
      rw [hcode hc, hcode hd] at h
      obtain rfl := upperHex_inj hpx hpy (List.cons.inj (List.cons.inj h).2).2
      rfl

/-- No two underscores are next to each other. -/
def Apart (x y : Token) : Prop := ¬ (x = some (.inr '_') ∧ y = some (.inr '_'))

/-- Tokens that a declaration, or a list of them, can have. -/
def ValidTokens (l : List Token) : Prop := (∀ x ∈ l, Printable x) ∧ l.IsChain Apart

theorem ValidTokens.tail {x : Token} {l : List Token} (h : ValidTokens (x :: l)) :
    ValidTokens l :=
  ⟨fun y hy => h.1 y (List.mem_cons_of_mem x hy), (List.isChain_cons.1 h.2).2⟩

theorem tokenCode_word {c : Char} (hc : isWordChar c = true) : tokenCode (some (.inr c)) = [c] := by
  rw [tokenCode_char, charCode, hc, if_pos rfl]

/-- An underscore before an escape is no part of it. -/
theorem word_ne_escape {c : Char} {y : Token} {l : List Token} {v : Text}
    (hl : ValidTokens (some (.inr c) :: l)) (hc : isWordChar c = true) (hy : IsEscape y)
    (hpy : Printable y) : (some (.inr c) :: l).flatMap tokenCode ≠ tokenCode y ++ v := by
  intro h
  obtain ⟨d, r, hd, hne⟩ := escape_shape hy hpy
  rw [List.flatMap_cons, tokenCode_word hc, hd, List.singleton_append, List.cons_append,
    List.cons.injEq] at h
  obtain ⟨rfl, h⟩ := h
  cases l with
  | nil => cases h
  | cons z l =>
    by_cases hz : IsEscape z
    · obtain ⟨e, q, he, -⟩ := escape_shape hz (hl.1 z (by simp))
      rw [List.flatMap_cons, he] at h
      exact hne (List.cons.inj (List.cons.inj h).2).1.symm
    · rcases z with _ | k | b
      · exact hz trivial
      · exact hz trivial
      · have hb : isWordChar b = true := Bool.not_eq_false _ ▸ hz
        rw [List.flatMap_cons, tokenCode_word hb] at h
        obtain ⟨rfl, -⟩ := List.cons.inj h
        exact (List.isChain_cons.1 hl.2).1 _ rfl ⟨rfl, rfl⟩

/-- The tokens can be read off their codes. -/
theorem tokens_inj {l m : List Token} (hl : ValidTokens l) (hm : ValidTokens m)
    (h : l.flatMap tokenCode = m.flatMap tokenCode) : l = m := by
  refine flatMap_injOn ?_ ValidTokens.tail ?_ hl hm h
  · rintro (_ | k | c)
    · decide
    · cases k <;> decide
    · rw [tokenCode_char, charCode]
      split
      · exact List.cons_ne_nil _ _
      · exact List.cons_ne_nil _ _
  · intro x y l m hl hm h
    have hpx := hl.1 x List.mem_cons_self
    have hpy := hm.1 y List.mem_cons_self
    by_cases hx : IsEscape x
    · by_cases hy : IsEscape y
      · rw [List.flatMap_cons, List.flatMap_cons] at h
        exact escape_inj hx hy hpx hpy h
      · rcases y with _ | k | c
        · exact absurd trivial hy
        · exact absurd trivial hy
        · exact absurd h.symm (word_ne_escape hm (Bool.not_eq_false _ ▸ hy) hx hpx)
    · rcases x with _ | k | c
      · exact absurd trivial hx
      · exact absurd trivial hx
      · have hc : isWordChar c = true := Bool.not_eq_false _ ▸ hx
        by_cases hy : IsEscape y
        · exact absurd h (word_ne_escape hl hc hy hpy)
        · rcases y with _ | k | d
          · exact absurd trivial hy
          · exact absurd trivial hy
          · rw [List.flatMap_cons, List.flatMap_cons, tokenCode_word hc,
              tokenCode_word (Bool.not_eq_false _ ▸ hy)] at h
            obtain ⟨rfl, -⟩ := List.cons.inj h
            rfl

/-! ## Tokens of declarations -/

theorem spaced_find {κ : Type} {P : Pattern Char κ} {s : Text} {k : κ} {n : ℕ}
    (h : (spaced P).find s = some (k, n)) : ∃ s' m, s' <:+ s ∧ P.find s' = some (k, m) := by
  rcases Option.or_eq_some_iff.1 h with h | ⟨-, h⟩
  · split at h
    next =>
      obtain ⟨m, hm, heq⟩ := Option.map_eq_some_iff.1 h
      exact ⟨s.tail, m.2, List.tail_suffix s, (Prod.mk.inj heq).1 ▸ hm⟩
    next => cases h
  · obtain ⟨m, hm, heq⟩ := Option.map_eq_some_iff.1 h
    exact ⟨s, m.2, List.suffix_rfl, (Prod.mk.inj heq).1 ▸ hm⟩

/-- A double underscore is a key. -/
theorem find_dunder_ne_none (s : Text) :
    (spaced Special.pattern).find ('_' :: '_' :: s) ≠ none := by
  intro h
  simp only [spaced] at h
  have htrailed := (Option.or_eq_none_iff.1 h).2
  simp only [trailed, Special.pattern, Option.map_eq_none_iff, List.find?_eq_none] at htrailed
  exact htrailed .dunder (by decide) rfl

theorem isChain_split (s : Text) :
    (((spaced Special.pattern).split s).map some).IsChain Apart := by
  induction s using (spaced Special.pattern).split_induction with
  | nil => exact .nil
  | piece c s k n hfind ih =>
    rw [Pattern.split_of_find hfind, List.map_cons, List.isChain_cons]
    refine ⟨?_, ih⟩
    rintro y - ⟨h, -⟩
    cases h
  | symbol c s hfind ih =>
    rw [Pattern.split_of_none hfind, List.map_cons, List.isChain_cons]
    refine ⟨?_, ih⟩
    rintro y hy ⟨h, rfl⟩
    obtain rfl : c = '_' := by cases h; rfl
    -- The fragment after it is the character after it.
    cases s with
    | nil => cases hy
    | cons d s =>
      cases hfind' : (spaced Special.pattern).find (d :: s) with
      | none =>
        rw [Pattern.split_of_none hfind'] at hy
        obtain rfl : d = '_' := by cases hy; rfl
        exact find_dunder_ne_none s hfind
      | some found =>
        rw [Pattern.split_of_find hfind'] at hy
        cases hy

section Declarations

variable {safe : Text} (hsafe : ∀ c ∈ safe, isPrintable c = true)

include hsafe in
theorem validTokens_fragments : ValidTokens ((fragments safe).map some) := by
  refine ⟨?_, isChain_split _⟩
  have hcollapse : ∀ c ∈ collapseSpaces safe, isPrintable c = true :=
    Pattern.forall_mem_sub (fun _ _ _ _ _ c hc => by
      obtain rfl := List.mem_singleton.1 hc
      decide) hsafe
  have hdrop : ∀ c ∈ dropSpaces (collapseSpaces safe), isPrintable c = true := by
    refine Pattern.forall_mem_sub (fun s k n hfind hs c hc => ?_) hcollapse
    obtain rfl := List.mem_singleton.1 hc
    obtain ⟨s', m, hsuffix, hm⟩ := spaced_find hfind
    obtain ⟨r, rfl, -, -⟩ := nonWord_find hm
    exact hs c (hsuffix.subset List.mem_cons_self)
  rw [List.forall_mem_map]
  exact Pattern.forall_mem_split (p := fun x => Printable (some x)) hdrop fun _ => trivial

theorem isWord_tokenCode {x : Token} (hx : Printable x) : IsWord (tokenCode x) := by
  rcases x with _ | k | c
  · decide
  · cases k <;> decide
  · cases hc : isWordChar c with
    | true => rw [tokenCode_word hc, IsWord, List.all_cons, hc]; rfl
    | false =>
      have hdigit : ∀ i < 16, isWordChar i.digitChar.toUpper = true := by decide
      have hlt := (isPrintable_iff.1 hx).2
      rw [tokenCode_char, charCode_of_not_word hc, upperHex_printable hx, IsWord]
      simp [hdigit (c.toNat / 16) (by omega), hdigit (c.toNat % 16) (by omega)]
      decide

include hsafe in
theorem isWord_uncapped : IsWord (uncapped safe) := by
  refine List.all_eq_true.2 fun c hc => ?_
  rw [uncapped_eq] at hc
  obtain ⟨x, hx, hc⟩ := List.mem_flatMap.1 hc
  exact List.all_eq_true.1 (isWord_tokenCode ((validTokens_fragments hsafe).1 x hx)) c hc

theorem fragments_ne_nil (h : safe ≠ []) : fragments safe ≠ [] := by
  have hcollapse := Pattern.sub_ne_nil (P := spaces) (f := fun _ => [' ']) (by simp) h
  have hdrop := Pattern.sub_ne_nil (P := spaced nonWord) (f := fun c => [c]) (by simp) hcollapse
  obtain ⟨c, s, hs⟩ := List.exists_cons_of_ne_nil hdrop
  rw [fragments, dropSpaces, collapseSpaces, hs]
  cases hfind : (spaced Special.pattern).find (c :: s) with
  | none =>
    rw [Pattern.split_of_none hfind]
    exact List.cons_ne_nil _ _
  | some found =>
    rw [Pattern.split_of_find hfind]
    exact List.cons_ne_nil _ _

end Declarations

/-! ## Lists of identifiers -/

/-- The tokens of the identifiers of a list. -/
def separated : List (List (Special ⊕ Char)) → List Token
  | [] => []
  | [l] => l.map some
  | l :: m :: ls => l.map some ++ none :: separated (m :: ls)

theorem joined_cons (a b : Text) (l : List Text) :
    joined (a :: b :: l) = a ++ tokenCode none ++ joined (b :: l) := by
  simp [joined, List.intercalate, List.intersperse, tokenCode]

theorem joined_eq (ls : List (List (Special ⊕ Char))) :
    joined (ls.map fun l => (l.map some).flatMap tokenCode) =
      (separated ls).flatMap tokenCode := by
  induction ls with
  | nil => rfl
  | cons l ls ih =>
    cases ls with
    | nil => simp [joined, List.intercalate, separated]
    | cons m ls =>
      rw [List.map_cons, List.map_cons, joined_cons, separated, List.flatMap_append,
        List.flatMap_cons, ← ih, List.append_assoc]
      rfl

theorem validTokens_separated {ls : List (List (Special ⊕ Char))}
    (h : ∀ l ∈ ls, ValidTokens (l.map some)) : ValidTokens (separated ls) := by
  induction ls with
  | nil => exact ⟨by simp [separated], .nil⟩
  | cons l ls ih =>
    have hl := h l List.mem_cons_self
    cases ls with
    | nil => exact hl
    | cons m ls =>
      obtain ⟨hprintable, hchain⟩ := ih fun k hk => h k (List.mem_cons_of_mem l hk)
      refine ⟨?_, ?_⟩
      · rw [separated, List.forall_mem_append, List.forall_mem_cons]
        exact ⟨hl.1, trivial, hprintable⟩
      · rw [separated]
        refine hl.2.append (List.isChain_cons.2 ⟨?_, hchain⟩) ?_
        · rintro y - ⟨hnone, -⟩
          cases hnone
        · rintro x - y hy ⟨-, rfl⟩
          cases hy

theorem map_some_append_inj {α : Type} {l m : List α} {u v : List (Option α)}
    (h : l.map some ++ none :: u = m.map some ++ none :: v) : l = m ∧ u = v := by
  induction l generalizing m with
  | nil =>
    cases m with
    | nil => exact ⟨rfl, (List.cons.inj h).2⟩
    | cons b m => cases (List.cons.inj h).1
  | cons a l ih =>
    cases m with
    | nil => cases (List.cons.inj h).1
    | cons b m =>
      obtain ⟨hab, h⟩ := List.cons.inj h
      obtain ⟨rfl, hu⟩ := ih h
      exact ⟨by rw [Option.some_inj.1 hab], hu⟩

theorem map_some_ne_append {α : Type} {l m : List α} {u : List (Option α)} :
    l.map some ≠ m.map some ++ none :: u := by
  intro h
  have hmem : none ∈ l.map some := by simp [h]
  simp at hmem

/-- Lists of fragments are equal if their tokens are. -/
theorem separated_inj {ls ms : List (List (Special ⊕ Char))} (hls : ∀ l ∈ ls, l ≠ [])
    (hms : ∀ l ∈ ms, l ≠ []) (h : separated ls = separated ms) : ls = ms := by
  induction ls generalizing ms with
  | nil =>
    cases ms with
    | nil => rfl
    | cons m ms =>
      have hm := hms m List.mem_cons_self
      cases ms with
      | nil => exact absurd (List.map_eq_nil_iff.1 h.symm) hm
      | cons k ms => simp [separated] at h
  | cons l ls ih =>
    have hl := hls l List.mem_cons_self
    cases ls with
    | nil =>
      cases ms with
      | nil => exact absurd (List.map_eq_nil_iff.1 h) hl
      | cons m ms =>
        cases ms with
        | nil => rw [List.map_injective_iff.2 (Option.some_injective _) h]
        | cons k ms => exact absurd h map_some_ne_append
    | cons k ls =>
      cases ms with
      | nil => simp [separated] at h
      | cons m ms =>
        cases ms with
        | nil => exact absurd h.symm map_some_ne_append
        | cons j ms =>
          obtain ⟨rfl, hrest⟩ := map_some_append_inj h
          rw [ih (fun x hx => hls x (List.mem_cons_of_mem l hx))
            (fun x hx => hms x (List.mem_cons_of_mem l hx)) hrest]

/-! ## Identifiers that are cut off -/

section Capping

variable (H : Digest) {s t : Text}

theorem capLength_of_le (h : s.length ≤ maxLen) : capLength H s = s := if_pos h

theorem capLength_of_lt (h : maxLen < s.length) : capLength H s =
    (H.hexdigest s).take 6 ++ "__".toList ++ s.take 46 ++ "__etc".toList :=
  if_neg (Nat.not_le.2 h)

theorem length_take_hexdigest (s : Text) : ((H.hexdigest s).take 6).length = 6 := by
  rw [List.length_take, H.length]
  rfl

theorem length_capLength_of_lt (h : maxLen < s.length) : (capLength H s).length = 59 := by
  have hbar : "__".toList.length = 2 := rfl
  have hetc : "__etc".toList.length = 5 := rfl
  rw [maxLen] at h
  rw [capLength_of_lt H h, List.length_append, List.length_append, List.length_append,
    length_take_hexdigest, List.length_take_of_le (by omega), hbar, hetc]

theorem length_capLength_le (s : Text) : (capLength H s).length ≤ maxLen := by
  rcases Nat.lt_or_ge maxLen s.length with h | h
  · rw [length_capLength_of_lt H h, maxLen]
    omega
  · rw [capLength_of_le H h]
    exact h

/-- What is cut off is compared by the digits and the beginning. -/
theorem capLength_eq_iff (hs : maxLen < s.length) (ht : maxLen < t.length) :
    capLength H s = capLength H t ↔
      (H.hexdigest s).take 6 = (H.hexdigest t).take 6 ∧ s.take 46 = t.take 46 := by
  rw [capLength_of_lt H hs, capLength_of_lt H ht, List.append_left_inj, List.append_assoc,
    List.append_assoc]
  refine ⟨fun h => ?_, fun h => by rw [h.1, h.2]⟩
  obtain ⟨hdigest, h⟩ := List.append_inj h
    (by rw [length_take_hexdigest, length_take_hexdigest])
  exact ⟨hdigest, List.append_cancel_left h⟩

theorem isWord_capLength (h : IsWord s) : IsWord (capLength H s) := by
  rw [capLength]
  split
  · exact h
  · have hdigits : IsWord ((H.hexdigest s).take 6) := by
      refine List.all_eq_true.2 fun c hc => ?_
      have hword : "0123456789abcdef".toList.all isWordChar = true := by rfl
      exact List.all_eq_true.1 hword c (H.digits s c (List.mem_of_mem_take hc))
    have htake : IsWord (s.take (maxLen - 17)) :=
      List.all_eq_true.2 fun c hc => List.all_eq_true.1 h c (List.mem_of_mem_take hc)
    have hbar : IsWord "__".toList := by decide
    have hetc : IsWord "__etc".toList := by decide
    simp only [ModuleWriter.isWord_append]
    exact ⟨⟨⟨hdigits, hbar⟩, htake⟩, hetc⟩

end Capping

end AHPy.TypeIdentifier
