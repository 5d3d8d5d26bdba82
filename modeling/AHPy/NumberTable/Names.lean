import AHPy.NumberTable.Spellings

/-!
# Names of numeric constants

The characters of a spelling that a C name cannot have are replaced. What they were can be told
from where they are: a plus sign of a float comes after an `e`, a point does not.

* `mangle_injective`: different spellings of a type have different names;
* `newNumConstCname_spec`: so have the shortened names, which are like no other name.
-/

namespace AHPy.NumberTable

variable {f : FloatFormat}

/-! ## Replaced characters -/

/-- The replaced characters can be told apart, after an `e` or elsewhere. -/
def Unambiguous : Bool → List Char → Prop
  | _, [] => True
  | afterE, c :: cs =>
    c ≠ '_' ∧ (c = '+' → afterE = true) ∧ (c = '.' → afterE = false) ∧
      (c = 'n' → cs.head? ≠ some 'e') ∧ Unambiguous (decide (c.toLower = 'e')) cs

theorem replaceSign_ne_nil (c : Char) : replaceSign c ≠ [] := by
  rw [replaceSign]
  split_ifs <;> exact List.cons_ne_nil _ _

/-- The first character that a character is replaced by. -/
theorem head?_replaceSign (c : Char) :
    (replaceSign c).head? = some '_' ∧ (c = '.' ∨ c = '+') ∨
      (replaceSign c).head? = some 'n' ∧ c = '-' ∨ replaceSign c = [c] := by
  rw [replaceSign]
  split_ifs with hdot hminus
  · exact .inl ⟨rfl, hdot⟩
  · exact .inr (.inl ⟨rfl, hminus⟩)
  · exact .inr (.inr rfl)

/-- No other text starts like the replacement of a minus sign. -/
theorem Unambiguous.ne_minus {a : Bool} {c : Char} {cs ds : List Char}
    (h : Unambiguous a (c :: cs)) (hc : c ≠ '-') :
    (c :: cs).flatMap replaceSign ≠ ('-' :: ds).flatMap replaceSign := by
  intro heq
  rw [List.flatMap_cons, List.flatMap_cons] at heq
  rcases head?_replaceSign c with ⟨hhead, _⟩ | ⟨_, hminus⟩ | hsame
  · have h' := congrArg List.head? heq
    rw [List.head?_append, hhead] at h'
    simp [replaceSign] at h'
  · exact hc hminus
  · rw [hsame] at heq
    obtain ⟨rfl, hrest⟩ : c = 'n' ∧ cs.flatMap replaceSign =
        ['e', 'g', '_'] ++ ds.flatMap replaceSign := List.cons.inj heq
    cases cs with
    | nil => cases hrest
    | cons d cs =>
      have hhead := congrArg List.head? hrest
      rw [List.flatMap_cons, List.head?_append] at hhead
      rcases head?_replaceSign d with ⟨hd, _⟩ | ⟨hd, _⟩ | hd
      · rw [hd] at hhead
        simp at hhead
      · rw [hd] at hhead
        simp at hhead
      · rw [hd] at hhead
        exact h.2.2.2.1 rfl (by simpa using hhead)

theorem flatMap_replaceSign_inj {a : Bool} {s t : List Char} (hs : Unambiguous a s)
    (ht : Unambiguous a t) (h : s.flatMap replaceSign = t.flatMap replaceSign) : s = t := by
  induction s generalizing a t with
  | nil =>
    cases t with
    | nil => rfl
    | cons d t =>
      rw [List.flatMap_nil, List.flatMap_cons] at h
      exact absurd (List.append_eq_nil_iff.1 h.symm).1 (replaceSign_ne_nil d)
  | cons c s ih =>
    cases t with
    | nil =>
      rw [List.flatMap_nil, List.flatMap_cons] at h
      exact absurd (List.append_eq_nil_iff.1 h).1 (replaceSign_ne_nil c)
    | cons d t =>
      have hcd : c = d := by
        by_cases hc : c = '-'
        · subst hc
          by_contra hne
          exact ht.ne_minus (Ne.symm hne) h.symm
        · by_cases hd : d = '-'
          · subst hd
            exact absurd h (hs.ne_minus hc)
          · have hhead := congrArg List.head? h
            rw [List.flatMap_cons, List.flatMap_cons, List.head?_append, List.head?_append] at hhead
            obtain ⟨hcu, hcplus, hcdot, -, -⟩ := hs
            obtain ⟨hdu, hdplus, hddot, -, -⟩ := ht
            rcases head?_replaceSign c with ⟨hc', hcs⟩ | ⟨-, hc'⟩ | hc'
            · rcases head?_replaceSign d with ⟨hd', hds⟩ | ⟨-, hd'⟩ | hd'
              · -- Both are replaced by an underscore: what comes before tells them apart.
                rcases hcs with rfl | rfl <;> rcases hds with rfl | rfl <;> simp_all
              · exact absurd hd' hd
              · rw [hc', hd'] at hhead
                exact absurd (Option.some.inj hhead).symm hdu
            · exact absurd hc' hc
            · rcases head?_replaceSign d with ⟨hd', -⟩ | ⟨-, hd'⟩ | hd'
              · rw [hc', hd'] at hhead
                exact absurd (Option.some.inj hhead) hcu
              · exact absurd hd' hd
              · rw [hc', hd'] at hhead
                exact Option.some.inj hhead
      subst hcd
      rw [List.flatMap_cons, List.flatMap_cons] at h
      rw [ih hs.2.2.2.2 ht.2.2.2.2 (List.append_cancel_left h)]

/-! ## Spellings of floats -/

/-- Characters that are not replaced, nor like what they are replaced by. -/
theorem unambiguous_of_plain {a : Bool} {cs : List Char}
    (h : ∀ c ∈ cs, c ≠ '_' ∧ c ≠ '+' ∧ c ≠ '.') (hne : 'n' ∉ cs ∨ 'e' ∉ cs) :
    Unambiguous a cs := by
  induction cs generalizing a with
  | nil => trivial
  | cons c cs ih =>
    obtain ⟨⟨hunder, hplus, hdot⟩, hcs⟩ := List.forall_mem_cons.1 h
    refine ⟨hunder, fun hc => absurd hc hplus, fun hc => absurd hc hdot, ?_, ih hcs ?_⟩
    · rintro rfl hhead
      have he := List.mem_cons_of_mem 'n' (List.mem_of_head? hhead)
      exact hne.elim (fun hn => hn List.mem_cons_self) fun he' => he' he
    · exact hne.imp (fun hn hmem => hn (List.mem_cons_of_mem c hmem))
        fun he hmem => he (List.mem_cons_of_mem c hmem)

theorem plain_of_isDigit {c : Char} (h : c.isDigit = true) :
    c ≠ '_' ∧ c ≠ '+' ∧ c ≠ '.' := by
  refine ⟨?_, ?_, ?_⟩ <;> rintro rfl <;> cases h

theorem unambiguous_of_digits {a : Bool} {cs : List Char} {n : ℕ} (hcs : '_' ∉ cs)
    (h : digits 10 cs = some n) : Unambiguous a cs := by
  have hdigit : ∀ c ∈ cs, c.isDigit = true := fun c hc =>
    isDigit_of_decimal ((isSome_of_digits hcs h).2 c hc)
  refine unambiguous_of_plain (fun c hc => plain_of_isDigit (hdigit c hc)) (.inr fun he => ?_)
  cases hdigit 'e' he

/-- What follows digits does not follow an `e`. -/
theorem Unambiguous.digits_append {ds cs : List Char} (hds : ∀ c ∈ ds, c.isDigit = true)
    (h : Unambiguous false cs) : Unambiguous false (ds ++ cs) := by
  induction ds with
  | nil => exact h
  | cons d ds ih =>
    obtain ⟨hd, hds⟩ := List.forall_mem_cons.1 hds
    obtain ⟨hunder, hplus, hdot⟩ := plain_of_isDigit hd
    have hlower : d.toLower ≠ 'e' := by
      intro hlower
      have halpha : d.toLower.isAlpha = true := by rw [hlower]; rfl
      rw [Char.isAlpha_toLower_eq_isAlpha] at halpha
      rw [isDigit_eq_false_of_isAlpha halpha] at hd
      cases hd
    refine ⟨hunder, fun hc => absurd hc hplus, fun hc => absurd hc hdot, ?_, ?_⟩
    · rintro rfl
      cases hd
    · rw [decide_eq_false hlower]
      exact ih hds

/-- An exponent starts with an `e`, maybe with a sign after it. -/
theorem unambiguous_of_exponent {cs : List Char} {e : ℤ} (hcs : '_' ∉ cs)
    (h : decimalExponent cs = some e) : Unambiguous false cs := by
  cases cs with
  | nil => trivial
  | cons c cs =>
    have hunder : '_' ∉ cs := fun hmem => hcs (List.mem_cons_of_mem c hmem)
    rw [decimalExponent] at h
    split_ifs at h with hlower
    obtain ⟨n, hn⟩ : ∃ n, digits 10 (splitSign cs).2 = some n := by
      rcases hsplit : splitSign cs with ⟨negative, ds⟩
      rw [hsplit] at h
      cases hdigits : digits 10 ds with
      | none => simp [hdigits] at h
      | some n => exact ⟨n, rfl⟩
    have hrest : Unambiguous true cs := by
      rw [splitSign.eq_def] at hn
      split at hn
      next ds =>
        have hds : '_' ∉ ds := fun hmem => hunder (List.mem_cons_of_mem _ hmem)
        exact ⟨by decide, by decide, by decide, fun hc => absurd hc (by decide),
          unambiguous_of_digits hds hn⟩
      next ds =>
        have hds : '_' ∉ ds := fun hmem => hunder (List.mem_cons_of_mem _ hmem)
        exact ⟨by decide, by decide, by decide, fun hc => absurd hc (by decide),
          unambiguous_of_digits hds hn⟩
      next => exact unambiguous_of_digits hunder hn
    refine ⟨fun hc => hcs (hc ▸ List.mem_cons_self), ?_, ?_, ?_, ?_⟩
    · rintro rfl
      exact absurd hlower (by decide)
    · exact fun _ => rfl
    · rintro rfl
      exact absurd hlower (by decide)
    · rw [decide_eq_true hlower]
      exact hrest

/-- What follows the digits of a number. -/
theorem unambiguous_of_span {cs : List Char} (hcs : '_' ∉ cs)
    (h : '_' ∉ (cs.span fun c => c.isDigit ∨ c = '_').2 →
      Unambiguous false (cs.span fun c => c.isDigit ∨ c = '_').2) : Unambiguous false cs := by
  have happend : (cs.span fun c => c.isDigit ∨ c = '_').1 ++
      (cs.span fun c => c.isDigit ∨ c = '_').2 = cs := by
    rw [List.span_eq_takeWhile_dropWhile]
    exact List.takeWhile_append_dropWhile
  have hunder := hcs
  rw [← happend, List.mem_append, not_or] at hunder
  rw [← happend]
  refine (h hunder.2).digits_append fun c hc => ?_
  have hne : c ≠ '_' := fun h => hunder.1 (h ▸ hc)
  rw [List.span_eq_takeWhile_dropWhile] at hc
  have hdigit := List.mem_takeWhile_imp hc
  simpa [hne] using hdigit

theorem unambiguous_of_fraction {whole cs : List Char} {d : Decimal} (hcs : '_' ∉ cs)
    (h : decimalFraction whole cs = some d) : Unambiguous false cs := by
  rw [decimalFraction.eq_def] at h
  split at h
  next ds =>
    have hds : '_' ∉ ds := fun hmem => hcs (List.mem_cons_of_mem _ hmem)
    dsimp only at h
    split at h
    next => cases h
    next =>
      have hexponent : ∃ e, decimalExponent (ds.span fun c => c.isDigit ∨ c = '_').2 = some e := by
        split at h
        all_goals
          obtain ⟨w, -, h⟩ := Option.bind_eq_some_iff.1 h
          split at h
        all_goals
          obtain ⟨n, -, h⟩ := Option.bind_eq_some_iff.1 h
          obtain ⟨e, he, -⟩ := Option.bind_eq_some_iff.1 h
          exact ⟨e, he⟩
      obtain ⟨e, he⟩ := hexponent
      exact ⟨by decide, by decide, by decide, fun hc => absurd hc (by decide),
        unambiguous_of_span hds fun hunder => unambiguous_of_exponent hunder he⟩
  next =>
    obtain ⟨w, -, h⟩ := Option.bind_eq_some_iff.1 h
    obtain ⟨e, he, -⟩ := Option.bind_eq_some_iff.1 h
    exact unambiguous_of_exponent hcs he

theorem unambiguous_of_decimal {cs : List Char} {d : Decimal} (hcs : '_' ∉ cs)
    (h : decimal cs = some d) : Unambiguous false cs :=
  unambiguous_of_span hcs fun hunder => unambiguous_of_fraction hunder h

/-- No letter of a name is replaced. -/
theorem unambiguous_of_name {a : Bool} {cs name : List Char} (h : cs.map Char.toLower = name)
    (hname : '_' ∉ name ∧ '+' ∉ name ∧ '.' ∉ name ∧ 'e' ∉ name) : Unambiguous a cs := by
  have hlower : ∀ c ∈ cs, c.toLower ∈ name := fun c hc => h ▸ List.mem_map_of_mem hc
  refine unambiguous_of_plain (fun c hc => ?_) (.inr fun he => hname.2.2.2 (hlower 'e' he))
  refine ⟨?_, ?_, ?_⟩
  · rintro rfl
    exact hname.1 (hlower '_' hc)
  · rintro rfl
    exact hname.2.1 (hlower '+' hc)
  · rintro rfl
    exact hname.2.2.1 (hlower '.' hc)

theorem FloatSpelling.unambiguous {text : List Char} (h : FloatSpelling f text) :
    Unambiguous false text := by
  have hrest : '_' ∉ (splitSign text).2 → Unambiguous false (splitSign text).2 := by
    intro hunder
    obtain ⟨x, hx⟩ := Option.isSome_iff_exists.1 h.accepted
    simp only [pyFloat] at hx
    split_ifs at hx with hinf hnan
    · rcases hinf with hinf | hinf
      · exact unambiguous_of_name hinf (by simp)
      · exact unambiguous_of_name hinf (by simp)
    · exact unambiguous_of_name hnan (by simp)
    · obtain ⟨d, hd, -⟩ := Option.map_eq_some_iff.1 hx
      exact unambiguous_of_decimal hunder hd
  by_cases hsign : text.head? = some '-'
  · obtain ⟨cs, rfl⟩ : ∃ cs, text = '-' :: cs := List.head?_eq_some_iff.1 hsign
    exact ⟨by decide, by decide, by decide, fun hc => absurd hc (by decide),
      hrest fun hmem => h.no_underscore (List.mem_cons_of_mem _ hmem)⟩
  · rw [splitSign_of_head hsign h.no_plus] at hrest
    exact hrest h.no_underscore

/-! ## Names -/

/-- The spellings of a type. -/
def Spelled (f : FloatFormat) (value : List Char) (pyType : PyType) : Prop :=
  if pyType = .float then FloatSpelling f value else IntSpelling value

/-- The spelling that a name is made from. -/
def spelling (value : List Char) (pyType : PyType) : List Char :=
  if pyType = .long then value ++ ['L'] else value

theorem mangle_eq (value : List Char) (pyType : PyType) :
    mangle value pyType = (spelling value pyType).flatMap replaceSign := rfl

theorem IsIntChar.plain {c : Char} (h : IsIntChar c) :
    c ≠ '_' ∧ c ≠ '+' ∧ c ≠ '.' ∧ c ≠ 'n' ∧ c ≠ 'L' ∧ c ≠ 'l' := by
  refine ⟨?_, ?_, ?_, ?_, ?_, ?_⟩ <;> rintro rfl <;> revert h <;> decide

theorem IsMagnitude.unambiguous {cs : List Char} (h : IsMagnitude cs) (long : Bool) :
    Unambiguous false (cs ++ if long then ['L'] else []) := by
  have hsuffix : ∀ c ∈ (if long then ['L'] else [] : List Char), c = 'L' := by
    cases long <;> simp
  have hplain : ∀ c ∈ cs ++ (if long then ['L'] else []),
      c ≠ '_' ∧ c ≠ '+' ∧ c ≠ '.' ∧ c ≠ 'n' := by
    intro c hc
    rcases List.mem_append.1 hc with hc | hc
    · obtain ⟨h₁, h₂, h₃, h₄, -, -⟩ := (h.chars c hc).plain
      exact ⟨h₁, h₂, h₃, h₄⟩
    · rw [hsuffix c hc]
      decide
  refine unambiguous_of_plain (fun c hc => ?_) (.inl fun hn => (hplain 'n' hn).2.2.2 rfl)
  exact ⟨(hplain c hc).1, (hplain c hc).2.1, (hplain c hc).2.2.1⟩

theorem spelling_eq_append (value : List Char) (pyType : PyType) :
    spelling value pyType = value ++ if decide (pyType = .long) then ['L'] else [] := by
  cases pyType <;> simp [spelling]

theorem Spelled.unambiguous {value : List Char} {pyType : PyType} (h : Spelled f value pyType) :
    Unambiguous false (spelling value pyType) := by
  by_cases hfloat : pyType = .float
  · subst hfloat
    exact FloatSpelling.unambiguous h
  · rw [Spelled, if_neg hfloat] at h
    rw [spelling_eq_append]
    obtain ⟨cs, hcs, rfl | rfl⟩ := h.exists_magnitude
    · exact hcs.unambiguous _
    · exact ⟨by decide, by decide, by decide, fun hc => absurd hc (by decide), hcs.unambiguous _⟩

/-- No spelling ends like the name of a `long`. -/
theorem IntSpelling.getLast_ne {value : List Char} (h : IntSpelling value) :
    value.getLast? ≠ some 'L' := by
  intro hlast
  have hmem := List.mem_of_getLast? hlast
  obtain ⟨cs, hcs, rfl | rfl⟩ := h.exists_magnitude
  · exact (hcs.chars 'L' hmem).plain.2.2.2.2.1 rfl
  · rcases List.mem_cons.1 hmem with hminus | hmem
    · cases hminus
    · exact (hcs.chars 'L' hmem).plain.2.2.2.2.1 rfl

theorem internedPrefix_float_ne {pyType : PyType} (h : pyType ≠ .float) (s t : List Char) :
    internedPrefix .float ++ s ≠ internedPrefix pyType ++ t := by
  have hother : internedPrefix pyType = "__pyx_int_".toList := by
    cases pyType
    · exact absurd rfl h
    · rfl
    · rfl
  intro heq
  have hsixth := congrArg (fun name : List Char => name[6]?) heq
  rw [hother, List.getElem?_append_left (by decide),
    List.getElem?_append_left (by decide)] at hsixth
  revert hsixth
  decide

/-- Different constants have different names. -/
theorem mangle_injective {v v' : List Char} {t t' : PyType} (hv : Spelled f v t)
    (hv' : Spelled f v' t')
    (h : internedPrefix t ++ mangle v t = internedPrefix t' ++ mangle v' t') : v = v' ∧ t = t' := by
  have hspelling : internedPrefix t = internedPrefix t' → spelling v t = spelling v' t' := by
    intro hp
    rw [hp] at h
    exact flatMap_replaceSign_inj hv.unambiguous hv'.unambiguous (List.append_cancel_left h)
  by_cases hfloat : t = .float
  · by_cases hfloat' : t' = .float
    · subst hfloat hfloat'
      exact ⟨hspelling rfl, rfl⟩
    · subst hfloat
      exact absurd h (internedPrefix_float_ne hfloat' _ _)
  · by_cases hfloat' : t' = .float
    · subst hfloat'
      exact absurd h.symm (internedPrefix_float_ne hfloat _ _)
    · rw [Spelled, if_neg hfloat] at hv
      rw [Spelled, if_neg hfloat'] at hv'
      cases t <;> cases t'
      all_goals try contradiction
      · exact ⟨hspelling rfl, rfl⟩
      · have hl := hspelling rfl
        simp only [spelling] at hl
        exact absurd (by simp [show v = v' ++ ['L'] from hl]) hv.getLast_ne
      · have hl := hspelling rfl
        simp only [spelling] at hl
        exact absurd (by simp [show v' = v ++ ['L'] from hl.symm]) hv'.getLast_ne
      · exact ⟨List.append_cancel_right (hspelling rfl), rfl⟩

/-! ### Long names -/

theorem largeName_injective (pyType : PyType) (value : List Char) :
    Function.Injective fun n => largeName pyType value (Nat.toDigits 10 n) := by
  intro n m h
  have hrest := List.append_cancel_left (List.append_cancel_left h)
  exact (NumberedNames.toDigits_append_inj (NumberedNames.noDigit_cons.2 (by decide))
    (NumberedNames.noDigit_cons.2 (by decide)) hrest).1

theorem largeName_ne (pyType : PyType) (value : List Char) (n : ℕ) :
    largeName pyType value (Nat.toDigits 10 n) ≠ largeName pyType value [] := by
  intro h
  have hrest := congrArg List.length (List.append_cancel_left (List.append_cancel_left h))
  obtain ⟨c, cs, hdigits, -⟩ := NumberedNames.exists_toDigits n
  simp only [hdigits, List.length_append, List.length_cons, List.length_nil] at hrest
  omega

/-- A name of a constant with a long spelling. -/
def IsLarge (pyType : PyType) (cname : CName) : Prop :=
  ∃ rest, cname = internedPrefix pyType ++ ("large".toList ++ rest)

theorem FloatSpelling.exists_cons {value : List Char} (h : FloatSpelling f value) :
    ∃ c cs, value = c :: cs ∧ c ≠ 'l' := by
  obtain ⟨d, hd, -⟩ := h.not_int
  obtain ⟨c, cs, rfl⟩ := List.exists_cons_of_ne_nil (List.ne_nil_of_mem hd)
  refine ⟨c, cs, rfl, ?_⟩
  rintro rfl
  have haccepted := h.accepted
  rw [pyFloat, splitSign_of_head (by simp) (by simp)] at haccepted
  have hlower : 'l'.toLower = 'l' := by decide
  have hdigit : 'l'.isDigit = false := by decide
  simp [hlower, hdigit, decimal, List.span_eq_takeWhile_dropWhile, decimalFraction, digits]
    at haccepted

theorem Spelled.exists_cons {value : List Char} {pyType : PyType} (h : Spelled f value pyType) :
    ∃ c cs, value = c :: cs ∧ c ≠ 'l' := by
  by_cases hfloat : pyType = .float
  · subst hfloat
    exact FloatSpelling.exists_cons h
  · rw [Spelled, if_neg hfloat] at h
    obtain ⟨cs, hcs, rfl | rfl⟩ := h.exists_magnitude
    · obtain ⟨d, ds, rfl, -⟩ := hcs.digit
      exact ⟨d, ds, rfl, (hcs.chars d List.mem_cons_self).plain.2.2.2.2.2⟩
    · exact ⟨'-', cs, rfl, by decide⟩

/-- No other name starts like one of these. -/
theorem Spelled.head?_ne {value : List Char} {pyType : PyType} (h : Spelled f value pyType) :
    (mangle value pyType).head? ≠ some 'l' := by
  obtain ⟨c, cs, rfl, hc⟩ := h.exists_cons
  rw [mangle_eq, spelling_eq_append, List.cons_append, List.flatMap_cons, List.head?_append]
  rcases head?_replaceSign c with ⟨hhead, -⟩ | ⟨hhead, -⟩ | hhead <;> rw [hhead] <;> simp [hc]

theorem mangle_ne_large {value : List Char} {pyType pyType' : PyType}
    (h : Spelled f value pyType) :
    ¬ IsLarge pyType' (internedPrefix pyType ++ mangle value pyType) := by
  rintro ⟨rest, hrest⟩
  have hp : internedPrefix pyType = internedPrefix pyType' := by
    by_cases hfloat : pyType = .float
    · by_cases hfloat' : pyType' = .float
      · rw [hfloat, hfloat']
      · subst hfloat
        exact absurd hrest (internedPrefix_float_ne hfloat' _ _)
    · by_cases hfloat' : pyType' = .float
      · subst hfloat'
        exact absurd hrest.symm (internedPrefix_float_ne hfloat _ _)
      · cases pyType <;> cases pyType' <;> first | rfl | contradiction
  rw [hp] at hrest
  have hhead := congrArg List.head? (List.append_cancel_left hrest)
  exact h.head?_ne (hhead.trans rfl)

/-- A name is that of its spelling, or it was not in use and is now. -/
theorem newNumConstCname_spec (used : OrderedDict CName ℕ) (value : List Char)
    (pyType : PyType) : ∃ cname used', newNumConstCname used value pyType = some (cname, used') ∧
      (∀ k ∈ used, k ∈ used') ∧ (cname = internedPrefix pyType ++ mangle value pyType ∨
        cname ∉ used ∧ cname ∈ used' ∧ IsLarge pyType cname) := by
  rw [newNumConstCname]
  split
  next =>
    obtain ⟨cname, used', heq, hfresh, hused, hform⟩ :=
      uniqueName_spec (largeName_injective pyType (mangle value pyType))
        (largeName_ne pyType (mangle value pyType)) used
    refine ⟨cname, used', heq, fun k hk => (hused k).2 (.inr hk), .inr ⟨hfresh, ?_, ?_⟩⟩
    · exact (hused cname).2 (.inl rfl)
    · rcases hform with rfl | ⟨n, rfl⟩
      · exact ⟨_, rfl⟩
      · exact ⟨_, rfl⟩
  next => exact ⟨_, used, rfl, fun k hk => hk, .inl rfl⟩

/-!
## Registrations of numeric constants

* `GlobalState.Ok`: each constant has the spelling it is kept under, and its own name;
* `registerAll_spec`: the registrations of a module keep this, and each returns the constant
  that is kept for its spelling.
-/

variable {f : FloatFormat}

/-- The name of a constant is that of its spelling, or a name in use for a long one. -/
def NumConst.Named (used : OrderedDict CName ℕ) (c : NumConst) : Prop :=
  c.cname = internedPrefix c.pyType ++ mangle c.value c.pyType ∨
    c.cname ∈ used ∧ IsLarge c.pyType c.cname

/-- A constant that is kept under a spelling and a type. -/
structure NumConst.Ok (f : FloatFormat) (used : OrderedDict CName ℕ) (key : List Char × PyType)
    (c : NumConst) : Prop where
  key_eq : (c.value, c.pyType) = key
  spelled : Spelled f c.value c.pyType
  code : c.pyType = .float → getConstantCResultCode f c.value = some c.valueCode
  named : c.Named used

structure GlobalState.Ok (f : FloatFormat) (gs : GlobalState) : Prop where
  const : ∀ {key c}, gs.numConstIndex.get? key = some c → c.Ok f gs.constCnamesUsed key
  injective : ∀ {key key' c c'}, gs.numConstIndex.get? key = some c →
    gs.numConstIndex.get? key' = some c' → c.cname = c'.cname → key = key'

theorem ok_empty : GlobalState.empty.Ok f where
  const h := by cases h
  injective h := by cases h

theorem NumConst.Ok.mono {used used' : OrderedDict CName ℕ} {key : List Char × PyType}
    {c : NumConst} (h : c.Ok f used key) (hused : ∀ k ∈ used, k ∈ used') : c.Ok f used' key :=
  { h with named := h.named.imp id fun hl => ⟨hused _ hl.1, hl.2⟩ }

/-- More names may be taken. -/
theorem GlobalState.Ok.mono {gs : GlobalState} (h : gs.Ok f) {used : OrderedDict CName ℕ}
    (hused : ∀ k ∈ gs.constCnamesUsed, k ∈ used) :
    GlobalState.Ok f { gs with constCnamesUsed := used } where
  const hc := (h.const hc).mono hused
  injective := h.injective

/-- A new name is not that of another constant. -/
theorem cname_ne {used used' : OrderedDict CName ℕ} {key key' : List Char × PyType}
    {c c' : NumConst} (hc : c.Ok f used key)
    (hc' : c'.Ok f used' key') (hnew : c'.cname = internedPrefix c'.pyType ++
      mangle c'.value c'.pyType ∨ c'.cname ∉ used ∧ IsLarge c'.pyType c'.cname)
    (h : c.cname = c'.cname) : key = key' := by
  rcases hc.named with hname | ⟨hin, hlarge⟩
  · rcases hnew with hname' | ⟨-, hlarge'⟩
    · obtain ⟨hvalue, htype⟩ := mangle_injective hc.spelled hc'.spelled (hname ▸ hname' ▸ h)
      rw [← hc.key_eq, ← hc'.key_eq, hvalue, htype]
    · rw [← h, hname] at hlarge'
      exact absurd hlarge' (mangle_ne_large hc.spelled)
  · rcases hnew with hname' | ⟨hfresh, -⟩
    · rw [h, hname'] at hlarge
      exact absurd hlarge (mangle_ne_large hc'.spelled)
    · exact absurd (h ▸ hin) hfresh

/-- What a registration does to the state. -/
structure Extends (f : FloatFormat) (gs gs' : GlobalState) : Prop where
  ok : gs'.Ok f
  kept : ∀ {key c}, gs.numConstIndex.get? key = some c → gs'.numConstIndex.get? key = some c

theorem newNumConst_spec {gs : GlobalState} (h : gs.Ok f) {value : List Char} {pyType : PyType}
    {valueCode : Option (List Char)} (hnew : gs.numConstIndex.get? (value, pyType) = none)
    (hs : Spelled f value pyType)
    (hcode : pyType = .float → valueCode.isSome ∧ getConstantCResultCode f value = valueCode) :
    ∃ c gs', newNumConst gs value pyType valueCode = some (c, gs') ∧ Extends f gs gs' ∧
      gs'.numConstIndex.get? (value, pyType) = some c := by
  obtain ⟨cname, used, hname, hused, hform⟩ :=
    newNumConstCname_spec gs.constCnamesUsed value pyType
  have hok : NumConst.Ok f used (value, pyType) ⟨cname, value, pyType, valueCode.getD value⟩ := by
    refine ⟨rfl, hs, fun hfloat => ?_, hform.imp id fun hl => ⟨hl.2.1, hl.2.2⟩⟩
    obtain ⟨hsome, hc⟩ := hcode hfloat
    obtain ⟨code, rfl⟩ := Option.isSome_iff_exists.1 hsome
    exact hc
  refine ⟨⟨cname, value, pyType, valueCode.getD value⟩,
    ⟨used, gs.numConstIndex.set (value, pyType) ⟨cname, value, pyType, valueCode.getD value⟩⟩,
    ?_, ⟨⟨?_, ?_⟩, ?_⟩, OrderedDict.get?_set_self _ _ _⟩
  · rw [newNumConst, hname]
    rfl
  · intro key c hc
    rcases OrderedDict.get?_set_cases hc with ⟨rfl, rfl⟩ | ⟨-, hc⟩
    · exact hok
    · exact (h.const hc).mono hused
  · intro key key' c c' hc hc' heq
    rw [OrderedDict.get?_set] at hc hc'
    split_ifs at hc hc' with hkey hkey' hkey'
    · rw [hkey, hkey']
    · obtain rfl := Option.some.inj hc
      rw [hkey]
      exact (cname_ne (h.const hc') hok (hform.imp id fun hl => ⟨hl.1, hl.2.2⟩) heq.symm).symm
    · obtain rfl := Option.some.inj hc'
      rw [hkey']
      exact cname_ne (h.const hc) hok (hform.imp id fun hl => ⟨hl.1, hl.2.2⟩) heq
    · exact h.injective hc hc' heq
  · intro key c hc
    rw [OrderedDict.get?_set, if_neg, hc]
    rintro rfl
    rw [hnew] at hc
    cases hc

/-! ## Registrations -/

theorem getNumConst_spec {gs : GlobalState} (h : gs.Ok f) (value : List Char) (pyType : PyType)
    (valueCode : Option (List Char)) (hs : Spelled f value pyType)
    (hcode : pyType = .float → valueCode.isSome ∧ getConstantCResultCode f value = valueCode) :
    ∃ c gs', getNumConst gs value pyType valueCode = some (c, gs') ∧ Extends f gs gs' ∧
      gs'.numConstIndex.get? (value, pyType) = some c := by
  rw [getNumConst.eq_def]
  split
  next c hc => exact ⟨c, gs, rfl, ⟨h, id⟩, hc⟩
  next hnew => exact newNumConst_spec h hnew hs hcode

/-- The spellings that a module may register. -/
def Registration.Valid (f : FloatFormat) : Registration → Prop
  | .int value _ => IntSpelling value
  | .float value => FloatSpelling f value
  | .other format value => Function.Injective format ∧ ∀ n, format n ≠ value

/-- The spelling and the type of a registered constant. -/
def Registration.key : Registration → Option (List Char × PyType)
  | .int value longness => some (value, if longness then .long else .int)
  | .float value => some (value, .float)
  | .other _ _ => none

def Registered.key (r : Registered) : List Char × PyType := (r.value, r.pyType)

/-- What the registrations of some constants returned is kept in the state. -/
structure Returned (f : FloatFormat) (rs : List Registration) (gs : GlobalState)
    (cs : List Registered) (gs' : GlobalState) : Prop extends Extends f gs gs' where
  keys : cs.map Registered.key = rs.filterMap Registration.key
  found : ∀ r ∈ cs, gs'.numConstIndex.get? r.key = some r.const

theorem register_spec {gs : GlobalState} (h : gs.Ok f) {r : Registration} (hr : r.Valid f) :
    ∃ cs gs', register f gs r = some (cs, gs') ∧ Returned f [r] gs cs gs' := by
  cases r with
  | int value longness =>
    have hs : Spelled f value (if longness then .long else .int) := by
      cases longness
      · exact hr
      · exact hr
    obtain ⟨c, gs', heq, hext, hc⟩ := getNumConst_spec h _ _ none hs
      (by cases longness <;> simp)
    refine ⟨[⟨value, _, c⟩], gs', by rw [register, getIntConst, heq]; rfl, hext, rfl, ?_⟩
    exact fun r hr => List.mem_singleton.1 hr ▸ hc
  | float value =>
    obtain ⟨code, hsome⟩ : ∃ code, getConstantCResultCode f value = some code := by
      obtain ⟨x, hx⟩ := Option.isSome_iff_exists.1 hr.accepted
      exact ⟨_, by rw [getConstantCResultCode, hx]; rfl⟩
    obtain ⟨c, gs', heq, hext, hc⟩ := getNumConst_spec h value .float (some code) hr
      fun _ => ⟨rfl, hsome⟩
    refine ⟨[⟨value, .float, c⟩], gs', ?_, hext, rfl, ?_⟩
    · rw [register, hsome, Option.bind_eq_bind, Option.bind_some, getFloatConst, heq]
      rfl
    · exact fun r hr => List.mem_singleton.1 hr ▸ hc
  | other format value =>
    obtain ⟨cname, used, heq, -, hused, -⟩ := uniqueName_spec hr.1 hr.2 gs.constCnamesUsed
    refine ⟨[], _, by rw [register, heq]; rfl, ⟨h.mono fun k hk => (hused k).2 (.inr hk), id⟩,
      rfl, ?_⟩
    exact fun r hr => absurd hr List.not_mem_nil

/-- Registrations never fail, and keep what was registered before. -/
theorem registerAll_spec {gs : GlobalState} (h : gs.Ok f) {rs : List Registration}
    (hrs : ∀ r ∈ rs, r.Valid f) :
    ∃ cs gs', registerAll f gs rs = some (cs, gs') ∧ Returned f rs gs cs gs' := by
  induction rs generalizing gs with
  | nil => exact ⟨[], gs, rfl, ⟨h, id⟩, rfl, fun r hr => absurd hr List.not_mem_nil⟩
  | cons r rs ih =>
    obtain ⟨hr, hrs⟩ := List.forall_mem_cons.1 hrs
    obtain ⟨cs, gs₁, heq, hret⟩ := register_spec h hr
    obtain ⟨cs', gs₂, heq', hret'⟩ := ih hret.ok hrs
    refine ⟨cs ++ cs', gs₂, ?_, ⟨hret'.ok, fun hc => hret'.kept (hret.kept hc)⟩, ?_, ?_⟩
    · simp [registerAll, heq, heq']
    · rw [List.map_append, hret.keys, hret'.keys, ← List.filterMap_append, List.singleton_append]
    · intro r hr
      rcases List.mem_append.1 hr with hr | hr
      · exact hret'.kept (hret.found r hr)
      · exact hret'.found r hr

end AHPy.NumberTable
