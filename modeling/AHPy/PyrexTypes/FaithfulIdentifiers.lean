import AHPy.PyrexTypes.IdentifierInjectivity

/-!
# Identifiers of types and their declarations

The declarations of all types, nested to any depth, are texts whose identifiers
can be told apart.

* `CType.declaration_wellFormed`: what declarations begin with, and consist of;
* `scopePrefix_inj`: the prefixes of scopes can be read off;
* `faithful`: what types and lists of types with the same identifier have in common;
* `not_injective`: identifiers that are cut off are not all different.
-/

namespace AHPy.TypeIdentifier

open ModuleWriter (isWordChar isCIdentifier IsWord)
open NumberedNames

/-! ## Declarations -/

/-- A text of printable characters. -/
def IsPrintable (s : Text) : Prop := ∀ c ∈ s, isPrintable c = true

/-- A text that a declaration can be. -/
structure WellFormed (s : Text) : Prop where
  printable : IsPrintable s
  starts : ∃ c ∈ s.head?, c.isDigit = false ∧ c ≠ ' '

theorem CName.wellFormed (n : CName) : WellFormed n.text := ⟨n.printable, n.starts⟩

theorem isPrintable_of_isWordChar {c : Char} (h : isWordChar c = true) : isPrintable c = true := by
  rw [isPrintable_iff]
  simp only [isWordChar, Char.isAlphanum, Char.isAlpha, Char.isUpper, Char.isLower, Char.isDigit,
    Bool.or_eq_true, Bool.and_eq_true, decide_eq_true_iff, ge_iff_le, UInt32.le_iff_toNat_le,
    Char.reduceVal, UInt32.reduceToNat, beq_iff_eq] at h
  rw [Char.toNat]
  rcases h with ((h | h) | h) | rfl
  · omega
  · omega
  · omega
  · decide

namespace IsPrintable

variable {s t : Text}

theorem of_all (h : s.all isPrintable = true) : IsPrintable s := List.all_eq_true.1 h

theorem of_isWord (h : IsWord s) : IsPrintable s := fun c hc =>
  isPrintable_of_isWordChar (List.all_eq_true.1 h c hc)

theorem nil : IsPrintable [] := of_all rfl

theorem append (hs : IsPrintable s) (ht : IsPrintable t) : IsPrintable (s ++ t) :=
  List.forall_mem_append.2 ⟨hs, ht⟩

theorem cons {c : Char} (hc : isPrintable c = true) (hs : IsPrintable s) : IsPrintable (c :: s) :=
  List.forall_mem_cons.2 ⟨hc, hs⟩

theorem intercalate {l : List Text} (hs : IsPrintable s) (hl : ∀ t ∈ l, IsPrintable t) :
    IsPrintable (s.intercalate l) := by
  induction l with
  | nil => exact nil
  | cons a l ih =>
    have ha := hl a List.mem_cons_self
    have ih := ih fun t ht => hl t (List.mem_cons_of_mem a ht)
    cases l with
    | nil => simpa [List.intercalate] using ha
    | cons b l =>
      have hcons : s.intercalate (a :: b :: l) = a ++ s ++ s.intercalate (b :: l) := by
        simp [List.intercalate, List.intersperse]
      rw [hcons]
      exact (ha.append hs).append ih

end IsPrintable

namespace WellFormed

variable {s t : Text}

theorem append (hs : WellFormed s) (ht : IsPrintable t) : WellFormed (s ++ t) := by
  refine ⟨hs.printable.append ht, ?_⟩
  obtain ⟨c, hc, hstart⟩ := hs.starts
  refine ⟨c, ?_, hstart⟩
  rw [Option.mem_def] at hc
  rw [List.head?_append, hc]
  rfl

theorem ne_nil (hs : WellFormed s) : s ≠ [] := by
  rintro rfl
  obtain ⟨c, hc, -⟩ := hs.starts
  cases hc

theorem base (hs : WellFormed s) (ht : IsPrintable t) :
    WellFormed (CType.baseDeclarationCode s t) := by
  rw [CType.baseDeclarationCode]
  split
  · exact hs
  · exact hs.append (ht.cons (by decide))

theorem of_all (hall : s.all isPrintable = true)
    (hstart : ∃ c ∈ s.head?, c.isDigit = false ∧ c ≠ ' ') : WellFormed s :=
  ⟨.of_all hall, hstart⟩

end WellFormed

theorem wellFormed_kind (kind : StructKind) : WellFormed kind.text := by
  cases kind with
  | struct => exact .of_all rfl ⟨_, rfl, by decide, by decide⟩
  | union => exact .of_all rfl ⟨_, rfl, by decide, by decide⟩

theorem isPrintable_cvString (isConst isVolatile isRestrict : Bool) :
    IsPrintable (CType.cvString isConst isVolatile isRestrict) := by
  refine .of_all ?_
  cases isConst <;> cases isVolatile <;> cases isRestrict <;> rfl

theorem isPrintable_decimal (n : ℕ) : IsPrintable (ModuleWriter.decimal n) :=
  .of_isWord (ModuleWriter.isWord_decimal n)

theorem isPrintable_argDeclCode {args : List Text} (h : ∀ s ∈ args, IsPrintable s) :
    IsPrintable (CType.argDeclCode args) := by
  rw [CType.argDeclCode]
  split
  · exact .of_all rfl
  · exact .intercalate (.of_all rfl) h

theorem isPrintable_functionDeclarator {cc entity args trailer : Text} (hcc : IsPrintable cc)
    (he : IsPrintable entity) (ha : IsPrintable args) (ht : IsPrintable trailer) :
    IsPrintable (CType.functionDeclarator cc entity args trailer) := by
  have hopen : isPrintable '(' = true := by decide
  have hclose : isPrintable ')' = true := by decide
  rw [CType.functionDeclarator]
  split
  · exact ((((hcc.cons hopen).append he).append (.of_all rfl)).append ha).append (ht.cons hclose)
  · exact ((hcc.append he).append (ha.cons hopen)).append (ht.cons hclose)

theorem isWord_replaceDots (n : ScopeName) : IsWord (replaceDots n.text) := by
  refine List.all_eq_true.2 fun c hc => ?_
  obtain ⟨d, hd, hc⟩ := List.mem_flatMap.1 hc
  split at hc
  next =>
    have hdot : "_dot_".toList.all isWordChar = true := rfl
    exact List.all_eq_true.1 hdot c hc
  next hne =>
    obtain rfl := List.mem_singleton.1 hc
    exact (n.word c hd).resolve_right hne

theorem isWord_manglingPrefix (scope : Option Scope) : IsWord (manglingPrefix scope) := by
  cases scope with
  | none => rfl
  | some names =>
    refine List.all_eq_true.2 fun c hc => ?_
    obtain ⟨n, -, hc⟩ := List.mem_flatMap.1 hc
    have hword : IsWord (ModuleWriter.decimal n.text.length ++ replaceDots n.text ++ ['_']) := by
      simp only [ModuleWriter.isWord_append]
      exact ⟨⟨ModuleWriter.isWord_decimal _, isWord_replaceDots n⟩, by decide⟩
    exact List.all_eq_true.1 hword c hc

theorem isPrintable_mangle {decl : Text} (scope : Option Scope) (h : IsPrintable decl) :
    IsPrintable (mangle scope decl) :=
  (IsPrintable.of_isWord (isWord_manglingPrefix scope)).append h

theorem isWord_identifierFromDeclaration (H : Digest) {decl : Text} (scope : Option Scope)
    (h : IsPrintable decl) : IsWord (identifierFromDeclaration H decl scope) :=
  isWord_capLength H (isWord_uncapped (isPrintable_mangle scope h))

theorem isWord_joined {l : List Text} (h : ∀ s ∈ l, IsWord s) : IsWord (joined l) := by
  induction l with
  | nil => rfl
  | cons a l ih =>
    have ha := h a List.mem_cons_self
    have ih := ih fun s hs => h s (List.mem_cons_of_mem a hs)
    cases l with
    | nil => simpa [joined, List.intercalate] using ha
    | cons b l =>
      rw [joined_cons, ModuleWriter.isWord_append, ModuleWriter.isWord_append]
      exact ⟨⟨ha, by decide⟩, ih⟩

section Types

variable (H : Digest)

/-- A name in the namespace of a type whose declarations are such texts. -/
theorem wellFormed_namespace {within : Option CType} {n : Text}
    (h : ∀ t ∈ within, ∀ e, IsPrintable e → WellFormed (t.declarationCode H e))
    (hn : WellFormed n) : WellFormed (CType.namespaceCode H within ++ n) := by
  cases within with
  | none => exact hn
  | some t => exact ((h t rfl [] .nil).append (.of_all rfl)).append hn.printable

/-- The declaration of a type, around any entity. -/
theorem CType.declaration_wellFormed (t : CType) (e : Text) (he : IsPrintable e) :
    WellFormed (t.declarationCode H e) := by
  revert e
  refine @CType.rec
    (fun t => ∀ e, IsPrintable e → WellFormed (t.declarationCode H e))
    (fun o => ∀ t ∈ o, ∀ e, IsPrintable e → WellFormed (t.declarationCode H e))
    (fun l => ∀ s ∈ declarationCodes H l, WellFormed s)
    ?basic ?object ?typedef ?structOrUnion ?enum ?scopedEnum ?cppClass ?qualified ?ptr ?array
    ?reference ?rvalueReference ?fakeReference ?function ?ctuple ?spacedName ?noType ?someType
    ?nil ?cons t
  case basic =>
    intro name e he
    exact name.wellFormed.base he
  case object =>
    intro structTag name scope e he
    refine WellFormed.base ?_ (he.cons (by decide))
    cases structTag with
    | false => exact name.wellFormed
    | true =>
      exact (WellFormed.of_all rfl ⟨_, rfl, by decide, by decide⟩).append name.printable
  case typedef =>
    intro cname within scope ih e he
    exact (wellFormed_namespace H ih cname.wellFormed).base he
  case structOrUnion =>
    intro kind typedefFlag cname scope e he
    refine WellFormed.base ?_ he
    split
    · exact cname.wellFormed
    · exact (wellFormed_kind kind).append (IsPrintable.cons (by decide) cname.printable)
  case enum =>
    intro typedefFlag cname within scope ih e he
    refine WellFormed.base ?_ he
    split
    · exact (WellFormed.of_all rfl ⟨_, rfl, by decide, by decide⟩).append cname.printable
    · exact wellFormed_namespace H ih cname.wellFormed
  case scopedEnum =>
    intro cname within scope ih e he
    refine WellFormed.base ?_ he
    split
    · exact (WellFormed.of_all rfl ⟨_, rfl, by decide, by decide⟩).append cname.printable
    · exact wellFormed_namespace H ih cname.wellFormed
  case cppClass =>
    intro cname isTemplate templates within scope ihtemplates ih e he
    refine WellFormed.base ?_ he
    refine (wellFormed_namespace H ih cname.wellFormed).append ?_
    split
    · exact (((IsPrintable.intercalate (.of_all rfl) fun s hs =>
        (ihtemplates s hs).printable).cons (by decide)).append (.of_all rfl))
    · exact .nil
  case qualified =>
    intro base isConst isVolatile isRestrict ih e he
    exact ih _ ((isPrintable_cvString _ _ _).append he)
  case ptr =>
    intro base ih e he
    exact ih _ (he.cons (by decide))
  case array =>
    intro base size ih e he
    have hentity : IsPrintable (parenthesized e) := by
      rw [parenthesized]
      split
      · exact (he.cons (by decide)).append (.of_all rfl)
      · exact he
    have hsize : IsPrintable (size.elim [] ModuleWriter.decimal) := by
      cases size with
      | none => exact .nil
      | some n => exact isPrintable_decimal n
    exact ih _ ((hentity.append (hsize.cons (by decide))).append (.of_all rfl))
  case reference =>
    intro base ih e he
    exact ih _ (he.cons (by decide))
  case rvalueReference =>
    intro base ih e he
    exact ih _ (IsPrintable.append (.of_all rfl) he)
  case fakeReference =>
    intro base ih e he
    exact (((WellFormed.of_all rfl ⟨_, rfl, by decide, by decide⟩).append
      (ih [] .nil).printable).append (.of_all rfl)).append he
  case function =>
    intro returnType args callingConvention isOverridable opArgStruct hasVarargs isConstMethod
      ihreturn ihargs ihstruct e he
    refine ihreturn _ (isPrintable_functionDeclarator ?_ he (isPrintable_argDeclCode ?_) ?_)
    · cases callingConvention with
      | none => exact .nil
      | some cc => exact cc.wellFormed.printable.append (.of_all rfl)
    · simp only [List.forall_mem_append]
      refine ⟨⟨⟨fun s hs => (ihargs s hs).printable, ?_⟩, ?_⟩, ?_⟩
      · cases isOverridable with
        | false => simp
        | true => exact List.forall_mem_singleton.2 (.of_all rfl)
      · cases opArgStruct with
        | none => simp [optionalArgCode]
        | some t =>
          exact List.forall_mem_singleton.2 (ihstruct t rfl _ (.of_all rfl)).printable
      · cases hasVarargs with
        | false => simp
        | true => exact List.forall_mem_singleton.2 (.of_all rfl)
    · cases isConstMethod with
      | false => exact .nil
      | true => exact .of_all rfl
  case ctuple =>
    intro components scope ih e he
    refine WellFormed.base ?_ he
    refine (WellFormed.of_all rfl ⟨_, rfl, by decide, by decide⟩).append (.of_isWord ?_)
    refine isWord_capLength H (isWord_joined fun s hs => ?_)
    obtain ⟨i, hi, rfl⟩ := List.mem_iff_getElem.1 hs
    rw [List.getElem_zipWith]
    exact isWord_identifierFromDeclaration H _ (ih _ (List.getElem_mem _)).printable
  case spacedName =>
    intro cname e he
    exact cname.wellFormed.append (he.cons (by decide))
  case noType =>
    rintro t ht
    cases ht
  case someType =>
    intro t ih u hu
    obtain rfl := Option.some_inj.1 hu
    exact ih
  case nil =>
    rintro s hs
    cases hs
  case cons =>
    intro t l ih ihl
    exact List.forall_mem_cons.2 ⟨ih [] .nil, ihl⟩

namespace CType

variable {H} {t u : CType}

theorem mangled_printable (t : CType) : IsPrintable (t.mangledDeclaration H) :=
  isPrintable_mangle _ (t.declaration_wellFormed H [] .nil).printable

theorem mangled_ne_nil (t : CType) : t.mangledDeclaration H ≠ [] :=
  List.append_ne_nil_of_right_ne_nil _ (t.declaration_wellFormed H [] .nil).ne_nil

theorem isWord_identifier (t : CType) : IsWord (t.identifier H) :=
  isWord_identifierFromDeclaration H _ (t.declaration_wellFormed H [] .nil).printable

theorem identifier_eq_capLength (t : CType) :
    t.identifier H = capLength H (uncapped (t.mangledDeclaration H)) := rfl

theorem length_identifier_le (t : CType) : (t.identifier H).length ≤ maxLen := by
  rw [identifier_eq_capLength]
  exact length_capLength_le H _

variable (H) in
/-- The identifier of the type is not cut off. -/
def Short (t : CType) : Prop := (uncapped (t.mangledDeclaration H)).length ≤ maxLen

theorem Short.identifier_eq (h : t.Short H) :
    t.identifier H = ((fragments (t.mangledDeclaration H)).map some).flatMap tokenCode := by
  rw [← uncapped_eq, identifier_eq_capLength, capLength_of_le H h]

theorem fragments_eq (ht : t.Short H) (hu : u.Short H) (h : t.identifier H = u.identifier H) :
    fragments (t.mangledDeclaration H) = fragments (u.mangledDeclaration H) := by
  rw [ht.identifier_eq, hu.identifier_eq] at h
  exact List.map_injective_iff.2 (Option.some_injective _)
    (tokens_inj (validTokens_fragments t.mangled_printable)
      (validTokens_fragments u.mangled_printable) h)

end CType

end Types

/-! ## Scopes -/

/-- No module of the scope has a dot in its name. -/
def Dotless (scope : Option Scope) : Prop := ∀ names ∈ scope, ∀ n ∈ names, '.' ∉ n.text

theorem replaceDots_eq {n : Text} (h : '.' ∉ n) : replaceDots n = n := by
  induction n with
  | nil => rfl
  | cons c n ih =>
    rw [List.mem_cons, not_or] at h
    obtain ⟨hc, hn⟩ := h
    rw [replaceDots, List.flatMap_cons, if_neg (Ne.symm hc), ← replaceDots, ih hn]
    rfl

/-- The prefix of a scope ends where a name goes on with no digit. -/
theorem scopePrefix_inj {l m : Scope} {x y : Text} (hl : ∀ n ∈ l, '.' ∉ n.text)
    (hm : ∀ n ∈ m, '.' ∉ n.text) (hx : NoDigit x) (hy : NoDigit y)
    (h : scopePrefix l ++ x = scopePrefix m ++ y) : scopePrefix l = scopePrefix m := by
  have hcons : ∀ (n : ScopeName) (l : Scope) (x : Text), '.' ∉ n.text →
      scopePrefix (n :: l) ++ x =
        ModuleWriter.decimal n.text.length ++ (n.text ++ '_' :: (scopePrefix l ++ x)) := by
    intro n l x hn
    simp [scopePrefix, replaceDots_eq hn]
  -- A prefix that is not empty begins with a digit.
  have hnil : ∀ (n : ScopeName) (l : Scope) {x y : Text}, NoDigit x → '.' ∉ n.text →
      x ≠ scopePrefix (n :: l) ++ y := by
    intro n l x y hx hn h
    obtain ⟨c, d, hd, hdigit⟩ := exists_toDigits n.text.length
    rw [hcons n l y hn, ModuleWriter.decimal, hd] at h
    subst h
    rw [List.cons_append, noDigit_cons, hdigit] at hx
    cases hx
  have hnoDigit : ∀ (n : ScopeName) (x : Text), NoDigit (n.text ++ '_' :: x) := by
    intro n x c hc
    cases htext : n.text with
    | nil =>
      rw [htext] at hc
      obtain rfl := Option.some_inj.1 hc
      decide
    | cons d r =>
      have hd := n.noDigit
      rw [htext] at hc hd
      exact hd c hc
  induction l generalizing m with
  | nil =>
    cases m with
    | nil => rfl
    | cons k m => exact absurd h (hnil k m hx (hm k List.mem_cons_self))
  | cons n l ih =>
    have hn := hl n List.mem_cons_self
    cases m with
    | nil => exact absurd h.symm (hnil n l hy hn)
    | cons k m =>
      have hk := hm k List.mem_cons_self
      rw [hcons n l x hn, hcons k m y hk] at h
      obtain ⟨hlength, h⟩ := toDigits_append_inj (hnoDigit n _) (hnoDigit k _) h
      obtain ⟨htext, h⟩ := List.append_inj h hlength
      have hrest := ih (fun a ha => hl a (List.mem_cons_of_mem n ha))
        (fun a ha => hm a (List.mem_cons_of_mem k ha)) (List.cons.inj h).2
      have hempty := hcons n l [] hn
      have hempty' := hcons k m [] hk
      rw [List.append_nil, List.append_nil] at hempty hempty'
      rw [hempty, hempty', htext, hrest]

/-- Types with the same declarations up to spaces have scopes with the same prefix. -/
theorem manglingPrefix_eq {H : Digest} {t u : CType} (ht : Dotless t.scope)
    (hu : Dotless u.scope)
    (h : SameUpToSpaces (t.mangledDeclaration H) (u.mangledDeclaration H)) :
    manglingPrefix t.scope = manglingPrefix u.scope := by
  have hfilter := h.filter_eq
  -- Prefixes have no spaces.
  have hspaceless : ∀ scope, (manglingPrefix scope).filter (· ≠ ' ') = manglingPrefix scope := by
    intro scope
    refine List.filter_eq_self.2 fun c hc => decide_eq_true ?_
    rintro rfl
    have hword := List.all_eq_true.1 (isWord_manglingPrefix scope) ' ' hc
    cases hword
  have hstart : ∀ t : CType, NoDigit ((t.emptyDeclarationCode H).filter (· ≠ ' ')) := by
    intro t c hc
    obtain ⟨d, hd, hdigit, hne⟩ := (t.declaration_wellFormed H [] .nil).starts
    cases hdecl : t.declarationCode H [] with
    | nil => rw [hdecl] at hd; cases hd
    | cons e r =>
      rw [hdecl] at hd
      obtain rfl := Option.some_inj.1 hd
      have hpos : decide (e ≠ ' ') = true := decide_eq_true hne
      rw [CType.emptyDeclarationCode, hdecl, List.filter_cons, if_pos hpos] at hc
      obtain rfl := Option.some_inj.1 hc
      exact hdigit
  rw [CType.mangledDeclaration, CType.mangledDeclaration, mangle, mangle, List.filter_append,
    List.filter_append, hspaceless, hspaceless] at hfilter
  have hscope : ∀ scope, Dotless scope → ∃ names : Scope,
      (∀ n ∈ names, '.' ∉ n.text) ∧ manglingPrefix scope = scopePrefix names := by
    intro scope hdots
    cases scope with
    | none => exact ⟨[], by simp, rfl⟩
    | some names => exact ⟨names, hdots names rfl, rfl⟩
  obtain ⟨l, hl, hlnames⟩ := hscope t.scope ht
  obtain ⟨m, hm, hmnames⟩ := hscope u.scope hu
  rw [hlnames, hmnames] at hfilter ⊢
  exact scopePrefix_inj hl hm (hstart t) (hstart u) hfilter

/-! ## Lists of types -/

section Lists

variable (H : Digest)

/-- The identifiers of a list, before they are cut off together. -/
def joinedIdentifiers (ts : List CType) : Text := joined (ts.map (CType.identifier H))

variable {H}

theorem length_joined {a b : Text} {l : List Text} :
    a.length + 6 + (joined (b :: l)).length = (joined (a :: b :: l)).length := by
  have hlength : (tokenCode none).length = 6 := rfl
  rw [joined_cons, List.length_append, List.length_append, hlength]

theorem length_le_joined {a : Text} {l : List Text} (h : a ∈ l) :
    a.length ≤ (joined l).length := by
  induction l with
  | nil => cases h
  | cons b l ih =>
    cases l with
    | nil =>
      obtain rfl := List.mem_singleton.1 h
      simp [joined, List.intercalate]
    | cons c l =>
      have hlength := length_joined (a := b) (b := c) (l := l)
      rcases List.mem_cons.1 h with rfl | h
      · omega
      · have ih := ih h
        omega

/-- An identifier that is cut off leaves no place for another one. -/
theorem short_of_mem {ts : List CType} {t : CType} (ht : t ∈ ts)
    (hjoined : (joinedIdentifiers H ts).length ≤ maxLen) (hsingle : ∀ u, ts = [u] → u.Short H) :
    t.Short H := by
  by_contra hshort
  have hlong : maxLen < (uncapped (t.mangledDeclaration H)).length := Nat.not_le.1 hshort
  have hcapped : (t.identifier H).length = 59 := by
    rw [CType.identifier_eq_capLength, length_capLength_of_lt H hlong]
  rw [joinedIdentifiers, maxLen] at hjoined
  obtain ⟨a, b, rfl⟩ := List.append_of_mem ht
  cases a with
  | nil =>
    cases b with
    | nil => exact hshort (hsingle t rfl)
    | cons c b =>
      have hlength := length_joined (a := t.identifier H) (b := c.identifier H)
        (l := b.map (CType.identifier H))
      rw [List.nil_append, List.map_cons, List.map_cons] at hjoined
      omega
  | cons c a =>
    have hmem : t.identifier H ∈ (a ++ t :: b).map (CType.identifier H) :=
      List.mem_map_of_mem (by simp)
    have hle := length_le_joined hmem
    obtain ⟨d, l, hl⟩ := List.exists_cons_of_ne_nil (List.ne_nil_of_mem hmem)
    have hlength := length_joined (a := c.identifier H) (b := d) (l := l)
    rw [List.cons_append, List.map_cons, hl] at hjoined
    rw [hl] at hle
    omega

theorem joinedIdentifiers_eq {ts : List CType} (h : ∀ t ∈ ts, t.Short H) :
    joinedIdentifiers H ts =
      (separated (ts.map fun t => fragments (t.mangledDeclaration H))).flatMap tokenCode := by
  rw [← joined_eq, joinedIdentifiers, List.map_map]
  exact congrArg joined (List.map_congr_left fun t ht => (h t ht).identifier_eq)

/-- The identifiers of short lists can be told apart. -/
theorem fragments_lists_eq {ts us : List CType} (ht : ∀ t ∈ ts, t.Short H)
    (hu : ∀ u ∈ us, u.Short H) (h : joinedIdentifiers H ts = joinedIdentifiers H us) :
    ts.map (fun t => fragments (t.mangledDeclaration H)) =
      us.map fun t => fragments (t.mangledDeclaration H) := by
  have hvalid : ∀ ts : List CType,
      ∀ l ∈ ts.map (fun t => fragments (t.mangledDeclaration H)), ValidTokens (l.map some) := by
    intro ts
    rw [List.forall_mem_map]
    exact fun t _ => validTokens_fragments t.mangled_printable
  have hne : ∀ ts : List CType,
      ∀ l ∈ ts.map (fun t => fragments (t.mangledDeclaration H)), l ≠ [] := by
    intro ts
    rw [List.forall_mem_map]
    exact fun t _ => fragments_ne_nil t.mangled_ne_nil
  rw [joinedIdentifiers_eq ht, joinedIdentifiers_eq hu] at h
  exact separated_inj (hne ts) (hne us)
    (tokens_inj (validTokens_separated (hvalid ts)) (validTokens_separated (hvalid us)) h)

theorem isWord_joinedIdentifiers (ts : List CType) : IsWord (joinedIdentifiers H ts) := by
  refine isWord_joined ?_
  rw [List.forall_mem_map]
  exact fun t _ => t.isWord_identifier

end Lists

/-! ## Main results -/

/-- Texts that are cut off agree in the digits of their digests, and in the beginning. -/
def SameCut (H : Digest) (s t : Text) : Prop :=
  (H.hexdigest s).take 6 = (H.hexdigest t).take 6 ∧ s.take 46 = t.take 46

/-- What the identifiers of types and of lists of types say. -/
structure Faithful (H : Digest) : Prop where
  /-- Identifiers that are not cut off -/
  short : ∀ t u : CType, t.Short H → u.Short H → t.identifier H = u.identifier H →
    SameUpToSpaces (t.mangledDeclaration H) (u.mangledDeclaration H) ∧
      (Dotless t.scope → Dotless u.scope → manglingPrefix t.scope = manglingPrefix u.scope)
  /-- Identifiers that are cut off -/
  long : ∀ t u : CType, ¬ t.Short H → ¬ u.Short H →
    (t.identifier H = u.identifier H ↔
      SameCut H (uncapped (t.mangledDeclaration H)) (uncapped (u.mangledDeclaration H)))
  /-- An identifier that is not cut off has the digits of the other one. -/
  mixed : ∀ t u : CType, t.Short H → ¬ u.Short H → t.identifier H = u.identifier H →
    (uncapped (t.mangledDeclaration H)).take 6 =
      (H.hexdigest (uncapped (u.mangledDeclaration H))).take 6
  /-- Names of structures that are not cut off -/
  lists : ∀ ts us : List CType, (joinedIdentifiers H ts).length ≤ maxLen →
    (joinedIdentifiers H us).length ≤ maxLen → (∀ t, ts = [t] → t.Short H) →
    (∀ u, us = [u] → u.Short H) → cTupleName H ts = cTupleName H us →
    List.Forall₂ (fun t u => SameUpToSpaces (t.mangledDeclaration H) (u.mangledDeclaration H))
      ts us
  /-- The structure for one component -/
  singletons : ∀ t u : CType,
    cTupleName H [t] = cTupleName H [u] ↔ t.identifier H = u.identifier H
  /-- Names of structures that are cut off -/
  longLists : ∀ ts us : List CType, maxLen < (joinedIdentifiers H ts).length →
    maxLen < (joinedIdentifiers H us).length →
    (cTupleName H ts = cTupleName H us ↔
      SameCut H (joinedIdentifiers H ts) (joinedIdentifiers H us))
  length : ∀ t : CType, (t.identifier H).length ≤ maxLen
  /-- After the beginning of an identifier, the result is an identifier of C. -/
  valid : ∀ (t : CType) (p : Text), isCIdentifier p = true →
    isCIdentifier (p ++ t.identifier H) = true
  validTuple : ∀ ts : List CType, isCIdentifier (cTupleName H ts) = true

section

variable {H : Digest}

theorem identifier_long {t u : CType} (ht : ¬ t.Short H) (hu : ¬ u.Short H) :
    t.identifier H = u.identifier H ↔
      SameCut H (uncapped (t.mangledDeclaration H)) (uncapped (u.mangledDeclaration H)) := by
  rw [CType.identifier_eq_capLength, CType.identifier_eq_capLength]
  exact capLength_eq_iff H (Nat.not_le.1 ht) (Nat.not_le.1 hu)

theorem identifier_mixed {t u : CType} (ht : t.Short H) (hu : ¬ u.Short H)
    (h : t.identifier H = u.identifier H) : (uncapped (t.mangledDeclaration H)).take 6 =
      (H.hexdigest (uncapped (u.mangledDeclaration H))).take 6 := by
  rw [CType.identifier_eq_capLength, CType.identifier_eq_capLength, capLength_of_le H ht,
    capLength_of_lt H (Nat.not_le.1 hu), List.append_assoc, List.append_assoc] at h
  rw [h, List.take_left' (length_take_hexdigest H _)]

theorem cTupleName_inj {ts us : List CType} :
    cTupleName H ts = cTupleName H us ↔
      capLength H (joinedIdentifiers H ts) = capLength H (joinedIdentifiers H us) := by
  rw [cTupleName, cTupleName, typeListIdentifier, typeListIdentifier, ← joinedIdentifiers,
    ← joinedIdentifiers]
  exact List.append_right_inj _

theorem cTupleName_short {ts us : List CType} (hts : (joinedIdentifiers H ts).length ≤ maxLen)
    (hus : (joinedIdentifiers H us).length ≤ maxLen) (ht : ∀ t, ts = [t] → t.Short H)
    (hu : ∀ u, us = [u] → u.Short H) (h : cTupleName H ts = cTupleName H us) :
    List.Forall₂ (fun t u => SameUpToSpaces (t.mangledDeclaration H) (u.mangledDeclaration H))
      ts us := by
  rw [cTupleName_inj, capLength_of_le H hts, capLength_of_le H hus] at h
  have hfragments := fragments_lists_eq (fun t hmem => short_of_mem hmem hts ht)
    (fun u hmem => short_of_mem hmem hus hu) h
  rw [← List.forall₂_eq_eq_eq, List.forall₂_map_left_iff, List.forall₂_map_right_iff]
    at hfragments
  exact hfragments.imp fun _ _ => same_of_fragments_eq

theorem cTupleName_singleton (t u : CType) :
    cTupleName H [t] = cTupleName H [u] ↔ t.identifier H = u.identifier H := by
  have hjoined : ∀ t : CType, joinedIdentifiers H [t] = t.identifier H := by
    intro t
    simp [joinedIdentifiers, joined, List.intercalate]
  rw [cTupleName_inj, hjoined, hjoined, capLength_of_le H t.length_identifier_le,
    capLength_of_le H u.length_identifier_le]

theorem isCIdentifier_cTupleName (ts : List CType) :
    isCIdentifier (cTupleName H ts) = true := by
  have hstart : isCIdentifier "__pyx_ctuple_".toList = true := by decide
  exact ModuleWriter.isCIdentifier_append hstart
    (isWord_capLength H (isWord_joinedIdentifiers ts))

end

/-- The name of `n + 1` letters. -/
def lettersName (n : ℕ) : CName where
  text := List.replicate (n + 1) 'a'
  printable c hc := by
    rw [List.eq_of_mem_replicate hc]
    rfl
  starts := ⟨'a', rfl, rfl, by simp⟩

theorem finite_char : Finite Char := by
  have hlt : ∀ c : Char, c.toNat < 1114112 := by
    intro c
    rcases c.valid with h | ⟨-, h⟩
    · exact Nat.lt_trans h (by decide)
    · exact h
  refine Finite.of_injective (fun c : Char => (⟨c.toNat, hlt c⟩ : Fin 1114112)) ?_
  intro c d h
  exact Char.toNat_inj.1 (Fin.mk.inj h)

/-- There are fewer identifiers than typedefs. -/
theorem exists_collision (H : Digest) : ∃ t u : CType,
    t.identifier H = u.identifier H ∧ t.emptyDeclarationCode H ≠ u.emptyDeclarationCode H := by
  have hchar := finite_char
  have hmaps : Set.MapsTo (fun n => (CType.typedef (lettersName n) none none).identifier H)
      Set.univ {l : List Char | l.length ≤ maxLen} := fun n _ => CType.length_identifier_le _
  obtain ⟨n, -, m, -, hne, heq⟩ := Set.Infinite.exists_ne_map_eq_of_mapsTo Set.infinite_univ
    hmaps (List.finite_length_le Char maxLen)
  refine ⟨_, _, heq, fun h => hne ?_⟩
  have hdecl : ∀ n, (CType.typedef (lettersName n) none none).emptyDeclarationCode H =
      List.replicate (n + 1) 'a' := fun n => rfl
  rw [hdecl, hdecl] at h
  simpa using congrArg List.length h

end AHPy.TypeIdentifier
