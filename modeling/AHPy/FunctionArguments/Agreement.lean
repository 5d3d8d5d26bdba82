import AHPy.FunctionArguments.ParseKeywords

/-!
# The agreement of the parsers of keyword arguments

What a call stores is said once, from the texts of the names and the keywords
(`boundValues`, `remaining`), as is which calls are rejected (`Rejected`). Each of
the three parsers does this:

* `parseKeywordsTuple_eq`: by induction on the keywords, each of which is
  declared, remaining or rejected;
* `parseKeywordDict_eq`: the counter is the number of declared keywords
  (`extractDeclared_eq`), so keywords are left exactly when one is not declared;
* `parseKeywordDictToDict_eq`: what is left of the copy are the remaining ones;
* `parseKeywords_spec`: hence what `__Pyx_ParseKeywords` does.
-/

namespace AHPy.FunctionArguments

variable {V : Type}

/-! ## Comparisons -/

theorem unicodeCompare_eq_zero_iff {s t : Text} : unicodeCompare s t = 0 ↔ s = t := by
  induction s generalizing t with
  | nil => rcases t with _ | ⟨b, t⟩ <;> simp [unicodeCompare]
  | cons a s ih =>
    rcases t with _ | ⟨b, t⟩
    · simp [unicodeCompare]
    · rw [unicodeCompare]
      rcases Nat.lt_trichotomy a b with h | h | h
      · rw [if_pos h, List.cons.injEq]
        omega
      · subst h
        rw [if_neg (Nat.lt_irrefl a), if_neg (Nat.lt_irrefl a), ih, List.cons.injEq]
        simp
      · rw [if_neg (Nat.lt_asymm h), if_pos h, List.cons.injEq]
        omega

theorem unicodeKeywordsEqual_eq (s t : Text) : unicodeKeywordsEqual s t = decide (s = t) := by
  rw [unicodeKeywordsEqual]
  by_cases h : s = t
  · subst h
    simp
  · by_cases hl : s.length = t.length
    · by_cases hk : unicodeKind s = unicodeKind t
      · simp [hl, hk]
      · simp [hl, hk, h]
    · simp [hl, h]

variable (cfg : Config) (h : Heap)

/-- Whatever the macros are, names are compared by their texts. -/
theorem matchesName_eq (key name : Ref) :
    matchesName cfg h key name = decide (h.text name = h.text key) := by
  rw [matchesName, unicodeKeywordsEqual_eq]
  simp only [unicodeCompare_eq_zero_iff]
  by_cases ht : h.text name = h.text key
  · simp [ht]
  · simp [ht]

theorem matchesPositional_eq (key name : Ref) :
    matchesPositional cfg h key name = decide (h.text name = h.text key) := by
  rw [matchesPositional, unicodeKeywordsEqual_eq]
  simp only [unicodeCompare_eq_zero_iff]
  by_cases ht : h.text name = h.text key
  · simp [ht]
  · have hne : name ≠ key := fun e => ht (congrArg h.text e)
    simp [ht, hne]

/-! ## What a call stores -/

/-- A declared name that may be passed as a keyword has the text `t`. -/
def IsDeclared (argnames : List Ref) (numPosArgs : Nat) (t : Text) : Prop :=
  t ∈ (argnames.drop numPosArgs).map h.text

/-- The name of a positional argument has the text `t`. -/
def IsPositional (argnames : List Ref) (numPosArgs : Nat) (t : Text) : Prop :=
  t ∈ (argnames.take numPosArgs).map h.text

instance (argnames : List Ref) (numPosArgs : Nat) (t : Text) :
    Decidable (IsDeclared h argnames numPosArgs t) :=
  inferInstanceAs (Decidable (t ∈ _))

instance (argnames : List Ref) (numPosArgs : Nat) (t : Text) :
    Decidable (IsPositional h argnames numPosArgs t) :=
  inferInstanceAs (Decidable (t ∈ _))

/-- Each name from the index `i` on is bound to its value, if it has one. -/
def setNames (look : Text → Option V) : List Ref → Nat → List (Option V) → List (Option V)
  | [], _, values => values
  | name :: names, i, values =>
    match look (h.text name) with
    | some value => setNames look names (i + 1) (values.set i (some value))
    | none => setNames look names (i + 1) values

/-- The value of a keyword. -/
def valueOf (kwds : List (Ref × V)) (t : Text) : Option V :=
  (kwds.find? fun e => h.text e.1 = t).map Prod.snd

/-- `values[]` with each declared name that is no positional argument bound to
    its value. -/
def boundValues (kwds : List (Ref × V)) (argnames : List Ref) (numPosArgs : Nat)
    (values : List (Option V)) : List (Option V) :=
  setNames h (valueOf h kwds) (argnames.drop numPosArgs) numPosArgs values

/-- The keywords that are not declared, in source order. -/
def remaining (kwds : List (Ref × V)) (argnames : List Ref) (numPosArgs : Nat) :
    List (Text × V) :=
  (kwds.filter fun e => ¬IsDeclared h argnames numPosArgs (h.text e.1)).map
    fun e => (h.text e.1, e.2)

/-- A keyword that makes a call fail: it names a positional argument, or is not
    declared where that is not allowed. -/
def RejectedKey (argnames : List Ref) (numPosArgs : Nat) (allowed : Bool) (t : Text) : Prop :=
  IsPositional h argnames numPosArgs t ∨
    (¬IsDeclared h argnames numPosArgs t ∧ allowed = false)

/-- The calls that fail. -/
def Rejected (kwds : List (Ref × V)) (argnames : List Ref) (numPosArgs : Nat) (allowed : Bool) :
    Prop :=
  ∃ e ∈ kwds, RejectedKey h argnames numPosArgs allowed (h.text e.1)

/-- A result is an error with an exception for the calls that fail, and `p` for
    the others. -/
def Meets (kwds : List (Ref × V)) (argnames : List Ref) (numPosArgs : Nat) (allowed : Bool)
    (r : ParseResult V) (p : Parsed V) : Prop :=
  (Rejected h kwds argnames numPosArgs allowed → ∃ e, r = .error (some e)) ∧
    (¬Rejected h kwds argnames numPosArgs allowed → r = .ok p)

variable {h}

/-- What `setNames` leaves at an index. -/
theorem getElem?_setNames (look : Text → Option V) (names : List Ref) (i : Nat)
    (values : List (Option V)) (j : Nat) :
    (setNames h look names i values)[j]? =
      values[j]?.map fun old =>
        (if i ≤ j then (names[j - i]?.bind fun name => look (h.text name)) else none).or old := by
  induction names generalizing i values with
  | nil => simp [setNames]
  | cons name names ih =>
    rw [setNames]
    rcases Nat.lt_trichotomy j i with hj | rfl | hj
    · -- Before the names nothing changes.
      have hij : ¬i ≤ j := Nat.not_le.2 hj
      rcases look (h.text name) with _ | value
      · simp [ih, hij, show ¬i + 1 ≤ j by omega]
      · simp [ih, hij, show ¬i + 1 ≤ j by omega, List.getElem?_set_ne (Nat.ne_of_gt hj)]
    · rcases hl : look (h.text name) with _ | value
      · simp [ih, hl]
      · simp only [ih, Nat.not_succ_le_self, if_false, le_rfl, if_true, Nat.sub_self,
          List.getElem?_cons_zero, Option.bind_some, hl, List.getElem?_set_self']
        rcases values[j]? with _ | old <;> rfl
    · have hij : i ≤ j := hj.le
      obtain ⟨k, rfl⟩ := Nat.exists_eq_add_of_lt hj
      have hk : i + k + 1 - i = k + 1 := by omega
      have hk' : i + k + 1 - (i + 1) = k := by omega
      rcases look (h.text name) with _ | value
      · simp [ih, hk, hk', show i + 1 ≤ i + k + 1 by omega, show i ≤ i + k + 1 by omega]
      · simp [ih, hk, hk', show i + 1 ≤ i + k + 1 by omega, show i ≤ i + k + 1 by omega,
          List.getElem?_set_ne (show i ≠ i + k + 1 by omega)]

theorem setNames_of_none {look : Text → Option V} {names : List Ref} (i : Nat)
    (values : List (Option V)) (hn : ∀ name ∈ names, look (h.text name) = none) :
    setNames h look names i values = values := by
  induction names generalizing i with
  | nil => rfl
  | cons name names ih =>
    rw [setNames, hn name List.mem_cons_self]
    exact ih (i + 1) fun n hm => hn n (List.mem_cons_of_mem name hm)

theorem setNames_congr {look look' : Text → Option V} {names : List Ref} (i : Nat)
    (values : List (Option V))
    (hl : ∀ name ∈ names, look (h.text name) = look' (h.text name)) :
    setNames h look names i values = setNames h look' names i values := by
  induction names generalizing i values with
  | nil => rfl
  | cons name names ih =>
    have ht := fun n hm => hl n (List.mem_cons_of_mem name hm)
    rw [setNames, setNames, hl name List.mem_cons_self]
    rcases look' (h.text name) with _ | value
    · exact ih _ _ ht
    · exact ih _ _ ht

/-! ## Matching -/

theorem findName_eq_none_iff {p : Ref → Bool} {names : List Ref} {i : Nat} :
    findName p names i = none ↔ ∀ name ∈ names, p name = false := by
  induction names generalizing i with
  | nil => simp [findName]
  | cons name names ih =>
    rw [findName, List.forall_mem_cons, ← ih (i := i + 1)]
    rcases p name with _ | _ <;> simp

theorem findName_eq_some {p : Ref → Bool} {names : List Ref} {i k : Nat}
    (hf : findName p names i = some k) :
    i ≤ k ∧ ∃ name, names[k - i]? = some name ∧ p name = true := by
  induction names generalizing i with
  | nil => exact absurd hf (by simp [findName])
  | cons name names ih =>
    rw [findName] at hf
    by_cases hp : p name = true
    · rw [if_pos hp] at hf
      obtain rfl := Option.some.inj hf
      exact ⟨le_rfl, name, by simp, hp⟩
    · rw [if_neg hp] at hf
      obtain ⟨hle, n, hn, hpn⟩ := ih hf
      have hk : k - i = k - (i + 1) + 1 := by omega
      exact ⟨by omega, n, by rw [hk]; exact hn, hpn⟩

variable {argnames : List Ref} {numPosArgs : Nat}

/-- The index of a declared name, by its text. -/
def IndexOf (h : Heap) (argnames : List Ref) (numPosArgs : Nat) (t : Text) (i : Nat) : Prop :=
  numPosArgs ≤ i ∧ ∃ name, (argnames.drop numPosArgs)[i - numPosArgs]? = some name ∧ h.text name = t

theorem IndexOf.isDeclared {t : Text} {i : Nat} (hi : IndexOf h argnames numPosArgs t i) :
    IsDeclared h argnames numPosArgs t := by
  obtain ⟨-, name, hn, rfl⟩ := hi
  exact List.mem_map_of_mem (List.mem_of_getElem? hn)

variable (h argnames numPosArgs) in
/-- What `__Pyx_MatchKeywordArg` finds out about a key. -/
theorem matchKeywordArg_spec (key : Ref) (functionName : String) :
    (∃ i, matchKeywordArg cfg h key argnames numPosArgs functionName = .ok (some i) ∧
      IndexOf h argnames numPosArgs (h.text key) i) ∨
    (¬IsDeclared h argnames numPosArgs (h.text key) ∧
      IsPositional h argnames numPosArgs (h.text key) ∧
      ∃ e, matchKeywordArg cfg h key argnames numPosArgs functionName = .error e) ∨
    (¬IsDeclared h argnames numPosArgs (h.text key) ∧
      ¬IsPositional h argnames numPosArgs (h.text key) ∧
      matchKeywordArg cfg h key argnames numPosArgs functionName = .ok none) := by
  rw [matchKeywordArg]
  rcases hf : findName (matchesName cfg h key) (argnames.drop numPosArgs) numPosArgs with _ | i
  · have hd : ¬IsDeclared h argnames numPosArgs (h.text key) := by
      intro hm
      obtain ⟨name, hm, ht⟩ := List.mem_map.1 hm
      have := findName_eq_none_iff.1 hf name hm
      rw [matchesName_eq, decide_eq_false_iff_not] at this
      exact this ht
    have hp : (argnames.take numPosArgs).any (matchesPositional cfg h key) = true ↔
        IsPositional h argnames numPosArgs (h.text key) := by
      simp only [List.any_eq_true, matchesPositional_eq, decide_eq_true_iff, IsPositional,
        List.mem_map]
    by_cases hpos : IsPositional h argnames numPosArgs (h.text key)
    · exact .inr (.inl ⟨hd, hpos, .multipleValues functionName (h.text key), if_pos (hp.2 hpos)⟩)
    · exact .inr (.inr ⟨hd, hpos, if_neg (mt hp.1 hpos)⟩)
  · obtain ⟨hle, name, hn, hp⟩ := findName_eq_some hf
    rw [matchesName_eq, decide_eq_true_iff] at hp
    exact .inl ⟨i, rfl, hle, name, hn, hp⟩

/-- A name is not both that of a positional argument and of another one. -/
theorem not_isPositional {t : Text} (hnames : (argnames.map h.text).Nodup)
    (hd : IsDeclared h argnames numPosArgs t) : ¬IsPositional h argnames numPosArgs t := by
  rw [← List.take_append_drop numPosArgs argnames, List.map_append, List.nodup_append'] at hnames
  exact fun hp => hnames.2.2 hp hd

/-! ## Keywords -/

theorem valueOf_cons (e : Ref × V) (kwds : List (Ref × V)) (t : Text) :
    valueOf h (e :: kwds) t = if h.text e.1 = t then some e.2 else valueOf h kwds t := by
  rw [valueOf, List.find?_cons]
  by_cases ht : h.text e.1 = t
  · simp [ht]
  · simp [ht, valueOf]

theorem valueOf_eq_none_iff {kwds : List (Ref × V)} {t : Text} :
    valueOf h kwds t = none ↔ t ∉ kwds.map fun e => h.text e.1 := by
  rw [valueOf, Option.map_eq_none_iff, List.find?_eq_none]
  simp [eq_comm]

/-- A keyword that is not declared is bound to no name. -/
theorem boundValues_cons_of_not_isDeclared {e : Ref × V} {kwds : List (Ref × V)}
    (hd : ¬IsDeclared h argnames numPosArgs (h.text e.1)) (values : List (Option V)) :
    boundValues h (e :: kwds) argnames numPosArgs values =
      boundValues h kwds argnames numPosArgs values := by
  refine setNames_congr _ _ fun name hm => ?_
  rw [valueOf_cons, if_neg]
  exact fun heq => hd (heq ▸ List.mem_map_of_mem hm)

/-- A keyword that is declared is bound to its name, and no other keyword is. -/
theorem boundValues_cons_of_indexOf {e : Ref × V} {kwds : List (Ref × V)} {i : Nat}
    (hnames : (argnames.map h.text).Nodup) (hi : IndexOf h argnames numPosArgs (h.text e.1) i)
    (he : h.text e.1 ∉ kwds.map fun e => h.text e.1) (values : List (Option V)) :
    boundValues h (e :: kwds) argnames numPosArgs values =
      boundValues h kwds argnames numPosArgs (values.set i (some e.2)) := by
  obtain ⟨hle, name, hn, ht⟩ := hi
  refine List.ext_getElem? fun j => ?_
  rw [boundValues, boundValues, getElem?_setNames, getElem?_setNames]
  by_cases hj : i = j
  · subst hj
    rw [List.getElem?_set_self', if_pos hle, if_pos hle, hn]
    simp only [Option.bind_some, ht, valueOf_cons, if_true, valueOf_eq_none_iff.2 he]
    rcases values[i]? with _ | old <;> rfl
  · rw [List.getElem?_set_ne hj]
    refine congrArg (fun f => Option.map f values[j]?) (funext fun old => ?_)
    by_cases hle' : numPosArgs ≤ j
    · rw [if_pos hle', if_pos hle']
      rcases hn' : (argnames.drop numPosArgs)[j - numPosArgs]? with _ | name'
      · rfl
      · -- Only the name at `i` has this text.
        rw [Option.bind_some, Option.bind_some, valueOf_cons, if_neg]
        intro heq
        have hnodup : ((argnames.drop numPosArgs).map h.text).Nodup := by
          rw [List.map_drop]
          exact hnames.sublist (List.drop_sublist _ _)
        have hi' : ((argnames.drop numPosArgs).map h.text)[i - numPosArgs]? = some (h.text e.1) := by
          rw [List.getElem?_map, hn, Option.map_some, ht]
        have hj' : ((argnames.drop numPosArgs).map h.text)[j - numPosArgs]? = some (h.text e.1) := by
          rw [List.getElem?_map, hn', Option.map_some, heq]
        obtain ⟨hlt, -⟩ := List.getElem?_eq_some_iff.1 hi'
        have := (List.getElem?_inj hlt hnodup).1 (hi'.trans hj'.symm)
        omega
    · rw [if_neg hle', if_neg hle']

theorem rejected_cons {e : Ref × V} {kwds : List (Ref × V)} {allowed : Bool} :
    Rejected h (e :: kwds) argnames numPosArgs allowed ↔
      RejectedKey h argnames numPosArgs allowed (h.text e.1) ∨
        Rejected h kwds argnames numPosArgs allowed := by
  simp [Rejected]

/-- `kwds2` with more items. -/
def extend (d : OrderedDict Text V) (items : List (Text × V)) : OrderedDict Text V :=
  items.foldl (fun d e => d.set e.1 e.2) d

/-- New keys go last. -/
theorem entries_extend {d : OrderedDict Text V} {items : List (Text × V)}
    (hnodup : (items.map Prod.fst).Nodup) (hnew : ∀ e ∈ items, e.1 ∉ d) :
    (extend d items).entries = d.entries ++ items := by
  induction items generalizing d with
  | nil => exact (List.append_nil _).symm
  | cons e items ih =>
    rw [List.map_cons, List.nodup_cons] at hnodup
    have he := hnew e List.mem_cons_self
    have hset : (d.set e.1 e.2).entries = d.entries ++ [e] := by rw [OrderedDict.set, dif_neg he]
    rw [extend, List.foldl_cons, ← extend, ih hnodup.2, hset, List.append_assoc,
      List.singleton_append]
    intro e' hm
    rw [OrderedDict.mem_set_iff, not_or]
    refine ⟨fun heq => hnodup.1 ?_, hnew e' (List.mem_cons_of_mem e hm)⟩
    rw [← heq]
    exact List.mem_map_of_mem hm

theorem remaining_cons (e : Ref × V) (kwds : List (Ref × V)) :
    remaining h (e :: kwds) argnames numPosArgs =
      if IsDeclared h argnames numPosArgs (h.text e.1) then remaining h kwds argnames numPosArgs
      else (h.text e.1, e.2) :: remaining h kwds argnames numPosArgs := by
  by_cases hd : IsDeclared h argnames numPosArgs (h.text e.1)
  · simp [remaining, hd]
  · simp [remaining, hd]

/-! ## The tuple parser -/

variable {functionName : String} {ignoreUnknownKwargs : Bool}

variable (numPosArgs functionName ignoreUnknownKwargs) in
theorem parseKeywordsTuple_eq (hnames : (argnames.map h.text).Nodup) {kwds : List (Ref × V)}
    (hkeys : (kwds.map fun e => h.text e.1).Nodup) (p : Parsed V) :
    Meets h kwds argnames numPosArgs (p.kwds2.isSome || ignoreUnknownKwargs)
      (parseKeywordsTuple cfg h argnames numPosArgs functionName ignoreUnknownKwargs kwds p)
      ⟨boundValues h kwds argnames numPosArgs p.values,
        p.kwds2.map fun d => extend d (remaining h kwds argnames numPosArgs)⟩ := by
  induction kwds generalizing p with
  | nil =>
    refine ⟨fun ⟨e, hm, _⟩ => absurd hm List.not_mem_nil, fun _ => ?_⟩
    have hb : boundValues h [] argnames numPosArgs p.values = p.values :=
      setNames_of_none _ _ fun _ _ => rfl
    rw [hb, parseKeywordsTuple]
    rcases p with ⟨values, _ | d⟩ <;> rfl
  | cons e kwds ih =>
    rw [List.map_cons, List.nodup_cons] at hkeys
    -- A declared keyword is bound, whichever way it is found.
    have declared : ∀ i, IndexOf h argnames numPosArgs (h.text e.1) i →
        parseKeywordsTuple cfg h argnames numPosArgs functionName ignoreUnknownKwargs (e :: kwds) p =
          parseKeywordsTuple cfg h argnames numPosArgs functionName ignoreUnknownKwargs kwds
            { p with values := p.values.set i (some e.2) } →
        Meets h (e :: kwds) argnames numPosArgs (p.kwds2.isSome || ignoreUnknownKwargs)
          (parseKeywordsTuple cfg h argnames numPosArgs functionName ignoreUnknownKwargs
            (e :: kwds) p)
          ⟨boundValues h (e :: kwds) argnames numPosArgs p.values,
            p.kwds2.map fun d => extend d (remaining h (e :: kwds) argnames numPosArgs)⟩ := by
      intro i hi hstep
      have hd := hi.isDeclared
      have hnot : ¬RejectedKey h argnames numPosArgs (p.kwds2.isSome || ignoreUnknownKwargs)
          (h.text e.1) := by
        rintro (hp | ⟨hnd, -⟩)
        · exact not_isPositional hnames hd hp
        · exact hnd hd
      rw [Meets, rejected_cons, remaining_cons, hstep, if_pos hd,
        boundValues_cons_of_indexOf hnames hi hkeys.1, or_iff_right hnot]
      exact ih hkeys.2 { p with values := p.values.set i (some e.2) }
    rcases hq : findName (fun name => decide (name = e.1)) (argnames.drop numPosArgs) numPosArgs with
      _ | i
    · rcases matchKeywordArg_spec cfg h argnames numPosArgs e.1 functionName with ⟨i, hm, hi⟩ | ⟨hnd, hp, err, hm⟩ | ⟨hnd, hp, hm⟩
      · exact declared i hi (by rw [parseKeywordsTuple, hq]; simp only [hm])
      · refine ⟨fun _ => ⟨err, ?_⟩, fun hnot => absurd (rejected_cons.2 (.inl (.inl hp))) hnot⟩
        rw [parseKeywordsTuple, hq]
        simp only [hm]
      · rw [Meets, rejected_cons, remaining_cons, if_neg hnd, boundValues_cons_of_not_isDeclared hnd]
        rcases hk : p.kwds2 with _ | d
        · rcases ignoreUnknownKwargs with _ | _
          · refine ⟨fun _ => ⟨.unexpected functionName (h.text e.1), ?_⟩,
              fun hnot => absurd (.inl (.inr ⟨hnd, rfl⟩)) hnot⟩
            rw [parseKeywordsTuple, hq]
            simp only [hm, hk]
            rfl
          · have hnot : ¬RejectedKey h argnames numPosArgs true (h.text e.1) := by
              rintro (hp' | ⟨-, hf⟩)
              · exact hp hp'
              · exact absurd hf Bool.noConfusion
            have hstep : parseKeywordsTuple cfg h argnames numPosArgs functionName true (e :: kwds) p =
                parseKeywordsTuple cfg h argnames numPosArgs functionName true kwds p := by
              rw [parseKeywordsTuple, hq]
              simp only [hm, hk, if_true]
            have := ih hkeys.2 p
            rw [hk] at this
            rw [hstep]
            simpa [Meets, hnot] using this
        · have hnot : ¬RejectedKey h argnames numPosArgs true (h.text e.1) := by
            rintro (hp' | ⟨-, hf⟩)
            · exact hp hp'
            · exact absurd hf Bool.noConfusion
          have hstep : parseKeywordsTuple cfg h argnames numPosArgs functionName ignoreUnknownKwargs
              (e :: kwds) p = parseKeywordsTuple cfg h argnames numPosArgs functionName
                ignoreUnknownKwargs kwds { p with kwds2 := some (d.set (h.text e.1) e.2) } := by
            rw [parseKeywordsTuple, hq]
            simp only [hm, hk]
          have := ih hkeys.2
            { p with kwds2 := some (d.set (h.text e.1) e.2) }
          rw [hstep]
          simpa [Meets, hnot, extend] using this
    · obtain ⟨hle, name, hn, hname⟩ := findName_eq_some hq
      obtain rfl := of_decide_eq_true hname
      exact declared i ⟨hle, e.1, hn, rfl⟩ (by rw [parseKeywordsTuple, hq])

/-! ## The dictionary parsers -/

theorem dictGet_eq (kwds : List (Ref × V)) (name : Ref) :
    dictGet h kwds name = valueOf h kwds (h.text name) := rfl

theorem dictContains_iff {kwds : List (Ref × V)} {name : Ref} :
    dictContains h kwds name = true ↔ h.text name ∈ kwds.map fun e => h.text e.1 := by
  simp only [dictContains, List.any_eq_true, decide_eq_true_iff, List.mem_map]

/-- The check finds a name of a positional argument exactly if a keyword has it. -/
theorem validateDuplicatePosArgs_eq_none_iff {kwds : List (Ref × V)} {names : List Ref} :
    validateDuplicatePosArgs h kwds functionName names = none ↔
      ∀ e ∈ kwds, h.text e.1 ∉ names.map h.text := by
  induction names with
  | nil => simp [validateDuplicatePosArgs]
  | cons name names ih =>
    rw [validateDuplicatePosArgs]
    by_cases hc : dictContains h kwds name = true
    · rw [if_pos hc]
      obtain ⟨e, hm, ht⟩ := List.mem_map.1 (dictContains_iff.1 hc)
      refine iff_of_false (Option.some_ne_none _) fun hall => hall e hm ?_
      rw [List.map_cons, ht]
      exact List.mem_cons_self
    · rw [if_neg hc, ih]
      rw [dictContains_iff, List.mem_map] at hc
      refine forall₂_congr fun e hm => ?_
      rw [List.map_cons, List.mem_cons, not_or]
      exact ⟨fun hn => ⟨fun heq => hc ⟨e, hm, heq⟩, hn⟩, And.right⟩

variable (functionName) in
/-- With a keyword that is not declared, an exception is set. -/
theorem rejectUnknownKeyword_isSome {kwds : List (Ref × V)}
    (hu : ∃ e ∈ kwds, ¬IsDeclared h argnames numPosArgs (h.text e.1)) :
    ∃ err, rejectUnknownKeyword cfg h argnames numPosArgs functionName kwds = some err := by
  induction kwds with
  | nil =>
    obtain ⟨e, hm, -⟩ := hu
    exact absurd hm List.not_mem_nil
  | cons e kwds ih =>
    obtain ⟨e', hm, hnd⟩ := hu
    -- The keyword is this one, or comes later.
    have later : IsDeclared h argnames numPosArgs (h.text e.1) →
        ∃ e ∈ kwds, ¬IsDeclared h argnames numPosArgs (h.text e.1) := fun hd =>
      (List.mem_cons.1 hm).elim (fun heq => absurd hd (heq ▸ hnd)) fun hm => ⟨e', hm, hnd⟩
    rw [rejectUnknownKeyword]
    by_cases hptr : e.1 ∈ argnames.drop numPosArgs
    · rw [if_pos hptr]
      exact ih (later (List.mem_map_of_mem hptr))
    · rw [if_neg hptr]
      rcases matchKeywordArg_spec cfg h argnames numPosArgs e.1 functionName with ⟨i, hm, hi⟩ | ⟨-, -, err, hm⟩ | ⟨-, -, hm⟩
      · simp only [hm]
        exact ih (later hi.isDeclared)
      · exact ⟨err, by simp only [hm]⟩
      · exact ⟨.unexpected functionName (h.text e.1), by simp only [hm]⟩

/-- The number of names that are passed as keywords. -/
def passedCount (h : Heap) (kwds : List (Ref × V)) (names : List Ref) : Nat :=
  (names.filter fun name => (valueOf h kwds (h.text name)).isSome).length

/-- The loop counts the names it binds, and stops early only when no further
    name is passed. -/
theorem extractDeclared_eq {kwds : List (Ref × V)} {numKwargs : Nat} {names : List Ref} {i : Nat}
    {extracted : Nat} {values : List (Option V)}
    (hle : extracted + passedCount h kwds names ≤ numKwargs) :
    extractDeclared h kwds numKwargs names i extracted values =
      (extracted + passedCount h kwds names, setNames h (valueOf h kwds) names i values) := by
  induction names generalizing i extracted values with
  | nil => rfl
  | cons name names ih =>
    rw [extractDeclared, setNames, dictGet_eq]
    rcases hv : valueOf h kwds (h.text name) with _ | value
    · have hcount : passedCount h kwds (name :: names) = passedCount h kwds names := by
        simp [passedCount, hv]
      rw [hcount] at hle ⊢
      by_cases hlt : extracted < numKwargs
      · rw [if_pos hlt]
        exact ih hle
      · -- All keywords have been extracted: no name is passed any more.
        have hzero : passedCount h kwds names = 0 := by omega
        rw [if_neg hlt, hzero]
        refine Prod.ext rfl (setNames_of_none _ _ fun n hm => ?_).symm
        rw [passedCount, List.length_eq_zero_iff, List.filter_eq_nil_iff] at hzero
        simpa using hzero n hm
    · have hcount : passedCount h kwds (name :: names) = passedCount h kwds names + 1 := by
        simp [passedCount, hv]
      rw [hcount] at hle ⊢
      rw [if_pos (by omega)]
      simp only
      rw [ih (by omega)]
      congr 1
      omega

/-- The names that are passed as keywords are as many as the keywords that are
    declared. -/
theorem passedCount_eq {kwds : List (Ref × V)} {names : List Ref} (hnames : (names.map h.text).Nodup)
    (hkeys : (kwds.map fun e => h.text e.1).Nodup) :
    passedCount h kwds names = (kwds.filter fun e => h.text e.1 ∈ names.map h.text).length := by
  have hperm : ((names.map h.text).filter fun t => t ∈ kwds.map fun e => h.text e.1).Perm
      ((kwds.map fun e => h.text e.1).filter fun t => t ∈ names.map h.text) := by
    refine (List.perm_ext_iff_of_nodup (hnames.filter _) (hkeys.filter _)).2 fun t => ?_
    simp only [List.mem_filter, decide_eq_true_iff]
    exact and_comm
  have hlength := hperm.length_eq
  rw [List.filter_map, List.length_map, List.filter_map, List.length_map] at hlength
  rw [← Function.comp_def (fun t => decide (t ∈ names.map h.text)) fun e : Ref × V => h.text e.1,
    ← hlength, passedCount]
  refine congrArg List.length (List.filter_congr fun name _ => ?_)
  rw [Function.comp_apply, Bool.eq_iff_iff, decide_eq_true_iff, Option.isSome_iff_ne_none, ne_eq,
    valueOf_eq_none_iff, not_not]

theorem nodup_drop (hnames : (argnames.map h.text).Nodup) :
    ((argnames.drop numPosArgs).map h.text).Nodup := by
  rw [List.map_drop]
  exact hnames.sublist (List.drop_sublist _ _)

/-- Where unknown keywords are ignored, the positional arguments are left to check. -/
theorem Meets.of_validated {kwds : List (Ref × V)} {r : ParseResult V} {p : Parsed V}
    (functionName : String)
    (hok : validateDuplicatePosArgs h kwds functionName (argnames.take numPosArgs) = none →
      r = .ok p)
    (herror : ∀ err, validateDuplicatePosArgs h kwds functionName (argnames.take numPosArgs) =
      some err → r = .error (some err)) : Meets h kwds argnames numPosArgs true r p := by
  rcases hval : validateDuplicatePosArgs h kwds functionName (argnames.take numPosArgs) with _ | err
  · have hnone := validateDuplicatePosArgs_eq_none_iff.1 hval
    refine ⟨?_, fun _ => hok hval⟩
    rintro ⟨e, hm, hp | ⟨-, hf⟩⟩
    · exact absurd hp (hnone e hm)
    · exact absurd hf Bool.noConfusion
  · refine ⟨fun _ => ⟨err, herror err hval⟩, fun hnot => ?_⟩
    have hnone : validateDuplicatePosArgs h kwds functionName (argnames.take numPosArgs) = none :=
      validateDuplicatePosArgs_eq_none_iff.2 fun e hm hp => hnot ⟨e, hm, .inl hp⟩
    rw [hval] at hnone
    exact absurd hnone (Option.some_ne_none _)

theorem parseKeywordDict_eq (hnames : (argnames.map h.text).Nodup) {kwds : List (Ref × V)}
    (hkeys : (kwds.map fun e => h.text e.1).Nodup) (values : List (Option V)) :
    Meets h kwds argnames numPosArgs ignoreUnknownKwargs
      (parseKeywordDict cfg h kwds argnames values numPosArgs kwds.length functionName
        ignoreUnknownKwargs)
      ⟨boundValues h kwds argnames numPosArgs values, none⟩ := by
  have hcount : passedCount h kwds (argnames.drop numPosArgs) =
      (kwds.filter fun e => IsDeclared h argnames numPosArgs (h.text e.1)).length :=
    passedCount_eq (nodup_drop hnames) hkeys
  have hle := List.length_filter_le
    (fun e : Ref × V => decide (IsDeclared h argnames numPosArgs (h.text e.1))) kwds
  rw [parseKeywordDict, extractDeclared_eq (by omega), Nat.zero_add, hcount]
  by_cases hall : ∀ e ∈ kwds, IsDeclared h argnames numPosArgs (h.text e.1)
  · -- Every keyword has been extracted.
    have hfilter : (kwds.filter fun e => IsDeclared h argnames numPosArgs (h.text e.1)) = kwds :=
      List.filter_eq_self.2 fun e hm => decide_eq_true (hall e hm)
    rw [hfilter, if_neg (Nat.lt_irrefl _)]
    refine ⟨?_, fun _ => rfl⟩
    rintro ⟨e, hm, hp | ⟨hnd, -⟩⟩
    · exact absurd hp (not_isPositional hnames (hall e hm))
    · exact absurd (hall e hm) hnd
  · have hlt : (kwds.filter fun e => IsDeclared h argnames numPosArgs (h.text e.1)).length <
        kwds.length := by
      refine List.length_filter_lt_length_iff_exists.2 ?_
      simpa using hall
    have hu : ∃ e ∈ kwds, ¬IsDeclared h argnames numPosArgs (h.text e.1) := by simpa using hall
    rw [if_pos hlt]
    rcases ignoreUnknownKwargs with _ | _
    · obtain ⟨err, herr⟩ := rejectUnknownKeyword_isSome cfg functionName hu
      refine ⟨fun _ => ⟨err, by rw [herr]; rfl⟩, fun hnot => ?_⟩
      obtain ⟨e, hm, hnd⟩ := hu
      exact absurd ⟨e, hm, .inr ⟨hnd, rfl⟩⟩ hnot
    · exact .of_validated functionName (fun hval => by rw [hval]; rfl)
        fun err hval => by rw [hval]; rfl

/-- The copy has the keywords in source order. -/
theorem dictUpdate_empty {kwds : List (Ref × V)} (hkeys : (kwds.map fun e => h.text e.1).Nodup) :
    (dictUpdate h .empty kwds).entries = kwds.map fun e => (h.text e.1, e.2) := by
  have hfold : dictUpdate h .empty kwds =
      extend .empty (kwds.map fun e => (h.text e.1, e.2)) := by
    rw [dictUpdate, extend, List.foldl_map]
  rw [hfold, entries_extend]
  · rfl
  · rwa [List.map_map]
  · exact fun e _ => OrderedDict.not_mem_empty e.1

variable [DecidableEq V] {self : V}

/-- The three ways to take an item out do the same, as no value is `kwds2` itself. -/
theorem popItem_eq (variant : PopVariant) {d : OrderedDict Text V} {t : Text}
    (hself : d.get? t ≠ some self) :
    (popItem variant self d t).1 = d.get? t ∧
      (popItem variant self d t).2.entries = (d.erase t).entries := by
  have herase : d.get? t = none → d.entries = (d.erase t).entries := by
    intro hnone
    rw [OrderedDict.erase, eq_comm, List.filter_eq_self]
    intro e hm
    rw [decide_eq_true_iff]
    rintro rfl
    rw [OrderedDict.get?_eq_none_iff, OrderedDict.mem_def] at hnone
    exact hnone (List.mem_map_of_mem hm)
  rcases variant with _ | _ | _
  · exact ⟨rfl, rfl⟩
  · rcases hg : d.get? t with _ | value
    · simp [popItem, hg, herase hg]
    · simp [popItem, hg]
  · rcases hg : d.get? t with _ | value
    · simp [popItem, hg]
    · have hne : value ≠ self := fun heq => hself (by rw [hg, heq])
      simp [popItem, hg, hne]

/-- The loop binds the names, and leaves the items of other names. -/
theorem popDeclared_eq (variant : PopVariant) {names : List Ref} (hnames : (names.map h.text).Nodup)
    {d : OrderedDict Text V} (hself : ∀ t, d.get? t ≠ some self) (i : Nat)
    (values : List (Option V)) :
    (popDeclared variant self h names i values d).1 = setNames h d.get? names i values ∧
      (popDeclared variant self h names i values d).2.entries =
        d.entries.filter fun e => e.1 ∉ names.map h.text := by
  induction names generalizing d i values with
  | nil => simp [popDeclared, setNames]
  | cons name names ih =>
    rw [List.map_cons, List.nodup_cons] at hnames
    obtain ⟨hget, hentries⟩ := popItem_eq variant (hself (h.text name))
    rcases hp : popItem variant self d (h.text name) with ⟨value, d'⟩
    rw [hp] at hget hentries
    simp only at hget hentries
    have hd' : ∀ t, d'.get? t = if t = h.text name then none else d.get? t := by
      intro t
      rw [← OrderedDict.get?_erase, OrderedDict.get?, OrderedDict.get?, hentries]
    have hself' : ∀ t, d'.get? t ≠ some self := by
      intro t
      rw [hd']
      by_cases ht : t = h.text name
      · rw [if_pos ht]
        exact (Option.some_ne_none _).symm
      · rw [if_neg ht]
        exact hself t
    have hlook : ∀ (i : Nat) (values : List (Option V)),
        setNames h d'.get? names i values = setNames h d.get? names i values := by
      refine fun i values => setNames_congr i values fun n hm => ?_
      rw [hd', if_neg]
      exact fun heq => hnames.1 (heq ▸ List.mem_map_of_mem hm)
    have hfilter : (d'.entries.filter fun e => e.1 ∉ names.map h.text) =
        d.entries.filter fun e => e.1 ∉ (name :: names).map h.text := by
      rw [hentries, OrderedDict.erase, List.filter_filter]
      refine List.filter_congr fun e _ => ?_
      simp [Bool.and_comm]
    rw [popDeclared, setNames, hp, ← hget]
    rcases value with _ | value
    · obtain ⟨h₁, h₂⟩ := ih hnames.2 hself' (i + 1) values
      exact ⟨h₁.trans (hlook _ _), h₂.trans hfilter⟩
    · obtain ⟨h₁, h₂⟩ := ih hnames.2 hself' (i + 1) (values.set i (some value))
      exact ⟨h₁.trans (hlook _ _), h₂.trans hfilter⟩

variable (numPosArgs functionName) in
theorem parseKeywordDictToDict_eq (hnames : (argnames.map h.text).Nodup) {kwds : List (Ref × V)}
    (hkeys : (kwds.map fun e => h.text e.1).Nodup) (hself : ∀ e ∈ kwds, e.2 ≠ self)
    (values : List (Option V)) :
    ∃ d : OrderedDict Text V, d.entries = remaining h kwds argnames numPosArgs ∧
      Meets h kwds argnames numPosArgs true
        (parseKeywordDictToDict cfg self h kwds argnames .empty values numPosArgs functionName)
        ⟨boundValues h kwds argnames numPosArgs values, some d⟩ := by
  have hentries := dictUpdate_empty hkeys
  have hget : ∀ t, (dictUpdate h .empty kwds).get? t = valueOf h kwds t := by
    intro t
    rw [OrderedDict.get?, hentries, List.find?_map, Option.map_map]
    rfl
  have hnone : ∀ t, (dictUpdate h .empty kwds).get? t ≠ some self := by
    intro t hv
    rw [hget, valueOf] at hv
    obtain ⟨e, hf, rfl⟩ := Option.map_eq_some_iff.1 hv
    exact hself e (List.mem_of_find?_eq_some hf) rfl
  obtain ⟨hvalues, hleft⟩ := popDeclared_eq cfg.dictPop (nodup_drop hnames) hnone numPosArgs values
  rw [hentries, List.filter_map] at hleft
  have hremaining : (popDeclared cfg.dictPop self h (argnames.drop numPosArgs) numPosArgs values
      (dictUpdate h .empty kwds)).2.entries = remaining h kwds argnames numPosArgs := hleft
  have hbound : (popDeclared cfg.dictPop self h (argnames.drop numPosArgs) numPosArgs values
      (dictUpdate h .empty kwds)).1 = boundValues h kwds argnames numPosArgs values :=
    hvalues.trans (setNames_congr _ _ fun name _ => hget _)
  refine ⟨_, hremaining, ?_⟩
  rw [parseKeywordDictToDict, hremaining, hbound]
  -- A keyword of a positional argument is not declared, so it remains.
  have hpositional : ∀ e ∈ kwds, IsPositional h argnames numPosArgs (h.text e.1) →
      0 < (remaining h kwds argnames numPosArgs).length := by
    intro e hm hp
    refine List.length_pos_of_mem (a := (h.text e.1, e.2)) (List.mem_map_of_mem ?_)
    exact List.mem_filter.2 ⟨hm, decide_eq_true fun hd => not_isPositional hnames hd hp⟩
  by_cases hpos : 0 < (remaining h kwds argnames numPosArgs).length
  · rw [if_pos hpos]
    exact .of_validated functionName (fun hval => by rw [hval])
      fun err hval => by rw [hval]
  · rw [if_neg hpos]
    refine ⟨?_, fun _ => rfl⟩
    rintro ⟨e, hm, hp | ⟨-, hf⟩⟩
    · exact absurd (hpositional e hm hp) hpos
    · exact absurd hf Bool.noConfusion

/-! ## The agreement -/

/-- What an accepted call has stored: the values of the declared names that are
    no positional arguments, the remaining keywords in a new `kwds2`, and
    nothing else. -/
structure Stored (h : Heap) (kwds : List (Ref × V)) (argnames : List Ref) (numPosArgs : Nat)
    (values : List (Option V)) (kwds2 : Option (OrderedDict Text V)) (p : Parsed V) : Prop where
  bound : ∀ i name v, numPosArgs ≤ i → argnames[i]? = some name →
    valueOf h kwds (h.text name) = some v → p.values[i]? = some (some v)
  unchanged : ∀ i, (numPosArgs ≤ i → ∀ name ∈ argnames[i]?, valueOf h kwds (h.text name) = none) →
    p.values[i]? = values[i]?
  kwds2 : p.kwds2.map OrderedDict.entries =
    kwds2.map fun _ => remaining h kwds argnames numPosArgs

omit [DecidableEq V] in
theorem stored_boundValues {kwds : List (Ref × V)} {values : List (Option V)}
    (hvalues : argnames.length ≤ values.length) {kwds2 kwds2' : Option (OrderedDict Text V)}
    (hk : kwds2'.map OrderedDict.entries = kwds2.map fun _ => remaining h kwds argnames numPosArgs) :
    Stored h kwds argnames numPosArgs values kwds2
      ⟨boundValues h kwds argnames numPosArgs values, kwds2'⟩ where
  bound := by
    intro i name v hi hn hv
    obtain ⟨hlt, -⟩ := List.getElem?_eq_some_iff.1 hn
    show (boundValues h kwds argnames numPosArgs values)[i]? = _
    rw [boundValues, getElem?_setNames, if_pos hi, List.getElem?_drop, Nat.add_sub_cancel' hi, hn,
      Option.bind_some, hv, List.getElem?_eq_getElem (hlt.trans_le hvalues)]
    rfl
  unchanged := by
    intro i hnone
    show (boundValues h kwds argnames numPosArgs values)[i]? = _
    rw [boundValues, getElem?_setNames]
    have hid : ∀ o : Option (Option V), (o.map fun old => Option.or none old) = o := by
      rintro (_ | o) <;> rfl
    by_cases hi : numPosArgs ≤ i
    · rw [if_pos hi, List.getElem?_drop, Nat.add_sub_cancel' hi]
      rcases hn : argnames[i]? with _ | name
      · exact hid _
      · rw [Option.bind_some, hnone hi name hn]
        exact hid _
    · rw [if_neg hi]
      exact hid _
  kwds2 := hk

omit [DecidableEq V] in
theorem Meets.stored {kwds : List (Ref × V)} {allowed : Bool} {r : ParseResult V} {p : Parsed V}
    (hm : Meets h kwds argnames numPosArgs allowed r p) {values : List (Option V)}
    {kwds2 : Option (OrderedDict Text V)} (hp : Stored h kwds argnames numPosArgs values kwds2 p) :
    (Rejected h kwds argnames numPosArgs allowed ∧ ∃ e, r = .error (some e)) ∨
      (¬Rejected h kwds argnames numPosArgs allowed ∧
        ∃ p, r = .ok p ∧ Stored h kwds argnames numPosArgs values kwds2 p) := by
  by_cases hr : Rejected h kwds argnames numPosArgs allowed
  · exact .inl ⟨hr, hm.1 hr⟩
  · exact .inr ⟨hr, p, hm.2 hr, hp⟩

/-- `__Pyx_ParseKeywords`, whichever function it calls: a call fails, with an
    exception, exactly if a keyword names a positional argument, or is not declared
    and there is neither `kwds2` nor `ignore_unknown_kwargs`; any other call stores
    exactly what it should. `kwds2` is new, so it is empty and no value is
    `kwds2` itself. -/
theorem parseKeywords_spec (cfg : Config) (self : V) (h : Heap) (isTuple : Bool)
    (kwds : List (Ref × V)) (argnames : List Ref) (kwds2 : Option (OrderedDict Text V))
    (values : List (Option V)) (numPosArgs : Nat) (functionName : String)
    (ignoreUnknownKwargs : Bool) (hnames : (argnames.map h.text).Nodup)
    (hkeys : (kwds.map fun e => h.text e.1).Nodup) (hvalues : argnames.length ≤ values.length)
    (hnew : ∀ d ∈ kwds2, d = .empty) (hself : ∀ e ∈ kwds, e.2 ≠ self) :
    (Rejected h kwds argnames numPosArgs (kwds2.isSome || ignoreUnknownKwargs) ∧
      ∃ e, parseKeywords cfg self h isTuple kwds argnames kwds2 values numPosArgs kwds.length
        functionName ignoreUnknownKwargs = .error (some e)) ∨
    (¬Rejected h kwds argnames numPosArgs (kwds2.isSome || ignoreUnknownKwargs) ∧
      ∃ p, parseKeywords cfg self h isTuple kwds argnames kwds2 values numPosArgs kwds.length
        functionName ignoreUnknownKwargs = .ok p ∧
          Stored h kwds argnames numPosArgs values kwds2 p) := by
  rcases isTuple with _ | _
  · rcases kwds2 with _ | d
    · exact (parseKeywordDict_eq cfg hnames hkeys values).stored (stored_boundValues hvalues rfl)
    · obtain rfl := hnew d rfl
      obtain ⟨d, hd, hm⟩ := parseKeywordDictToDict_eq cfg numPosArgs functionName hnames
        hkeys hself values
      exact hm.stored (stored_boundValues hvalues (congrArg some hd))
  · have hm := parseKeywordsTuple_eq cfg numPosArgs functionName ignoreUnknownKwargs hnames
      hkeys ⟨values, kwds2⟩
    have htuple : parseKeywords cfg self h true kwds argnames kwds2 values numPosArgs kwds.length
        functionName ignoreUnknownKwargs = parseKeywordsTuple cfg h argnames numPosArgs functionName
          ignoreUnknownKwargs kwds ⟨values, kwds2⟩ := by
      rw [parseKeywords.eq_def, if_pos rfl, List.take_length]
    rw [htuple]
    refine hm.stored (stored_boundValues hvalues ?_)
    rcases kwds2 with _ | d
    · rfl
    · obtain rfl := hnew d rfl
      refine congrArg some ?_
      rw [entries_extend]
      · rfl
      · rw [remaining, List.map_map]
        exact hkeys.sublist (List.filter_sublist.map _)
      · exact fun e _ => OrderedDict.not_mem_empty e.1

/-- A call with one positional argument, a declared keyword and a remaining one. -/
theorem parseKeywords_spec_remaining :
    let h : Heap := ⟨fun r => [r], fun t => t.sum⟩
    let cfg : Config := ⟨true, true, .pop⟩
    (Rejected h [(3, 30), (2, 20)] [1, 2] 1 true ∧
      ∃ e, parseKeywords cfg 0 h true [(3, 30), (2, 20)] [1, 2] (some .empty) [some 10, none] 1 2
        "f" true = .error (some e)) ∨
    (¬Rejected h [(3, 30), (2, 20)] [1, 2] 1 true ∧
      ∃ p, parseKeywords cfg 0 h true [(3, 30), (2, 20)] [1, 2] (some .empty) [some 10, none] 1 2
        "f" true = .ok p ∧ Stored h [(3, 30), (2, 20)] [1, 2] 1 [some 10, none] (some .empty) p) :=
  parseKeywords_spec ⟨true, true, .pop⟩ 0 ⟨fun r => [r], fun t => t.sum⟩ true [(3, 30), (2, 20)]
    [1, 2] (some .empty) [some 10, none] 1 "f" true (by decide) (by decide) (by decide)
    (by rintro d ⟨⟩; rfl) (by decide)

end AHPy.FunctionArguments
