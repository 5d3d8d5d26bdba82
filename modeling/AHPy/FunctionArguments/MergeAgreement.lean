import AHPy.FunctionArguments.MergeKeywords

/-!
# Agreement of merged keyword arguments

* `pyMergeItems_of_none`, `pyMergeItems_of_some`: the merge of a `dict` depends on the first of
  its keys that is present or raises, as its keys differ from each other;
* `agrees_dict_iff`: it is the same to look up the keys of the other dictionary, but an
  exception of a key is replaced;
* `mergeKeywords_agrees_iff`: when a merge is that of Python, for one source and for the sources
  of a call.
-/

namespace AHPy.FunctionArguments

namespace ObjectKeys

open KeyClass

variable {κ ν ε : Type} [DecidableEq κ] {K : ObjectKeys κ ε}

/-! ## What is compared -/

/-- A result is that of Python: the same exception, or the same entries; and the entries that were
    there at first stay. -/
def Same (result : MergeResult κ ν ε)
    (expected : List (DictEntry κ ν) × Option (MergeFailure κ ε))
    (kwdict : List (DictEntry κ ν)) : Prop :=
  ∃ kwdict' error, result = some (kwdict', error) ∧ error = expected.2.map MergeFailure.error ∧
    (error = none → kwdict' = expected.1) ∧ kwdict <+: kwdict'

/-- The call does what the merge of Python does; a `dict` with a key that is present leaves the
    keyword arguments as they are. -/
def Agrees (hasSetDefaultRef : Bool) (kwdict : List (DictEntry κ ν)) (source : Source K ν) : Prop :=
  Same (K.mergeKeywords hasSetDefaultRef kwdict source) (K.pyMerge kwdict source) kwdict ∧
    ∀ d k, source = .dict d → (K.pyMerge kwdict source).2 = some (.present k) →
      ∃ error, K.mergeKeywords hasSetDefaultRef kwdict source = some (kwdict, error)

end ObjectKeys

/-- A failure is reported as Python does: conditions on a key that is present, and for an
    exception of a key. -/
def MergeFailure.Reported {κ ε : Type} (present : κ → Prop) (raised : Prop) :
    MergeFailure κ ε → Prop
  | .present k => present k
  | .keyRaised _ => raised
  | .sourceRaised _ => True

namespace ObjectKeys

open KeyClass

variable {κ ν ε : Type} [DecidableEq κ] {K : ObjectKeys κ ε}

/-- What ends the merge with a `dict` of Python is a key that is present, and a `str` if the
    source has fewer keys. -/
def MetDict (kwdict : List (DictEntry κ ν)) (d : DictObject K ν) : Prop :=
  ∀ f, (K.pyMergeItems none kwdict d.items).2 = some f →
    f.Reported (fun k => kwdict.length ≤ d.entries.length ∨ K.isStr k) False

/-- What ends the merge with items is a key that is present and a `str`, the iteration or, with
    `PyDict_SetDefaultRef`, an exception of a key. -/
def MetItems (hasSetDefaultRef : Bool) (kwdict : List (DictEntry κ ν)) (pairs : List (κ × ν))
    (raised : Option ε) : Prop :=
  ∀ f, (K.pyMergeItems raised kwdict pairs).2 = some f →
    f.Reported (fun k => K.isStr k) (hasSetDefaultRef = true)

def Met (hasSetDefaultRef : Bool) (kwdict : List (DictEntry κ ν)) : Source K ν → Prop
  | .dict d | .noItems (.ok d) => MetDict kwdict d
  | .items pairs raised => MetItems (K := K) hasSetDefaultRef kwdict pairs raised
  | .noIterator _ | .noItems (.error _) => True

/-- All sources of a call are so, and are merged into keyword arguments with `str` keys. -/
def MetSources (hasSetDefaultRef : Bool) :
    List (DictEntry κ ν) → List (Source K ν) → Prop
  | _, [] => True
  | kwdict, source :: sources =>
    (∀ e ∈ kwdict, K.exactStr e.key = true) ∧ Met hasSetDefaultRef kwdict source ∧
      ∀ kwdict', K.pyMerge kwdict source = (kwdict', none) →
        MetSources hasSetDefaultRef kwdict' sources

variable {kwdict base prev xs : List (DictEntry κ ν)} {d : DictObject K ν} {x : DictEntry κ ν}
  {key : κ} {value : ν} {hasSetDefaultRef : Bool}

omit [DecidableEq κ] in
theorem symmetric_of_exactStr (xs : List (DictEntry κ ν))
    (h : ∀ e ∈ kwdict, K.exactStr e.key = true) :
    K.Symmetric kwdict xs := fun e he x _ => K.eq_comm_of_exactStr e.key x.key (h e he)

/-! ## Adding one item -/

theorem setDefaultRef_of_hash {h : ℤ} (hk : K.hash key = .ok h) :
    K.setDefaultRef kwdict key value = (K.find kwdict h key).map fun found =>
      if found then none else some (kwdict ++ [⟨key, h, value⟩]) := by
  rw [setDefaultRef, hk]
  change (K.find kwdict h key >>= _) = _
  rcases K.find kwdict h key with _ | _ | _ <;> rfl

theorem contains_eq_map (value : ν) :
    K.contains kwdict key = (K.setDefaultRef kwdict key value).map Option.isNone := by
  rcases hk : K.hash key with _ | h
  · rw [contains, setDefaultRef, hk]
    rfl
  · rw [contains_of_hash hk, setDefaultRef_of_hash hk]
    rcases K.find kwdict h key with _ | _ | _ <;> rfl

theorem setDefaultRef_ok {kwdict' : List (DictEntry κ ν)}
    (h : K.setDefaultRef kwdict key value = .ok (some kwdict')) :
    ∃ hash, K.hash key = .ok hash ∧ K.find kwdict hash key = .ok false ∧
      kwdict' = kwdict ++ [⟨key, hash, value⟩] := by
  rcases hk : K.hash key with _ | hash
  · rw [setDefaultRef, hk] at h
    cases h
  · rw [setDefaultRef_of_hash hk] at h
    rcases hfind : K.find kwdict hash key with _ | _ | _
    · rw [hfind] at h
      cases h
    · rw [hfind] at h
      exact ⟨hash, rfl, hfind, (Option.some.inj (Except.ok.inj h)).symm⟩
    · rw [hfind] at h
      cases h

theorem setItem_of_setDefaultRef {kwdict' : List (DictEntry κ ν)}
    (h : K.setDefaultRef kwdict key value = .ok (some kwdict')) :
    K.setItem kwdict key value = .ok kwdict' := by
  obtain ⟨hash, hk, hfind, rfl⟩ := setDefaultRef_ok h
  rw [setItem, hk]
  exact insert_of_absent hfind

/-- An item whose key is absent is added either way. -/
theorem mergeItem_of_ok {kwdict' : List (DictEntry κ ν)}
    (h : K.setDefaultRef kwdict key value = .ok (some kwdict')) :
    K.mergeItem hasSetDefaultRef kwdict key value = .inl kwdict' := by
  unfold mergeItem
  cases hasSetDefaultRef with
  | true => rw [h]; rfl
  | false =>
    rw [contains_eq_map value, h, setItem_of_setDefaultRef h]
    rfl

theorem mergeItem_of_present (h : K.setDefaultRef kwdict key value = .ok none) :
    K.mergeItem hasSetDefaultRef kwdict key value = .inr (K.raiseDoubleKeywords kwdict key) := by
  unfold mergeItem
  cases hasSetDefaultRef with
  | true => rw [h]; rfl
  | false => rw [contains_eq_map value, h]; rfl

theorem mergeItem_of_error {e : ε} (h : K.setDefaultRef kwdict key value = .error e) :
    K.mergeItem hasSetDefaultRef kwdict key value =
      .inr (if hasSetDefaultRef then some (kwdict, some (.original e))
        else K.raiseDoubleKeywords kwdict key) := by
  unfold mergeItem
  cases hasSetDefaultRef with
  | true => rw [h]; rfl
  | false => rw [contains_eq_map value, h]; rfl

theorem prefix_of_setDefaultRef {kwdict' : List (DictEntry κ ν)}
    (h : K.setDefaultRef kwdict key value = .ok (some kwdict')) : kwdict <+: kwdict' := by
  obtain ⟨hash, -, -, rfl⟩ := setDefaultRef_ok h
  exact List.prefix_append _ _

/-! ## Items -/

omit [DecidableEq κ] in
theorem same_raiseDoubleKeywords_iff {f : MergeFailure κ ε} (hbase : base <+: kwdict) :
    Same (K.raiseDoubleKeywords kwdict key) (xs, some f) base ↔
      K.isStr key ∧ f.error = .doubleKeywords := by
  rw [raiseDoubleKeywords]
  split
  next hstr =>
    refine ⟨fun ⟨_, _, hresult, herror, _⟩ => ⟨hstr, ?_⟩, fun h => ?_⟩
    · obtain ⟨rfl, rfl⟩ := Prod.ext_iff.1 (Option.some.inj hresult)
      exact (Option.some.inj herror).symm
    · exact ⟨kwdict, _, rfl, congrArg some h.2.symm, fun h => (by cases h), hbase⟩
  next hstr =>
    refine iff_of_false (fun h => ?_) fun h => hstr h.1
    obtain ⟨_, _, hresult, -⟩ := h
    cases hresult

/-- The loop over items is that of Python up to the report of its end. -/
theorem same_mergeItems_iff {pairs : List (κ × ν)} {raised : Option ε} (hbase : base <+: kwdict) :
    Same (K.mergeItems hasSetDefaultRef raised kwdict pairs) (K.pyMergeItems raised kwdict pairs)
      base ↔ MetItems (K := K) hasSetDefaultRef kwdict pairs raised := by
  induction pairs generalizing kwdict with
  | nil =>
    rw [mergeItems, pyMergeItems, MetItems, pyMergeItems]
    refine iff_of_true ⟨kwdict, _, rfl, ?_, fun _ => rfl, hbase⟩ fun f hf => ?_
    · cases raised <;> rfl
    · obtain ⟨e, -, rfl⟩ := Option.map_eq_some_iff.1 hf
      exact trivial
  | cons pair pairs ih =>
    obtain ⟨key, value⟩ := pair
    rw [mergeItems, pyMergeItems, MetItems, pyMergeItems]
    rcases hset : K.setDefaultRef kwdict key value with e | _ | kwdict'
    · rw [mergeItem_of_error hset]
      dsimp only
      cases hasSetDefaultRef with
      | true =>
        refine iff_of_true ⟨kwdict, _, rfl, rfl, fun h => (by cases h), hbase⟩ fun f hf => ?_
        rw [← Option.some.inj hf]
        exact rfl
      | false =>
        refine iff_of_false (fun h => ?_) fun h => ?_
        · cases ((same_raiseDoubleKeywords_iff hbase).1 h).2
        · cases h _ rfl
    · rw [mergeItem_of_present hset]
      dsimp only
      rw [same_raiseDoubleKeywords_iff hbase]
      refine ⟨fun h f hf => ?_, fun h => ⟨h _ rfl, rfl⟩⟩
      rw [← Option.some.inj hf]
      exact h.1
    · rw [mergeItem_of_ok hset]
      exact ih (hbase.trans (prefix_of_setDefaultRef hset))

/-! ## Dictionaries -/

theorem pyMergeItems_append_of_none (prev : List (DictEntry κ ν)) (hxs : K.Hashed xs)
    (hdistinct : K.Distinct xs)
    (hprev : ∀ y ∈ xs, ∀ e ∈ prev, K.test e y.hash y.key = .ok false)
    (hnone : K.firstPresent kwdict xs = none) :
    K.pyMergeItems none (kwdict ++ prev) (xs.map fun e => (e.key, e.value)) =
      (kwdict ++ prev ++ xs, none) := by
  induction xs generalizing prev with
  | nil => rw [List.map_nil, pyMergeItems, List.append_nil]; rfl
  | cons x xs ih =>
    have hx := hxs x List.mem_cons_self
    have hhead := (firstPresent_eq_none_iff hxs).1 hnone x List.mem_cons_self
    have hrest : K.firstPresent kwdict xs = none :=
      List.find?_eq_none.2 fun y hy => List.find?_eq_none.1 hnone y (List.mem_cons_of_mem _ hy)
    rw [List.map_cons, pyMergeItems, setDefaultRef_of_hash hx,
      find_append (hprev x List.mem_cons_self), find_eq_false_iff.2 hhead]
    change K.pyMergeItems none (kwdict ++ prev ++ [x]) _ = _
    rw [List.append_assoc, ih _ (fun y hy => hxs y (List.mem_cons_of_mem _ hy)) hdistinct.tail.2
      (forall_test_append_singleton hdistinct hprev) hrest]
    simp only [List.append_assoc, List.singleton_append]

theorem pyMergeItems_append_of_some (prev : List (DictEntry κ ν)) (hxs : K.Hashed xs)
    (hdistinct : K.Distinct xs)
    (hprev : ∀ y ∈ xs, ∀ e ∈ prev, K.test e y.hash y.key = .ok false)
    (hsome : K.firstPresent kwdict xs = some x) :
    ∃ kwdict' f, K.pyMergeItems none (kwdict ++ prev) (xs.map fun e => (e.key, e.value)) =
        (kwdict', some f) ∧
      (f = .present x.key ∨ ∃ e, f = .keyRaised e) := by
  induction xs generalizing prev with
  | nil => cases hsome
  | cons y xs ih =>
    have hy := hxs y List.mem_cons_self
    rw [firstPresent, List.find?_cons, contains_of_hash hy] at hsome
    rw [List.map_cons, pyMergeItems, setDefaultRef_of_hash hy,
      find_append (hprev y List.mem_cons_self)]
    rcases hfind : K.find kwdict y.hash y.key with e | _ | _
    · exact ⟨_, _, rfl, .inr ⟨e, rfl⟩⟩
    · rw [hfind] at hsome
      have hrest := ih _ (fun z hz => hxs z (List.mem_cons_of_mem _ hz)) hdistinct.tail.2
        (forall_test_append_singleton hdistinct hprev) hsome
      rw [← List.append_assoc] at hrest
      exact hrest
    · rw [hfind] at hsome
      obtain rfl : y = x := Option.some.inj hsome
      exact ⟨_, _, rfl, .inl rfl⟩

theorem pyMergeItems_of_none (hnone : K.firstPresent kwdict d.entries = none) :
    K.pyMergeItems none kwdict d.items = (kwdict ++ d.entries, none) := by
  have h := pyMergeItems_append_of_none [] d.hashed d.distinct
    (fun _ _ e he => absurd he List.not_mem_nil) hnone
  rwa [List.append_nil] at h

/-- The merge ends at the first key that is present or raises. -/
theorem pyMergeItems_of_some (hsome : K.firstPresent kwdict d.entries = some x) :
    ∃ kwdict' f, K.pyMergeItems none kwdict d.items = (kwdict', some f) ∧
      (f = .present x.key ∨ ∃ e, f = .keyRaised e) := by
  have h := pyMergeItems_append_of_some [] d.hashed d.distinct
    (fun _ _ e he => absurd he List.not_mem_nil) hsome
  rwa [List.append_nil] at h

theorem dictUpdate_of_none (hnone : K.firstPresent kwdict d.entries = none) :
    K.dictUpdate kwdict d.entries = some (kwdict ++ d.entries, none) := by
  rw [dictUpdate, update_eq_append d.hashed d.distinct hnone]
  rfl

theorem firstPresent_nil (xs : List (DictEntry κ ν)) (hxs : K.Hashed xs) :
    K.firstPresent [] xs = none :=
  (firstPresent_eq_none_iff hxs).2 fun _ _ _ he => absurd he List.not_mem_nil

/-- The keys of the smaller dictionary are looked up, and the first that is found or raises is
    reported. -/
theorem mergeKeywordsDict_eq (hkw : K.Hashed kwdict) (hsymm : K.Symmetric kwdict d.entries) :
    K.mergeKeywordsDict kwdict d.entries =
      if K.firstPresent kwdict d.entries = none then some (kwdict ++ d.entries, none)
      else
        ((if kwdict.length ≤ d.entries.length then K.firstPresent d.entries kwdict
          else K.firstPresent kwdict d.entries).bind fun e =>
            K.raiseDoubleKeywords kwdict e.key) := by
  have hcomm := firstPresent_eq_none_iff_comm hkw d.hashed hsymm
  unfold mergeKeywordsDict
  split
  next hempty =>
    have hnil : d.entries = [] := List.length_eq_zero_iff.1 hempty
    rw [hnil, if_pos (by rfl), List.append_nil]
  next =>
    split
    next =>
      have hnone_iff : (if kwdict.length ≤ d.entries.length then K.firstPresent d.entries kwdict
          else K.firstPresent kwdict d.entries) = none ↔
            K.firstPresent kwdict d.entries = none := by
        split
        next => exact hcomm.symm
        next => exact Iff.rfl
      dsimp only
      generalize (if kwdict.length ≤ d.entries.length then K.firstPresent d.entries kwdict
          else K.firstPresent kwdict d.entries) = found at hnone_iff ⊢
      cases found with
      | none =>
        rw [if_pos (hnone_iff.1 rfl)]
        exact dictUpdate_of_none (hnone_iff.1 rfl)
      | some e =>
        rw [if_neg fun hnone => by cases hnone_iff.2 hnone]
        rfl
    next hlen =>
      have hnil : kwdict = [] := List.length_eq_zero_iff.1 (by omega)
      subst hnil
      have hnone := firstPresent_nil d.entries d.hashed
      rw [if_pos hnone]
      exact dictUpdate_of_none hnone

/-- The merge of a `dict` is that of Python, and leaves the keyword arguments as they are for a
    key that is present, unless a key raises or one that is no `str` is reported. -/
theorem same_mergeKeywordsDict_iff (hkw : K.Hashed kwdict)
    (hstr : ∀ e ∈ kwdict, K.exactStr e.key = true) :
    Same (K.mergeKeywordsDict kwdict d.entries) (K.pyMergeItems none kwdict d.items) kwdict ↔
      MetDict kwdict d := by
  rw [mergeKeywordsDict_eq hkw (symmetric_of_exactStr d.entries hstr), MetDict]
  have hcomm := firstPresent_eq_none_iff_comm hkw d.hashed
    (symmetric_of_exactStr d.entries hstr)
  rcases hfound : K.firstPresent kwdict d.entries with _ | x
  · rw [if_pos rfl, pyMergeItems_of_none hfound]
    refine iff_of_true ⟨_, _, rfl, rfl, fun _ => rfl, List.prefix_append _ _⟩ fun f hf => ?_
    cases hf
  · obtain ⟨kwdict', f, hmerge, hf⟩ := pyMergeItems_of_some hfound
    rw [if_neg (by simp), hmerge]
    -- The key that is reported, and when it is a `str`.
    obtain ⟨e, he, hreport⟩ : ∃ e, (if kwdict.length ≤ d.entries.length then
        K.firstPresent d.entries kwdict else some x) = some e ∧
        (K.isStr e.key ↔ kwdict.length ≤ d.entries.length ∨ K.isStr x.key) := by
      split
      next hle =>
        rcases hfound' : K.firstPresent d.entries kwdict with _ | e
        · rw [hcomm.2 hfound'] at hfound
          cases hfound
        · exact ⟨e, rfl, iff_of_true
            (K.isStr_of_exactStr e.key (hstr e (List.mem_of_find?_eq_some hfound'))) (.inl hle)⟩
      next hle => exact ⟨x, rfl, (or_iff_right hle).symm⟩
    rw [he]
    change Same (K.raiseDoubleKeywords kwdict e.key) _ _ ↔ _
    rw [same_raiseDoubleKeywords_iff (List.prefix_refl _), hreport]
    rcases hf with rfl | ⟨e', rfl⟩
    · refine ⟨fun h f hf => ?_, fun h => ⟨h _ rfl, rfl⟩⟩
      rw [← Option.some.inj hf]
      exact h.1
    · refine iff_of_false (fun h => ?_) fun h => h _ rfl
      cases h.2

/-- An error of a `dict` source leaves the keyword arguments as they are. -/
theorem mergeKeywordsDict_unchanged (hkw : K.Hashed kwdict)
    (hstr : ∀ e ∈ kwdict, K.exactStr e.key = true)
    (hsame :
      Same (K.mergeKeywordsDict kwdict d.entries) (K.pyMergeItems none kwdict d.items) kwdict)
    {k : κ} (hpresent : (K.pyMergeItems none kwdict d.items).2 = some (.present k)) :
    ∃ error, K.mergeKeywordsDict kwdict d.entries = some (kwdict, error) := by
  obtain ⟨kwdict', error, hresult, -⟩ := hsame
  rw [mergeKeywordsDict_eq hkw (symmetric_of_exactStr d.entries hstr)] at hresult ⊢
  split at hresult
  next hnone =>
    rw [pyMergeItems_of_none hnone] at hpresent
    cases hpresent
  next hsome =>
    rw [if_neg hsome]
    obtain ⟨e, he, hraise⟩ := Option.bind_eq_some_iff.1 hresult
    rw [raiseDoubleKeywords] at hraise
    split at hraise
    next hisStr =>
      rw [he, Option.bind_some, raiseDoubleKeywords, if_pos hisStr]
      exact ⟨_, rfl⟩
    next => cases hraise

/-! ## Sources -/

/-- Without a failure, the items follow those that were there, and no two keys are equal. -/
theorem pyMergeItems_ok {pairs : List (κ × ν)} {raised : Option ε} {kwdict' : List (DictEntry κ ν)}
    (h : K.pyMergeItems raised kwdict pairs = (kwdict', none)) :
    (K.Hashed kwdict → K.Hashed kwdict') ∧ (K.Distinct kwdict → K.Distinct kwdict') ∧
      kwdict'.map (fun e => (e.key, e.value)) =
        kwdict.map (fun e => (e.key, e.value)) ++ pairs := by
  induction pairs generalizing kwdict with
  | nil =>
    rw [pyMergeItems] at h
    obtain rfl : kwdict = kwdict' := congrArg Prod.fst h
    exact ⟨id, id, (List.append_nil _).symm⟩
  | cons pair pairs ih =>
    obtain ⟨key, value⟩ := pair
    rw [pyMergeItems] at h
    rcases hset : K.setDefaultRef kwdict key value with e | _ | kwdict₁
    · rw [hset] at h
      cases h
    · rw [hset] at h
      cases h
    · rw [hset] at h
      obtain ⟨hhashed, hdistinct, hmap⟩ := ih h
      obtain ⟨hash, hk, hfind, rfl⟩ := setDefaultRef_ok hset
      refine ⟨fun hkw => hhashed fun e he => ?_, fun hkw => hdistinct ?_, ?_⟩
      · rcases List.mem_append.1 he with he | he
        · exact hkw e he
        · rw [List.mem_singleton.1 he]
          exact hk
      · refine List.pairwise_append.2 ⟨hkw, List.pairwise_singleton _ _, fun e he x hx => ?_⟩
        rw [List.mem_singleton.1 hx]
        exact find_eq_false_iff.1 hfind e he
      · rw [hmap, List.map_append, List.append_assoc]
        rfl

end ObjectKeys

/-- The items of a source. -/
def Source.pairs {κ ν ε : Type} [DecidableEq κ] {K : ObjectKeys κ ε} : Source K ν → List (κ × ν)
  | .dict d | .noItems (.ok d) => d.items
  | .items pairs _ => pairs
  | .noIterator _ | .noItems (.error _) => []

namespace ObjectKeys

open KeyClass

variable {κ ν ε : Type} [DecidableEq κ] {K : ObjectKeys κ ε}
variable {kwdict : List (DictEntry κ ν)} {hasSetDefaultRef : Bool}

theorem pyMerge_ok {source : Source K ν} {kwdict' : List (DictEntry κ ν)}
    (h : K.pyMerge kwdict source = (kwdict', none)) :
    (K.Hashed kwdict → K.Hashed kwdict') ∧ (K.Distinct kwdict → K.Distinct kwdict') ∧
      kwdict'.map (fun e => (e.key, e.value)) =
        kwdict.map (fun e => (e.key, e.value)) ++ source.pairs := by
  rcases source with d | ⟨pairs, raised⟩ | e | e | d
  · exact pyMergeItems_ok h
  · exact pyMergeItems_ok h
  · cases h
  · cases h
  · exact pyMergeItems_ok h

omit [DecidableEq κ] in
theorem same_original {e : ε} :
    Same (some (kwdict, some (.original e))) (kwdict, some (.sourceRaised e : MergeFailure κ ε))
      kwdict :=
  ⟨kwdict, _, rfl, rfl, fun h => (by cases h), List.prefix_refl _⟩

theorem same_mergeKeywords_iff (hkw : K.Hashed kwdict)
    (hstr : ∀ e ∈ kwdict, K.exactStr e.key = true) (source : Source K ν) :
    Same (K.mergeKeywords hasSetDefaultRef kwdict source) (K.pyMerge kwdict source) kwdict ↔
      Met hasSetDefaultRef kwdict source := by
  rcases source with d | ⟨pairs, raised⟩ | e | e | d
  · exact same_mergeKeywordsDict_iff hkw hstr
  · exact same_mergeItems_iff (List.prefix_refl _)
  · exact iff_of_true same_original trivial
  · exact iff_of_true same_original trivial
  · exact same_mergeKeywordsDict_iff hkw hstr

theorem agrees_iff (hkw : K.Hashed kwdict) (hstr : ∀ e ∈ kwdict, K.exactStr e.key = true)
    (source : Source K ν) : Agrees hasSetDefaultRef kwdict source ↔
      Met hasSetDefaultRef kwdict source := by
  rw [Agrees, same_mergeKeywords_iff hkw hstr, and_iff_left_iff_imp]
  rintro hmet d k rfl hpresent
  exact mergeKeywordsDict_unchanged hkw hstr ((same_mergeKeywordsDict_iff hkw hstr).2 hmet) hpresent

omit [DecidableEq κ] in
/-- A result that is that of Python, for entries that a prefix was added to before. -/
theorem Same.mono {base : List (DictEntry κ ν)} {result : MergeResult κ ν ε}
    {expected : List (DictEntry κ ν) × Option (MergeFailure κ ε)}
    (h : Same result expected kwdict) (hbase : base <+: kwdict) : Same result expected base := by
  obtain ⟨kwdict', error, hresult, herror, heq, hprefix⟩ := h
  exact ⟨kwdict', error, hresult, herror, heq, hbase.trans hprefix⟩

/-- A step of the merge of several sources: by induction on them, the keyword arguments are the
    same before each one. -/
theorem same_mergeSources (hkw : K.Hashed kwdict) (sources : List (Source K ν))
    (hmet : MetSources hasSetDefaultRef kwdict sources) :
    Same (K.mergeSources hasSetDefaultRef kwdict sources) (K.pyMergeSources kwdict sources)
      kwdict := by
  induction sources generalizing kwdict with
  | nil => exact ⟨kwdict, none, rfl, rfl, fun _ => rfl, List.prefix_refl _⟩
  | cons source sources ih =>
    obtain ⟨hstr, hsource, hrest⟩ := hmet
    obtain ⟨kwdict', error, hresult, herror, heq, hprefix⟩ :=
      (same_mergeKeywords_iff hkw hstr source).2 hsource
    rw [mergeSources, pyMergeSources, hresult]
    rcases hexpected : K.pyMerge kwdict source with ⟨expected, _ | f⟩
    · rw [hexpected] at herror heq
      obtain rfl : error = none := herror
      obtain rfl : kwdict' = expected := heq rfl
      exact (ih ((pyMerge_ok hexpected).1 hkw) (hrest _ hexpected)).mono hprefix
    · rw [hexpected] at herror heq
      obtain rfl : error = some f.error := herror
      exact ⟨kwdict', _, rfl, rfl, fun h => (by cases h), hprefix⟩

/-- A merge is that of Python exactly if what ends it is reported as there; and so are the merges
    of all sources of a call. Without an error, the keyword arguments are followed by the items of
    the source, and no two keys are equal. -/
theorem mergeKeywords_agrees_iff (K : ObjectKeys κ ε) (hasSetDefaultRef : Bool)
    (kwdict : DictObject K ν) (hstr : ∀ e ∈ kwdict.entries, K.exactStr e.key = true) :
    (∀ source : Source K ν, Agrees hasSetDefaultRef kwdict.entries source ↔
      Met hasSetDefaultRef kwdict.entries source) ∧
    (∀ (source : Source K ν) (kwdict' : List (DictEntry κ ν)),
      K.pyMerge kwdict.entries source = (kwdict', none) →
        K.Distinct kwdict' ∧ kwdict'.map (fun e => (e.key, e.value)) =
          kwdict.items ++ source.pairs) ∧
    ∀ sources : List (Source K ν), MetSources hasSetDefaultRef kwdict.entries sources →
      Same (K.mergeSources hasSetDefaultRef kwdict.entries sources)
        (K.pyMergeSources kwdict.entries sources) kwdict.entries := by
  refine ⟨agrees_iff kwdict.hashed hstr, fun source kwdict' h => ?_,
    same_mergeSources kwdict.hashed⟩
  obtain ⟨-, hdistinct, hitems⟩ := pyMerge_ok h
  exact ⟨hdistinct kwdict.distinct, hitems⟩

end ObjectKeys

/-! ## A key whose comparisons raise -/

theorem isStr_collidingKeys : ∀ k : Bool, k = true → k = true := fun _ h => h

theorem eq_comm_collidingKeys (k k' : Bool) (_ : k = true) :
    (if k = k' then .ok true else .error () : Except Unit Bool) =
      if k' = k then .ok true else .error () := by
  simp only [eq_comm]

/-- The string `"a"`, and an object of the same hash that raises when it is compared. -/
def collidingKeys : ObjectKeys Bool Unit where
  hash _ := .ok 0
  eq k k' := if k = k' then .ok true else .error ()
  isStr k := k
  exactStr k := k
  isStr_of_exactStr := isStr_collidingKeys
  eq_comm_of_exactStr := eq_comm_collidingKeys

theorem hashed_singleton (k : Bool) (v : ℕ) : collidingKeys.Hashed [⟨k, 0, v⟩] := by
  intro e he
  rw [List.mem_singleton.1 he]
  rfl

theorem distinct_singleton (k : Bool) (v : ℕ) : collidingKeys.Distinct [⟨k, 0, v⟩] :=
  List.pairwise_singleton _ _

def singleKey (k : Bool) (v : ℕ) : DictObject collidingKeys ℕ :=
  ⟨[⟨k, 0, v⟩], hashed_singleton k v, distinct_singleton k v⟩

/-- The exception of the key is replaced by the error for a keyword with two values. -/
theorem not_agrees_collidingKeys :
    collidingKeys.mergeKeywords true (singleKey true 1).entries (.dict (singleKey false 2)) =
        some ((singleKey true 1).entries, some .doubleKeywords) ∧
      collidingKeys.pyMerge (singleKey true 1).entries (.dict (singleKey false 2)) =
        ((singleKey true 1).entries, some (.keyRaised ())) ∧
      ¬ObjectKeys.Agrees true (singleKey true 1).entries (.dict (singleKey false 2)) := by
  refine ⟨rfl, rfl, fun h => ?_⟩
  obtain ⟨kwdict', error, hresult, herror, -⟩ := h.1
  obtain ⟨-, rfl⟩ := Prod.ext_iff.1 (Option.some.inj hresult)
  cases herror

/-- As an item, the key raises its own exception. -/
theorem agrees_collidingKeys :
    ObjectKeys.Agrees true (singleKey true 1).entries
      (.items [(false, 2)] none : Source collidingKeys ℕ) :=
  ((ObjectKeys.mergeKeywords_agrees_iff collidingKeys true (singleKey true 1) fun e he => by
    rw [List.mem_singleton.1 he]
    rfl).1 _).2 fun f hf => by
      rw [← Option.some.inj hf]
      exact rfl

end AHPy.FunctionArguments
