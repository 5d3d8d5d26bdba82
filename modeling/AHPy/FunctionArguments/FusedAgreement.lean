import AHPy.FunctionArguments.FusedDispatch

/-!
# Agreement of the fused dispatch with the binding of arguments

* `agreesWith_signatureString`: the comparison with the text of a signature is
  the comparison with its type names, whatever `strip('()')` removes;
* `FusedFunction.indexSignature_eq_ok_iff`: the loop finds the only signature
  that agrees;
* `FusedFunction.Cached.fusedCpdef`: the cache holds results of the uncached
  lookup, after every history;
* `FusedFunction.dispatches_iff`: the calls for which the dispatcher looks at
  the bound objects and selects their specialisation.

The dispatcher takes the argument at the index of a parameter, then the keyword
argument of its name, then its default, whatever the kind of the parameter.
-/

namespace AHPy.FusedDispatch

/-! ## Texts of signatures -/

theorem lstrip_append_bar (t u : Text) : lstrip (t ++ '|' :: u) = lstrip t ++ '|' :: u := by
  induction t with
  | nil => rfl
  | cons c t ih =>
    by_cases hc : isParenthesis c
    · simpa only [lstrip, List.cons_append, List.dropWhile_cons_of_pos hc] using ih
    · simp only [lstrip, List.cons_append, List.dropWhile_cons_of_neg hc]

theorem rstrip_append_bar (t u : Text) : rstrip (t ++ '|' :: u) = t ++ '|' :: rstrip u := by
  have h : (t ++ '|' :: u).reverse = u.reverse ++ '|' :: t.reverse := by simp
  have hl := lstrip_append_bar u.reverse t.reverse
  simp only [lstrip] at hl
  rw [rstrip, List.rdropWhile, h, hl, rstrip, List.rdropWhile]
  simp

/-- The last of some texts without the parentheses at its end. -/
def rstripLast : List Text → List Text
  | [] => []
  | [t] => [rstrip t]
  | t :: u :: ts => t :: rstripLast (u :: ts)

theorem rstripLast_ne_nil (t : Text) (ts : List Text) : rstripLast (t :: ts) ≠ [] := by
  cases ts <;> simp [rstripLast]

theorem rstrip_intercalate (t : Text) (ts : List Text) :
    rstrip (['|'].intercalate (t :: ts)) = ['|'].intercalate (rstripLast (t :: ts)) := by
  induction ts generalizing t with
  | nil => simp [rstripLast]
  | cons u ts ih =>
    rw [List.intercalate_cons_cons, rstripLast,
      List.intercalate_cons_of_ne_nil (rstripLast_ne_nil u ts), ← ih]
    simpa using rstrip_append_bar t (['|'].intercalate (u :: ts))

theorem strip_intercalate (t u : Text) (ts : List Text) :
    strip (['|'].intercalate (t :: u :: ts)) =
      ['|'].intercalate (lstrip t :: rstripLast (u :: ts)) := by
  have h : ['|'].intercalate (t :: u :: ts) = t ++ '|' :: ['|'].intercalate (u :: ts) := by
    simp [List.intercalate_cons_cons]
  rw [strip, h, lstrip_append_bar, rstrip_append_bar, rstrip_intercalate,
    List.intercalate_cons_of_ne_nil (rstripLast_ne_nil u ts)]
  simp

theorem bar_notMem_lstrip {t : Text} (h : '|' ∉ t) : '|' ∉ lstrip t := fun hm =>
  h ((List.dropWhile_sublist _).subset hm)

theorem bar_notMem_rstrip {t : Text} (h : '|' ∉ t) : '|' ∉ rstrip t := fun hm =>
  h ((List.rdropWhile_prefix _ _).subset hm)

theorem bar_notMem_rstripLast {ts : List Text} (h : ∀ t ∈ ts, '|' ∉ t) :
    ∀ t ∈ rstripLast ts, '|' ∉ t := by
  induction ts with
  | nil => simp [rstripLast]
  | cons t ts ih =>
    cases ts with
    | nil => simpa [rstripLast] using bar_notMem_rstrip (h t (by simp))
    | cons u ts =>
      intro v hv
      rcases List.mem_cons.1 hv with rfl | hv
      · exact h v (by simp)
      · exact ih (fun w hw => h w (List.mem_cons_of_mem _ hw)) v hv

/-- A type string is the name without the parentheses at its start only if it is the name. -/
theorem TypeString.eq_lstrip_iff (d : TypeString) (t : TypeName) :
    d.text = lstrip t.text ↔ d.text = t.text := by
  rcases t.left with h | h
  · rw [h]
  · refine iff_of_false (fun he => h (he ▸ d.balanced)) (fun he => h ?_)
    rw [← he, d.left]
    exact d.balanced

theorem TypeString.eq_rstrip_iff (d : TypeString) (t : TypeName) :
    d.text = rstrip t.text ↔ d.text = t.text := by
  rcases t.right with h | h
  · rw [h]
  · refine iff_of_false (fun he => h (he ▸ d.balanced)) (fun he => h ?_)
    rw [← he, d.right]
    exact d.balanced

theorem TypeName.ext_text {t u : TypeName} (h : t.text = u.text) : t = u := by
  cases t
  cases u
  cases h
  rfl

namespace FusedFunction

theorem agreesWith_cons (t : Text) (ts : List Text) (d : Option TypeString)
    (ds : List (Option TypeString)) :
    agreesWith (t :: ts) (d :: ds) = true ↔
      (∀ e ∈ d, e.text = t) ∧ agreesWith ts ds = true := by
  cases d with
  | none => simp [agreesWith]
  | some d => by_cases h : d.text = t <;> simp [agreesWith, h]

theorem agrees_cons (t : TypeName) (ts : List TypeName) (d : Option TypeString)
    (ds : List (Option TypeString)) :
    Agrees (t :: ts) (d :: ds) ↔ (∀ e ∈ d, e.text = t.text) ∧ Agrees ts ds := by
  constructor
  · intro h
    refine ⟨fun e he => ?_, fun i u e hu he =>
      h (i + 1) u e (by simpa using hu) (by simpa using he)⟩
    exact (h 0 t e rfl (by simpa using he)).symm
  · rintro ⟨h0, hs⟩ i u e hu he
    cases i with
    | zero =>
      have hut : t = u := by simpa using hu
      exact hut ▸ (h0 e (by simpa using he)).symm
    | succ i => exact hs i u e (by simpa using hu) (by simpa using he)

theorem agreesWith_rstripLast (ts : List TypeName) (ds : List (Option TypeString)) :
    agreesWith (rstripLast (ts.map TypeName.text)) ds = true ↔ Agrees ts ds := by
  induction ts generalizing ds with
  | nil => simp [rstripLast, agreesWith, Agrees]
  | cons t ts ih =>
    cases ds with
    | nil => cases ts <;> simp [rstripLast, agreesWith, Agrees]
    | cons d ds =>
      rw [agrees_cons]
      cases ts with
      | nil =>
        have hs : Agrees [] ds := fun i u e hu => by simp at hu
        simp only [List.map_cons, List.map_nil, rstripLast, agreesWith_cons,
          TypeString.eq_rstrip_iff]
        simp [agreesWith, hs]
      | cons u ts =>
        simp only [List.map_cons] at ih
        rw [List.map_cons, List.map_cons, rstripLast, agreesWith_cons, ih]

/-- The loop over the pairs of `zip` compares with the type names, though both
    ends of the text of the signature are stripped. -/
theorem agreesWith_signatureString (t u : TypeName) (ts : List TypeName)
    (ds : List (Option TypeString)) :
    agreesWith ((strip (signatureString (t :: u :: ts))).splitOn '|') ds = true ↔
      Agrees (t :: u :: ts) ds := by
  have hbar : ∀ v ∈ lstrip t.text :: rstripLast ((u :: ts).map TypeName.text), '|' ∉ v := by
    intro v hv
    rcases List.mem_cons.1 hv with rfl | hv
    · exact bar_notMem_lstrip t.noBar
    · refine bar_notMem_rstripLast ?_ v hv
      intro w hw
      obtain ⟨x, -, rfl⟩ := List.mem_map.1 hw
      exact x.noBar
  have hsplit : (strip (signatureString (t :: u :: ts))).splitOn '|' =
      lstrip t.text :: rstripLast ((u :: ts).map TypeName.text) := by
    rw [signatureString, List.map_cons, List.map_cons, strip_intercalate]
    exact List.splitOn_intercalate '|' hbar (List.cons_ne_nil _ _)
  rw [hsplit]
  cases ds with
  | nil => simp [agreesWith, Agrees]
  | cons d ds =>
    simp only [agreesWith_cons, agrees_cons, agreesWith_rstripLast, TypeString.eq_lstrip_iff]

/-! ## The loop over the signatures -/

variable {F Obj Fn : Type}

/-- The test of an item of the signatures. -/
def itemAgrees (dest : List (Option TypeString)) (s : Text × Fn) : Bool :=
  agreesWith ((strip s.1).splitOn '|') dest

theorem matchLoop_some (dest : List (Option TypeString)) (items : List (Text × Fn)) (g : Fn) :
    matchLoop dest items (some g) =
      if items.filter (itemAgrees dest) = [] then .ok (some g)
      else .error .ambiguous := by
  induction items with
  | nil => rfl
  | cons s items ih =>
    obtain ⟨sig, fn⟩ := s
    by_cases h : agreesWith ((strip sig).splitOn '|') dest
    · have hs : itemAgrees dest (sig, fn) = true := h
      simp [matchLoop, h, hs]
    · have hs : ¬ itemAgrees dest (sig, fn) = true := h
      rw [matchLoop, if_neg h, ih, List.filter_cons_of_neg hs]

theorem matchLoop_none (dest : List (Option TypeString)) (items : List (Text × Fn)) (g : Fn) :
    matchLoop dest items none = .ok (some g) ↔
      ∃ sig, items.filter (itemAgrees dest) = [(sig, g)] := by
  induction items with
  | nil => simp [matchLoop]
  | cons s items ih =>
    obtain ⟨sig, fn⟩ := s
    by_cases h : agreesWith ((strip sig).splitOn '|') dest
    · have hs : itemAgrees dest (sig, fn) = true := h
      rw [matchLoop, if_pos h, List.filter_cons_of_pos hs]
      simp only [matchLoop_some]
      split
      next hnil => simp [hnil]
      next hne => simp [hne]
    · have hs : ¬ itemAgrees dest (sig, fn) = true := h
      rw [matchLoop, if_neg h, ih, List.filter_cons_of_neg hs]

theorem indexSignature_eq_ok_iff (items : List (Text × Fn)) (dest : List (Option TypeString))
    (g : Fn) : indexSignature items dest = .ok g ↔
      ∃ sig, items.filter (itemAgrees dest) = [(sig, g)] := by
  rw [← matchLoop_none, indexSignature]
  split
  next h => simp [h]
  next h => simp [h]
  next h => simp [h]

/-! ## The code for the parameters -/

section Unpacks

variable [DecidableEq F]

/-- The code for a fused type is for its first parameter, and has the index of
    its default. -/
theorem of_mem_unpackArguments {args : List (Arg F Obj)} {i n : Nat} {seen : List F}
    {u : Unpack F} (h : u ∈ unpackArguments args i n seen) :
    u.fusedType ∉ seen ∧ ∃ j arg, args[j]? = some arg ∧
      args.findIdx (fun arg => arg.fusedType = some u.fusedType) = j ∧ u.name = arg.name ∧
      u.argTupleIdx = i + j ∧ u.defaultIdx =
        if arg.default.isSome then some (n + ((args.take j).filterMap Arg.default).length)
        else none := by
  induction args generalizing i n seen with
  | nil => simp [unpackArguments] at h
  | cons a args ih =>
    -- The parameter is behind `a`, which has another type.
    have later : ∀ seen' : List F, (∀ t, a.fusedType = some t → t ∈ seen') →
        (∀ t ∈ seen, t ∈ seen') →
        u ∈ unpackArguments args (i + 1) (if a.default.isSome then n + 1 else n) seen' →
        u.fusedType ∉ seen ∧ ∃ j arg, (a :: args)[j]? = some arg ∧
          (a :: args).findIdx (fun arg => arg.fusedType = some u.fusedType) = j ∧
          u.name = arg.name ∧ u.argTupleIdx = i + j ∧ u.defaultIdx =
            if arg.default.isSome then
              some (n + (((a :: args).take j).filterMap Arg.default).length)
            else none := by
      intro seen' ha hseen hu
      obtain ⟨hns, j, arg, hj, hidx, hname, htuple, hdefault⟩ := ih hu
      have hne : a.fusedType ≠ some u.fusedType := fun he => hns (ha _ he)
      refine ⟨fun hm => hns (hseen _ hm), j + 1, arg, hj, ?_, hname, by omega, ?_⟩
      · rw [List.findIdx_cons, hidx]
        simp [hne]
      · rw [hdefault, List.take_succ_cons, List.filterMap_cons]
        cases a.default with
        | none => simp
        | some v => simp [Nat.add_assoc, Nat.add_comm]
    cases ht : a.fusedType with
    | none => 
      simp only [unpackArguments, ht] at h
      exact later seen (fun t he => by simp [ht] at he) (fun t hm => hm) h
    | some t =>
      simp only [unpackArguments, ht] at h
      split at h
      next hm =>
        exact later seen (fun t' he => Option.some_inj.1 (ht.symm.trans he) ▸ hm)
          (fun t hm => hm) h
      next hm =>
        rcases List.mem_cons.1 h with rfl | h
        · exact ⟨hm, 0, a, rfl, by simp [List.findIdx_cons, ht], rfl, rfl, by simp⟩
        · refine later (t :: seen) (fun t' he => ?_) (fun t' hm' => List.mem_cons_of_mem _ hm') h
          exact (Option.some_inj.1 (ht.symm.trans he)) ▸ List.mem_cons_self

omit [DecidableEq F] in
/-- The default of a parameter is in the tuple behind those of the parameters before it. -/
theorem getElem?_filterMap_default {args : List (Arg F Obj)} {j : Nat} {arg : Arg F Obj}
    (hj : args[j]? = some arg) (hd : arg.default.isSome) :
    (args.filterMap Arg.default)[((args.take j).filterMap Arg.default).length]? =
      arg.default := by
  obtain ⟨hlt, rfl⟩ := List.getElem?_eq_some_iff.1 hj
  obtain ⟨v, hv⟩ := Option.isSome_iff_exists.1 hd
  have hsplit : args.filterMap Arg.default = (args.take j).filterMap Arg.default ++
      v :: (args.drop (j + 1)).filterMap Arg.default := by
    conv_lhs => rw [← List.take_append_drop j args, List.drop_eq_getElem_cons hlt]
    rw [List.filterMap_append, List.filterMap_cons_some hv]
  rw [hsplit, List.getElem?_append_right le_rfl, hv]
  simp

variable (f : FusedFunction F Obj Fn) (call : Call F Obj)

omit [DecidableEq F] in
theorem keywordValue_eq (name : Text) :
    ((call.kwargs.filter fun kwargs => !kwargs.entries.isEmpty).bind
      fun kwargs => kwargs.get? name) = keywordValue call name := by
  cases hk : call.kwargs with
  | none => simp [keywordValue, hk]
  | some kwargs =>
    cases he : kwargs.entries with
    | nil => simp [keywordValue, hk, he, OrderedDict.get?]
    | cons e es => simp [keywordValue, hk, Option.filter_some, he]

/-- The code looks at the index of the first parameter, then at its name, then
    at its default. -/
theorem unpackArgument_eq_ok_iff {u : Unpack F} (h : u ∈ f.unpacks) :
    ∃ arg, f.args[f.firstParameter u.fusedType]? = some arg ∧ ∀ o,
      f.unpackArgument call u = .ok o ↔ call.args[f.firstParameter u.fusedType]?.or
        ((keywordValue call arg.name).or arg.default) = some o := by
  obtain ⟨-, j, arg, hj, hidx, hname, htuple, hdefault⟩ := of_mem_unpackArguments h
  have hfirst : f.firstParameter u.fusedType = j := hidx
  refine ⟨arg, hfirst ▸ hj, fun o => ?_⟩
  have hvalue : (u.defaultIdx.bind fun i => f.defaultsTuple[i]?) = arg.default := by
    rw [hdefault]
    split
    next hd =>
      rw [Nat.zero_add]
      exact getElem?_filterMap_default hj hd
    next hd => exact (Option.not_isSome_iff_eq_none.1 hd).symm
  rw [unpackArgument, keywordValue_eq, hvalue, hname, hfirst, htuple, Nat.zero_add]
  cases call.args[j]? with
  | some o' => simp
  | none =>
    cases keywordValue call arg.name with
    | some o' => simp
    | none => cases arg.default <;> simp

theorem inspected_eq {t : F} (ht : t ∈ f.fusedTypes) :
    ∃ arg, f.args[f.firstParameter t]? = some arg ∧
      f.inspected call t = call.args[f.firstParameter t]?.or
        ((keywordValue call arg.name).or arg.default) := by
  obtain ⟨u, hu, rfl⟩ := List.mem_map.1 ht
  cases hfind : f.unpacks.find? (fun v => v.fusedType = u.fusedType) with
  | none => 
    have := List.find?_eq_none.1 hfind u hu
    simp at this
  | some v =>
    have hv : v.fusedType = u.fusedType := by simpa using List.find?_some hfind
    obtain ⟨arg, harg, hok⟩ := f.unpackArgument_eq_ok_iff call (List.mem_of_find?_eq_some hfind)
    rw [hv] at harg hok
    refine ⟨arg, harg, ?_⟩
    rw [inspected, hfind]
    cases hres : f.unpackArgument call v with
    | ok o => simpa [hres] using ((hok o).1 hres).symm
    | error e =>
      simp only [hres]
      refine (Option.eq_none_iff_forall_ne_some.2 fun o ho => ?_).symm
      have := (hok o).2 ho
      simp [hres] at this

/-- The dispatcher looks at the object that is bound, except where it takes an
    argument of `*args` for a keyword-only parameter, or an argument of `**kwargs`
    for a positional-only one. -/
theorem inspected_eq_boundArgument_iff {t : F} (ht : t ∈ f.fusedTypes) :
    f.inspected call t = f.boundArgument call (f.firstParameter t) ↔
      ∀ arg, f.args[f.firstParameter t]? = some arg →
        (f.kind (f.firstParameter t) = .keywordOnly → ∀ o,
          call.args[f.firstParameter t]? = some o →
            (keywordValue call arg.name).or arg.default = some o) ∧
        (f.kind (f.firstParameter t) = .positionalOnly →
          call.args.length ≤ f.firstParameter t → ∀ o,
            keywordValue call arg.name = some o → arg.default = some o) := by
  obtain ⟨arg, harg, hi⟩ := f.inspected_eq call ht
  have hforall : ∀ P : Arg F Obj → Prop,
      (∀ arg', f.args[f.firstParameter t]? = some arg' → P arg') ↔ P arg := by
    intro P
    simp [harg]
  rw [hforall, hi, boundArgument, harg, Option.bind_some]
  cases hk : f.kind (f.firstParameter t) with
  | positionalOnly =>
    cases ha : call.args[f.firstParameter t]? with
    | some o =>
      have hlt := (List.getElem?_eq_some_iff.1 ha).1
      simp [Nat.not_le.2 hlt]
    | none =>
      have hle := List.getElem?_eq_none_iff.1 ha
      cases keywordValue call arg.name with
      | none => simp
      | some o => simp [hle, eq_comm]
  | positionalOrKeyword => simp
  | keywordOnly =>
    cases call.args[f.firstParameter t]? with
    | none => simp
    | some o => simp [eq_comm]

/-- If the bound objects are looked at, the dispatcher has their type strings. -/
theorem destSig_eq (haccepts : f.Accepts call)
    (hinspects : ∀ t ∈ f.fusedTypes,
      f.inspected call t = f.boundArgument call (f.firstParameter t)) :
    f.destSig call f.unpacks = .ok (f.boundSig call) := by
  have hboth : ∀ us : List (Unpack F), us ⊆ f.unpacks → f.destSig call us =
      .ok ((us.map Unpack.fusedType).map fun t =>
        (f.boundArgument call (f.firstParameter t)).bind (call.mapFusedType t)) := by
    intro us hus
    induction us with
    | nil => rfl
    | cons u us ih =>
      have hu : u ∈ f.unpacks := hus List.mem_cons_self
      have ht : u.fusedType ∈ f.fusedTypes := List.mem_map_of_mem hu
      obtain ⟨arg, harg, hok⟩ := f.unpackArgument_eq_ok_iff call hu
      obtain ⟨arg', harg', hins⟩ := f.inspected_eq call ht
      obtain rfl : arg = arg' := Option.some_inj.1 (harg.symm.trans harg')
      obtain ⟨o, ho⟩ := Option.isSome_iff_exists.1
        (haccepts.bound _ (List.getElem?_eq_some_iff.1 harg).1)
      have hval := (hok o).2 (hins.symm.trans ((hinspects _ ht).trans ho))
      rw [destSig, hval, ih fun v hv => hus (List.mem_cons_of_mem _ hv)]
      simp [ho]
  exact hboth f.unpacks (List.Subset.refl _)

end Unpacks

/-! ## Selection -/

section Selection

variable [DecidableEq F] (f : FusedFunction F Obj Fn)

/-- A list of type names has one specialisation. -/
theorem eq_of_mem_signatures {s s' : List TypeName × Fn} (hs : s ∈ f.signatures)
    (hs' : s' ∈ f.signatures) (h : s.1 = s'.1) : s = s' :=
  List.inj_on_of_nodup_map f.keys hs hs' h

theorem onlyMatch_iff {dest : List (Option TypeString)} {function : Fn}
    {p : List TypeName × Fn → Bool} (hp : ∀ s ∈ f.signatures, p s = true ↔ Agrees s.1 dest) :
    f.OnlyMatch dest function ↔ ∃ types, f.signatures.filter p = [(types, function)] := by
  constructor
  · rintro ⟨types, hmem, hagrees, honly⟩
    have hall : ∀ s ∈ f.signatures.filter p, s = (types, function) := by
      intro s hs
      obtain ⟨hs, hps⟩ := List.mem_filter.1 hs
      exact f.eq_of_mem_signatures hs hmem (honly s hs ((hp s hs).1 hps))
    have hin : (types, function) ∈ f.signatures.filter p :=
      List.mem_filter.2 ⟨hmem, (hp _ hmem).2 hagrees⟩
    have hnodup : (f.signatures.filter p).Nodup := (List.Nodup.of_map _ f.keys).filter _
    refine ⟨types, ?_⟩
    rw [List.eq_replicate_of_mem hall] at hin hnodup ⊢
    have hle := List.nodup_replicate.1 hnodup
    have hne : (f.signatures.filter p).length ≠ 0 := by
      intro h0
      simp [h0] at hin
    have hlen : (f.signatures.filter p).length = 1 := by omega
    rw [hlen]
    rfl
  · rintro ⟨types, hfilter⟩
    have hin : (types, function) ∈ f.signatures.filter p := by simp [hfilter]
    obtain ⟨hmem, hps⟩ := List.mem_filter.1 hin
    refine ⟨types, hmem, (hp _ hmem).1 hps, fun s hs hagrees => ?_⟩
    have hs : s ∈ f.signatures.filter p := List.mem_filter.2 ⟨hs, (hp s hs).2 hagrees⟩
    rw [hfilter, List.mem_singleton] at hs
    rw [hs]

/-- With several fused types, the loop finds the only signature that agrees. -/
theorem indexSignature_signatureItems {dest : List (Option TypeString)}
    (hlen : 2 ≤ f.fusedTypes.length) (function : Fn) :
    indexSignature f.signatureItems dest = .ok function ↔ f.OnlyMatch dest function := by
  have hp : ∀ s ∈ f.signatures,
      (itemAgrees dest ∘ fun s => (signatureString s.1, s.2)) s = true ↔ Agrees s.1 dest := by
    rintro ⟨types, fn⟩ hs
    have hl : types.length = f.fusedTypes.length := f.lengths _ hs
    obtain ⟨t, types, rfl⟩ := List.exists_cons_of_length_pos (by omega : 0 < types.length)
    rw [List.length_cons] at hl
    obtain ⟨u, types, rfl⟩ := List.exists_cons_of_length_pos (by omega : 0 < types.length)
    exact agreesWith_signatureString t u types dest
  rw [indexSignature_eq_ok_iff, f.onlyMatch_iff hp, signatureItems, List.filter_map]
  constructor
  · rintro ⟨sig, h⟩
    obtain ⟨s, hs, hsig⟩ := List.map_eq_singleton_iff.1 h
    obtain ⟨-, rfl⟩ := Prod.mk.inj hsig
    exact ⟨s.1, hs⟩
  · rintro ⟨types, h⟩
    exact ⟨signatureString types, List.map_eq_singleton_iff.2 ⟨_, h, rfl⟩⟩

/-- With one fused type, the lookup finds the signature with its type string. -/
theorem matchSignaturesSingle_signatureItems (hlen : f.fusedTypes.length = 1)
    (d : TypeString) (function : Fn) :
    matchSignaturesSingle f.signatureItems (some d) = .ok function ↔
      f.OnlyMatch [some d] function := by
  -- A signature is one name, and it agrees if it is the type string.
  have hone : ∀ s ∈ f.signatures, ∃ t, s.1 = [t] ∧ signatureString s.1 = t.text ∧
      (Agrees s.1 [some d] ↔ t.text = d.text) := by
    intro s hs
    obtain ⟨t, ht⟩ := List.length_eq_one_iff.1 ((f.lengths s hs).trans hlen)
    refine ⟨t, ht, by simp [ht, signatureString], ?_⟩
    rw [ht, agrees_cons]
    simp [Agrees, eq_comm]
  have hsame : ∀ s ∈ f.signatures, ∀ s' ∈ f.signatures,
      signatureString s.1 = signatureString s'.1 → s = s' := by
    intro s hs s' hs' h
    obtain ⟨t, ht, htext, -⟩ := hone s hs
    obtain ⟨t', ht', htext', -⟩ := hone s' hs'
    refine f.eq_of_mem_signatures hs hs' ?_
    have he : t = t' := TypeName.ext_text (htext.symm.trans (h.trans htext'))
    rw [ht, ht', he]
  have hagrees : ∀ s ∈ f.signatures,
      Agrees s.1 [some d] ↔ signatureString s.1 = d.text := by
    intro s hs
    obtain ⟨t, -, htext, hiff⟩ := hone s hs
    rw [hiff, htext]
  rw [matchSignaturesSingle, signatureItems, List.find?_map]
  cases hfind : f.signatures.find?
      ((fun s => s.1 = d.text) ∘ fun s => (signatureString s.1, s.2)) with
  | none => 
    refine iff_of_false (by simp) ?_
    rintro ⟨types, hmem, hag, -⟩
    have := List.find?_eq_none.1 hfind _ hmem
    simp [(hagrees _ hmem).1 hag] at this
  | some s =>
    have hmem := List.mem_of_find?_eq_some hfind
    have htext : signatureString s.1 = d.text := by simpa using List.find?_some hfind
    constructor
    · intro h
      obtain rfl : s.2 = function := by simpa using h
      refine ⟨s.1, hmem, (hagrees s hmem).2 htext, fun s' hs' hag => ?_⟩
      rw [hsame s' hs' s hmem (((hagrees s' hs').1 hag).trans htext.symm)]
    · rintro ⟨types, hm, hag, -⟩
      have := hsame s hmem _ hm (htext.trans ((hagrees _ hm).1 hag).symm)
      simp [this]

end Selection

/-! ## The cache -/

section Cache

/-- The cache holds what the loop over the signatures finds. -/
def Cached (items : List (Text × Fn)) (sigindex : SigIndex Fn) : Prop :=
  ∀ dest function, sigindex.get? dest = some function →
    indexSignature items dest = .ok function

theorem Cached.empty (items : List (Text × Fn)) : Cached items OrderedDict.empty := by
  intro dest function h
  simp [OrderedDict.get?, OrderedDict.empty] at h

theorem Cached.matchSignatures {items : List (Text × Fn)} {sigindex : SigIndex Fn}
    (h : Cached items sigindex) (dest : List (Option TypeString)) :
    (matchSignatures items dest sigindex).1 = indexSignature items dest ∧
      Cached items (matchSignatures items dest sigindex).2 := by
  rw [FusedFunction.matchSignatures]
  cases hget : sigindex.get? dest with
  | some function => exact ⟨(h dest function hget).symm, h⟩
  | none =>
    cases hindex : indexSignature items dest with
    | error e => exact ⟨rfl, h⟩
    | ok function =>
      refine ⟨rfl, fun dest' function' hget' => ?_⟩
      rcases OrderedDict.get?_set_cases hget' with ⟨rfl, rfl⟩ | ⟨-, hget'⟩
      · exact hindex
      · exact h dest' function' hget'

variable [DecidableEq F] (f : FusedFunction F Obj Fn)

/-- A call gives the result that it has without the cache, and leaves the cache
    with results of the loop. -/
theorem Cached.fusedCpdef {f : FusedFunction F Obj Fn} {sigindex : SigIndex Fn}
    (h : Cached f.signatureItems sigindex) (call : Call F Obj) :
    (f.fusedCpdef call sigindex).1 = (f.fusedCpdef call OrderedDict.empty).1 ∧
      Cached f.signatureItems (f.fusedCpdef call sigindex).2 := by
  simp only [FusedFunction.fusedCpdef]
  split
  next => exact ⟨rfl, h⟩
  next => exact ⟨rfl, h⟩
  next dest _ _ =>
    have hempty := (Cached.empty f.signatureItems).matchSignatures dest
    exact ⟨(h.matchSignatures dest).1.trans hempty.1.symm, (h.matchSignatures dest).2⟩

theorem cached_sigindexAfter (history : List (Call F Obj)) :
    Cached f.signatureItems (f.sigindexAfter history) := by
  refine List.foldlRecOn (motive := Cached f.signatureItems) history _
    (Cached.empty f.signatureItems) ?_
  intro sigindex h call _
  exact (h.fusedCpdef call).2

end Cache

/-! ## The calls that are dispatched well -/

section Dispatch

variable [DecidableEq F] (f : FusedFunction F Obj Fn)

/-- The calls in which the kind of a parameter does not matter, and some type
    string selects a single specialisation. -/
structure Meets (call : Call F Obj) : Prop where
  /-- An argument of `*args` that is at the index of the first parameter of a fused
      type, a keyword-only one, is the object of that parameter. -/
  keywordOnly : ∀ t ∈ f.fusedTypes, ∀ arg, f.args[f.firstParameter t]? = some arg →
    f.kind (f.firstParameter t) = .keywordOnly → ∀ o,
      call.args[f.firstParameter t]? = some o →
        (keywordValue call arg.name).or arg.default = some o
  /-- An argument of `**kwargs` that has the name of the first parameter of a fused
      type, a positional-only one that is left to its default, is that default. -/
  positionalOnly : ∀ t ∈ f.fusedTypes, ∀ arg, f.args[f.firstParameter t]? = some arg →
    f.kind (f.firstParameter t) = .positionalOnly →
      call.args.length ≤ f.firstParameter t → ∀ o,
        keywordValue call arg.name = some o → arg.default = some o
  /-- If the only fused type has a single specialisation, its type string is known. -/
  determined : f.fusedTypes.length = 1 → f.signatures.length = 1 → f.boundSig call ≠ [none]

theorem inspects_iff {call : Call F Obj} :
    (∀ t ∈ f.fusedTypes, f.inspected call t = f.boundArgument call (f.firstParameter t)) ↔
      ∀ t ∈ f.fusedTypes, ∀ arg, f.args[f.firstParameter t]? = some arg →
        (f.kind (f.firstParameter t) = .keywordOnly → ∀ o,
          call.args[f.firstParameter t]? = some o →
            (keywordValue call arg.name).or arg.default = some o) ∧
        (f.kind (f.firstParameter t) = .positionalOnly →
          call.args.length ≤ f.firstParameter t → ∀ o,
            keywordValue call arg.name = some o → arg.default = some o) :=
  forall₂_congr fun _ ht => f.inspected_eq_boundArgument_iff call ht

/-- Without a type string, the only specialisation of a single fused type agrees. -/
theorem onlyMatch_undetermined_iff :
    (∃ function, f.OnlyMatch [none] function) ↔ f.signatures.length = 1 := by
  have hagrees : ∀ s ∈ f.signatures, Agrees s.1 [none] := by
    intro s hs i t d _ hd
    cases i <;> simp at hd
  constructor
  · rintro ⟨function, types, hmem, -, honly⟩
    have hall : ∀ s ∈ f.signatures, s = (types, function) := fun s hs =>
      f.eq_of_mem_signatures hs hmem (honly s hs (hagrees s hs))
    have hnodup : f.signatures.Nodup := List.Nodup.of_map _ f.keys
    rw [List.eq_replicate_of_mem hall] at hnodup
    have hle := List.nodup_replicate.1 hnodup
    have hpos := List.length_pos_of_mem hmem
    omega
  · intro h
    obtain ⟨s, hs⟩ := List.length_eq_one_iff.1 h
    refine ⟨s.2, s.1, by simp [hs], hagrees s (by simp [hs]), fun s' hs' _ => ?_⟩
    rw [hs, List.mem_singleton] at hs'
    rw [hs']

/-- The result of a call whose bound objects are looked at. -/
theorem fusedCpdef_eq {call : Call F Obj} (haccepts : f.Accepts call)
    (hinspects : ∀ t ∈ f.fusedTypes,
      f.inspected call t = f.boundArgument call (f.firstParameter t))
    (sigindex : SigIndex Fn) (function : Fn) (hcached : Cached f.signatureItems sigindex) :
    (f.fusedCpdef call sigindex).1 = .ok function ↔
      f.OnlyMatch (f.boundSig call) function ∧
        ¬ (f.fusedTypes.length = 1 ∧ f.boundSig call = [none]) := by
  have hlength : (f.boundSig call).length = f.fusedTypes.length := List.length_map _
  rw [fusedCpdef, f.destSig_eq call haccepts hinspects]
  by_cases h1 : f.fusedTypes.length = 1
  · obtain ⟨d, hd⟩ := List.length_eq_one_iff.1 (hlength.trans h1)
    simp only [hd]
    cases d with
    | none => simp [matchSignaturesSingle, h1]
    | some d =>
      rw [f.matchSignaturesSingle_signatureItems h1 d function]
      simp
  · have hpos : 0 < f.fusedTypes.length := List.length_pos_iff.2 f.fused
    have hne : ∀ d, f.boundSig call ≠ [d] := by
      intro d hd
      rw [hd] at hlength
      exact h1 hlength.symm
    split
    next h => cases h
    next d h => exact absurd (Except.ok.inj h) (hne d)
    next dest _ h =>
      obtain rfl := Except.ok.inj h
      rw [(hcached.matchSignatures (f.boundSig call)).1,
        f.indexSignature_signatureItems (by omega) function]
      simp [h1]

/-- After every history, the dispatcher looks at the bound objects and selects
    their specialisation exactly in the calls that meet the condition. -/
theorem dispatches_iff (history : List (Call F Obj)) (call : Call F Obj)
    (haccepts : f.Accepts call) : f.Dispatches history call ↔ f.Meets call := by
  have hcached := f.cached_sigindexAfter history
  constructor
  · rintro ⟨hinspects, hselects, -⟩
    have hkinds := f.inspects_iff.1 hinspects
    refine ⟨fun t ht arg harg => (hkinds t ht arg harg).1,
      fun t ht arg harg => (hkinds t ht arg harg).2, fun h1 hsig hnone => ?_⟩
    obtain ⟨function, honly⟩ := f.onlyMatch_undetermined_iff.2 hsig
    have hresult := (hselects function).2 (hnone ▸ honly)
    exact ((f.fusedCpdef_eq haccepts hinspects _ function hcached).1 hresult).2 ⟨h1, hnone⟩
  · rintro ⟨hkeyword, hpositional, hdetermined⟩
    have hinspects := f.inspects_iff.2 fun t ht arg harg =>
      ⟨hkeyword t ht arg harg, hpositional t ht arg harg⟩
    refine ⟨hinspects, fun function => ?_, (hcached.fusedCpdef call).1⟩
    rw [f.fusedCpdef_eq haccepts hinspects _ function hcached]
    refine and_iff_left_of_imp fun honly => ?_
    rintro ⟨h1, hnone⟩
    exact hdetermined h1 (f.onlyMatch_undetermined_iff.1 ⟨function, hnone ▸ honly⟩) hnone

end Dispatch

end FusedFunction

/-! ## A keyword-only parameter behind `*args` -/

theorem plain_long : Plain ['l', 'o', 'n', 'g'] := by decide

theorem plain_double : Plain ['d', 'o', 'u', 'b', 'l', 'e'] := by decide

/-- The signatures of a fused type of `long` and `double`. -/
def longOrDouble : List (List TypeName × Bool) :=
  [([.plain _ plain_long], false), ([.plain _ plain_double], true)]

theorem length_of_mem_longOrDouble (s : List TypeName × Bool) (h : s ∈ longOrDouble) :
    s.1.length = 1 := by
  rcases List.mem_cons.1 h with rfl | h
  · rfl
  · rw [List.mem_singleton.1 h]
    rfl

theorem nodup_longOrDouble : (longOrDouble.map Prod.fst).Nodup := by decide

/-- `def f(*args, x)` with a fused `x`: the specialisation for `long` is false, the
    one for `double` is true. -/
def afterStarArg : FusedFunction Unit Bool Bool where
  args := [⟨['x'], some (), none⟩]
  numPosonlyArgs := 0
  numKwonlyArgs := 1
  kinds := le_rfl
  names := List.nodup_singleton _
  starArg := true
  starstarArg := false
  isDef := true
  fused := List.cons_ne_nil _ _
  signatures := longOrDouble
  lengths := length_of_mem_longOrDouble
  keys := nodup_longOrDouble

/-- A call with the keyword argument `x=1`, where `false` is an integer and `true` a float. -/
def callWithX (args : List Bool) : Call Unit Bool where
  args := args
  kwargs := some ⟨[(['x'], false)], List.nodup_singleton _⟩
  mapFusedType _ arg := some (if arg then .plain _ plain_double else .plain _ plain_long)

theorem accepts_callWithX (args : List Bool) : afterStarArg.Accepts (callWithX args) := by
  have hkind : ∀ i, afterStarArg.kind i = .keywordOnly := by
    intro i
    simp [FusedFunction.kind, afterStarArg]
  refine ⟨.inl rfl, .inr fun name hname => ?_, fun i arg _ hk => ?_, fun i hi => ?_⟩
  · have hx : name = ['x'] := by
      by_contra hne
      simp [FusedFunction.keywordValue, callWithX, OrderedDict.get?, Ne.symm hne] at hname
    exact ⟨0, _, rfl, hx.symm, by rw [hkind]; exact ParameterKind.noConfusion⟩
  · simp [hkind] at hk
  · obtain rfl : i = 0 := by simpa [afterStarArg] using hi
    rfl

/-- The dispatcher looks at the argument of `*args`, and selects its specialisation. -/
theorem inspected_callWithX : afterStarArg.inspected (callWithX [true]) () = some true ∧
    afterStarArg.boundArgument (callWithX [true]) 0 = some false := by
  decide

theorem not_dispatches_callWithX : ¬ ∀ (f : FusedFunction Unit Bool Bool)
    (history : List (Call Unit Bool)) (call : Call Unit Bool), f.Accepts call →
      f.Dispatches history call := by
  intro h
  have hd := (h afterStarArg [] _ (accepts_callWithX [true])).inspects () (by decide)
  have hbound : afterStarArg.boundArgument (callWithX [true])
      (afterStarArg.firstParameter ()) = some false := inspected_callWithX.2
  rw [inspected_callWithX.1, hbound] at hd
  cases hd

theorem dispatches_iff_callWithX :
    afterStarArg.Dispatches [callWithX [true]] (callWithX []) ↔
      afterStarArg.Meets (callWithX []) :=
  FusedFunction.dispatches_iff afterStarArg _ _ (accepts_callWithX [])

end AHPy.FusedDispatch
