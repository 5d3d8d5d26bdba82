import AHPy.NumberTable.Arrays
import AHPy.NumberTable.LargeText
import AHPy.NumberTable.Names

/-!
# The table of numeric constants is correct

* `storeLoop`, `largeLoop`: what the loops of the initialisation store;
* `Collected.Holds.run`: the array has the numbers of the lists in order;
* `generate_correct`: the item that a name is defined to is the number that was registered.
-/

namespace AHPy.NumberTable

variable {f : FloatFormat}

/-! ## Loops -/

theorem store_append {before after : Table f} {i : ℕ} (h : before.length = i)
    (x : Option (PyNumber f)) (number : PyNumber f) :
    store (before ++ x :: after) i number = some (before ++ some number :: after) := by
  subst h
  rw [store, if_pos (by simp), List.set_append_right _ _ le_rfl, Nat.sub_self, List.set_cons_zero]

/-- A loop that stores one number after the other. -/
theorem storeLoop {body : Table f → ℕ → Option (Table f)} {numbers : List (PyNumber f)}
    {before after : Table f} {offset j : ℕ} (hbefore : before.length = offset + j)
    (hbody : ∀ i number, numbers[i]? = some number → ∀ table,
      body table (j + i) = store table (offset + (j + i)) number) :
    (List.range' j numbers.length).foldlM body
      (before ++ (List.replicate numbers.length none ++ after)) =
        some (before ++ (numbers.map some ++ after)) := by
  induction numbers generalizing before j with
  | nil => rfl
  | cons number numbers ih =>
    have hfirst := hbody 0 number rfl
    rw [Nat.add_zero] at hfirst
    have hrest := @ih (before ++ [some number]) (j + 1)
      (by rw [List.length_append, List.length_singleton]; omega)
      (fun i number hi table => by
        have h := hbody (i + 1) number hi table
        rwa [← Nat.add_assoc, Nat.add_right_comm] at h)
    rw [List.length_cons, List.range'_succ, List.foldlM_cons, List.replicate_succ,
      List.cons_append, hfirst, store_append hbefore, Option.bind_eq_bind, Option.bind_some]
    rw [List.append_assoc, List.singleton_append] at hrest
    rw [hrest, List.map_cons, List.append_assoc]
    rfl

/-- The loop over the large integers, which moves on in the string. -/
theorem largeLoop {numbers : List ℤ} {before after : Table f} {offset j : ℕ}
    (hbefore : before.length = offset + j) :
    (List.range' j numbers.length).foldlM (fun ((table : Table f), cConstant) i => do
      let (number, endPos) ← pyLongFromString cConstant
      let table ← store table (offset + i) (.int number)
      some (table, endPos.tail))
      (before ++ (List.replicate numbers.length none ++ after), memory numbers) =
        some (before ++ (numbers.map (fun n => some (.int n)) ++ after), []) := by
  induction numbers generalizing before j with
  | nil => rfl
  | cons number numbers ih =>
    have hmemory : memory (number :: numbers) = toBase32 number ++ nul :: memory numbers := by
      rw [memory, List.flatMap_cons, List.append_assoc]
      rfl
    have hrest := @ih (before ++ [some (.int number)]) (j + 1)
      (by rw [List.length_append, List.length_singleton]; omega)
    rw [List.length_cons, List.range'_succ, List.foldlM_cons, List.replicate_succ,
      List.cons_append, hmemory]
    simp only [pyLongFromString_toBase32, store_append hbefore, Option.bind_eq_bind,
      Option.bind_some, List.tail_cons]
    simp only [List.append_assoc, List.singleton_append, Option.bind_eq_bind] at hrest
    rw [hrest, List.map_cons]
    rfl

/-! ## The array -/

/-- The value of a float, of the initialiser of an integer. -/
def floatOf (f : FloatFormat) (e : Initialiser) : FloatValue f := (cDouble f e.2).getD .nan

def intOf (e : Initialiser) : ℤ := (initialValue e).getD 0

/-- The names of the lists with the numbers they stand for, in order. -/
def Collected.entries (f : FloatFormat) (s : Collected) : List (CName × PyNumber f) :=
  s.floats.map (fun e => (e.1, .float (floatOf f e))) ++
    (s.buckets.all.flatten.map (fun e => (e.1, .int (intOf e))) ++
      s.large.map fun e => (e.1, .int e.2))

theorem runFloats_spec {floats : List Initialiser} {after : Table f}
    (hfloats : ∀ e ∈ floats, (cDouble f e.2).isSome) :
    runFloats (floats.map Prod.snd) (List.replicate floats.length none ++ after) =
      some (floats.map (fun e => some (.float (floatOf f e))) ++ after) := by
  have hloop := @storeLoop f (fun table i => do
    let code ← (floats.map Prod.snd)[i]?
    let x ← cDouble f code
    store table i (.float x)) (floats.map fun e => .float (floatOf f e)) [] after 0 0 rfl ?_
  · rw [List.length_map, List.nil_append, List.nil_append, List.map_map] at hloop
    rw [runFloats, List.range_eq_range', List.length_map]
    exact hloop
  · intro i number hi table
    rw [List.getElem?_map] at hi
    obtain ⟨e, he, rfl⟩ := Option.map_eq_some_iff.1 hi
    obtain ⟨x, hx⟩ := Option.isSome_iff_exists.1 (hfloats e (List.mem_of_getElem? he))
    have hvalue : floatOf f e = x := by rw [floatOf, hx, Option.getD_some]
    simp only [Nat.zero_add, List.getElem?_map, he, hx, hvalue, Option.map_some,
      Option.bind_eq_bind, Option.bind_some]

/-- The integers of the arrays fit into the type that is passed on. -/
theorem create_eq (platform : Platform) {init : IntInit} {k : ℕ} {number : ℤ}
    (hk : k ≤ 3) (hrange : (itemType k).InRange number) (hlong : init.fromLong = true → k ≤ 2) :
    init.create platform number = number := by
  rw [IntInit.create]
  split
  next h =>
    have hwide : (2 : ℤ) ^ 31 ≤ 2 ^ (platform.long.width - 1) := by
      have hle := platform.le_long
      exact pow_le_pow_right₀ (by norm_num) (by omega)
    have hk2 := hlong h
    refine CIntType.convert_of_inRange ?_
    rw [CIntType.InRange, CIntType.lo_add_two_pow, CIntType.lo, if_pos platform.long_signed,
      if_pos platform.long_signed]
    interval_cases k <;>
    · simp only [itemType, intTypes, Option.getD_some, CIntType.InRange, CIntType.lo] at hrange
      norm_num at hrange hwide
      omega
  next =>
    refine CIntType.convert_of_inRange ?_
    interval_cases k <;>
    · simp only [itemType, intTypes, int64, Option.getD_some, CIntType.InRange, CIntType.lo]
        at hrange ⊢
      norm_num at hrange ⊢
      omega

theorem LargeInit.run_spec {numbers : List ℤ} (hne : numbers ≠ []) {text : List Char}
    (htext : largeText numbers = some text) (before : Table f) :
    LargeInit.run ⟨before.length, numbers.length, text⟩
      (before ++ List.replicate numbers.length none) =
        some (before ++ numbers.map fun n => some (.int n)) := by
  obtain ⟨text', s, htext', hs, hmemory⟩ := cString_largeText hne
  obtain rfl := Option.some.inj (htext.symm.trans htext')
  have hloop := @largeLoop f numbers before [] before.length 0 rfl
  rw [List.append_nil, List.append_nil] at hloop
  rw [LargeInit.run, hs]
  simp only [Option.bind_eq_bind, Option.bind_some, hmemory, List.range_eq_range']
  simp only [Option.bind_eq_bind] at hloop
  rw [hloop]
  rfl

/-! ## The lists of integers -/

variable {done : List NumConst} {s : Collected}

theorem Buckets.Ok.exists_fits {b : Buckets} (h : b.Ok) {e : Initialiser}
    (he : e ∈ b.all.flatten) : ∃ k < b.all.length, Fits k e := by
  obtain ⟨bucket, hbucket, he⟩ := List.mem_flatten.1 he
  obtain ⟨k, hk, rfl⟩ := List.getElem_of_mem hbucket
  exact ⟨k, hk, h.fits k _ (List.getElem?_eq_getElem hk) e he⟩

theorem Buckets.length_all (b : Buckets) : b.all.length = b.full.length + 1 := by
  rw [Buckets.all, List.length_append, List.length_singleton]

/-- What is generated for the integers of the arrays. -/
theorem Collected.Holds.intArrays_eq (h : s.Holds done) (hne : s.intCount ≠ 0) (offset : ℕ) :
    ∃ b, intArrays s.buckets.all.length offset 1 s.buckets.all ⟨[], [], .hole, 0⟩ = some b ∧
      b.arrays = arraysOf 0 s.buckets.all ∧
      b.defines = defineConstants s.buckets.all.flatten offset ∧
      ∀ i < s.intCount, b.access.eval (arraysOf 0 s.buckets.all) i =
        s.buckets.all.flatten[i]?.bind initialValue := by
  have hlength := s.buckets.length_all
  have hfull := h.ok.full
  obtain ⟨b, heq, harrays, hdefines, heval⟩ := @intArrays_spec (arraysOf 0 s.buckets.all)
    s.buckets.all.length offset s.buckets.all 0 ⟨[], [], .hole, 0⟩ [] (Nat.zero_add _) (by omega)
    rfl (holeReads_nil _) (fun j bucket hj hbucket i =>
      readArray_arraysOf (fun j bucket hj e he => by
        rw [Nat.zero_add]
        exact h.ok.fits j bucket hj e he) hj hbucket i)
  refine ⟨b, heq, harrays, hdefines, fun i hi => ?_⟩
  refine heval s.buckets.last ?_ (fun hlast => hne (h.last hlast)) i ?_
  · rw [Buckets.all, List.getLast?_concat]
  · rwa [List.nil_append, ← h.count]

theorem Collected.Holds.runInts (h : s.Holds done) (platform : Platform) (before after : Table f)
    {b : IntBlock} (harrays : b.arrays = arraysOf 0 s.buckets.all)
    (heval : ∀ i < s.intCount, b.access.eval (arraysOf 0 s.buckets.all) i =
      s.buckets.all.flatten[i]?.bind initialValue) :
    IntInit.run platform ⟨before.length, s.intCount, b.arrays, b.access,
      decide (s.buckets.all.length ≤ 3)⟩
      (before ++ (List.replicate s.intCount none ++ after)) =
        some (before ++ (s.buckets.all.flatten.map (fun e => some (.int (intOf e))) ++ after)) := by
  set init : IntInit := ⟨before.length, s.intCount, b.arrays, b.access,
    decide (s.buckets.all.length ≤ 3)⟩ with hinit
  have hloop := @storeLoop f (fun table i => do
    let number ← init.access.eval init.arrays i
    store table (init.offset + i) (.int (init.create platform number)))
    (s.buckets.all.flatten.map fun e => .int (intOf e)) before after before.length 0 rfl ?_
  · rw [List.length_map, ← h.count, List.map_map] at hloop
    rw [IntInit.run, List.range_eq_range']
    exact hloop
  · intro i number hi table
    rw [List.getElem?_map] at hi
    obtain ⟨e, he, rfl⟩ := Option.map_eq_some_iff.1 hi
    obtain ⟨k, hk, n, hn, hrange⟩ := h.ok.exists_fits (List.mem_of_getElem? he)
    have hlt : i < s.intCount := by
      rw [h.count]
      exact (List.getElem?_eq_some_iff.1 he).1
    have hread : init.access.eval init.arrays i = some n := by
      rw [hinit]
      dsimp only
      rw [harrays, heval i hlt, he, Option.bind_some, initialValue, hn]
    have hlength := s.buckets.length_all
    have hfull := h.ok.full
    have hcreate : init.create platform n = n := by
      refine create_eq platform (k := k) (by omega) hrange fun hlong => ?_
      have hlong' := of_decide_eq_true hlong
      omega
    have hvalue : intOf e = n := by rw [intOf, initialValue, hn, Option.getD_some]
    simp only [Nat.zero_add, hread, Option.bind_eq_bind, Option.bind_some, hcreate, hvalue]
    rfl

/-! ## The definitions of the names -/

theorem defineConstants_map {α β : Type} (l : List (CName × α)) (g : CName × α → β) (offset : ℕ) :
    defineConstants (l.map fun e => (e.1, g e)) offset = defineConstants l offset := by
  rw [defineConstants, List.zipIdx_map, List.map_map]
  rfl

theorem map_fst_defineConstants {α : Type} (l : List (CName × α)) (offset : ℕ) :
    (defineConstants l offset).map Prod.fst = l.map Prod.fst := by
  have hfst : Prod.fst ∘ (fun p : (CName × α) × ℕ => (p.1.1, offset + p.2)) =
      Prod.fst ∘ Prod.fst := rfl
  rw [defineConstants, List.map_map]
  change l.zipIdx.map (Prod.fst ∘ fun p : (CName × α) × ℕ => (p.1.1, offset + p.2)) = _
  rw [hfst, ← List.map_map, List.zipIdx_map_fst]

theorem mem_defineConstants {α : Type} {l : List (CName × α)} {i : ℕ} {e : CName × α}
    (h : l[i]? = some e) : (e.1, i) ∈ defineConstants l 0 := by
  refine List.mem_map.2 ⟨(e, i), List.mem_zipIdx_iff_getElem?.2 h, ?_⟩
  dsimp only
  rw [Nat.zero_add]

theorem Collected.defines_entries (s : Collected)
    (hcount : s.intCount = s.buckets.all.flatten.length) :
    defineConstants (s.entries f) 0 = defineConstants s.floats 0 ++
      defineConstants s.buckets.all.flatten s.floats.length ++
        defineConstants s.large (s.floats.length + s.intCount) := by
  rw [Collected.entries, defineConstants_append, defineConstants_append, defineConstants_map,
    defineConstants_map, defineConstants_map, List.length_map, List.length_map, Nat.zero_add,
    List.append_assoc, hcount]

/-! ## What is generated -/

/-- The output of the lists. -/
def Collected.output (s : Collected) (ints : List (CName × ℕ) × Option IntInit)
    (large : List (CName × ℕ) × Option LargeInit) : Output :=
  ⟨s.floats.length + (s.intCount + s.large.length),
    defineConstants s.floats 0 ++ ints.1 ++ large.1, s.floats.map Prod.snd, ints.2, large.2⟩

/-- What an initialisation with arrays promises. -/
structure IntInit.Ok (init : IntInit) : Prop where
  fits : ∀ array ∈ init.arrays, ∀ text ∈ array.values,
    ∃ n, cInteger text = some n ∧ array.type.InRange n
  access : ∀ i < init.count, init.access.eval init.arrays i =
    (init.arrays.flatMap IntArray.values)[i]?.bind cInteger

theorem fits_arraysOf {bs : List (List Initialiser)} {k : ℕ}
    (hfits : ∀ j bucket, bs[j]? = some bucket → ∀ e ∈ bucket, Fits (k + j) e) :
    ∀ array ∈ arraysOf k bs, ∀ text ∈ array.values,
      ∃ n, cInteger text = some n ∧ array.type.InRange n := by
  induction bs generalizing k with
  | nil => exact fun array harray => absurd harray List.not_mem_nil
  | cons b bs ih =>
    have hrest := @ih (k + 1) fun j bucket hj e he => by
      have h := hfits (j + 1) bucket hj e he
      rwa [← Nat.add_assoc, Nat.add_right_comm] at h
    rw [arraysOf]
    split
    next => exact hrest
    next =>
      refine List.forall_mem_cons.2 ⟨fun text htext => ?_, hrest⟩
      obtain ⟨e, he, rfl⟩ := List.mem_map.1 htext
      exact hfits 0 b rfl e he

theorem values_arraysOf (bs : List (List Initialiser)) (k : ℕ) :
    (arraysOf k bs).flatMap IntArray.values = bs.flatten.map Prod.snd := by
  induction bs generalizing k with
  | nil => rfl
  | cons b bs ih =>
    rw [arraysOf]
    split
    next hnil => rw [ih, hnil]; rfl
    next => rw [List.flatMap_cons, ih, List.flatten_cons, List.map_append]

theorem Collected.Holds.generateInts_spec (h : s.Holds done) (platform : Platform) :
    ∃ ints, generateInts s = some ints ∧
      ints.1 = defineConstants s.buckets.all.flatten s.floats.length ∧
      (∀ init, ints.2 = some init → init.Ok) ∧
      ∀ before after : Table f, before.length = s.floats.length →
        (ints.2.elim (some (before ++ (List.replicate s.intCount none ++ after)))
          fun init => init.run platform (before ++ (List.replicate s.intCount none ++ after))) =
        some (before ++ (s.buckets.all.flatten.map (fun e => some (.int (intOf e))) ++ after)) := by
  rw [generateInts]
  split
  next hzero =>
    have hnil : s.buckets.all.flatten = [] := List.length_eq_zero_iff.1 (h.count ▸ hzero)
    refine ⟨_, rfl, by rw [hnil]; rfl,
      fun init hinit => absurd hinit.symm (Option.some_ne_none init), fun before after _ => ?_⟩
    rw [hnil, hzero]
    rfl
  next hne =>
    obtain ⟨b, heq, harrays, hdefines, heval⟩ := h.intArrays_eq hne s.floats.length
    refine ⟨_, by rw [heq]; rfl, hdefines, ?_, ?_⟩
    · intro init hinit
      obtain rfl := Option.some.inj hinit
      refine ⟨?_, fun i hi => ?_⟩
      · rw [harrays]
        exact fits_arraysOf fun j bucket hj e he => by
          rw [Nat.zero_add]
          exact h.ok.fits j bucket hj e he
      · dsimp only
        rw [harrays, heval i hi, values_arraysOf, List.getElem?_map]
        cases s.buckets.all.flatten[i]? <;> rfl
    · intro before after hbefore
      have hrun := h.runInts platform before after harrays heval
      rw [hbefore] at hrun
      exact hrun

theorem generateLarge_spec (s : Collected) : ∃ large, generateLarge s = some large ∧
    large.1 = defineConstants s.large (s.floats.length + s.intCount) ∧
    ∀ before : Table f, before.length = s.floats.length + s.intCount →
      (large.2.elim (some (before ++ List.replicate s.large.length none))
        fun init => init.run (before ++ List.replicate s.large.length none)) =
      some (before ++ s.large.map fun e => some (.int e.2)) := by
  rw [generateLarge]
  split
  next hnil =>
    refine ⟨_, rfl, by rw [hnil]; rfl, fun before _ => ?_⟩
    rw [hnil]
    rfl
  next hne =>
    have hnumbers : s.large.map Prod.snd ≠ [] := fun h => hne (List.map_eq_nil_iff.1 h)
    obtain ⟨text, -, htext, -, -⟩ := cString_largeText hnumbers
    refine ⟨_, by rw [htext]; rfl, rfl, fun before hbefore => ?_⟩
    have hrun := LargeInit.run_spec hnumbers htext before
    rw [List.length_map, List.map_map, hbefore] at hrun
    exact hrun

/-- The array has the numbers of the lists, under their names. -/
theorem Collected.Holds.run_spec (h : s.Holds done) (platform : Platform)
    (hfloats : ∀ e ∈ s.floats, (cDouble f e.2).isSome) :
    ∃ ints large, generateInts s = some ints ∧ generateLarge s = some large ∧
      (s.output ints large).defines = defineConstants (s.entries f) 0 ∧
      (∀ init, (s.output ints large).ints = some init → init.Ok) ∧
      (s.output ints large).run platform =
        some ((s.entries f).map fun e => some e.2 : Table f) := by
  obtain ⟨ints, hints, hdefines, hok, hrun⟩ := h.generateInts_spec (f := f) platform
  obtain ⟨large, hlarge, hdefines', hrun'⟩ := generateLarge_spec (f := f) s
  refine ⟨ints, large, hints, hlarge, ?_, hok, ?_⟩
  · rw [Collected.output, s.defines_entries h.count, hdefines, hdefines']
  · have hsplit :
        (List.replicate (s.floats.length + (s.intCount + s.large.length)) none : Table f) =
        List.replicate s.floats.length none ++
          (List.replicate s.intCount none ++ List.replicate s.large.length none) := by
      rw [List.replicate_append_replicate, List.replicate_append_replicate]
    rw [Output.run, Collected.output, hsplit]
    dsimp only
    rw [runFloats_spec hfloats, Option.bind_eq_bind, Option.bind_some,
      hrun _ _ (by rw [List.length_map]), Option.bind_some]
    have hlength : (s.floats.map (fun e => some (.float (floatOf f e))) ++
        s.buckets.all.flatten.map (fun e => some (.int (intOf e))) : Table f).length =
          s.floats.length + s.intCount := by
      rw [List.length_append, List.length_map, List.length_map, h.count]
    rw [← List.append_assoc, hrun' _ hlength, Collected.entries]
    simp only [List.map_append, List.map_map, List.append_assoc]
    rfl

/-! ## The constants of a module -/

/-- The number that a constant was registered for. -/
def Registered.number (f : FloatFormat) (r : Registered) : Option (PyNumber f) :=
  if r.pyType = .float then (pyFloat f r.value).map .float else (pyInt r.value).map .int

/-- The registered constants are in the array under their names. -/
structure Correct (f : FloatFormat) (platform : Platform) (cs : List Registered) (out : Output) :
    Prop where
  /-- Only one constant has a name. -/
  names : ∀ r ∈ cs, ∀ r' ∈ cs, r.const.cname = r'.const.cname → r.key = r'.key
  defines : (out.defines.map Prod.fst).Nodup
  /-- The integers fit the types of the arrays, and are read from the right ones. -/
  ints : ∀ init, out.ints = some init → init.Ok
  slots : ∃ table : Table f, out.run platform = some table ∧ ∀ r ∈ cs, ∃ i number,
    (r.const.cname, i) ∈ out.defines ∧ r.number f = some number ∧ table[i]? = some (some number)

theorem nodup_cnames {gs : GlobalState} (h : gs.Ok f) :
    ((sortedConsts gs).map NumConst.cname).Nodup := by
  have hperm : (sortedConsts gs).Perm (gs.numConstIndex.entries.map Prod.snd) :=
    List.mergeSort_perm _ _
  refine (hperm.map NumConst.cname).nodup_iff.2 ?_
  rw [List.map_map]
  refine List.Nodup.map_on ?_ (List.Nodup.of_map Prod.fst gs.numConstIndex.nodup)
  rintro ⟨key, c⟩ hc ⟨key', c'⟩ hc' heq
  rw [← OrderedDict.get?_eq_some_iff] at hc hc'
  obtain rfl := h.injective hc hc' heq
  rw [Option.some.inj (hc.symm.trans hc')]

theorem mem_sortedConsts {gs : GlobalState} {c : NumConst} :
    c ∈ sortedConsts gs ↔ ∃ key, gs.numConstIndex.get? key = some c := by
  have hperm : (sortedConsts gs).Perm (gs.numConstIndex.entries.map Prod.snd) :=
    List.mergeSort_perm _ _
  rw [hperm.mem_iff, List.mem_map]
  constructor
  · rintro ⟨⟨key, c'⟩, hc, rfl⟩
    exact ⟨key, OrderedDict.get?_eq_some_iff.2 hc⟩
  · rintro ⟨key, hc⟩
    exact ⟨(key, c), OrderedDict.get?_eq_some_iff.1 hc, rfl⟩

/-- What is generated for the constants that are kept. -/
theorem GlobalState.Ok.generate_spec {gs : GlobalState} (h : gs.Ok f) (platform : Platform) :
    ∃ out, generate gs = some out ∧ (out.defines.map Prod.fst).Nodup ∧
      (∀ init, out.ints = some init → init.Ok) ∧
      ∃ table : Table f, out.run platform = some table ∧
        ∀ key c, gs.numConstIndex.get? key = some c → ∃ i number, (c.cname, i) ∈ out.defines ∧
          Registered.number f ⟨key.1, key.2, c⟩ = some number ∧ table[i]? = some (some number) := by
  have hconst : ∀ c ∈ sortedConsts gs, c.Ok f gs.constCnamesUsed (c.value, c.pyType) := by
    intro c hc
    obtain ⟨key, hkey⟩ := mem_sortedConsts.1 hc
    have hok := h.const hkey
    exact ⟨rfl, hok.spelled, hok.code, hok.named⟩
  have hint : ∀ c ∈ sortedConsts gs, c.pyType ≠ .float →
      strToNumber c.value = pyInt c.value ∧ (pyInt c.value).isSome := by
    intro c hc hfloat
    have hs := (hconst c hc).spelled
    rw [Spelled, if_neg hfloat] at hs
    exact ⟨strToNumber_eq hs, hs.accepted⟩
  have hfloat : ∀ c ∈ sortedConsts gs, c.pyType = .float →
      cDouble f c.valueCode = pyFloat f c.value ∧ (pyFloat f c.value).isSome := by
    intro c hc hfloat
    have hs := (hconst c hc).spelled
    rw [Spelled, if_pos hfloat] at hs
    have hvalue := cDouble_getConstantCResultCode hs
    rw [(hconst c hc).code hfloat, Option.bind_some] at hvalue
    exact ⟨hvalue, hs.accepted⟩
  obtain ⟨s, hs, hholds⟩ := collectAll_spec holds_empty fun c hc hne => by
    rw [(hint c hc hne).1]
    exact (hint c hc hne).2
  rw [List.nil_append] at hholds
  have hcodes : ∀ e ∈ s.floats, (cDouble f e.2).isSome := by
    intro e he
    obtain ⟨c, hc, htype, hcode⟩ := hholds.float_codes e he
    rw [← hcode, (hfloat c hc htype).1]
    exact (hfloat c hc htype).2
  obtain ⟨ints, large, hints, hlarge, hdefines, hok, hrun⟩ := hholds.run_spec platform hcodes
  have hcount : (sortedConsts gs).length = s.floats.length + (s.intCount + s.large.length) := by
    have hlength := hholds.names.length_eq
    simp only [List.length_append, List.length_map] at hlength
    rw [hholds.count, hlength]
  refine ⟨s.output ints large, ?_, ?_, hok, _, hrun, ?_⟩
  · have hs' : collectAll (sortedConsts gs) = some s := hs
    rw [generate, hs']
    simp only [Option.bind_eq_bind, Option.bind_some, hints, hlarge, hcount]
    rfl
  · rw [hdefines, map_fst_defineConstants, Collected.entries, List.map_append, List.map_append,
      List.map_map, List.map_map, List.map_map]
    exact hholds.names.nodup_iff.2 (nodup_cnames h)
  · intro key c hkey
    have hc := mem_sortedConsts.2 ⟨key, hkey⟩
    have hkeyEq := (h.const hkey).key_eq
    have hentry : ∃ number, Registered.number f ⟨key.1, key.2, c⟩ = some number ∧
        (c.cname, number) ∈ s.entries f := by
      rw [← hkeyEq, Registered.number]
      dsimp only
      by_cases htype : c.pyType = .float
      · obtain ⟨hvalue, hsome⟩ := hfloat c hc htype
        obtain ⟨x, hx⟩ := Option.isSome_iff_exists.1 hsome
        refine ⟨.float x, by rw [if_pos htype, hx]; rfl, List.mem_append_left _ ?_⟩
        refine List.mem_map.2 ⟨_, hholds.floats c hc htype, ?_⟩
        rw [floatOf, hvalue, hx, Option.getD_some]
      · obtain ⟨hvalue, hsome⟩ := hint c hc htype
        obtain ⟨n, hn⟩ := Option.isSome_iff_exists.1 hsome
        refine ⟨.int n, by rw [if_neg htype, hn]; rfl, List.mem_append_right _ ?_⟩
        rcases hholds.ints c hc htype n (hvalue.trans hn) with ⟨text, hmem, htext⟩ | hmem
        · refine List.mem_append_left _ (List.mem_map.2 ⟨_, hmem, ?_⟩)
          rw [intOf, initialValue, htext, Option.getD_some]
        · exact List.mem_append_right _ (List.mem_map.2 ⟨_, hmem, rfl⟩)
    obtain ⟨number, hnumber, hmem⟩ := hentry
    obtain ⟨i, hi⟩ := List.getElem?_of_mem hmem
    refine ⟨i, number, ?_, hnumber, by rw [List.getElem?_map, hi]; rfl⟩
    rw [hdefines]
    exact mem_defineConstants hi

/-- Each name is defined to the item with the number that was registered. -/
theorem generate_correct (platform : Platform) {rs : List Registration}
    (hrs : ∀ r ∈ rs, r.Valid f) :
    ∃ cs gs out, registerAll f .empty rs = some (cs, gs) ∧
      cs.map Registered.key = rs.filterMap Registration.key ∧ generate gs = some out ∧
      Correct f platform cs out := by
  obtain ⟨cs, gs, hreg, hret⟩ := registerAll_spec ok_empty hrs
  obtain ⟨out, hout, hnodup, hints, table, hrun, hslots⟩ := hret.ok.generate_spec platform
  refine ⟨cs, gs, out, hreg, hret.keys, hout, ⟨?_, hnodup, hints, table, hrun, ?_⟩⟩
  · intro r hr r' hr' heq
    exact hret.ok.injective (hret.found r hr) (hret.found r' hr') heq
  · intro r hr
    exact hslots r.key r.const (hret.found r hr)

theorem precision_doubleFormat : 0 < 53 := Nat.succ_pos 52

/-- The format of `double`. -/
def doubleFormat : FloatFormat := ⟨53, -1074, 1024, precision_doubleFormat⟩

theorem le_long_int : 32 ≤ CIntType.int.width := le_rfl

/-- A platform with the least `long`. -/
def narrowLong : Platform := ⟨.int, rfl, le_long_int⟩

/-- Constants of all kinds, with values at the bounds of the types and beyond. -/
def boundConstants : List Registration :=
  [.int "-128".toList false, .int "-128".toList true, .float "1.5e+3".toList,
    .int "0x7fffffffffffffff".toList false, .int "-9223372036854775808".toList false]

theorem valid_boundConstants : ∀ r ∈ boundConstants, r.Valid doubleFormat := by
  simp only [boundConstants, List.forall_mem_cons, Registration.Valid]
  refine ⟨⟨by decide, by decide, by decide⟩, ⟨by decide, by decide, by decide⟩, ?_,
    ⟨by decide, by decide, by decide⟩, ⟨by decide, by decide, by decide⟩, by simp⟩
  exact ⟨rfl, by decide, by decide, '.', by decide, by decide, by decide⟩

theorem generate_correct_bounds : ∃ cs gs out,
    registerAll doubleFormat .empty boundConstants = some (cs, gs) ∧
      cs.map Registered.key = boundConstants.filterMap Registration.key ∧
      generate gs = some out ∧ Correct doubleFormat narrowLong cs out :=
  generate_correct narrowLong valid_boundConstants

end AHPy.NumberTable
