import AHPy.Dependencies.TransitiveMerge

/-!
# Merges of distutils settings

`DistutilsInfo.merge`, the extraction `distutils_info0`, and their transitive
merges. An info is an object that `parse_dependencies` caches, and that both
functions change: it lives at the address of its file.

What a transitive merge has does not depend on the order of the queries or of
the `cimport`s, except for the orders of lists, and for which language is taken
if there are several (`transitiveMerge_results`).
-/

namespace AHPy.Dependencies

variable {Node : Type} [DecidableEq Node]

/-! ## Merges that do not depend on the order -/

/-- An extraction of values, and a merge that is their least upper bound, as
    `set.union` is that of sets. -/
def supExtraction {L : Type} [SemilatticeSup L] (base : Node → L) : Extraction Node Unit L where
  extract := fun n s => (base n, s)
  merge := fun a b s => (a ⊔ b, s)

/-- A value stands for the nodes of whose values it is the least upper bound. -/
def supLaws {L : Type} [SemilatticeSup L] (base : Node → L) (outgoing : Node → List Node) :
    Laws (supExtraction base) outgoing L where
  look := fun _ d => d
  own := fun _ _ => True
  Stands := fun v T => IsLUB (base '' T) v
  Inv := fun _ => True
  extract_inv := fun _ _ _ => trivial
  extract_own := fun _ _ => trivial
  extract_stands := fun n _ _ => ⟨{n}, rfl, Set.singleton_subset_iff.2 (mem_reach_self outgoing n), by
    rw [Set.image_singleton]
    exact isLUB_singleton⟩
  extract_keeps := fun _ _ _ _ _ _ _ h => h
  extract_frame := fun _ _ _ _ _ _ => rfl
  merge_inv := fun _ _ _ _ _ _ _ _ _ _ _ _ _ => trivial
  merge_own := fun _ _ _ _ _ => trivial
  merge_stands := fun _ _ _ _ _ _ _ h h' => by
    rw [Set.image_union]
    exact h.union h'
  merge_frame := fun _ _ _ _ _ _ _ _ _ => rfl

/-! ## Infos -/

/-- The keys of `distutils_settings` that are `transitive_list`. -/
inductive TransitiveList
  | libraries
  | libraryDirs
  | runtimeLibraryDirs
  | includeDirs
  | extraCompileArgs
  | extraLinkArgs
  | depends
  deriving DecidableEq

/-- The keys that are not transitive. -/
inductive OwnKey
  | name
  | sources
  | defineMacros
  | undefMacros
  | extraObjects
  | exportSymbols

/-- The values of keys that are not transitive. -/
inductive OwnValue
  | text (s : String)
  | items (l : List String)
  | macros (l : List (String × Option String))

/-- `DistutilsInfo.values`, by the types of the keys: `language` is
    `transitive_str`, and `np_pythran` is `bool_or`. -/
structure Info where
  lists : TransitiveList → Option (List String)
  language : Option String
  npPythran : Option Bool
  own : OwnKey → Option OwnValue

/-- `all.append(v)`, unless it is there. -/
def appendNew (all : List String) (v : String) : List String := if v ∈ all then all else all ++ [v]

/-- The merge of a list into the list that is there, a *copy* of which is changed. -/
def mergeList (own : Option (List String)) (other : Option (List String)) : Option (List String) :=
  match other with
  | none => own
  | some value =>
    match own with
    | some all => some (value.foldl appendNew all)
    | none => some value

/-- `DistutilsInfo.merge` -/
def Info.merge (self other : Info) : Info where
  lists := fun key => mergeList (self.lists key) (other.lists key)
  language := self.language.or other.language
  npPythran := other.npPythran.elim self.npPythran fun value => some (self.npPythran.getD false || value)
  own := self.own

/-- What the extraction reads of files: the parsed infos, and the files and
    directories of `cdef extern from` statements. -/
structure Files (Node : Type) where
  /-- `parse_dependencies(filename)[3]` -/
  parsed : Node → Info
  /-- `externs` and `incdirs` of `cimports_externs_incdirs(filename)` -/
  externs : Node → List String
  incdirs : Node → List String
  /-- `list` of a set with the given elements, in the order in which it is iterated. -/
  listOfSet : List String → List String
  mem_listOfSet : ∀ l s, s ∈ listOfSet l ↔ s ∈ l

/-- The changes that `distutils_info0` makes to an info. -/
def Files.addDependencies (fs : Files Node) (node : Node) (info : Info) : Info where
  lists := fun key =>
    match key with
    | .depends =>
      if fs.externs node = [] then info.lists .depends
      else match info.lists .depends with
        | some depends => some (fs.listOfSet (depends ++ fs.externs node))
        | none => some (fs.externs node)
    | .includeDirs =>
      if fs.incdirs node = [] then info.lists .includeDirs
      else some ((fs.incdirs node).foldl appendNew ((info.lists .includeDirs).getD []))
    | key => info.lists key
  language := info.language
  npPythran := info.npPythran
  own := info.own

/-- The infos that have been parsed. -/
abbrev Infos (Node : Type) := Node → Option Info

/-- `distutils_info0` and `DistutilsInfo.merge`: an object is the info of a file. -/
def Files.extraction (fs : Files Node) : Extraction Node (Infos Node) Node where
  extract := fun n infos =>
    (n, Function.update infos n (some (fs.addDependencies n ((infos n).getD (fs.parsed n)))))
  merge := fun a b infos =>
    (a, match infos a, infos b with
      | some self, some other => Function.update infos a (some (self.merge other))
      | _, _ => infos)

/-- What is extracted from a file. -/
def Files.base (fs : Files Node) (node : Node) : Info := fs.addDependencies node (fs.parsed node)

/-! ## What infos stand for -/

theorem mem_appendNew {all : List String} {v s : String} : s ∈ appendNew all v ↔ s ∈ all ∨ s = v := by
  rw [appendNew]
  by_cases hv : v ∈ all
  · rw [if_pos hv]
    exact ⟨.inl, fun h => h.elim id fun h => h ▸ hv⟩
  · rw [if_neg hv, List.mem_append, List.mem_singleton]

theorem mem_foldl_appendNew {value all : List String} {s : String} :
    s ∈ value.foldl appendNew all ↔ s ∈ all ∨ s ∈ value := by
  induction value generalizing all with
  | nil => simp
  | cons v value ih => rw [List.foldl_cons, ih, mem_appendNew, List.mem_cons, or_assoc]

theorem mergeList_ne_none {own other : Option (List String)} :
    mergeList own other ≠ none ↔ own ≠ none ∨ other ≠ none := by
  rcases own with _ | own <;> rcases other with _ | other <;> simp [mergeList]

theorem mem_mergeList {own other : Option (List String)} {s : String} :
    s ∈ (mergeList own other).getD [] ↔ s ∈ own.getD [] ∨ s ∈ other.getD [] := by
  rcases own with _ | own <;> rcases other with _ | other <;>
    simp [mergeList, mem_foldl_appendNew]

/-- `info` is a merge of the infos of the nodes `T`: its lists have the elements
    of their lists, its language is one of theirs, and its boolean is the or of
    theirs. -/
structure MergeOf (base : Node → Info) (T : Set Node) (info : Info) : Prop where
  lists_ne_none : ∀ key, info.lists key ≠ none ↔ ∃ m ∈ T, (base m).lists key ≠ none
  mem_lists : ∀ key s, s ∈ (info.lists key).getD [] ↔ ∃ m ∈ T, s ∈ ((base m).lists key).getD []
  language_ne_none : info.language ≠ none ↔ ∃ m ∈ T, (base m).language ≠ none
  language : ∀ v, info.language = some v → ∃ m ∈ T, (base m).language = some v
  npPythran_ne_none : info.npPythran ≠ none ↔ ∃ m ∈ T, (base m).npPythran ≠ none
  npPythran : info.npPythran = some true ↔ ∃ m ∈ T, (base m).npPythran = some true

section

omit [DecidableEq Node]

theorem MergeOf.self (base : Node → Info) (n : Node) : MergeOf base {n} (base n) where
  lists_ne_none := fun key => by simp
  mem_lists := fun key s => by simp
  language_ne_none := by simp
  language := fun v h => ⟨n, rfl, h⟩
  npPythran_ne_none := by simp
  npPythran := by simp

theorem exists_mem_union {T U : Set Node} {p : Node → Prop} :
    (∃ m ∈ T ∪ U, p m) ↔ (∃ m ∈ T, p m) ∨ ∃ m ∈ U, p m := by
  simp only [Set.mem_union, or_and_right, exists_or]

theorem MergeOf.merge {base : Node → Info} {T U : Set Node} {self other : Info}
    (h : MergeOf base T self) (h' : MergeOf base U other) :
    MergeOf base (T ∪ U) (self.merge other) where
  lists_ne_none := fun key => by
    rw [exists_mem_union, ← h.lists_ne_none, ← h'.lists_ne_none]
    exact mergeList_ne_none
  mem_lists := fun key s => by
    rw [exists_mem_union, ← h.mem_lists, ← h'.mem_lists]
    exact mem_mergeList
  language_ne_none := by
    rw [exists_mem_union, ← h.language_ne_none, ← h'.language_ne_none, Info.merge]
    rcases self.language with _ | v <;> simp
  language := fun v hv => by
    rw [exists_mem_union]
    rcases hs : self.language with _ | w
    · exact .inr (h'.language v (by simpa [Info.merge, hs] using hv))
    · exact .inl (h.language v (by simpa [Info.merge, hs] using hv))
  npPythran_ne_none := by
    rw [exists_mem_union, ← h.npPythran_ne_none, ← h'.npPythran_ne_none, Info.merge]
    rcases self.npPythran with _ | v <;> rcases other.npPythran with _ | w <;> simp
  npPythran := by
    rw [exists_mem_union, ← h.npPythran, ← h'.npPythran, Info.merge]
    rcases self.npPythran with _ | v <;> rcases other.npPythran with _ | w <;> simp

/-- What the extraction adds is there already if the info has what was extracted. -/
theorem MergeOf.addDependencies {fs : Files Node} {T : Set Node} {n : Node} {info : Info}
    (hn : n ∈ T) (h : MergeOf fs.base T info) : MergeOf fs.base T (fs.addDependencies n info) where
  lists_ne_none := fun key => by
    rw [← h.lists_ne_none]
    rcases key with _ | _ | _ | _ | _ | _ | _
    all_goals try exact Iff.rfl
    · simp only [Files.addDependencies]
      by_cases he : fs.incdirs n = []
      · rw [if_pos he]
      · rw [if_neg he]
        refine iff_of_true (Option.some_ne_none _) ((h.lists_ne_none _).2 ⟨n, hn, ?_⟩)
        simp [Files.base, Files.addDependencies, he]
    · simp only [Files.addDependencies]
      by_cases he : fs.externs n = []
      · rw [if_pos he]
      · rw [if_neg he]
        refine iff_of_true (by split <;> simp) ((h.lists_ne_none _).2 ⟨n, hn, ?_⟩)
        simp only [Files.base, Files.addDependencies, if_neg he]
        split <;> simp
  mem_lists := fun key s => by
    rw [← h.mem_lists]
    rcases key with _ | _ | _ | _ | _ | _ | _
    all_goals try exact Iff.rfl
    · simp only [Files.addDependencies]
      by_cases he : fs.incdirs n = []
      · rw [if_pos he]
      · rw [if_neg he, Option.getD_some, mem_foldl_appendNew]
        refine or_iff_left_of_imp fun hs => (h.mem_lists _ s).2 ⟨n, hn, ?_⟩
        simp only [Files.base, Files.addDependencies, if_neg he, Option.getD_some]
        exact mem_foldl_appendNew.2 (.inr hs)
    · simp only [Files.addDependencies]
      by_cases he : fs.externs n = []
      · rw [if_pos he]
      · have hbase : s ∈ fs.externs n → s ∈ (info.lists .depends).getD [] := by
          refine fun hs => (h.mem_lists _ s).2 ⟨n, hn, ?_⟩
          simp only [Files.base, Files.addDependencies, if_neg he]
          rcases (fs.parsed n).lists .depends with _ | depends
          · exact hs
          · exact (fs.mem_listOfSet _ s).2 (List.mem_append_right _ hs)
        rw [if_neg he]
        rcases hd : info.lists .depends with _ | depends
        · rw [hd] at hbase
          exact ⟨hbase, fun hs => absurd hs List.not_mem_nil⟩
        · rw [hd] at hbase
          rw [Option.getD_some, fs.mem_listOfSet, List.mem_append]
          exact or_iff_left_of_imp hbase
  language_ne_none := h.language_ne_none
  language := h.language
  npPythran_ne_none := h.npPythran_ne_none
  npPythran := h.npPythran

end

/-- An info keeps what it has itself, where merges do not add to it. -/
structure KeepsOwn (own info : Info) : Prop where
  language : ∀ v, own.language = some v → info.language = some v
  own : info.own = own.own

/-- The infos that have been parsed are merges of infos of reachable nodes. -/
def Files.Inv (fs : Files Node) (outgoing : Node → List Node) (infos : Infos Node) : Prop :=
  ∀ n info, infos n = some info → KeepsOwn (fs.base n) info ∧
    ∃ T, n ∈ T ∧ T ⊆ reach outgoing n ∧ MergeOf fs.base T info

omit [DecidableEq Node] in
/-- An extraction from a node leaves a merge of what the info was a merge of. -/
theorem Files.extract_mergeOf {fs : Files Node} {outgoing : Node → List Node} {infos : Infos Node}
    (h : fs.Inv outgoing infos) (n : Node) :
    KeepsOwn (fs.base n) (fs.addDependencies n ((infos n).getD (fs.parsed n))) ∧
      ∃ T, n ∈ T ∧ T ⊆ reach outgoing n ∧
        MergeOf fs.base T (fs.addDependencies n ((infos n).getD (fs.parsed n))) := by
  rcases hi : infos n with _ | info
  · exact ⟨⟨fun v hv => hv, rfl⟩, {n}, rfl, Set.singleton_subset_iff.2 (mem_reach_self outgoing n),
      .self fs.base n⟩
  · obtain ⟨hk, T, hn, hT, hm⟩ := h n info hi
    exact ⟨⟨hk.language, hk.own⟩, T, hn, hT, hm.addDependencies hn⟩

theorem Files.Inv.update {fs : Files Node} {outgoing : Node → List Node} {infos : Infos Node}
    (h : fs.Inv outgoing infos) {n : Node} {info : Info} (hk : KeepsOwn (fs.base n) info)
    {T : Set Node} (hn : n ∈ T) (hT : T ⊆ reach outgoing n) (hm : MergeOf fs.base T info) :
    fs.Inv outgoing (Function.update infos n (some info)) := by
  intro m info' hi
  by_cases he : m = n
  · subst he
    rw [Function.update_self] at hi
    obtain rfl := Option.some.inj hi
    exact ⟨hk, T, hn, hT, hm⟩
  · rw [Function.update_of_ne he] at hi
    exact h m info' hi

/-- An info stands for the nodes that it is a merge of. -/
def Files.Stands (fs : Files Node) (o : Option Info) (T : Set Node) : Prop :=
  ∃ info, o = some info ∧ MergeOf fs.base T info

/-- The merge of two infos that are there. -/
theorem Files.merge_eq {fs : Files Node} {infos : Infos Node} {a b : Node} {self other : Info}
    (ha : infos a = some self) (hb : infos b = some other) :
    fs.extraction.merge a b infos = (a, Function.update infos a (some (self.merge other))) := by
  simp only [Files.extraction, ha, hb]

/-- The laws for infos: an object belongs to the file that it is the info of. -/
def Files.laws (fs : Files Node) (outgoing : Node → List Node) :
    Laws fs.extraction outgoing (Option Info) where
  look := fun infos d => infos d
  own := fun d n => d = n
  Stands := fs.Stands
  Inv := fs.Inv outgoing
  extract_inv := fun n infos h => by
    obtain ⟨hk, T, hn, hT, hm⟩ := Files.extract_mergeOf h n
    exact h.update hk hn hT hm
  extract_own := fun n infos => rfl
  extract_stands := fun n infos h => by
    obtain ⟨-, T, hn, hT, hm⟩ := Files.extract_mergeOf h n
    exact ⟨T, hn, hT, _, Function.update_self .., hm⟩
  extract_keeps := fun n infos d T _ hd hn hs => by
    subst hd
    obtain ⟨info, hi, hm⟩ := hs
    refine ⟨_, Function.update_self .., ?_⟩
    rw [hi]
    exact hm.addDependencies hn
  extract_frame := fun n infos d m hd hne => by
    subst hd
    exact Function.update_of_ne hne ..
  merge_inv := fun n infos d e T U h hd hn hT hU hs hs' => by
    subst hd
    obtain ⟨self, hi, hm⟩ := hs
    obtain ⟨other, hi', hm'⟩ := hs'
    rw [Files.merge_eq hi hi']
    have hk := (h d self hi).1
    refine h.update ⟨fun v hv => ?_, hk.own⟩ (.inl hn) (Set.union_subset hT hU) (hm.merge hm')
    show self.language.or other.language = some v
    rw [hk.language v hv]
    rfl
  merge_own := fun n infos d e hd => hd
  merge_stands := fun n infos d e T U hd hs hs' => by
    obtain ⟨self, hi, hm⟩ := hs
    obtain ⟨other, hi', hm'⟩ := hs'
    rw [Files.merge_eq hi hi']
    exact ⟨_, Function.update_self .., hm.merge hm'⟩
  merge_frame := fun n infos d e f m hd hf hne => by
    subst hd hf
    show (match infos d, infos e with
      | some self, some other => Function.update infos d (some (self.merge other))
      | _, _ => infos) f = infos f
    rcases infos d with _ | self
    · rfl
    · rcases infos e with _ | other
      · rfl
      · exact Function.update_of_ne hne ..

/-! ## Results -/

/-- Transitive merges, for any finite graph and any queries that share a cache. If
    the merge is a least upper bound, the result for a node is that of what is
    extracted from the nodes that are reachable. For distutils settings, the
    result is the info of the file, which stays as it is in later queries: its
    lists have the elements of the lists of the reachable files, its language is
    one of theirs, its own if it has one, and its boolean is the or of theirs. -/
theorem transitiveMerge_results [Fintype Node] (outgoing : Node → List Node) (nodes : List Node) :
    (∀ (L : Type) [SemilatticeSup L] (base : Node → L), ∃ results c,
      runQueries (supExtraction base) outgoing (Fintype.card Node + 1) nodes ⟨.empty, ()⟩ =
        some (results, c) ∧
      List.Forall₂ (fun n r => IsLUB (base '' reach outgoing n) r.1) nodes results) ∧
    ∀ fs : Files Node, ∃ results c,
      runQueries fs.extraction outgoing (Fintype.card Node + 1) nodes ⟨.empty, fun _ => none⟩ =
        some (results, c) ∧
      List.Forall₂ (fun n r => r.1 = n ∧ ∃ info, r.2 n = some info ∧ c.state n = some info ∧
        MergeOf fs.base (reach outgoing n) info ∧ KeepsOwn (fs.base n) info) nodes results := by
  constructor
  · intro L _ base
    obtain ⟨results, c, hrun, -, -, hall⟩ := runQueries_spec (supLaws base outgoing)
      (Nat.lt_succ_self _) nodes (c := ⟨.empty, ()⟩) ⟨trivial, fun n d h => by simp at h⟩
    exact ⟨results, c, hrun, hall.imp fun n r h => h.2.1⟩
  · intro fs
    obtain ⟨results, c, hrun, hc, -, hall⟩ := runQueries_spec (fs.laws outgoing)
      (Nat.lt_succ_self _) nodes (c := ⟨.empty, fun _ => none⟩)
      ⟨fun n info h => absurd h.symm (Option.some_ne_none info), fun n d h => by simp at h⟩
    refine ⟨results, c, hrun, hall.imp ?_⟩
    rintro n ⟨d, infos⟩ ⟨hown, ⟨info, hi, hm⟩, hsame⟩
    obtain rfl : d = n := hown
    have hi' : c.state d = some info := hsame.trans hi
    exact ⟨rfl, info, hi, hi', hm, (hc.inv d info hi').1⟩

/-- Three files, of which the last two link with a library each. -/
def libraryFiles : Files (Fin 3) where
  parsed := fun n =>
    { lists := fun key =>
        if key = .libraries then if n = 1 then some ["b"] else if n = 2 then some ["c"] else none
        else none
      language := none
      npPythran := none
      own := fun _ => none }
  externs := fun _ => []
  incdirs := fun _ => []
  listOfSet := id
  mem_listOfSet := fun _ _ => Iff.rfl

/-- The libraries of `file` after a query of the first file. -/
def librariesAfter (outgoing : Fin 3 → List (Fin 3)) (file : Fin 3) : Option (List String) := do
  let r ← runQueries libraryFiles.extraction outgoing 4 [0] ⟨.empty, fun _ => none⟩
  let info ← r.2.state file
  info.lists .libraries

/-- The order of the outgoing edges decides on the order of a list; and a query
    changes what has been extracted from a file on its way. -/
theorem transitiveMerge_order_counterexample :
    librariesAfter (fun n => if n = 0 then [1, 2] else []) 0 = some ["b", "c"] ∧
      librariesAfter (fun n => if n = 0 then [2, 1] else []) 0 = some ["c", "b"] ∧
      (libraryFiles.base 1).lists .libraries = some ["b"] ∧
      librariesAfter (fun n => if n = 0 then [1] else if n = 1 then [2] else []) 1 =
        some ["b", "c"] := by
  decide

end AHPy.Dependencies
