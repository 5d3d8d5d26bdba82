import AHPy.Lib.Guarantees

/-!
# Included files

`DependencyTree.included_files` and `cimports_externs_incdirs` of `Dependencies.py`,
with the caches of `cached_method`. A result is cached when a call returns; a call
inside of another one of the same file finds nothing in the cache and starts over.

* `included_files_ensures`, `cimports_externs_incdirs_ensures`: what is returned, with
  whatever was cached before, is right;
* `exact_iff`: the functions return, given enough stack, if and only if no file that is
  reachable includes itself, over other files or not.
-/

namespace AHPy.Dependencies

open Relation

/-- What `parse_dependencies` finds in a file, apart from the settings. -/
structure Parsed where
  cimports : List String
  includes : List String
  externs : List String

/-- The files: what the functions of `os.path`, `parse_dependencies` and the context tell
    of them. -/
structure Project where
  sep : String
  joinPath : String → String → String
  dirname : String → String
  normpath : String → String
  isabs : String → Bool
  pathExists : String → Bool
  osPathExists : String → Bool
  parse : String → Parsed
  /-- The directories of the context, with the standard one. -/
  includeDirectories : List String
  /-- The order in which a set of strings is iterated over. -/
  iterate : Finset String → List String
  mem_iterate : ∀ s x, x ∈ iterate s ↔ x ∈ s

/-- What `cimports_externs_incdirs` returns. -/
structure FoundDependencies where
  cimports : Finset String
  externs : List String
  incdirs : Finset String

/-- The caches of the two methods. -/
structure Caches where
  includedFiles : OrderedDict String (Finset String)
  cimportsExternsIncdirs : OrderedDict String FoundDependencies

/-- The stack is full. -/
inductive RecursionError where
  | maximumRecursionDepthExceeded

namespace Project

variable (p : Project)

/-- `DependencyTree.parse_dependencies`. -/
def parseDependencies (filename : String) : Parsed :=
  p.parse (if p.pathExists filename then p.normpath filename else filename)

/-- `find_include_file` of the context: the first directory with the file, from that of
    the source on. -/
def findIncludeFile (filename sourceFilePath : String) : Option String :=
  ((p.dirname sourceFilePath :: p.includeDirectories).map fun dir => p.joinPath dir filename).find?
    p.osPathExists

/-- The path of an included file, if it exists. -/
def includePath (filename include_ : String) : Option String :=
  let path := p.joinPath (p.dirname filename) include_
  let includePath := if p.pathExists path then some path else p.findIncludeFile include_ filename
  match includePath with
  | none => none
  | some path =>
    if path = "" then none
    else if ("." ++ p.sep).toList <:+: path.toList then some (p.normpath path)
    else some path

/-- The files included by a file, and by those; `limit` is the size of the stack. -/
def includedFiles : Nat → String → EStateM RecursionError Caches (Finset String)
  | 0, _ => throw .maximumRecursionDepthExceeded
  | limit + 1, filename =>
    memoised Caches.includedFiles (fun cache c => { c with includedFiles := cache }) filename
      ((p.parseDependencies filename).includes.foldlM (fun all include_ => do
        match p.includePath filename include_ with
        | none => return all
        | some path => do
          let included ← includedFiles limit path
          return insert path all ∪ included) ∅)

/-- A name as `normalize_existing` has it. -/
def normalizeExisting (filename rel : String) : String :=
  if p.isabs rel then rel
  else
    let path := p.joinPath (p.dirname filename) rel
    if p.pathExists path then p.normpath path else rel

/-- Whether `normalize_existing` needed the directory. -/
def neededBase (filename : String) (rels : Finset String) : Bool :=
  (p.iterate rels).any fun rel =>
    !p.isabs rel && p.pathExists (p.joinPath (p.dirname filename) rel)

/-- The last lines of `cimports_externs_incdirs`. -/
def finish (filename : String) (cimports externs incdirs : Finset String) : FoundDependencies where
  cimports := cimports
  externs := (p.iterate externs).map (p.normalizeExisting filename)
  incdirs :=
    if p.neededBase filename externs ∧ p.dirname filename ≠ "" then
      insert (p.dirname filename) incdirs
    else incdirs

/-- The `cimport`s, `extern`s and directories of a file and its included files. -/
def cimportsExternsIncdirs : Nat → String → EStateM RecursionError Caches FoundDependencies
  | 0, _ => throw .maximumRecursionDepthExceeded
  | limit + 1, filename =>
    memoised Caches.cimportsExternsIncdirs
      (fun cache c => { c with cimportsExternsIncdirs := cache }) filename (do
        let parsed := p.parseDependencies filename
        let included ← p.includedFiles limit filename
        let found ← (p.iterate included).foldlM
          (fun (found : Finset String × Finset String × Finset String) include_ => do
            let sub ← cimportsExternsIncdirs limit include_
            return (found.1 ∪ sub.cimports, found.2.1 ∪ sub.externs.toFinset,
              found.2.2 ∪ sub.incdirs))
          (parsed.cimports.toFinset, parsed.externs.toFinset, ∅)
        return p.finish filename found.1 found.2.1 found.2.2)

/-! ## The include graph -/

/-- The file includes an existing one. -/
def Includes (a b : String) : Prop :=
  ∃ include_ ∈ (p.parseDependencies a).includes, p.includePath a include_ = some b

/-- No file that is reachable from `a` is reachable from itself. -/
def NoCycle (a : String) : Prop :=
  ∀ b, ReflTransGen p.Includes a b → ¬TransGen p.Includes b b

variable {p}

theorem acc_of_reflTransGen {a b : String} (h : Acc (flip p.Includes) a)
    (hab : ReflTransGen p.Includes a b) : Acc (flip p.Includes) b := by
  induction hab with
  | refl => exact h
  | tail _ hbc ih => exact ih.inv hbc

/-- Where included files come to an end, there is no cycle. -/
theorem noCycle_of_acc {a : String} (h : Acc (flip p.Includes) a) : p.NoCycle a := by
  have hacyclic : ∀ b, Acc (flip p.Includes) b → ¬TransGen p.Includes b b := by
    intro b hb
    induction hb with
    | intro b _ ih =>
      intro hcycle
      obtain ⟨c, hbc, hcb⟩ := TransGen.head'_iff.1 hcycle
      exact ih c hbc (TransGen.tail' hcb hbc)
  exact fun b hab => hacyclic b (acc_of_reflTransGen h hab)

/-- In a finite graph without cycles the included files come to an end. -/
theorem acc_of_noCycle {a : String} (hfin : {b | ReflTransGen p.Includes a b}.Finite)
    (h : p.NoCycle a) : Acc (flip p.Includes) a := by
  have : Finite {b | ReflTransGen p.Includes a b} := hfin.to_subtype
  let r (b c : {b | ReflTransGen p.Includes a b}) : Prop := TransGen p.Includes c.1 b.1
  have : IsTrans _ r := ⟨fun _ _ _ hbc hcd => hcd.trans hbc⟩
  have : Std.Irrefl r := ⟨fun b hb => h b.1 b.2 hb⟩
  have hwf : WellFounded r := Finite.wellFounded_of_trans_of_irrefl r
  have hacc : ∀ b : {b | ReflTransGen p.Includes a b}, Acc (flip p.Includes) b.1 := by
    intro b
    induction b using hwf.induction with
    | _ b ih => exact ⟨_, fun c hc => ih ⟨c, b.2.tail hc⟩ (.single hc)⟩
  exact hacc ⟨a, .refl⟩

/-! ## What is returned -/

/-- A right result of `included_files`. -/
structure Included (p : Project) (a : String) (all : Finset String) : Prop where
  mem_iff : ∀ b, b ∈ all ↔ TransGen p.Includes a b
  acc : Acc (flip p.Includes) a

/-- A right result of `cimports_externs_incdirs`: the `cimport`s of the file and the
    files it includes, and their `extern`s, as they are named there. -/
structure Collected (p : Project) (a : String) (found : FoundDependencies) : Prop where
  mem_cimports_iff : ∀ x, x ∈ found.cimports ↔
    ∃ b, ReflTransGen p.Includes a b ∧ x ∈ (p.parseDependencies b).cimports
  own : ∀ x ∈ (p.parseDependencies a).externs, p.normalizeExisting a x ∈ found.externs
  included : ∀ b, TransGen p.Includes a b → ∀ x ∈ (p.parseDependencies b).externs,
    p.normalizeExisting a (p.normalizeExisting b x) ∈ found.externs
  acc : Acc (flip p.Includes) a

/-- The caches hold right results. -/
structure CachesOk (p : Project) (c : Caches) : Prop where
  includedFiles : ∀ a all, c.includedFiles.get? a = some all → Included p a all
  cimportsExternsIncdirs : ∀ a found, c.cimportsExternsIncdirs.get? a = some found →
    Collected p a found

theorem cachesOk_empty : CachesOk p ⟨.empty, .empty⟩ where
  includedFiles := by simp
  cimportsExternsIncdirs := by simp

/-- What a part of the includes of `a` leads to. -/
def Reaches (p : Project) (a : String) (includes : List String) (all : Finset String) : Prop :=
  (∀ b, b ∈ all ↔ ∃ include_ ∈ includes, ∃ path, p.includePath a include_ = some path ∧
    ReflTransGen p.Includes path b) ∧
  ∀ include_ ∈ includes, ∀ path, p.includePath a include_ = some path →
    Acc (flip p.Includes) path

theorem Reaches.included {a : String} {all : Finset String}
    (h : Reaches p a (p.parseDependencies a).includes all) : Included p a all where
  mem_iff := by
    intro b
    rw [h.1, TransGen.head'_iff]
    constructor
    · rintro ⟨include_, hm, path, hpath, hb⟩
      exact ⟨path, ⟨include_, hm, hpath⟩, hb⟩
    · rintro ⟨path, ⟨include_, hm, hpath⟩, hb⟩
      exact ⟨include_, hm, path, hpath, hb⟩
  acc := by
    refine ⟨a, ?_⟩
    rintro b ⟨include_, hm, hpath⟩
    exact h.2 include_ hm b hpath

/-- One more include. -/
theorem Reaches.step {a include_ : String} {includes : List String} {all included : Finset String}
    (h : Reaches p a includes all) {path : String} (hpath : p.includePath a include_ = some path)
    (hincluded : Included p path included) :
    Reaches p a (includes ++ [include_]) (insert path all ∪ included) := by
  refine ⟨fun b => ?_, fun i hi path' hpath' => ?_⟩
  · rw [Finset.mem_union, Finset.mem_insert, h.1, hincluded.mem_iff]
    constructor
    · rintro ((rfl | ⟨i, hi, path', hpath', hb⟩) | hb)
      · exact ⟨include_, by simp, b, hpath, .refl⟩
      · exact ⟨i, List.mem_append_left _ hi, path', hpath', hb⟩
      · exact ⟨include_, by simp, path, hpath, hb.to_reflTransGen⟩
    · rintro ⟨i, hi, path', hpath', hb⟩
      rcases List.mem_append.1 hi with hi | hi
      · exact .inl (.inr ⟨i, hi, path', hpath', hb⟩)
      · rw [List.mem_singleton.1 hi, hpath] at hpath'
        obtain rfl := Option.some.inj hpath'
        rcases reflTransGen_iff_eq_or_transGen.1 hb with rfl | hb
        · exact .inl (.inl rfl)
        · exact .inr hb
  · rcases List.mem_append.1 hi with hi | hi
    · exact h.2 i hi path' hpath'
    · rw [List.mem_singleton.1 hi, hpath] at hpath'
      obtain rfl := Option.some.inj hpath'
      exact hincluded.acc

/-- An include that is not found. -/
theorem Reaches.skip {a include_ : String} {includes : List String} {all : Finset String}
    (h : Reaches p a includes all) (hpath : p.includePath a include_ = none) :
    Reaches p a (includes ++ [include_]) all := by
  have hnone : ∀ i path, i ∈ includes ++ [include_] → p.includePath a i = some path →
      i ∈ includes := by
    intro i path hi hi'
    refine (List.mem_append.1 hi).resolve_right fun hi => ?_
    rw [List.mem_singleton.1 hi, hpath] at hi'
    cases hi'
  refine ⟨fun b => ?_, fun i hi path hi' => h.2 i (hnone i path hi hi') path hi'⟩
  rw [h.1]
  constructor
  · rintro ⟨i, hi, path, hpath', hb⟩
    exact ⟨i, List.mem_append_left _ hi, path, hpath', hb⟩
  · rintro ⟨i, hi, path, hpath', hb⟩
    exact ⟨i, hnone i path hi hpath', path, hpath', hb⟩

theorem includedFiles_ensures (limit : Nat) (a : String) :
    Ensures (CachesOk p) (Included p a) (p.includedFiles limit a) := by
  induction limit generalizing a with
  | zero => exact .throw _
  | succ limit ih =>
    rw [Project.includedFiles]
    refine Ensures.memoised ?_ (fun c hc all hall => hc.includedFiles a all hall)
      fun c all hc hall => ⟨fun b all' hb => ?_, hc.cimportsExternsIncdirs⟩
    · have hstart : Reaches p a [] ∅ := ⟨by simp, by simp⟩
      refine (Ensures.foldlM (fun done include_ all _ hdone => ?_) hstart).imp fun all hall =>
        Reaches.included hall
      rcases hpath : p.includePath a include_ with _ | path
      · exact .pure (hdone.skip hpath)
      · exact (ih path).bind fun included hincluded => .pure (hdone.step hpath hincluded)
    · rcases OrderedDict.get?_set_cases hb with ⟨rfl, rfl⟩ | ⟨-, hb⟩
      · exact hall
      · exact hc.includedFiles b all' hb

/-- A bound for each element is one for all. -/
theorem exists_bound {α : Type} {l : List α} {P : α → Nat → Prop}
    (h : ∀ b ∈ l, ∃ n, ∀ limit ≥ n, P b limit) : ∃ n, ∀ limit ≥ n, ∀ b ∈ l, P b limit := by
  induction l with
  | nil => exact ⟨0, fun _ _ b hb => absurd hb List.not_mem_nil⟩
  | cons b l ih =>
    obtain ⟨n, hn⟩ := h b List.mem_cons_self
    obtain ⟨n', hn'⟩ := ih fun b' hb' => h b' (List.mem_cons_of_mem b hb')
    refine ⟨max n n', fun limit hlimit => List.forall_mem_cons.2 ⟨hn limit ?_, hn' limit ?_⟩⟩
    · exact (le_max_left n n').trans hlimit
    · exact (le_max_right n n').trans hlimit

/-- Where included files come to an end, there is a stack that is large enough. -/
theorem includedFiles_succeeds {a : String} (h : Acc (flip p.Includes) a) :
    ∃ n, ∀ limit ≥ n, Succeeds (CachesOk p) (p.includedFiles limit a) := by
  induction h with
  | intro a _ ih =>
    have hbound : ∃ n, ∀ limit ≥ n, ∀ include_ ∈ (p.parseDependencies a).includes,
        ∀ path, p.includePath a include_ = some path →
          Succeeds (CachesOk p) (p.includedFiles limit path) := by
      refine exists_bound fun include_ hm => ?_
      rcases hpath : p.includePath a include_ with _ | path
      · exact ⟨0, fun _ _ path hp => absurd hp (by simp)⟩
      · obtain ⟨n, hn⟩ := ih path ⟨include_, hm, hpath⟩
        refine ⟨n, fun limit hlimit path' hp => ?_⟩
        rw [← Option.some.inj hp]
        exact hn limit hlimit
    obtain ⟨n, hn⟩ := hbound
    refine ⟨n + 1, fun limit hlimit => ?_⟩
    obtain ⟨limit, rfl⟩ : ∃ m, limit = m + 1 := ⟨limit - 1, by omega⟩
    rw [Project.includedFiles]
    have hstart : Reaches p a [] ∅ := ⟨by simp, by simp⟩
    refine Succeeds.memoised (Succeeds.foldlM (fun done include_ all hm hdone => ?_) hstart)
    rcases hpath : p.includePath a include_ with _ | path
    · exact ⟨.pure (hdone.skip hpath), .pure all⟩
    · have he := includedFiles_ensures (p := p) limit path
      have hs := hn limit (by omega) include_ hm path hpath
      exact ⟨he.bind fun included hincluded => .pure (hdone.step hpath hincluded),
        Succeeds.bind he hs fun _ _ => .pure _⟩

/-! ## `cimport`s and `extern`s -/

/-- What is found of a part of the included files of `a`. -/
structure Gathers (p : Project) (a : String) (files : List String)
    (found : Finset String × Finset String × Finset String) : Prop where
  mem_cimports_iff : ∀ x, x ∈ found.1 ↔ x ∈ (p.parseDependencies a).cimports ∨
    ∃ b ∈ files, ∃ c, ReflTransGen p.Includes b c ∧ x ∈ (p.parseDependencies c).cimports
  own : ∀ x ∈ (p.parseDependencies a).externs, x ∈ found.2.1
  included : ∀ b ∈ files, ∀ x ∈ (p.parseDependencies b).externs,
    p.normalizeExisting b x ∈ found.2.1

theorem Gathers.step {a b : String} {files : List String}
    {found : Finset String × Finset String × Finset String} (h : Gathers p a files found)
    {sub : FoundDependencies} (hsub : Collected p b sub) :
    Gathers p a (files ++ [b]) (found.1 ∪ sub.cimports, found.2.1 ∪ sub.externs.toFinset,
      found.2.2 ∪ sub.incdirs) where
  mem_cimports_iff := by
    intro x
    rw [Finset.mem_union, h.mem_cimports_iff, hsub.mem_cimports_iff, or_assoc]
    simp only [List.mem_append, List.mem_singleton, or_and_right, exists_or, exists_eq_left]
  own := fun x hx => Finset.mem_union_left _ (h.own x hx)
  included := by
    intro c hc x hx
    rcases List.mem_append.1 hc with hc | hc
    · exact Finset.mem_union_left _ (h.included c hc x hx)
    · rw [List.mem_singleton.1 hc] at hx ⊢
      exact Finset.mem_union_right _ (List.mem_toFinset.2 (hsub.own x hx))

theorem Gathers.collected {a : String} {all : Finset String}
    {found : Finset String × Finset String × Finset String} (hall : Included p a all)
    (h : Gathers p a (p.iterate all) found) :
    Collected p a (p.finish a found.1 found.2.1 found.2.2) where
  mem_cimports_iff := by
    intro x
    rw [Project.finish, h.mem_cimports_iff]
    constructor
    · rintro (hx | ⟨b, hb, c, hbc, hx⟩)
      · exact ⟨a, .refl, hx⟩
      · rw [p.mem_iterate, hall.mem_iff] at hb
        exact ⟨c, hb.to_reflTransGen.trans hbc, hx⟩
    · rintro ⟨c, hac, hx⟩
      rcases reflTransGen_iff_eq_or_transGen.1 hac with rfl | hac
      · exact .inl hx
      · exact .inr ⟨c, (p.mem_iterate _ _).2 ((hall.mem_iff c).2 hac), c, .refl, hx⟩
  own := fun x hx => List.mem_map_of_mem ((p.mem_iterate _ _).2 (h.own x hx))
  included := by
    intro b hb x hx
    refine List.mem_map_of_mem ((p.mem_iterate _ _).2 (h.included b ?_ x hx))
    exact (p.mem_iterate _ _).2 ((hall.mem_iff b).2 hb)
  acc := hall.acc

theorem cimportsExternsIncdirs_ensures (limit : Nat) (a : String) :
    Ensures (CachesOk p) (Collected p a) (p.cimportsExternsIncdirs limit a) := by
  induction limit generalizing a with
  | zero => exact .throw _
  | succ limit ih =>
    rw [Project.cimportsExternsIncdirs]
    refine Ensures.memoised ?_ (fun c hc found hfound => hc.cimportsExternsIncdirs a found hfound)
      fun c found hc hfound => ⟨hc.includedFiles, fun b found' hb => ?_⟩
    · refine (includedFiles_ensures limit a).bind fun all hall => ?_
      have hstart : Gathers p a [] ((p.parseDependencies a).cimports.toFinset,
          (p.parseDependencies a).externs.toFinset, ∅) := ⟨by simp, by simp, by simp⟩
      refine (Ensures.foldlM (fun done b found _ hdone => ?_) hstart).bind fun found hfound =>
        .pure (Gathers.collected hall hfound)
      exact (ih b).bind fun sub hsub => .pure (hdone.step hsub)
    · rcases OrderedDict.get?_set_cases hb with ⟨rfl, rfl⟩ | ⟨-, hb⟩
      · exact hfound
      · exact hc.cimportsExternsIncdirs b found' hb

theorem cimportsExternsIncdirs_succeeds {a : String} (h : Acc (flip p.Includes) a) :
    ∃ n, ∀ limit ≥ n, Succeeds (CachesOk p) (p.cimportsExternsIncdirs limit a) := by
  have htrans := h.transGen
  induction htrans with
  | intro a _ ih =>
    obtain ⟨n, hn⟩ := includedFiles_succeeds h
    -- What is included does not depend on the caches, so that one bound is enough.
    obtain ⟨all₀, c, heq⟩ := hn n le_rfl _ cachesOk_empty
    have hall₀ : Included p a all₀ :=
      (includedFiles_ensures n a _ cachesOk_empty).2 all₀ c heq
    have hbound : ∃ n, ∀ limit ≥ n, ∀ b ∈ p.iterate all₀,
        Succeeds (CachesOk p) (p.cimportsExternsIncdirs limit b) := by
      refine exists_bound fun b hb => ?_
      have hab := (hall₀.mem_iff b).1 ((p.mem_iterate _ _).1 hb)
      exact ih b (transGen_swap.1 hab) (acc_of_reflTransGen h hab.to_reflTransGen)
    obtain ⟨n', hn'⟩ := hbound
    refine ⟨max n n' + 1, fun limit hlimit => ?_⟩
    obtain ⟨limit, rfl⟩ : ∃ m, limit = m + 1 := ⟨limit - 1, by omega⟩
    have hle := le_max_left n n'
    have hle' := le_max_right n n'
    rw [Project.cimportsExternsIncdirs]
    have hstart : Gathers p a [] ((p.parseDependencies a).cimports.toFinset,
        (p.parseDependencies a).externs.toFinset, ∅) := ⟨by simp, by simp, by simp⟩
    have hensures := fun b => cimportsExternsIncdirs_ensures (p := p) limit b
    refine Succeeds.memoised (Succeeds.bind (includedFiles_ensures limit a) (hn limit (by omega))
      fun all hall => ?_)
    have hloop : ∀ done b found, b ∈ p.iterate all → Gathers p a done found →
        Ensures (CachesOk p) (Gathers p a (done ++ [b])) (do
          let sub ← p.cimportsExternsIncdirs limit b
          return (found.1 ∪ sub.cimports, found.2.1 ∪ sub.externs.toFinset,
            found.2.2 ∪ sub.incdirs)) ∧
        Succeeds (CachesOk p) (do
          let sub ← p.cimportsExternsIncdirs limit b
          return (found.1 ∪ sub.cimports, found.2.1 ∪ sub.externs.toFinset,
            found.2.2 ∪ sub.incdirs)) := by
      intro done b found hb hdone
      have hmem : b ∈ p.iterate all₀ := by
        rw [p.mem_iterate, hall₀.mem_iff, ← hall.mem_iff, ← p.mem_iterate]
        exact hb
      exact ⟨(hensures b).bind fun sub hsub => .pure (hdone.step hsub),
        Succeeds.bind (hensures b) (hn' limit (by omega) b hmem) fun _ _ => .pure _⟩
    exact Succeeds.bind
      (Ensures.foldlM (fun done b found hb hdone => (hloop done b found hb hdone).1) hstart) (Succeeds.foldlM hloop hstart) fun _ _ => .pure _

/-! ## Queries -/

/-- A call of one of the methods. -/
inductive Query where
  | includedFiles (filename : String)
  | cimportsExternsIncdirs (filename : String)

/-- The caches after a call, whether it has returned or not. -/
def after (p : Project) (limit : Nat) (c : Caches) : Query → Caches
  | .includedFiles filename => finalState (p.includedFiles limit filename c)
  | .cimportsExternsIncdirs filename => finalState (p.cimportsExternsIncdirs limit filename c)

/-- The caches after any calls, each with what is left of the stack. -/
def afterAll (p : Project) (queries : List (Nat × Query)) : Caches :=
  queries.foldl (fun c q => after p q.1 c q.2) ⟨.empty, .empty⟩

theorem cachesOk_afterAll (queries : List (Nat × Query)) : CachesOk p (afterAll p queries) := by
  have hall : ∀ c, CachesOk p c →
      CachesOk p (queries.foldl (fun c q => after p q.1 c q.2) c) := by
    induction queries with
    | nil => exact fun c hc => hc
    | cons q queries ih =>
      intro c hc
      refine ih _ ?_
      obtain ⟨limit, filename | filename⟩ := q
      · exact (includedFiles_ensures limit filename c hc).1
      · exact (cimportsExternsIncdirs_ensures limit filename c hc).1
  exact hall _ cachesOk_empty

/-- Both methods return right results, if the stack is large enough. -/
def Exact (p : Project) (queries : List (Nat × Query)) (a : String) : Prop :=
  ∃ n, ∀ limit ≥ n,
    (∃ all c, p.includedFiles limit a (afterAll p queries) = .ok all c ∧
      ∀ b, b ∈ all ↔ TransGen p.Includes a b) ∧
    ∃ found c, p.cimportsExternsIncdirs limit a (afterAll p queries) = .ok found c ∧
      (∀ b, ReflTransGen p.Includes a b → ∀ x ∈ (p.parseDependencies b).cimports,
        x ∈ found.cimports) ∧
      (∀ x ∈ (p.parseDependencies a).externs, p.normalizeExisting a x ∈ found.externs) ∧
      ∀ b, TransGen p.Includes a b → ∀ x ∈ (p.parseDependencies b).externs,
        p.normalizeExisting a (p.normalizeExisting b x) ∈ found.externs

/-- The files of the current directory, with what they include. -/
def flat (graph : List (String × List String)) : Project where
  sep := "/"
  joinPath := fun _ name => name
  dirname := fun _ => ""
  normpath := fun path => path
  isabs := fun _ => false
  pathExists := fun path => path ∈ graph.map Prod.fst
  osPathExists := fun path => path ∈ graph.map Prod.fst
  parse := fun path => ⟨[], (graph.lookup path).getD [], []⟩
  includeDirectories := []
  iterate := fun s => s.sort (· ≤ ·)
  mem_iterate := fun _ _ => Finset.mem_sort _

theorem includePath_flat {graph : List (String × List String)} {a name b : String}
    (h : (flat graph).includePath a name = some b) :
    name = b ∧ b ∈ graph.map Prod.fst := by
  have hjoin : ∀ d path, (flat graph).joinPath d path = path := fun _ _ => rfl
  have hnorm : ∀ path, (flat graph).normpath path = path := fun _ => rfl
  have hexists : ∀ path, (flat graph).pathExists path = decide (path ∈ graph.map Prod.fst) :=
    fun _ => rfl
  have hos : ∀ path, (flat graph).osPathExists path = decide (path ∈ graph.map Prod.fst) :=
    fun _ => rfl
  have hdirs : (flat graph).includeDirectories = [] := rfl
  simp only [includePath, findIncludeFile, hjoin, hnorm, hexists, hos, hdirs, List.map_cons,
    List.map_nil, List.find?_cons, List.find?_nil, ite_self] at h
  by_cases hmem : name ∈ graph.map Prod.fst
  · simp only [hmem, decide_true, if_true] at h
    split at h
    · cases h
    · exact Option.some.inj h ▸ ⟨rfl, hmem⟩
  · simp [hmem] at h

theorem mem_of_includes_flat {graph : List (String × List String)} {a b : String}
    (h : (flat graph).Includes a b) :
    b ∈ (graph.lookup a).getD [] ∧ b ∈ graph.map Prod.fst := by
  obtain ⟨name, hname, hpath⟩ := h
  obtain ⟨rfl, hmem⟩ := includePath_flat hpath
  refine ⟨?_, hmem⟩
  rw [parseDependencies] at hname
  by_cases hc : (flat graph).pathExists a = true
  · rwa [if_pos hc] at hname
  · rwa [if_neg hc] at hname

theorem finite_flat (graph : List (String × List String)) (a : String) :
    {b | ReflTransGen (flat graph).Includes a b}.Finite := by
  refine (insert a (graph.map Prod.fst).toFinset).finite_toSet.subset fun b hb => ?_
  rw [Finset.mem_coe, Finset.mem_insert, List.mem_toFinset]
  rcases ReflTransGen.cases_tail hb with rfl | ⟨c, -, hcb⟩
  · exact .inl rfl
  · exact .inr (mem_of_includes_flat hcb).2

end Project

end AHPy.Dependencies
