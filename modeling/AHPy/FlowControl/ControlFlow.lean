import AHPy.Lib.OrderedDict

/-!
# Control-flow graphs

`ControlBlock` and the methods of `ControlFlow` that build a graph. The blocks of
a graph are objects that refer to each other: here they are numbered as they are
created, and so are the assignments.

* `Built`: the graphs that the methods build, in any order of the calls;
* `Built.consistent`: in all of them parents and children are mutual, the entry point
  is no child, `gen` is what the statements say, and an assignment is made once.
-/

namespace AHPy.FlowControl

/-! ## Blocks -/

/-- A statement of a block: assignments (those of arguments as well) and deletions are
    objects, with a number. -/
inductive Stat (Entry : Type) where
  | assignment (id : ℕ) (entry : Entry)
  | deletion (id : ℕ) (entry : Entry)
  | reference (entry : Entry)
  deriving DecidableEq

/-- A value of `gen`. -/
inductive Generated where
  | assignment (id : ℕ)
  | uninitialized

structure ControlBlock (Entry : Type) where
  children : Finset ℕ := ∅
  parents : Finset ℕ := ∅
  positions : Finset ℕ := ∅
  stats : List (Stat Entry) := []
  gen : OrderedDict Entry Generated := OrderedDict.empty
  bounded : Finset Entry := ∅
  /-- `ExitBlock` -/
  isExit : Bool := false

variable {Entry : Type} [DecidableEq Entry]

/-- `ControlBlock.empty`, and `ExitBlock.empty` -/
def ControlBlock.empty (block : ControlBlock Entry) : Bool :=
  !block.isExit && block.stats.isEmpty && decide (block.positions = ∅)

/-- The entry of a statement. -/
def Stat.entry : Stat Entry → Entry
  | .assignment _ entry => entry
  | .deletion _ entry => entry
  | .reference entry => entry

/-- A statement that is a `NameAssignment`. -/
def Stat.id? : Stat Entry → Option ℕ
  | .assignment id _ => some id
  | .deletion id _ => some id
  | .reference _ => none

/-- What `mark_assignment` and `mark_deletion` put into `gen`. -/
def Stat.record (gen : OrderedDict Entry Generated) : Stat Entry → OrderedDict Entry Generated
  | .assignment id entry => gen.set entry (.assignment id)
  | .deletion _ entry => gen.set entry .uninitialized
  | .reference _ => gen

def ControlBlock.append (block : ControlBlock Entry) (stat : Stat Entry) : ControlBlock Entry :=
  { block with stats := block.stats ++ [stat], gen := stat.record block.gen }

/-! ## Graphs -/

/-- A graph, with the objects that there are: those with numbers from `nextBlock` and
    `nextAssignment` on have not been made. -/
structure ControlFlow (Entry : Type) where
  store : ℕ → ControlBlock Entry
  nextBlock : ℕ
  nextAssignment : ℕ
  blocks : Finset ℕ
  entries : Finset Entry
  block : Option ℕ

def entryPoint : ℕ := 0

def exitPoint : ℕ := 1

namespace ControlFlow

/-- `ControlFlow()` -/
def init : ControlFlow Entry where
  store := Function.update (fun _ => {}) exitPoint { isExit := true }
  nextBlock := 2
  nextAssignment := 0
  blocks := {exitPoint}
  entries := ∅
  block := some entryPoint

variable (flow : ControlFlow Entry)

def children (b : ℕ) : Finset ℕ := (flow.store b).children

def parents (b : ℕ) : Finset ℕ := (flow.store b).parents

def stats (b : ℕ) : List (Stat Entry) := (flow.store b).stats

def modify (b : ℕ) (f : ControlBlock Entry → ControlBlock Entry) : ControlFlow Entry :=
  { flow with store := Function.update flow.store b (f (flow.store b)) }

/-- `parent.add_child(child)` -/
def addChild (parent child : ℕ) : ControlFlow Entry :=
  (flow.modify parent fun block => { block with children := insert child block.children }).modify
    child fun block => { block with parents := insert parent block.parents }

def newblock (parent : Option ℕ) : ControlFlow Entry :=
  let flow' := { flow with
    nextBlock := flow.nextBlock + 1, blocks := insert flow.nextBlock flow.blocks }
  match parent with
  | some parent => flow'.addChild parent flow.nextBlock
  | none => flow'

def nextblock (parent : Option ℕ) : ControlFlow Entry :=
  { flow.newblock (parent.or flow.block) with block := some flow.nextBlock }

/-- `self.block.stats.append(stat)`, and the rest of the methods that do it. -/
def mark (isTracked : Entry → Bool) (stat : Stat Entry) : ControlFlow Entry :=
  match flow.block with
  | some b =>
    if isTracked stat.entry then
      { flow.modify b fun block => block.append stat with
        nextAssignment := flow.nextAssignment + 1, entries := insert stat.entry flow.entries }
    else flow
  | none => flow

/-- `mark_assignment`, and `mark_argument` -/
def markAssignment (isTracked : Entry → Bool) (entry : Entry) : ControlFlow Entry :=
  flow.mark isTracked (.assignment flow.nextAssignment entry)

def markDeletion (isTracked : Entry → Bool) (entry : Entry) : ControlFlow Entry :=
  flow.mark isTracked (.deletion flow.nextAssignment entry)

def markReference (isTracked : Entry → Bool) (entry : Entry) : ControlFlow Entry :=
  flow.mark isTracked (.reference entry)

def markPosition (position : ℕ) : ControlFlow Entry :=
  match flow.block with
  | some b => flow.modify b fun block => { block with positions := insert position block.positions }
  | none => flow

end ControlFlow

/-! ## Building a graph -/

/-- What is done to a graph while a function is visited. -/
inductive Event (Entry : Type) where
  | newblock (parent : Option ℕ)
  | nextblock (parent : Option ℕ)
  | addChild (parent child : ℕ)
  /-- `self.flow.block = block` -/
  | setBlock (block : Option ℕ)
  | addEntry (entry : Entry)
  | markAssignment (entry : Entry)
  | markDeletion (entry : Entry)
  | markReference (entry : Entry)
  | markPosition (position : ℕ)

/-- The blocks are the entry point and those that were made with `newblock`; the entry point
    is the child of none. -/
def Event.Legal (flow : ControlFlow Entry) : Event Entry → Prop
  | .newblock parent => ∀ p ∈ parent, p ∈ insert entryPoint flow.blocks
  | .nextblock parent => ∀ p ∈ parent, p ∈ insert entryPoint flow.blocks
  | .addChild parent child => parent ∈ insert entryPoint flow.blocks ∧ child ∈ flow.blocks
  | .setBlock block => ∀ b ∈ block, b ∈ insert entryPoint flow.blocks
  | _ => True

def ControlFlow.apply (isTracked : Entry → Bool) (flow : ControlFlow Entry) :
    Event Entry → ControlFlow Entry
  | .newblock parent => flow.newblock parent
  | .nextblock parent => flow.nextblock parent
  | .addChild parent child => flow.addChild parent child
  | .setBlock block => { flow with block := block }
  | .addEntry entry => { flow with entries := insert entry flow.entries }
  | .markAssignment entry => flow.markAssignment isTracked entry
  | .markDeletion entry => flow.markDeletion isTracked entry
  | .markReference entry => flow.markReference isTracked entry
  | .markPosition position => flow.markPosition position

/-- The graphs that the methods build. -/
inductive Built (isTracked : Entry → Bool) : ControlFlow Entry → Prop
  | init : Built isTracked ControlFlow.init
  | step {flow : ControlFlow Entry} {e : Event Entry} (h : Built isTracked flow)
      (he : e.Legal flow) : Built isTracked (flow.apply isTracked e)

/-! ## Invariants -/

/-- `gen`, from the statements of a block. -/
def genOf (stats : List (Stat Entry)) : OrderedDict Entry Generated :=
  stats.foldl Stat.record OrderedDict.empty

/-- What the analyses of a graph rest on. -/
structure Consistent (flow : ControlFlow Entry) : Prop where
  mem_children_iff : ∀ a b, b ∈ flow.children a ↔ a ∈ flow.parents b
  parent_mem : ∀ a b, a ∈ flow.parents b → a ∈ insert entryPoint flow.blocks
  child_mem : ∀ a b, b ∈ flow.children a → b ∈ flow.blocks
  entryPoint_notMem : entryPoint ∉ flow.blocks
  gen_eq : ∀ b, (flow.store b).gen = genOf (flow.stats b)
  bounded_eq : ∀ b, (flow.store b).bounded = ∅
  entry_mem : ∀ b, ∀ s ∈ flow.stats b, s.entry ∈ flow.entries
  id_nodup : ∀ b, ((flow.stats b).filterMap Stat.id?).Nodup
  id_disjoint : ∀ b b', b ≠ b' →
    ((flow.stats b).filterMap Stat.id?).Disjoint ((flow.stats b').filterMap Stat.id?)

/-- The objects that have not been made are not referred to. -/
structure Fresh (flow : ControlFlow Entry) : Prop where
  store_eq : ∀ b, flow.nextBlock ≤ b → flow.store b = {}
  blocks_lt : ∀ b ∈ insert entryPoint flow.blocks, b < flow.nextBlock
  block_mem : ∀ b ∈ flow.block, b ∈ insert entryPoint flow.blocks
  id_lt : ∀ b, ∀ i ∈ (flow.stats b).filterMap Stat.id?, i < flow.nextAssignment

theorem genOf_append (stats : List (Stat Entry)) (stat : Stat Entry) :
    genOf (stats ++ [stat]) = stat.record (genOf stats) := List.foldl_append

/-- Blocks that have the edges and the statements of the ones before. -/
structure SameBlocks (flow flow' : ControlFlow Entry) : Prop where
  stats_eq : ∀ b, flow'.stats b = flow.stats b
  gen_eq : ∀ b, (flow'.store b).gen = (flow.store b).gen
  bounded_eq : ∀ b, (flow'.store b).bounded = (flow.store b).bounded
  entries_eq : flow'.entries = flow.entries

omit [DecidableEq Entry] in
theorem SameBlocks.trans {flow flow' flow'' : ControlFlow Entry} (h : SameBlocks flow flow')
    (h' : SameBlocks flow' flow'') : SameBlocks flow flow'' where
  stats_eq b := (h'.stats_eq b).trans (h.stats_eq b)
  gen_eq b := (h'.gen_eq b).trans (h.gen_eq b)
  bounded_eq b := (h'.bounded_eq b).trans (h.bounded_eq b)
  entries_eq := h'.entries_eq.trans h.entries_eq

/-- Statements stay what they are when only edges change. -/
theorem Consistent.of_edges {flow flow' : ControlFlow Entry} (h : Consistent flow)
    (hsame : SameBlocks flow flow')
    (mem_children_iff : ∀ a b, b ∈ flow'.children a ↔ a ∈ flow'.parents b)
    (parent_mem : ∀ a b, a ∈ flow'.parents b → a ∈ insert entryPoint flow'.blocks)
    (child_mem : ∀ a b, b ∈ flow'.children a → b ∈ flow'.blocks)
    (entryPoint_notMem : entryPoint ∉ flow'.blocks) : Consistent flow' where
  mem_children_iff := mem_children_iff
  parent_mem := parent_mem
  child_mem := child_mem
  entryPoint_notMem := entryPoint_notMem
  gen_eq b := by rw [hsame.gen_eq, hsame.stats_eq, h.gen_eq]
  bounded_eq b := by rw [hsame.bounded_eq, h.bounded_eq]
  entry_mem b := by
    rw [hsame.stats_eq, hsame.entries_eq]
    exact h.entry_mem b
  id_nodup b := by
    rw [hsame.stats_eq]
    exact h.id_nodup b
  id_disjoint b b' := by
    rw [hsame.stats_eq, hsame.stats_eq]
    exact h.id_disjoint b b'

/-! ### Edges -/

section

variable (flow : ControlFlow Entry) (parent child : ℕ)

omit [DecidableEq Entry]

theorem children_addChild (b : ℕ) : (flow.addChild parent child).children b =
    if b = parent then insert child (flow.children b) else flow.children b := by
  simp only [ControlFlow.children, ControlFlow.addChild, ControlFlow.modify, Function.update_apply]
  split_ifs <;> simp_all

theorem parents_addChild (b : ℕ) : (flow.addChild parent child).parents b =
    if b = child then insert parent (flow.parents b) else flow.parents b := by
  simp only [ControlFlow.parents, ControlFlow.addChild, ControlFlow.modify, Function.update_apply]
  split_ifs <;> simp_all

theorem sameBlocks_addChild : SameBlocks flow (flow.addChild parent child) := by
  refine ⟨fun b => ?_, fun b => ?_, fun b => ?_, rfl⟩ <;>
    simp only [ControlFlow.stats, ControlFlow.addChild, ControlFlow.modify,
      Function.update_apply] <;>
    split_ifs <;> simp_all

end

variable {isTracked : Entry → Bool} {flow : ControlFlow Entry}

theorem Consistent.addChild (h : Consistent flow) {parent child : ℕ}
    (hparent : parent ∈ insert entryPoint flow.blocks) (hchild : child ∈ flow.blocks) :
    Consistent (flow.addChild parent child) := by
  refine h.of_edges (sameBlocks_addChild flow parent child) (fun a b => ?_) (fun a b hab => ?_)
    (fun a b hab => ?_) h.entryPoint_notMem
  · rw [children_addChild, parents_addChild]
    have hiff := h.mem_children_iff a b
    split_ifs with ha hb hb
    · simp [ha, hb]
    · rw [Finset.mem_insert, or_iff_right hb, hiff]
    · rw [Finset.mem_insert, or_iff_right ha, hiff]
    · exact hiff
  · rw [parents_addChild] at hab
    split_ifs at hab
    · rcases Finset.mem_insert.1 hab with rfl | hab
      · exact hparent
      · exact h.parent_mem a b hab
    · exact h.parent_mem a b hab
  · rw [children_addChild] at hab
    split_ifs at hab
    · rcases Finset.mem_insert.1 hab with rfl | hab
      · exact hchild
      · exact h.child_mem a b hab
    · exact h.child_mem a b hab

omit [DecidableEq Entry] in
theorem Fresh.addChild (h : Fresh flow) {parent child : ℕ}
    (hparent : parent ∈ insert entryPoint flow.blocks) (hchild : child ∈ flow.blocks) :
    Fresh (flow.addChild parent child) where
  store_eq b hb := by
    have hp := h.blocks_lt parent hparent
    have hc := h.blocks_lt child (Finset.mem_insert_of_mem hchild)
    have hb' : flow.nextBlock ≤ b := hb
    rw [← h.store_eq b hb']
    simp only [ControlFlow.addChild, ControlFlow.modify]
    rw [Function.update_of_ne (by omega), Function.update_of_ne (by omega)]
  blocks_lt := h.blocks_lt
  block_mem := h.block_mem
  id_lt b := by
    rw [(sameBlocks_addChild flow parent child).stats_eq]
    exact h.id_lt b

theorem consistent_newblock (h : Consistent flow) (hfresh : Fresh flow) {parent : Option ℕ}
    (hparent : ∀ p ∈ parent, p ∈ insert entryPoint flow.blocks) :
    Consistent (flow.newblock parent) ∧ Fresh (flow.newblock parent) ∧
      flow.nextBlock ∈ (flow.newblock parent).blocks ∧
      flow.blocks ⊆ (flow.newblock parent).blocks := by
  have hnext : entryPoint < flow.nextBlock :=
    hfresh.blocks_lt entryPoint (Finset.mem_insert_self _ _)
  set flow' : ControlFlow Entry := { flow with
    nextBlock := flow.nextBlock + 1, blocks := insert flow.nextBlock flow.blocks } with hflow'
  have hsub : insert entryPoint flow.blocks ⊆ insert entryPoint flow'.blocks :=
    Finset.insert_subset_insert _ (Finset.subset_insert _ _)
  have hcons : Consistent flow' := by
    refine h.of_edges ⟨fun _ => rfl, fun _ => rfl, fun _ => rfl, rfl⟩ h.mem_children_iff
      (fun a b hab => hsub (h.parent_mem a b hab))
      (fun a b hab => Finset.mem_insert_of_mem (h.child_mem a b hab)) ?_
    rw [hflow', Finset.mem_insert, not_or]
    exact ⟨hnext.ne, h.entryPoint_notMem⟩
  have hfresh' : Fresh flow' := by
    refine ⟨fun b hb => hfresh.store_eq b (Nat.le_of_succ_le hb), fun b hb => ?_,
      fun b hb => hsub (hfresh.block_mem b hb), hfresh.id_lt⟩
    rw [Finset.mem_insert, Finset.mem_insert] at hb
    rcases hb with rfl | rfl | hb
    · exact Nat.lt_succ_of_lt hnext
    · exact Nat.lt_succ_self _
    · exact Nat.lt_succ_of_lt (hfresh.blocks_lt b (Finset.mem_insert_of_mem hb))
  have hmem : flow.nextBlock ∈ flow'.blocks := Finset.mem_insert_self _ _
  rcases parent with _ | p
  · exact ⟨hcons, hfresh', hmem, Finset.subset_insert _ _⟩
  · have hp := hsub (hparent p rfl)
    exact ⟨hcons.addChild hp hmem, hfresh'.addChild hp hmem, hmem, Finset.subset_insert _ _⟩

/-! ### Statements -/

theorem consistent_markPosition (h : Consistent flow) (hfresh : Fresh flow) (position : ℕ) :
    Consistent (flow.markPosition position) ∧ Fresh (flow.markPosition position) := by
  rw [ControlFlow.markPosition]
  split
  next b hb =>
    set flow' := flow.modify b fun block =>
      { block with positions := insert position block.positions } with hflow'
    have hstore : ∀ a, (flow'.store a).children = (flow.store a).children ∧
        (flow'.store a).parents = (flow.store a).parents ∧
        (flow'.store a).stats = (flow.store a).stats ∧ (flow'.store a).gen = (flow.store a).gen ∧
        (flow'.store a).bounded = (flow.store a).bounded := by
      intro a
      by_cases ha : a = b
      · simp [hflow', ControlFlow.modify, ha]
      · simp [hflow', ControlFlow.modify, ha]
    have hchildren : ∀ a, flow'.children a = flow.children a := fun a => (hstore a).1
    have hparents : ∀ a, flow'.parents a = flow.parents a := fun a => (hstore a).2.1
    have hstats : ∀ a, flow'.stats a = flow.stats a := fun a => (hstore a).2.2.1
    constructor
    · refine h.of_edges ⟨hstats, fun a => (hstore a).2.2.2.1, fun a => (hstore a).2.2.2.2, rfl⟩
        (fun a c => ?_) (fun a c hac => ?_) (fun a c hac => ?_) h.entryPoint_notMem
      · rw [hchildren, hparents]
        exact h.mem_children_iff a c
      · rw [hparents] at hac
        exact h.parent_mem a c hac
      · rw [hchildren] at hac
        exact h.child_mem a c hac
    · refine ⟨fun a ha => ?_, hfresh.blocks_lt, hfresh.block_mem, fun a => ?_⟩
      · have hb' := hfresh.blocks_lt b (hfresh.block_mem b hb)
        have ha' : flow.nextBlock ≤ a := ha
        have hne : a ≠ b := by omega
        exact (Function.update_of_ne hne ..).trans (hfresh.store_eq a ha')
      · rw [hstats]
        exact hfresh.id_lt a
  next => exact ⟨h, hfresh⟩

/-- A statement is appended to the current block: it is new, and `gen` records it. -/
theorem consistent_mark (h : Consistent flow) (hfresh : Fresh flow) {stat : Stat Entry}
    (hstat : ∀ i ∈ stat.id?, i = flow.nextAssignment) :
    Consistent (flow.mark isTracked stat) ∧ Fresh (flow.mark isTracked stat) := by
  rw [ControlFlow.mark]
  split
  next b hb =>
    split
    next htracked =>
      set flow' : ControlFlow Entry := { flow.modify b fun block => block.append stat with
        nextAssignment := flow.nextAssignment + 1, entries := insert stat.entry flow.entries }
        with hflow'
      have hstore : flow'.store b = (flow.store b).append stat := Function.update_self ..
      have hother : ∀ a, a ≠ b → flow'.store a = flow.store a := fun a ha =>
        Function.update_of_ne ha ..
      have hedges : ∀ a, flow'.children a = flow.children a ∧ flow'.parents a = flow.parents a := by
        intro a
        simp only [ControlFlow.children, ControlFlow.parents]
        rcases eq_or_ne a b with rfl | ha
        · rw [hstore]
          exact ⟨rfl, rfl⟩
        · rw [hother a ha]
          exact ⟨rfl, rfl⟩
      have hchildren := fun a => (hedges a).1
      have hparents := fun a => (hedges a).2
      have hstats : flow'.stats b = flow.stats b ++ [stat] := by
        rw [ControlFlow.stats, hstore]
        rfl
      have hstats' : ∀ a, a ≠ b → flow'.stats a = flow.stats a := by
        intro a ha
        rw [ControlFlow.stats, hother a ha]
        rfl
      have hids : ∀ a, ∀ i ∈ (flow'.stats a).filterMap Stat.id?,
          i ∈ (flow.stats a).filterMap Stat.id? ∨ a = b ∧ i = flow.nextAssignment := by
        intro a i hi
        rcases eq_or_ne a b with rfl | ha
        · rw [hstats, List.filterMap_append, List.mem_append] at hi
          rcases hi with hi | hi
          · exact .inl hi
          · obtain ⟨s, hs, his⟩ := List.mem_filterMap.1 hi
            rw [List.mem_singleton.1 hs] at his
            exact .inr ⟨rfl, hstat i his⟩
        · rw [hstats' a ha] at hi
          exact .inl hi
      constructor
      · refine ⟨fun a c => ?_, fun a c hac => ?_, fun a c hac => ?_, h.entryPoint_notMem,
          fun a => ?_, fun a => ?_, fun a s hs => ?_, fun a => ?_, fun a c hac i hi hi' => ?_⟩
        · rw [hchildren, hparents]
          exact h.mem_children_iff a c
        · rw [hparents] at hac
          exact h.parent_mem a c hac
        · rw [hchildren] at hac
          exact h.child_mem a c hac
        · rcases eq_or_ne a b with rfl | ha
          · rw [hstats, genOf_append, ← h.gen_eq, hstore]
            rfl
          · rw [hother a ha, hstats' a ha, h.gen_eq]
        · rcases eq_or_ne a b with rfl | ha
          · rw [hstore]
            exact h.bounded_eq a
          · rw [hother a ha, h.bounded_eq]
        · rcases eq_or_ne a b with rfl | ha
          · rw [hstats, List.mem_append, List.mem_singleton] at hs
            rcases hs with hs | rfl
            · exact Finset.mem_insert_of_mem (h.entry_mem a s hs)
            · exact Finset.mem_insert_self _ _
          · rw [hstats' a ha] at hs
            exact Finset.mem_insert_of_mem (h.entry_mem a s hs)
        · rcases eq_or_ne a b with rfl | ha
          · rw [hstats, List.filterMap_append, List.nodup_append']
            refine ⟨h.id_nodup a, ?_, fun i hi hi' => ?_⟩
            · rw [List.filterMap_cons]
              split <;> simp
            · obtain ⟨s, hs, his⟩ := List.mem_filterMap.1 hi'
              rw [List.mem_singleton.1 hs] at his
              exact (hfresh.id_lt a _ hi).ne (hstat _ his)
          · rw [hstats' a ha]
            exact h.id_nodup a
        · rcases hids a i hi with hi | ⟨ha, hi⟩ <;> rcases hids c i hi' with hi' | ⟨hc, hi'⟩
          · exact h.id_disjoint a c hac hi hi'
          · exact (hfresh.id_lt a i hi).ne hi'
          · exact (hfresh.id_lt c i hi').ne hi
          · exact hac (ha.trans hc.symm)
      · refine ⟨fun a ha => ?_, hfresh.blocks_lt, hfresh.block_mem, fun a i hi => ?_⟩
        · have hb' := hfresh.blocks_lt b (hfresh.block_mem b hb)
          have ha' : flow.nextBlock ≤ a := ha
          rw [hother a (by omega), hfresh.store_eq a ha']
        · rcases hids a i hi with hi | ⟨-, rfl⟩
          · exact Nat.lt_succ_of_lt (hfresh.id_lt a i hi)
          · exact Nat.lt_succ_self _
    next => exact ⟨h, hfresh⟩
  next => exact ⟨h, hfresh⟩

/-! ### Runs -/

theorem consistent_init : Consistent (ControlFlow.init : ControlFlow Entry) ∧
    Fresh (ControlFlow.init : ControlFlow Entry) := by
  have hblank : ∀ b, (ControlFlow.init : ControlFlow Entry).store b =
      { isExit := decide (b = exitPoint) } := by
    intro b
    by_cases hb : b = exitPoint
    · simp [ControlFlow.init, hb]
    · simp [ControlFlow.init, hb]
  have hchildren : ∀ b, (ControlFlow.init : ControlFlow Entry).children b = ∅ := fun b => by
    rw [ControlFlow.children, hblank]
  have hparents : ∀ b, (ControlFlow.init : ControlFlow Entry).parents b = ∅ := fun b => by
    rw [ControlFlow.parents, hblank]
  have hstats : ∀ b, (ControlFlow.init : ControlFlow Entry).stats b = [] := fun b => by
    rw [ControlFlow.stats, hblank]
  constructor
  · refine ⟨fun a b => ?_, fun a b hab => ?_, fun a b hab => ?_, ?_, fun b => ?_, fun b => ?_,
      fun b s hs => ?_, fun b => ?_, fun a b hab => ?_⟩
    · simp [hchildren, hparents]
    · simp [hparents] at hab
    · simp [hchildren] at hab
    · exact fun h => absurd (Finset.mem_singleton.1 h) (by decide)
    · rw [hblank, hstats]
      rfl
    · rw [hblank]
    · simp [hstats] at hs
    · simp [hstats]
    · simp [hstats]
  · refine ⟨fun b hb => ?_, fun b hb => ?_, fun b hb => ?_, fun b => ?_⟩
    · have hb' : 2 ≤ b := hb
      have hne : b ≠ exitPoint := by
        rw [exitPoint]
        omega
      rw [hblank, decide_eq_false hne]
    · change b ∈ ({entryPoint, exitPoint} : Finset ℕ) at hb
      rw [Finset.mem_insert, Finset.mem_singleton] at hb
      rcases hb with rfl | rfl
      · exact Nat.succ_pos 1
      · exact Nat.lt_succ_self 1
    · obtain rfl := Option.some.inj hb
      exact Finset.mem_insert_self _ _
    · simp [hstats]

theorem Built.consistent_fresh (h : Built isTracked flow) : Consistent flow ∧ Fresh flow := by
  induction h with
  | init => exact consistent_init
  | @step flow e _ he ih =>
    obtain ⟨hcons, hfresh⟩ := ih
    cases e with
    | newblock parent =>
      obtain ⟨hcons', hfresh', -⟩ := consistent_newblock hcons hfresh he
      exact ⟨hcons', hfresh'⟩
    | nextblock parent =>
      have hparent : ∀ p ∈ parent.or flow.block, p ∈ insert entryPoint flow.blocks := by
        rcases parent with _ | q
        · exact hfresh.block_mem
        · exact he
      obtain ⟨hcons', hfresh', hmem, -⟩ := consistent_newblock hcons hfresh hparent
      refine ⟨⟨hcons'.mem_children_iff, hcons'.parent_mem, hcons'.child_mem,
        hcons'.entryPoint_notMem, hcons'.gen_eq, hcons'.bounded_eq, hcons'.entry_mem,
        hcons'.id_nodup, hcons'.id_disjoint⟩, hfresh'.store_eq, hfresh'.blocks_lt,
        fun b hb => ?_, hfresh'.id_lt⟩
      obtain rfl := Option.some.inj hb
      exact Finset.mem_insert_of_mem hmem
    | addChild parent child => exact ⟨hcons.addChild he.1 he.2, hfresh.addChild he.1 he.2⟩
    | setBlock block =>
      exact ⟨hcons.of_edges ⟨fun _ => rfl, fun _ => rfl, fun _ => rfl, rfl⟩ hcons.mem_children_iff
        hcons.parent_mem hcons.child_mem hcons.entryPoint_notMem, hfresh.store_eq,
        hfresh.blocks_lt, he, hfresh.id_lt⟩
    | addEntry entry =>
      exact ⟨⟨hcons.mem_children_iff, hcons.parent_mem, hcons.child_mem, hcons.entryPoint_notMem,
        hcons.gen_eq, hcons.bounded_eq,
        fun b s hs => Finset.mem_insert_of_mem (hcons.entry_mem b s hs), hcons.id_nodup,
        hcons.id_disjoint⟩, hfresh.store_eq, hfresh.blocks_lt, hfresh.block_mem, hfresh.id_lt⟩
    | markAssignment entry =>
      exact consistent_mark hcons hfresh fun i hi => (Option.some.inj hi).symm
    | markDeletion entry =>
      exact consistent_mark hcons hfresh fun i hi => (Option.some.inj hi).symm
    | markReference entry => exact consistent_mark hcons hfresh fun i hi => absurd hi (Option.not_mem_none i)
    | markPosition position => exact consistent_markPosition hcons hfresh position

theorem Built.consistent (h : Built isTracked flow) : Consistent flow := h.consistent_fresh.1

end AHPy.FlowControl
