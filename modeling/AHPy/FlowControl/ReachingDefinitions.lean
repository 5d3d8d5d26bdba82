import AHPy.FlowControl.ControlFlow
import AHPy.Lib.GenKill

/-!
# Reaching definitions

`ControlFlow.initialize`, `ControlFlow.reaching_definitions`, and the walk of
`check_definitions` through the statements of a block. A set is iterated in an order
that is not known: the results hold for every order.

A *definition* is an assignment, or that an entry has no value. What the statements of
a block do to the definitions before it (`afterAll`) is a problem of generated and
killed facts (`ControlFlow.problem`).

* `allocated_allocate`: every definition has a bit of its own;
* `stands_iGen`, `stands_iKill`: the bits of a block are those of what it generates and
  kills.
-/

namespace AHPy.FlowControl

variable {Entry : Type} [DecidableEq Entry]

/-! ## Definitions -/

/-- What a bit stands for. -/
inductive Definition (Entry : Type) where
  | uninitialized (entry : Entry)
  | assigned (id : ℕ) (entry : Entry)
  deriving DecidableEq

def Definition.entry : Definition Entry → Entry
  | .uninitialized entry => entry
  | .assigned _ entry => entry

/-- The definition that a value of `gen` is, for an entry. -/
def Generated.definition (entry : Entry) : Generated → Definition Entry
  | .assignment id => .assigned id entry
  | .uninitialized => .uninitialized entry

/-- The definition with the bit of a statement. -/
def Stat.definition? : Stat Entry → Option (Definition Entry)
  | .assignment id entry => some (.assigned id entry)
  | .deletion id entry => some (.assigned id entry)
  | .reference _ => none

/-- The definitions after a statement: those of its entry are replaced. -/
def Stat.after (defs : Set (Definition Entry)) : Stat Entry → Set (Definition Entry)
  | .assignment id entry => {d ∈ defs | d.entry ≠ entry} ∪ {.assigned id entry}
  | .deletion _ entry => {d ∈ defs | d.entry ≠ entry} ∪ {.uninitialized entry}
  | .reference _ => defs

/-- The definitions after the statements of a block. -/
def afterAll (stats : List (Stat Entry)) (defs : Set (Definition Entry)) :
    Set (Definition Entry) := stats.foldl Stat.after defs

/-- A block generates what is defined after it whatever was before, and kills what its
    statements replace. At the entry point no entry has a value. -/
def ControlFlow.problem (flow : ControlFlow Entry) : GenKill ℕ (Definition Entry) where
  parents := fun b => {p | p ∈ flow.parents b}
  gen := fun b => {d | b = entryPoint ∧ (∃ e ∈ flow.entries, d = .uninitialized e) ∨
    b ∈ flow.blocks ∧ d ∈ afterAll (flow.stats b) ∅}
  kill := fun b => {d | b ∈ flow.blocks ∧ d.entry ∈ genOf (flow.stats b)}

/-! ## Bits -/

structure AssignmentList where
  bit : ℕ := 0
  mask : ℕ := 0
  stats : List ℕ := []

/-- What `initialize` has given out: the next bit is `next`. -/
structure Bits (Entry : Type) where
  assmts : Entry → AssignmentList := fun _ => {}
  statBit : ℕ → ℕ := fun _ => 0
  next : ℕ := 1

def Bits.addEntry (bits : Bits Entry) (entry : Entry) : Bits Entry where
  assmts := Function.update bits.assmts entry { bit := bits.next, mask := bits.next }
  statBit := bits.statBit
  next := bits.next <<< 1

/-- `stat.bit = bit`, and what follows it. -/
def Bits.addAssignment (bits : Bits Entry) (id : ℕ) (entry : Entry) : Bits Entry where
  assmts := Function.update bits.assmts entry { bits.assmts entry with
    mask := (bits.assmts entry).mask ||| bits.next, stats := (bits.assmts entry).stats ++ [id] }
  statBit := Function.update bits.statBit id bits.next
  next := bits.next <<< 1

def Bits.addStat (bits : Bits Entry) : Stat Entry → Bits Entry
  | .assignment id entry => bits.addAssignment id entry
  | .deletion id entry => bits.addAssignment id entry
  | .reference _ => bits

/-- The first two loops of `initialize`. -/
def allocate (entryOrder : List Entry) (stats : List (Stat Entry)) : Bits Entry :=
  stats.foldl Bits.addStat (entryOrder.foldl Bits.addEntry {})

/-- The bit of a definition. -/
def Bits.bitOf (bits : Bits Entry) : Definition Entry → ℕ
  | .uninitialized entry => (bits.assmts entry).bit
  | .assigned id _ => bits.statBit id

/-- The bits of the blocks. -/
structure Analysis where
  iGen : ℕ → ℕ
  iKill : ℕ → ℕ
  iInput : ℕ → ℕ
  iOutput : ℕ → ℕ

/-- `block.i_gen`, from `block.gen`. -/
def blockGen (bits : Bits Entry) (block : ControlBlock Entry) : ℕ :=
  block.gen.entries.foldl (fun iGen item => iGen ||| bits.bitOf (item.2.definition item.1)) 0

/-- `block.i_kill`; the set `bounded` is iterated in the order of the entries. -/
def blockKill (bits : Bits Entry) (entryOrder : List Entry) (block : ControlBlock Entry) : ℕ :=
  (entryOrder.filter (· ∈ block.bounded)).foldl
    (fun iKill entry => iKill ||| (bits.assmts entry).bit)
    (block.gen.entries.foldl (fun iKill item => iKill ||| (bits.assmts item.1).mask) 0)

/-- `entry_point.i_gen` -/
def entryGen (bits : Bits Entry) (entryOrder : List Entry) : ℕ :=
  entryOrder.foldl (fun iGen entry => iGen ||| (bits.assmts entry).bit) 0

namespace ControlFlow

variable (flow : ControlFlow Entry)

/-- `ControlFlow.initialize`, with the orders of `self.entries` and `self.blocks`. -/
def initializeBits (entryOrder : List Entry) (blockOrder : List ℕ) : Bits Entry × Analysis :=
  let bits := allocate entryOrder (blockOrder.flatMap flow.stats)
  let iGen := fun b =>
    if b = entryPoint then entryGen bits entryOrder
    else if b ∈ blockOrder then blockGen bits (flow.store b) else 0
  let iKill := fun b => if b ∈ blockOrder then blockKill bits entryOrder (flow.store b) else 0
  (bits, { iGen, iKill, iInput := fun _ => 0, iOutput := iGen })

/-- `i_input` of a block, from the `i_output` of its parents. -/
def joinParents (iOutput : ℕ → ℕ) (b : ℕ) : ℕ := (flow.parents b).fold (· ||| ·) 0 iOutput

/-- `(i_input & ~block.i_kill) | block.i_gen` -/
def newOutput (a : Analysis) (b : ℕ) : ℕ :=
  Nat.ldiff (flow.joinParents a.iOutput b) (a.iKill b) ||| a.iGen b

/-- The body of the loop over the blocks. -/
def visit (s : Analysis × Bool) (b : ℕ) : Analysis × Bool :=
  ({ s.1 with
      iInput := Function.update s.1.iInput b (flow.joinParents s.1.iOutput b)
      iOutput := Function.update s.1.iOutput b (flow.newOutput s.1 b) },
    s.2 || decide (flow.newOutput s.1 b ≠ s.1.iOutput b))

def sweep (blockOrder : List ℕ) (a : Analysis) : Analysis × Bool :=
  blockOrder.foldl flow.visit (a, false)

/-- The `while` loop, with its body at most `fuel` times. -/
def reachingDefinitions (blockOrder : List ℕ) : ℕ → Analysis → Option Analysis
  | 0, _ => none
  | fuel + 1, a =>
    let s := flow.sweep blockOrder a
    if s.2 then reachingDefinitions blockOrder fuel s.1 else some s.1

end ControlFlow

/-- `i_state` of `check_definitions`, after a statement. -/
def Bits.check (bits : Bits Entry) (iState : ℕ) : Stat Entry → ℕ
  | .assignment id entry => Nat.ldiff iState (bits.assmts entry).mask ||| bits.statBit id
  | .deletion _ entry =>
    Nat.ldiff iState (bits.assmts entry).mask ||| (bits.assmts entry).bit
  | .reference _ => iState

def Bits.walk (bits : Bits Entry) (stats : List (Stat Entry)) (iState : ℕ) : ℕ :=
  stats.foldl bits.check iState

/-! ## Statements -/

omit [DecidableEq Entry] in
theorem Definition.entry_definition (e : Entry) (g : Generated) : (g.definition e).entry = e := by
  cases g <;> rfl

/-- A statement that gives its entry a value of `gen`, or takes the value away. -/
structure Stat.Sets (stat : Stat Entry) (id : ℕ) (e : Entry) (g : Generated) : Prop where
  id?_eq : stat.id? = some id
  entry_eq : stat.entry = e
  definition?_eq : stat.definition? = some (.assigned id e)
  definition_eq : g.definition e = .assigned id e ∨ g.definition e = .uninitialized e
  record_eq : ∀ gen, stat.record gen = gen.set e g
  after_eq : ∀ defs, stat.after defs = {d ∈ defs | d.entry ≠ e} ∪ {g.definition e}
  check_eq : ∀ (bits : Bits Entry) (m : ℕ),
    bits.check m stat = Nat.ldiff m (bits.assmts e).mask ||| bits.bitOf (g.definition e)
  addStat_eq : ∀ bits : Bits Entry, bits.addStat stat = bits.addAssignment id e

theorem Stat.sets_or_reference (stat : Stat Entry) :
    (∃ id e g, stat.Sets id e g) ∨ ∃ e, stat = .reference e := by
  cases stat with
  | assignment id e =>
    exact .inl ⟨id, e, .assignment id, rfl, rfl, rfl, .inl rfl, fun _ => rfl, fun _ => rfl,
      fun _ _ => rfl, fun _ => rfl⟩
  | deletion id e =>
    exact .inl ⟨id, e, .uninitialized, rfl, rfl, rfl, .inr rfl, fun _ => rfl, fun _ => rfl,
      fun _ _ => rfl, fun _ => rfl⟩
  | reference e => exact .inr ⟨e, rfl⟩

omit [DecidableEq Entry] in
theorem afterAll_append (stats : List (Stat Entry)) (stat : Stat Entry)
    (defs : Set (Definition Entry)) :
    afterAll (stats ++ [stat]) defs = stat.after (afterAll stats defs) := List.foldl_append

/-- The entries of `gen` are those that the block gives a value to. -/
theorem mem_genOf {stats : List (Stat Entry)} {e : Entry} :
    e ∈ genOf stats ↔ ∃ stat ∈ stats, ∃ id g, stat.Sets id e g := by
  induction stats using List.reverseRecOn with
  | nil => simp [genOf]
  | append_singleton stats stat ih =>
    rw [genOf_append]
    simp only [List.mem_append, List.mem_singleton, or_and_right, exists_or, exists_eq_left, ← ih]
    obtain ⟨id, e', g, h⟩ | ⟨e', rfl⟩ := stat.sets_or_reference
    · rw [h.record_eq, OrderedDict.mem_set_iff, or_comm]
      refine or_congr_right ⟨?_, ?_⟩
      · rintro rfl
        exact ⟨id, g, h⟩
      · rintro ⟨id', g', h'⟩
        rw [← h.entry_eq, h'.entry_eq]
    · refine (or_iff_left ?_).symm
      rintro ⟨id, g, h⟩
      exact absurd h.id?_eq (by simp [Stat.id?])

/-- What a block generates is in `gen`. -/
theorem mem_afterAll_empty {stats : List (Stat Entry)} {d : Definition Entry} :
    d ∈ afterAll stats ∅ ↔ ∃ g, (genOf stats).get? d.entry = some g ∧ g.definition d.entry = d := by
  induction stats using List.reverseRecOn with
  | nil => simp [afterAll, genOf]
  | append_singleton stats stat ih =>
    rw [afterAll_append, genOf_append]
    obtain ⟨id, e, g, h⟩ | ⟨e, rfl⟩ := stat.sets_or_reference
    · rw [h.after_eq, h.record_eq, OrderedDict.get?_set, Set.mem_union, Set.mem_sep_iff, ih,
        Set.mem_singleton_iff]
      split
      next he =>
        constructor
        · rintro (⟨-, hne⟩ | rfl)
          · exact absurd he hne
          · exact ⟨g, rfl, by rw [Definition.entry_definition]⟩
        · rintro ⟨g', hg, hd⟩
          rw [← Option.some.inj hg, he] at hd
          exact .inr hd.symm
      next he =>
        constructor
        · rintro (⟨hd, -⟩ | rfl)
          · exact hd
          · exact absurd (Definition.entry_definition e g) he
        · exact fun hd => .inl ⟨hd, he⟩
    · exact ih

/-- A block keeps what its statements do not replace. -/
theorem afterAll_eq (stats : List (Stat Entry)) (defs : Set (Definition Entry)) :
    afterAll stats defs = (defs \ {d | d.entry ∈ genOf stats}) ∪ afterAll stats ∅ := by
  induction stats using List.reverseRecOn with
  | nil => simp [afterAll, genOf]
  | append_singleton stats stat ih =>
    rw [afterAll_append, afterAll_append, ih, genOf_append]
    obtain ⟨id, e, g, h⟩ | ⟨e, rfl⟩ := stat.sets_or_reference
    · ext d
      simp only [h.after_eq, h.record_eq, Set.mem_union, Set.mem_sdiff, Set.mem_ofPred_eq, Set.mem_singleton_iff, OrderedDict.mem_set_iff, not_or]
      tauto
    · rfl

/-- The statements of a block do to the definitions what the problem says. -/
theorem transfer_problem {flow : ControlFlow Entry} {b : ℕ} (hb : b ∈ flow.blocks)
    (hentry : b ≠ entryPoint) (defs : Set (Definition Entry)) :
    flow.problem.transfer b defs = afterAll (flow.stats b) defs := by
  rw [GenKill.transfer, afterAll_eq]
  simp only [ControlFlow.problem, hb, hentry, true_and, false_and, false_or]
  rfl

/-- A definition after a block is of a statement of it. -/
theorem exists_stat_of_mem_afterAll {stats : List (Stat Entry)} {d : Definition Entry}
    (h : d ∈ afterAll stats ∅) : ∃ stat ∈ stats, stat.entry = d.entry ∧
      (stat.definition? = some d ∨ d = .uninitialized d.entry) := by
  induction stats using List.reverseRecOn with
  | nil => exact h.elim
  | append_singleton stats stat ih =>
    rw [afterAll_append] at h
    obtain ⟨id, e, g, hsets⟩ | ⟨e, rfl⟩ := stat.sets_or_reference
    · rw [hsets.after_eq] at h
      rcases h with ⟨h, -⟩ | rfl
      · obtain ⟨stat', hmem, hstat'⟩ := ih h
        exact ⟨stat', List.mem_append_left _ hmem, hstat'⟩
      · refine ⟨stat, List.mem_append_right _ (List.mem_singleton_self _), ?_, ?_⟩
        · rw [hsets.entry_eq, Definition.entry_definition]
        · rw [hsets.definition?_eq, Definition.entry_definition]
          exact hsets.definition_eq.imp (fun hd => congrArg some hd.symm) fun hd => hd
    · obtain ⟨stat', hmem, hstat'⟩ := ih h
      exact ⟨stat', List.mem_append_left _ hmem, hstat'⟩

/-! ## Allocation -/

/-- The definitions have bits of their own, in their order, and a mask has those of its
    entry. -/
structure Allocated (ds : List (Definition Entry)) (bits : Bits Entry) : Prop where
  next_eq : bits.next = 2 ^ ds.length
  bitOf_eq : ∀ d ∈ ds, bits.bitOf d = 2 ^ ds.idxOf d
  mask_iff : ∀ e, .uninitialized e ∈ ds → ∀ i,
    ((bits.assmts e).mask.testBit i = true ↔ ∃ d ∈ ds, d.entry = e ∧ ds.idxOf d = i)

theorem Bits.assmts_addEntry (bits : Bits Entry) (e : Entry) :
    (bits.addEntry e).assmts =
      Function.update bits.assmts e { bit := bits.next, mask := bits.next } := rfl

theorem Bits.assmts_addAssignment (bits : Bits Entry) (id : ℕ) (e : Entry) :
    (bits.addAssignment id e).assmts = Function.update bits.assmts e { bits.assmts e with
      mask := (bits.assmts e).mask ||| bits.next, stats := (bits.assmts e).stats ++ [id] } := rfl

theorem Bits.statBit_addAssignment (bits : Bits Entry) (id : ℕ) (e : Entry) :
    (bits.addAssignment id e).statBit = Function.update bits.statBit id bits.next := rfl

theorem idxOf_append_self {ds : List (Definition Entry)} {d : Definition Entry} (h : d ∉ ds) :
    (ds ++ [d]).idxOf d = ds.length := by
  rw [List.idxOf_append_of_notMem h]
  simp

theorem exists_mem_append_singleton {ds : List (Definition Entry)} {d : Definition Entry}
    (h : d ∉ ds) {p : Definition Entry → Prop} {i : ℕ} :
    (∃ d' ∈ ds ++ [d], p d' ∧ (ds ++ [d]).idxOf d' = i) ↔
      (∃ d' ∈ ds, p d' ∧ ds.idxOf d' = i) ∨ p d ∧ ds.length = i := by
  constructor
  · rintro ⟨d', hd', hp, hi⟩
    rcases List.mem_append.1 hd' with hd' | hd'
    · rw [List.idxOf_append_of_mem hd'] at hi
      exact .inl ⟨d', hd', hp, hi⟩
    · obtain rfl := List.mem_singleton.1 hd'
      rw [idxOf_append_self h] at hi
      exact .inr ⟨hp, hi⟩
  · rintro (⟨d', hd', hp, hi⟩ | ⟨hp, hi⟩)
    · refine ⟨d', List.mem_append_left _ hd', hp, ?_⟩
      rw [List.idxOf_append_of_mem hd', hi]
    · refine ⟨d, List.mem_append_right _ (List.mem_singleton_self d), hp, ?_⟩
      rw [idxOf_append_self h, hi]

omit [DecidableEq Entry] in
theorem pow_length_append (ds : List (Definition Entry)) (d : Definition Entry) :
    (2 ^ ds.length) <<< 1 = 2 ^ (ds ++ [d]).length := by
  rw [Nat.shiftLeft_eq, List.length_append, List.length_singleton, pow_add]

theorem Allocated.addEntry {ds : List (Definition Entry)} {bits : Bits Entry}
    (h : Allocated ds bits) {e : Entry} (he : ∀ d ∈ ds, d.entry ≠ e) :
    Allocated (ds ++ [.uninitialized e]) (bits.addEntry e) := by
  have hnew : .uninitialized e ∉ ds := fun hd => he _ hd rfl
  refine ⟨?_, fun d hd => ?_, fun e' he' i => ?_⟩
  · rw [Bits.addEntry, h.next_eq, pow_length_append]
  · rcases List.mem_append.1 hd with hd | hd
    · rw [List.idxOf_append_of_mem hd, ← h.bitOf_eq d hd]
      cases d with
      | uninitialized e' =>
        have hne : e' ≠ e := he _ hd
        rw [Bits.bitOf, Bits.assmts_addEntry, Function.update_of_ne hne]
        rfl
      | assigned id e' => rfl
    · obtain rfl := List.mem_singleton.1 hd
      rw [idxOf_append_self hnew, Bits.bitOf, Bits.assmts_addEntry, Function.update_self,
        h.next_eq]
  · rw [exists_mem_append_singleton hnew]
    rcases eq_or_ne e' e with rfl | hne
    · rw [Bits.assmts_addEntry, Function.update_self, h.next_eq, Nat.testBit_two_pow, decide_eq_true_iff]
      constructor
      · exact fun hi => .inr ⟨rfl, hi⟩
      · rintro (⟨d, hd, hde, -⟩ | ⟨-, hi⟩)
        · exact absurd hde (he d hd)
        · exact hi
    · have he'' : .uninitialized e' ∈ ds := by
        rcases List.mem_append.1 he' with he' | he'
        · exact he'
        · exact absurd (congrArg Definition.entry (List.mem_singleton.1 he')) hne
      rw [Bits.assmts_addEntry, Function.update_of_ne hne, h.mask_iff e' he'' i]
      exact (or_iff_left fun hi => hne hi.1.symm).symm

theorem Allocated.addAssignment {ds : List (Definition Entry)} {bits : Bits Entry}
    (h : Allocated ds bits) {id : ℕ} {e : Entry} (he : .uninitialized e ∈ ds)
    (hid : ∀ e', .assigned id e' ∉ ds) :
    Allocated (ds ++ [.assigned id e]) (bits.addAssignment id e) := by
  refine ⟨?_, fun d hd => ?_, fun e' he' i => ?_⟩
  · rw [Bits.addAssignment, h.next_eq, pow_length_append]
  · rcases List.mem_append.1 hd with hd | hd
    · rw [List.idxOf_append_of_mem hd, ← h.bitOf_eq d hd]
      cases d with
      | uninitialized e' =>
        rcases eq_or_ne e' e with rfl | hne
        · rw [Bits.bitOf, Bits.assmts_addAssignment, Function.update_self]
          rfl
        · rw [Bits.bitOf, Bits.assmts_addAssignment, Function.update_of_ne hne]
          rfl
      | assigned id' e' =>
        have hne : id' ≠ id := fun heq => hid e' (heq ▸ hd)
        rw [Bits.bitOf, Bits.statBit_addAssignment, Function.update_of_ne hne]
        rfl
    · obtain rfl := List.mem_singleton.1 hd
      rw [idxOf_append_self (hid e), Bits.bitOf, Bits.statBit_addAssignment, Function.update_self,
        h.next_eq]
  · have he'' : .uninitialized e' ∈ ds := by
      rcases List.mem_append.1 he' with he' | he'
      · exact he'
      · exact absurd (List.mem_singleton.1 he') (by simp)
    rw [exists_mem_append_singleton (hid e)]
    rcases eq_or_ne e' e with rfl | hne
    · rw [Bits.assmts_addAssignment, Function.update_self, Nat.testBit_or, Bool.or_eq_true,
        h.mask_iff e' he'' i, h.next_eq, Nat.testBit_two_pow, decide_eq_true_iff]
      exact or_congr_right ⟨fun hi => ⟨rfl, hi⟩, fun hi => hi.2⟩
    · rw [Bits.assmts_addAssignment, Function.update_of_ne hne, h.mask_iff e' he'' i]
      exact (or_iff_left fun hi => hne hi.1.symm).symm

/-- What `initialize` gives bits to, in its order. -/
def definitions (entryOrder : List Entry) (stats : List (Stat Entry)) : List (Definition Entry) :=
  entryOrder.map .uninitialized ++ stats.filterMap Stat.definition?

theorem allocated_entries {entryOrder : List Entry} (h : entryOrder.Nodup) :
    Allocated (entryOrder.map .uninitialized) (entryOrder.foldl Bits.addEntry {}) := by
  induction entryOrder using List.reverseRecOn with
  | nil => exact ⟨rfl, fun d hd => absurd hd List.not_mem_nil, fun e he => absurd he List.not_mem_nil⟩
  | append_singleton entries e ih =>
    obtain ⟨hnodup, -, hdisj⟩ := List.nodup_append'.1 h
    rw [List.foldl_append, List.map_append]
    refine (ih hnodup).addEntry fun d hd => ?_
    obtain ⟨e', he', rfl⟩ := List.mem_map.1 hd
    rintro rfl
    exact hdisj he' (List.mem_singleton_self _)

theorem allocated_allocate {entryOrder : List Entry} {stats : List (Stat Entry)}
    (hentries : entryOrder.Nodup) (hmem : ∀ stat ∈ stats, stat.entry ∈ entryOrder)
    (hids : (stats.filterMap Stat.id?).Nodup) :
    Allocated (definitions entryOrder stats) (allocate entryOrder stats) := by
  induction stats using List.reverseRecOn with
  | nil =>
    rw [definitions, List.filterMap_nil, List.append_nil]
    exact allocated_entries hentries
  | append_singleton stats stat ih =>
    rw [List.filterMap_append] at hids
    obtain ⟨hids', -, hdisj⟩ := List.nodup_append'.1 hids
    have hrec := ih (fun s hs => hmem s (List.mem_append_left _ hs)) hids'
    rw [definitions, List.filterMap_append, ← List.append_assoc, ← definitions, allocate,
      List.foldl_append, ← allocate]
    obtain ⟨id, e, g, h⟩ | ⟨e, rfl⟩ := stat.sets_or_reference
    · have hentry : e ∈ entryOrder := by
        rw [← h.entry_eq]
        exact hmem stat (List.mem_append_right _ (List.mem_singleton_self _))
      rw [List.foldl_cons, List.foldl_nil, h.addStat_eq, List.filterMap_cons, h.definition?_eq]
      refine hrec.addAssignment (List.mem_append_left _ (List.mem_map_of_mem hentry)) ?_
      intro e' he'
      rcases List.mem_append.1 he' with he' | he'
      · obtain ⟨_, -, he'⟩ := List.mem_map.1 he'
        cases he'
      · obtain ⟨stat', hstat', he'⟩ := List.mem_filterMap.1 he'
        have hid' : stat'.id? = some id := by
          obtain ⟨id', e'', g', h'⟩ | ⟨e'', rfl⟩ := stat'.sets_or_reference
          · rw [h'.definition?_eq] at he'
            cases he'
            exact h'.id?_eq
          · cases he'
        refine hdisj (List.mem_filterMap.2 ⟨stat', hstat', hid'⟩)
          (List.mem_filterMap.2 ⟨stat, List.mem_singleton_self _, h.id?_eq⟩)
    · have hnil : [Stat.reference e].filterMap Stat.definition? = [] := rfl
      rw [hnil, List.append_nil]
      exact hrec

/-! ## Masks and sets -/

section

variable {ds : List (Definition Entry)} {bits : Bits Entry}

/-- The bits of a mask are those of the definitions of a set. -/
def Stands (ds : List (Definition Entry)) (m : ℕ) (defs : Set (Definition Entry)) : Prop :=
  (∀ d ∈ defs, d ∈ ds) ∧ ∀ i, m.testBit i = true ↔ ∃ d ∈ defs, ds.idxOf d = i

theorem Stands.eq {m m' : ℕ} {defs : Set (Definition Entry)} (h : Stands ds m defs)
    (h' : Stands ds m' defs) : m = m' :=
  Nat.eq_of_testBit_eq fun i => Bool.eq_iff_iff.2 ((h.2 i).trans (h'.2 i).symm)

theorem stands_zero : Stands ds 0 ∅ := by
  refine ⟨fun d hd => hd.elim, fun i => ?_⟩
  simp

theorem Stands.or {m m' : ℕ} {defs defs' : Set (Definition Entry)} (h : Stands ds m defs)
    (h' : Stands ds m' defs') : Stands ds (m ||| m') (defs ∪ defs') := by
  refine ⟨fun d hd => hd.elim (h.1 d) (h'.1 d), fun i => ?_⟩
  rw [Nat.testBit_or, Bool.or_eq_true, h.2, h'.2]
  simp only [Set.mem_union, or_and_right, exists_or]

/-- Different definitions have different bits. -/
theorem Stands.ldiff {m m' : ℕ} {defs defs' : Set (Definition Entry)} (h : Stands ds m defs)
    (h' : Stands ds m' defs') : Stands ds (Nat.ldiff m m') (defs \ defs') := by
  refine ⟨fun d hd => h.1 d hd.1, fun i => ?_⟩
  rw [Nat.testBit_ldiff, Bool.and_eq_true, Bool.not_eq_true', ← Bool.not_eq_true, h.2, h'.2]
  constructor
  · rintro ⟨⟨d, hd, rfl⟩, hnot⟩
    exact ⟨d, ⟨hd, fun hd' => hnot ⟨d, hd', rfl⟩⟩, rfl⟩
  · rintro ⟨d, ⟨hd, hnot⟩, rfl⟩
    refine ⟨⟨d, hd, rfl⟩, ?_⟩
    rintro ⟨d', hd', hidx⟩
    rw [(List.idxOf_inj (h'.1 d' hd')).1 hidx] at hd'
    exact hnot hd'

theorem Allocated.stands_bitOf (h : Allocated ds bits) {d : Definition Entry} (hd : d ∈ ds) :
    Stands ds (bits.bitOf d) {d} := by
  refine ⟨fun d' hd' => hd' ▸ hd, fun i => ?_⟩
  rw [h.bitOf_eq d hd, Nat.testBit_two_pow, decide_eq_true_iff]
  simp

theorem Allocated.stands_mask (h : Allocated ds bits) {e : Entry} (he : .uninitialized e ∈ ds) :
    Stands ds (bits.assmts e).mask {d | d ∈ ds ∧ d.entry = e} := by
  refine ⟨fun d hd => hd.1, fun i => ?_⟩
  rw [h.mask_iff e he]
  simp only [Set.mem_ofPred_eq, and_assoc]

/-- A loop of `|=`. -/
theorem stands_foldl {α : Type} {l : List α} {f : α → ℕ} {sets : α → Set (Definition Entry)}
    (hf : ∀ a ∈ l, Stands ds (f a) (sets a)) {m : ℕ} {defs : Set (Definition Entry)}
    (h : Stands ds m defs) :
    Stands ds (l.foldl (fun m a => m ||| f a) m) (defs ∪ {d | ∃ a ∈ l, d ∈ sets a}) := by
  induction l generalizing m defs with
  | nil => simpa using h
  | cons a l ih =>
    have hrec := ih (fun a' ha' => hf a' (List.mem_cons_of_mem _ ha'))
      (h.or (hf a List.mem_cons_self))
    have hsets : defs ∪ {d | ∃ a' ∈ a :: l, d ∈ sets a'} =
        defs ∪ sets a ∪ {d | ∃ a' ∈ l, d ∈ sets a'} := by
      ext d
      simp only [Set.mem_union, Set.mem_ofPred_eq, List.mem_cons, exists_eq_or_imp, or_assoc]
    rw [hsets]
    exact hrec

end

/-! ## The bits of the blocks -/

/-- Orders in which the sets of a graph are iterated. -/
structure Orders (flow : ControlFlow Entry) (entryOrder : List Entry) (blockOrder : List ℕ) :
    Prop where
  entries_nodup : entryOrder.Nodup
  mem_entryOrder : ∀ e, e ∈ entryOrder ↔ e ∈ flow.entries
  blocks_nodup : blockOrder.Nodup
  mem_blockOrder : ∀ b, b ∈ blockOrder ↔ b ∈ flow.blocks

section

variable {flow : ControlFlow Entry} {entryOrder : List Entry} {blockOrder : List ℕ}

theorem Orders.allocated (o : Orders flow entryOrder blockOrder) (h : Consistent flow) :
    Allocated (definitions entryOrder (blockOrder.flatMap flow.stats))
      (flow.initializeBits entryOrder blockOrder).1 := by
  refine allocated_allocate o.entries_nodup (fun stat hstat => ?_) ?_
  · obtain ⟨b, -, hb⟩ := List.mem_flatMap.1 hstat
    exact (o.mem_entryOrder _).2 (h.entry_mem b stat hb)
  · rw [List.filterMap_flatMap, List.nodup_flatMap]
    exact ⟨fun b _ => h.id_nodup b, o.blocks_nodup.imp fun hne => h.id_disjoint _ _ hne⟩

omit [DecidableEq Entry] in
theorem Orders.uninitialized_mem (o : Orders flow entryOrder blockOrder) {e : Entry}
    (he : e ∈ flow.entries) :
    .uninitialized e ∈ definitions entryOrder (blockOrder.flatMap flow.stats) :=
  List.mem_append_left _ (List.mem_map_of_mem ((o.mem_entryOrder e).2 he))

/-- What a block generates has bits. -/
theorem Orders.afterAll_subset (o : Orders flow entryOrder blockOrder) (h : Consistent flow)
    {b : ℕ} (hb : b ∈ flow.blocks) {d : Definition Entry}
    (hd : d ∈ afterAll (flow.stats b) ∅) :
    d ∈ definitions entryOrder (blockOrder.flatMap flow.stats) := by
  obtain ⟨stat, hmem, hentry, hstat | hd⟩ := exists_stat_of_mem_afterAll hd
  · exact List.mem_append_right _ (List.mem_filterMap.2
      ⟨stat, List.mem_flatMap.2 ⟨b, (o.mem_blockOrder b).2 hb, hmem⟩, hstat⟩)
  · rw [hd]
    refine o.uninitialized_mem ?_
    rw [← hentry]
    exact h.entry_mem b stat hmem

/-- The values of `gen` are the definitions that the block generates. -/
theorem stands_blockGen (o : Orders flow entryOrder blockOrder) (h : Consistent flow) {b : ℕ}
    (hb : b ∈ flow.blocks) :
    Stands (definitions entryOrder (blockOrder.flatMap flow.stats))
      (blockGen (flow.initializeBits entryOrder blockOrder).1 (flow.store b))
      (afterAll (flow.stats b) ∅) := by
  have halloc := o.allocated h
  have hset : afterAll (flow.stats b) ∅ = ∅ ∪ {d | ∃ item ∈ (flow.store b).gen.entries,
      d ∈ ({item.2.definition item.1} : Set (Definition Entry))} := by
    ext d
    rw [mem_afterAll_empty, ← h.gen_eq, Set.empty_union]
    constructor
    · rintro ⟨g, hg, hd⟩
      exact ⟨(d.entry, g), OrderedDict.get?_eq_some_iff.1 hg, hd.symm⟩
    · rintro ⟨⟨e, g⟩, hitem, rfl⟩
      rw [Definition.entry_definition]
      exact ⟨g, OrderedDict.get?_eq_some_iff.2 hitem, rfl⟩
  rw [hset]
  refine stands_foldl (fun item hitem => halloc.stands_bitOf ?_) stands_zero
  refine o.afterAll_subset h hb ?_
  rw [hset]
  exact .inr ⟨item, hitem, rfl⟩

theorem stands_blockKill (o : Orders flow entryOrder blockOrder) (h : Consistent flow) (b : ℕ) :
    Stands (definitions entryOrder (blockOrder.flatMap flow.stats))
      (blockKill (flow.initializeBits entryOrder blockOrder).1 entryOrder (flow.store b))
      {d | d ∈ definitions entryOrder (blockOrder.flatMap flow.stats) ∧
        d.entry ∈ genOf (flow.stats b)} := by
  have halloc := o.allocated h
  have hbounded : entryOrder.filter (· ∈ (flow.store b).bounded) = [] := by
    rw [h.bounded_eq, List.filter_eq_nil_iff]
    simp
  have hentries : ∀ e ∈ genOf (flow.stats b), e ∈ flow.entries := by
    intro e he
    obtain ⟨stat, hstat, id, g, hsets⟩ := mem_genOf.1 he
    rw [← hsets.entry_eq]
    exact h.entry_mem b stat hstat
  have hset : {d | d ∈ definitions entryOrder (blockOrder.flatMap flow.stats) ∧
      d.entry ∈ genOf (flow.stats b)} = ∅ ∪ {d | ∃ item ∈ (flow.store b).gen.entries,
        d ∈ {d | d ∈ definitions entryOrder (blockOrder.flatMap flow.stats) ∧
          d.entry = item.1}} := by
    ext d
    rw [← h.gen_eq, Set.empty_union]
    constructor
    · rintro ⟨hd, he⟩
      obtain ⟨item, hitem, hkey⟩ := List.mem_map.1 he
      exact ⟨item, hitem, hd, hkey.symm⟩
    · rintro ⟨item, hitem, hd, hkey⟩
      refine ⟨hd, ?_⟩
      rw [hkey]
      exact List.mem_map_of_mem hitem
  rw [blockKill, hbounded, List.foldl_nil, hset]
  refine stands_foldl (fun item hitem => halloc.stands_mask (o.uninitialized_mem ?_)) stands_zero
  refine hentries _ ?_
  rw [← h.gen_eq]
  exact List.mem_map_of_mem hitem

theorem stands_iGen (o : Orders flow entryOrder blockOrder) (h : Consistent flow) (b : ℕ) :
    Stands (definitions entryOrder (blockOrder.flatMap flow.stats))
      ((flow.initializeBits entryOrder blockOrder).2.iGen b) (flow.problem.gen b) := by
  have halloc := o.allocated h
  have hgen : flow.problem.gen b = {d | b = entryPoint ∧ (∃ e ∈ flow.entries, d = .uninitialized e) ∨
    b ∈ flow.blocks ∧ d ∈ afterAll (flow.stats b) ∅} := rfl
  rw [hgen]
  simp only [ControlFlow.initializeBits]
  split_ifs with hb hmem
  · -- At the entry point no entry has a value.
    have hnot : b ∉ flow.blocks := fun hmem => h.entryPoint_notMem (hb ▸ hmem)
    have hset : {d | b = entryPoint ∧ (∃ e ∈ flow.entries, d = .uninitialized e) ∨
        b ∈ flow.blocks ∧ d ∈ afterAll (flow.stats b) ∅} =
        ∅ ∪ {d | ∃ e ∈ entryOrder, d ∈ ({.uninitialized e} : Set (Definition Entry))} := by
      ext d
      simp only [Set.mem_ofPred_eq, Set.empty_union, Set.mem_singleton_iff, o.mem_entryOrder,
        eq_true hb, eq_false hnot, true_and, false_and, or_false]
    rw [hset]
    exact stands_foldl (fun e he => halloc.stands_bitOf
      (o.uninitialized_mem ((o.mem_entryOrder e).1 he))) stands_zero
  · have hblock := (o.mem_blockOrder b).1 hmem
    simp only [eq_false hb, eq_true hblock, true_and, false_and, false_or]
    exact stands_blockGen o h hblock
  · have hblock : b ∉ flow.blocks := fun hblock => hmem ((o.mem_blockOrder b).2 hblock)
    simp only [eq_false hb, eq_false hblock, false_and, or_false]
    exact stands_zero

theorem stands_iKill (o : Orders flow entryOrder blockOrder) (h : Consistent flow) (b : ℕ) :
    Stands (definitions entryOrder (blockOrder.flatMap flow.stats))
      ((flow.initializeBits entryOrder blockOrder).2.iKill b)
      {d | d ∈ definitions entryOrder (blockOrder.flatMap flow.stats) ∧
        d ∈ flow.problem.kill b} := by
  simp only [ControlFlow.initializeBits, ControlFlow.problem, Set.mem_ofPred_eq]
  split_ifs with hmem
  · simp only [eq_true ((o.mem_blockOrder b).1 hmem), true_and]
    exact stands_blockKill o h b
  · have hblock : b ∉ flow.blocks := fun hblock => hmem ((o.mem_blockOrder b).2 hblock)
    simp only [eq_false hblock, false_and, and_false]
    exact stands_zero

end

end AHPy.FlowControl
