import AHPy.FlowControl.Exactness

/-!
# Deleting unreachable and orphan blocks

`ControlFlow.normalize`: a search from the entry point, in which any block of the queue
may be next; then unreachable blocks are detached, and blocks that are empty are spliced
out, one after the other, in any order. A set that is changed while it is iterated over,
or an element to remove that is not in a set, would be an exception.

* `search_spec`: the search ends with the blocks that can be reached;
* `Splices`: what splicing a block out does to the edges, self-loops and cycles included;
* `normalize_spec`: which blocks are left, and what arrives at them.
-/

namespace AHPy.FlowControl

variable {Entry : Type} [DecidableEq Entry]

/-- Exceptions of the loops. -/
inductive Failure where
  | keyError
  | changedSize

/-- The sets that are iterated over. -/
inductive Loop where
  | unreachable
  | visited
  | detachedChildren (block : ℕ)
  | detachedParents (block : ℕ)
  | reparented (block : ℕ)
  | reparentedTo (block parent : ℕ)

/-- The choices of a run: what `queue.pop()` takes, after some blocks have been visited, and
    the order of every iteration. -/
structure Choices where
  pop : Finset ℕ → Finset ℕ → ℕ
  order : Loop → Finset ℕ → List ℕ
  pop_mem : ∀ visited queue, queue.Nonempty → pop visited queue ∈ queue
  order_nodup : ∀ loop s, (order loop s).Nodup
  mem_order : ∀ loop s b, b ∈ order loop s ↔ b ∈ s

namespace ControlFlow

variable (flow : ControlFlow Entry)

/-- The `while` loop of `normalize`, with its body at most `fuel` times. -/
def search (c : Choices) : ℕ → Finset ℕ → Finset ℕ → Option (Finset ℕ)
  | 0, _, _ => none
  | fuel + 1, queue, visited =>
    if queue = ∅ then some visited
    else
      let root := c.pop visited queue
      let visited' := insert root visited
      search c fuel (queue.erase root ∪ (flow.children root \ visited')) visited'

/-- A change of a block that fails if the block is not as it must be. -/
def modifyIf (p : ControlBlock Entry → Bool) (f : ControlBlock Entry → ControlBlock Entry)
    (b : ℕ) : Except Failure (ControlFlow Entry) :=
  if p (flow.store b) then .ok (flow.modify b f) else .error .keyError

/-- `child.parents.remove(self)` -/
def removeParent (b child : ℕ) : Except Failure (ControlFlow Entry) :=
  flow.modifyIf (fun block => b ∈ block.parents)
    (fun block => { block with parents := block.parents.erase b }) child

/-- `parent.children.remove(self)` -/
def removeChild (b parent : ℕ) : Except Failure (ControlFlow Entry) :=
  flow.modifyIf (fun block => b ∈ block.children)
    (fun block => { block with children := block.children.erase b }) parent

def clear (b : ℕ) : ControlFlow Entry :=
  flow.modify b fun block => { block with parents := ∅, children := ∅ }

/-- `ControlBlock.detach` -/
def detach (c : Choices) (b : ℕ) : Except Failure (ControlFlow Entry) := do
  let flow' ← (c.order (.detachedChildren b) (flow.children b)).foldlM
    (fun flow' child => flow'.removeParent b child) flow
  let flow'' ← (c.order (.detachedParents b) (flow'.parents b)).foldlM
    (fun flow'' parent => flow''.removeChild b parent) flow'
  return flow''.clear b

/-- `parent.add_child(child)`, while the parents and the children of `b` are iterated over. -/
def addChildIn (b parent child : ℕ) : Except Failure (ControlFlow Entry) :=
  let flow' := flow.addChild parent child
  if flow'.parents b = flow.parents b ∧ flow'.children b = flow.children b then .ok flow'
  else .error .changedSize

/-- The loops that connect the parents of a block to its children. -/
def reparent (c : Choices) (b : ℕ) : Except Failure (ControlFlow Entry) :=
  (c.order (.reparented b) (flow.parents b)).foldlM (fun flow' parent =>
    (c.order (.reparentedTo b parent) (flow'.children b)).foldlM
      (fun flow'' child => flow''.addChildIn b parent child) flow') flow

/-- The body of the loop over the visited blocks; the second component is `unreachable`. -/
def removeEmpty (c : Choices) (s : ControlFlow Entry × Finset ℕ) (b : ℕ) :
    Except Failure (ControlFlow Entry × Finset ℕ) :=
  if (s.1.store b).empty then do
    let flow' ← s.1.reparent c b
    let flow'' ← flow'.detach c b
    return (flow'', insert b s.2)
  else return s

/-- `normalize`, after the search. -/
def prune (c : Choices) (visited : Finset ℕ) : Except Failure (ControlFlow Entry) := do
  let flow' ← (c.order .unreachable (flow.blocks \ visited)).foldlM
    (fun flow' b => flow'.detach c b) flow
  if entryPoint ∈ visited then
    let s ← (c.order .visited (visited.erase entryPoint)).foldlM (removeEmpty c)
      (flow', flow.blocks \ visited)
    return { s.1 with blocks := s.1.blocks \ s.2 }
  else throw .keyError

def normalize (c : Choices) (fuel : ℕ) : Option (Except Failure (ControlFlow Entry)) :=
  (flow.search c fuel {entryPoint} ∅).map (flow.prune c)

/-! ## Reachable blocks -/

/-- There is a path from the entry point to a block. -/
def Reachable (b : ℕ) : Prop :=
  Relation.ReflTransGen (fun a a' => a' ∈ flow.children a) entryPoint b

end ControlFlow

section

variable {flow : ControlFlow Entry}

omit [DecidableEq Entry]

/-- The invariant of the search. -/
structure Searching (flow : ControlFlow Entry) (queue visited : Finset ℕ) : Prop where
  reachable : ∀ b ∈ queue ∪ visited, flow.Reachable b
  entryPoint_mem : entryPoint ∈ queue ∪ visited
  closed : ∀ b ∈ visited, flow.children b ⊆ queue ∪ visited
  disjoint : Disjoint queue visited

theorem Searching.step {queue visited : Finset ℕ} (h : Searching flow queue visited) {root : ℕ}
    (hroot : root ∈ queue) :
    Searching flow (queue.erase root ∪ (flow.children root \ insert root visited))
      (insert root visited) := by
  have hsub : queue ∪ visited ⊆
      queue.erase root ∪ (flow.children root \ insert root visited) ∪ insert root visited := by
    intro b hb
    rcases eq_or_ne b root with rfl | hne
    · exact Finset.mem_union_right _ (Finset.mem_insert_self _ _)
    · rcases Finset.mem_union.1 hb with hb | hb
      · exact Finset.mem_union_left _ (Finset.mem_union_left _ (Finset.mem_erase.2 ⟨hne, hb⟩))
      · exact Finset.mem_union_right _ (Finset.mem_insert_of_mem hb)
  refine ⟨fun b hb => ?_, hsub h.entryPoint_mem, fun b hb a ha => ?_, ?_⟩
  · have hr := h.reachable root (Finset.mem_union_left _ hroot)
    simp only [Finset.mem_union, Finset.mem_erase, Finset.mem_sdiff, Finset.mem_insert] at hb
    rcases hb with (⟨-, hb⟩ | ⟨hb, -⟩) | rfl | hb
    · exact h.reachable b (Finset.mem_union_left _ hb)
    · exact hr.tail hb
    · exact hr
    · exact h.reachable b (Finset.mem_union_right _ hb)
  · rcases Finset.mem_insert.1 hb with rfl | hb
    · by_cases hv : a ∈ insert b visited
      · exact Finset.mem_union_right _ hv
      · exact Finset.mem_union_left _ (Finset.mem_union_right _ (Finset.mem_sdiff.2 ⟨ha, hv⟩))
    · exact hsub (h.closed b hb ha)
  · rw [Finset.disjoint_left]
    intro b hb hv
    rcases Finset.mem_union.1 hb with hb | hb
    · obtain ⟨hne, hb⟩ := Finset.mem_erase.1 hb
      exact Finset.disjoint_left.1 h.disjoint hb ((Finset.mem_insert.1 hv).resolve_left hne)
    · exact (Finset.mem_sdiff.1 hb).2 hv

theorem Searching.mem_iff {visited : Finset ℕ} (h : Searching flow ∅ visited) (b : ℕ) :
    b ∈ visited ↔ flow.Reachable b := by
  constructor
  · exact fun hb => h.reachable b (Finset.mem_union_right _ hb)
  · intro hb
    induction hb with
    | refl => simpa using h.entryPoint_mem
    | tail _ hab ih => simpa using h.closed _ ih hab

/-- A reachable block is the entry point, or a block of the graph. -/
theorem ControlFlow.Reachable.mem (hchild : ∀ a b, b ∈ flow.children a → b ∈ flow.blocks) {b : ℕ}
    (hb : flow.Reachable b) : b ∈ insert entryPoint flow.blocks := by
  cases hb with
  | refl => exact Finset.mem_insert_self _ _
  | tail _ hab => exact Finset.mem_insert_of_mem (hchild _ _ hab)

/-- The search ends: a block is visited only once. -/
theorem Searching.exists_search (c : Choices)
    (hchild : ∀ a b, b ∈ flow.children a → b ∈ flow.blocks) {queue visited : Finset ℕ}
    (h : Searching flow queue visited) :
    ∃ visited', (∀ b, b ∈ visited' ↔ flow.Reachable b) ∧
      ∀ fuel, (insert entryPoint flow.blocks \ visited).card < fuel →
        flow.search c fuel queue visited = some visited' := by
  induction hm : (insert entryPoint flow.blocks \ visited).card using Nat.strong_induction_on
    generalizing queue visited with
  | _ m ih =>
    rcases queue.eq_empty_or_nonempty with rfl | hne
    · refine ⟨visited, h.mem_iff, fun fuel hfuel => ?_⟩
      obtain ⟨fuel, rfl⟩ := Nat.exists_eq_succ_of_ne_zero (Nat.ne_zero_of_lt hfuel)
      exact if_pos rfl
    · have hroot := c.pop_mem visited queue hne
      set root := c.pop visited queue with hdef
      have hfresh : root ∉ visited := Finset.disjoint_left.1 h.disjoint hroot
      have hmem : root ∈ insert entryPoint flow.blocks :=
        (h.reachable root (Finset.mem_union_left _ hroot)).mem hchild
      have hlt : (insert entryPoint flow.blocks \ insert root visited).card < m := by
        rw [← hm, Finset.sdiff_insert]
        exact Finset.card_erase_lt_of_mem (Finset.mem_sdiff.2 ⟨hmem, hfresh⟩)
      obtain ⟨visited', hvisited, hsearch⟩ := ih _ hlt (h.step hroot) rfl
      refine ⟨visited', hvisited, fun fuel hfuel => ?_⟩
      obtain ⟨fuel, rfl⟩ := Nat.exists_eq_succ_of_ne_zero (Nat.ne_zero_of_lt hfuel)
      have hstep : flow.search c (fuel + 1) queue visited = flow.search c fuel
          (queue.erase root ∪ (flow.children root \ insert root visited)) (insert root visited) :=
        if_neg hne.ne_empty
      rw [hstep]
      exact hsearch fuel (by omega)

/-- More fuel does not change what is visited. -/
theorem search_mono (c : Choices) {fuel fuel' : ℕ} (hle : fuel ≤ fuel')
    {queue visited visited' : Finset ℕ} (h : flow.search c fuel queue visited = some visited') :
    flow.search c fuel' queue visited = some visited' := by
  induction fuel generalizing fuel' queue visited with
  | zero => cases h
  | succ fuel ih =>
    obtain ⟨fuel', rfl⟩ := Nat.exists_eq_succ_of_ne_zero (Nat.ne_zero_of_lt hle)
    rw [ControlFlow.search] at h ⊢
    split_ifs at h ⊢
    · exact h
    · exact ih (Nat.le_of_succ_le_succ hle) h

/-- The search visits the blocks that can be reached, whatever is taken from the queue. -/
theorem search_spec (c : Choices) (hchild : ∀ a b, b ∈ flow.children a → b ∈ flow.blocks) :
    ∃ n visited, (∀ b, b ∈ visited ↔ flow.Reachable b) ∧
      ∀ fuel, n < fuel → flow.search c fuel {entryPoint} ∅ = some visited := by
  have hstart : Searching flow {entryPoint} ∅ := by
    refine ⟨fun b hb => ?_, by simp, by simp, Finset.disjoint_empty_right _⟩
    obtain rfl : b = entryPoint := by simpa using hb
    exact .refl
  obtain ⟨visited, hvisited, hsearch⟩ := hstart.exists_search c hchild
  exact ⟨_, visited, hvisited, hsearch⟩

/-! ## Edges -/

/-- The rest of a graph with other edges. -/
structure Kept (flow flow' : ControlFlow Entry) : Prop where
  same : SameBlocks flow flow'
  empty_eq : ∀ b, (flow'.store b).empty = (flow.store b).empty
  blocks_eq : flow'.blocks = flow.blocks

theorem Kept.trans {flow' flow'' : ControlFlow Entry} (h : Kept flow flow')
    (h' : Kept flow' flow'') : Kept flow flow'' :=
  ⟨h.same.trans h'.same, fun b => (h'.empty_eq b).trans (h.empty_eq b),
    h'.blocks_eq.trans h.blocks_eq⟩

theorem kept_of_store {flow' : ControlFlow Entry}
    (h : ∀ b, ∃ children parents,
      flow'.store b = { flow.store b with children := children, parents := parents })
    (hblocks : flow'.blocks = flow.blocks) (hentries : flow'.entries = flow.entries) :
    Kept flow flow' := by
  refine ⟨⟨fun b => ?_, fun b => ?_, fun b => ?_, hentries⟩, fun b => ?_, hblocks⟩ <;>
    obtain ⟨children, parents, hb⟩ := h b
  · rw [ControlFlow.stats, hb, ControlFlow.stats]
  · rw [hb]
  · rw [hb]
  · rw [hb]
    rfl

/-- A graph with the edges of a relation: the rest is as before. -/
structure Rewired (flow flow' : ControlFlow Entry) (edge : ℕ → ℕ → Prop) : Prop where
  kept : Kept flow flow'
  children_iff : ∀ a b, b ∈ flow'.children a ↔ edge a b
  parents_iff : ∀ a b, a ∈ flow'.parents b ↔ edge a b

theorem Rewired.congr {flow' : ControlFlow Entry} {edge edge' : ℕ → ℕ → Prop}
    (h : Rewired flow flow' edge) (heq : ∀ a b, edge a b ↔ edge' a b) :
    Rewired flow flow' edge' :=
  ⟨h.kept, fun a b => (h.children_iff a b).trans (heq a b),
    fun a b => (h.parents_iff a b).trans (heq a b)⟩

/-- The edges of the second graph are given from those of the first. -/
theorem Rewired.trans {flow' flow'' : ControlFlow Entry} {edge edge' : ℕ → ℕ → Prop}
    (h : Rewired flow flow' edge) (h' : Rewired flow' flow'' edge') : Rewired flow flow'' edge' :=
  ⟨h.kept.trans h'.kept, h'.children_iff, h'.parents_iff⟩

end

section

variable {flow flow' : ControlFlow Entry}

theorem Consistent.rewired_self (h : Consistent flow) :
    Rewired flow flow fun a b => b ∈ flow.children a :=
  ⟨⟨⟨fun _ => rfl, fun _ => rfl, fun _ => rfl, rfl⟩, fun _ => rfl, rfl⟩, fun _ _ => Iff.rfl,
    fun a b => (h.mem_children_iff a b).symm⟩

theorem Rewired.consistent {edge : ℕ → ℕ → Prop} (hr : Rewired flow flow' edge)
    (h : Consistent flow)
    (hedge : ∀ a b, edge a b → a ∈ insert entryPoint flow.blocks ∧ b ∈ flow.blocks) :
    Consistent flow' := by
  refine h.of_edges hr.kept.same
    (fun a b => (hr.children_iff a b).trans (hr.parents_iff a b).symm) (fun a b hab => ?_)
    (fun a b hab => ?_) ?_
  · rw [hr.kept.blocks_eq]
    exact (hedge a b ((hr.parents_iff a b).1 hab)).1
  · rw [hr.kept.blocks_eq]
    exact (hedge a b ((hr.children_iff a b).1 hab)).2
  · rw [hr.kept.blocks_eq]
    exact h.entryPoint_notMem

theorem Kept.problem_eq (h : Kept flow flow') :
    flow'.problem.gen = flow.problem.gen ∧ flow'.problem.kill = flow.problem.kill := by
  have hstats : flow'.stats = flow.stats := funext h.same.stats_eq
  rw [ControlFlow.problem, ControlFlow.problem, hstats, h.blocks_eq, h.same.entries_eq]
  exact ⟨rfl, rfl⟩

/-! ### Detaching a block -/

section

omit [DecidableEq Entry]

/-- A loop over different blocks that changes each of them. -/
theorem foldlM_modifyIf {p : ControlBlock Entry → Bool}
    {f : ControlBlock Entry → ControlBlock Entry} {l : List ℕ} (hl : l.Nodup)
    (hp : ∀ b ∈ l, p (flow.store b) = true) :
    l.foldlM (fun flow' b => flow'.modifyIf p f b) flow = .ok { flow with
      store := fun b => if b ∈ l then f (flow.store b) else flow.store b } := by
  induction l generalizing flow with
  | nil => simp [pure, Except.pure]
  | cons b l ih =>
    obtain ⟨hb, hl⟩ := List.nodup_cons.1 hl
    have hother : ∀ a, a ≠ b → (flow.modify b f).store a = flow.store a := fun a ha =>
      Function.update_of_ne ha ..
    have hself : (flow.modify b f).store b = f (flow.store b) := Function.update_self ..
    have hstep : flow.modifyIf p f b = .ok (flow.modify b f) :=
      if_pos (hp b List.mem_cons_self)
    have hrest := @ih (flow.modify b f) hl fun a ha => by
      rw [hother a (fun heq => hb (heq ▸ ha))]
      exact hp a (List.mem_cons_of_mem b ha)
    have hstore : (fun a => if a ∈ l then f ((flow.modify b f).store a)
        else (flow.modify b f).store a) =
        fun a => if a ∈ b :: l then f (flow.store a) else flow.store a := by
      funext a
      rcases eq_or_ne a b with rfl | hne
      · rw [if_neg hb, if_pos List.mem_cons_self, hself]
      · rw [hother a hne]
        simp only [List.mem_cons, eq_false hne, false_or]
    rw [hstore] at hrest
    rw [List.foldlM_cons, hstep]
    exact hrest

theorem removeParents_spec {b : ℕ} {l : List ℕ} (hl : l.Nodup)
    (hb : ∀ a ∈ l, b ∈ flow.parents a) :
    ∃ flow', l.foldlM (fun flow' child => flow'.removeParent b child) flow = .ok flow' ∧
      Kept flow flow' ∧ (∀ a, flow'.children a = flow.children a) ∧
        ∀ a a', a' ∈ flow'.parents a ↔ a' ∈ flow.parents a ∧ ¬ (a ∈ l ∧ a' = b) := by
  refine ⟨_, foldlM_modifyIf hl fun a ha => decide_eq_true_iff.2 (hb a ha),
    kept_of_store (fun a => ?_) rfl rfl, fun a => ?_, fun a a' => ?_⟩
  · dsimp only
    split_ifs <;> exact ⟨_, _, rfl⟩
  · rw [ControlFlow.children, ControlFlow.children]
    dsimp only
    split_ifs <;> rfl
  · rw [ControlFlow.parents, ControlFlow.parents]
    dsimp only
    split_ifs with ha
    · rw [Finset.mem_erase, and_comm, and_congr_right_iff]
      simp [ha]
    · simp [ha]

theorem removeChildren_spec {b : ℕ} {l : List ℕ} (hl : l.Nodup)
    (hb : ∀ a ∈ l, b ∈ flow.children a) :
    ∃ flow', l.foldlM (fun flow' parent => flow'.removeChild b parent) flow = .ok flow' ∧
      Kept flow flow' ∧ (∀ a, flow'.parents a = flow.parents a) ∧
        ∀ a a', a' ∈ flow'.children a ↔ a' ∈ flow.children a ∧ ¬ (a ∈ l ∧ a' = b) := by
  refine ⟨_, foldlM_modifyIf hl fun a ha => decide_eq_true_iff.2 (hb a ha),
    kept_of_store (fun a => ?_) rfl rfl, fun a => ?_, fun a a' => ?_⟩
  · dsimp only
    split_ifs <;> exact ⟨_, _, rfl⟩
  · rw [ControlFlow.parents, ControlFlow.parents]
    dsimp only
    split_ifs <;> rfl
  · rw [ControlFlow.children, ControlFlow.children]
    dsimp only
    split_ifs with ha
    · rw [Finset.mem_erase, and_comm, and_congr_right_iff]
      simp [ha]
    · simp [ha]

theorem clear_spec (flow : ControlFlow Entry) (b : ℕ) : Kept flow (flow.clear b) ∧
    (∀ a a', a' ∈ (flow.clear b).children a ↔ a ≠ b ∧ a' ∈ flow.children a) ∧
      ∀ a a', a' ∈ (flow.clear b).parents a ↔ a ≠ b ∧ a' ∈ flow.parents a := by
  have hself : (flow.clear b).store b = { flow.store b with parents := ∅, children := ∅ } :=
    Function.update_self ..
  have hother : ∀ a, a ≠ b → (flow.clear b).store a = flow.store a := fun a ha =>
    Function.update_of_ne ha ..
  refine ⟨kept_of_store (fun a => ?_) rfl rfl, fun a a' => ?_, fun a a' => ?_⟩ <;>
    rcases eq_or_ne a b with rfl | ha
  · exact ⟨_, _, hself⟩
  · exact ⟨_, _, hother a ha⟩
  · rw [ControlFlow.children, hself]
    simp
  · rw [ControlFlow.children, hother a ha]
    exact (and_iff_right ha).symm
  · rw [ControlFlow.parents, hself]
    simp
  · rw [ControlFlow.parents, hother a ha]
    exact (and_iff_right ha).symm

end

/-- The edges of the block are removed, and no other; a self-loop is found only once. -/
theorem detach_spec (h : Consistent flow) (c : Choices) (b : ℕ) :
    ∃ flow', flow.detach c b = .ok flow' ∧
      Rewired flow flow' fun a a' => a ≠ b ∧ a' ≠ b ∧ a' ∈ flow.children a := by
  obtain ⟨flow₁, hfirst, hkept₁, hchildren₁, hparents₁⟩ :=
    removeParents_spec (c.order_nodup (.detachedChildren b) (flow.children b)) fun a ha =>
      (h.mem_children_iff b a).1 ((c.mem_order _ _ a).1 ha)
  simp only [c.mem_order] at hparents₁
  have hparents : ∀ a, a ∈ flow₁.parents b ↔ a ≠ b ∧ a ∈ flow.parents b := by
    intro a
    rw [hparents₁, h.mem_children_iff]
    constructor
    · rintro ⟨ha, hnot⟩
      exact ⟨fun heq => hnot ⟨heq ▸ ha, heq⟩, ha⟩
    · rintro ⟨hne, ha⟩
      exact ⟨ha, fun hab => hne hab.2⟩
  obtain ⟨flow₂, hsecond, hkept₂, hparents₂, hchildren₂⟩ :=
    removeChildren_spec (c.order_nodup (.detachedParents b) (flow₁.parents b))
      fun a ha => by
        rw [hchildren₁, h.mem_children_iff]
        exact ((hparents a).1 ((c.mem_order _ _ a).1 ha)).2
  simp only [c.mem_order, hparents, hchildren₁] at hchildren₂
  obtain ⟨hkept₃, hchildren₃, hparents₃⟩ := clear_spec flow₂ b
  refine ⟨flow₂.clear b, ?_, (hkept₁.trans hkept₂).trans hkept₃, fun a a' => ?_, fun a a' => ?_⟩
  · simp only [ControlFlow.detach, hfirst, bind, Except.bind, hsecond]
    rfl
  · rw [hchildren₃, hchildren₂]
    refine and_congr_right fun ha => ?_
    constructor
    · rintro ⟨haa, hnot⟩
      refine ⟨fun heq => hnot ⟨⟨ha, ?_⟩, heq⟩, haa⟩
      rw [heq] at haa
      exact (h.mem_children_iff a b).1 haa
    · rintro ⟨hne, haa⟩
      exact ⟨haa, fun hab => hne hab.2⟩
  · rw [hparents₃, hparents₂, hparents₁, h.mem_children_iff, ← h.mem_children_iff a a']
    constructor
    · rintro ⟨ha', haa, hnot⟩
      refine ⟨fun heq => hnot ⟨?_, heq⟩, ha', haa⟩
      rw [heq] at haa
      exact (h.mem_children_iff b a').1 haa
    · rintro ⟨ha, ha', haa⟩
      exact ⟨ha', haa, fun hab => ha hab.2⟩

/-! ### Splicing a block out -/

omit [DecidableEq Entry] in
/-- The sets that are iterated over do not change, even if the block is a parent of itself. -/
theorem addChildIn_eq {b parent child : ℕ} (hparent : parent ∈ flow.parents b)
    (hchild : child ∈ flow.children b) :
    flow.addChildIn b parent child = .ok (flow.addChild parent child) := by
  refine if_pos ⟨?_, ?_⟩
  · rw [parents_addChild]
    split_ifs
    · exact Finset.insert_eq_of_mem hparent
    · rfl
  · rw [children_addChild]
    split_ifs
    · exact Finset.insert_eq_of_mem hchild
    · rfl

theorem Consistent.rewired_addChild (h : Consistent flow) (parent child : ℕ) :
    Rewired flow (flow.addChild parent child)
      fun a a' => a' ∈ flow.children a ∨ a = parent ∧ a' = child := by
  refine ⟨⟨sameBlocks_addChild flow parent child, fun a => ?_, rfl⟩, fun a a' => ?_, fun a a' => ?_⟩
  · simp only [ControlFlow.addChild, ControlFlow.modify, Function.update_apply]
    split_ifs <;> simp_all [ControlBlock.empty]
  · rw [children_addChild]
    split_ifs with ha
    · rw [Finset.mem_insert, or_comm, and_iff_right ha]
    · rw [or_iff_left fun hab => ha hab.1]
  · rw [parents_addChild, h.mem_children_iff]
    split_ifs with ha
    · rw [Finset.mem_insert, or_comm, and_iff_left ha]
    · rw [or_iff_left fun hab => ha hab.2]

/-- A loop over edges `f x` that go from the parents of the block to its children. -/
theorem foldlM_rewired {α : Type} (b : ℕ) (l : List α)
    (body : ControlFlow Entry → α → Except Failure (ControlFlow Entry)) (new : α → ℕ → ℕ → Prop)
    {flow : ControlFlow Entry}
    (hnew : ∀ x ∈ l, ∀ a a', new x a a' → a ∈ flow.parents b ∧ a' ∈ flow.children b)
    (hbody : ∀ x ∈ l, ∀ flow₁ : ControlFlow Entry, Consistent flow₁ →
      flow₁.parents b = flow.parents b → flow₁.children b = flow.children b →
        ∃ flow₂, body flow₁ x = .ok flow₂ ∧
          Rewired flow₁ flow₂ fun a a' => a' ∈ flow₁.children a ∨ new x a a')
    (h : Consistent flow) : ∃ flow', l.foldlM body flow = .ok flow' ∧
      Rewired flow flow' fun a a' => a' ∈ flow.children a ∨ ∃ x ∈ l, new x a a' := by
  induction l using List.reverseRecOn with
  | nil =>
    refine ⟨flow, rfl, h.rewired_self.congr fun a a' => ?_⟩
    simp
  | append_singleton l x ih =>
    obtain ⟨flow₁, hrun, hr⟩ := ih (fun y hy => hnew y (List.mem_append_left _ hy))
      fun y hy => hbody y (List.mem_append_left _ hy)
    have hx : x ∈ l ++ [x] := List.mem_append_right _ (List.mem_singleton_self x)
    have hold : ∀ a a', (∃ y ∈ l, new y a a') → a ∈ flow.parents b ∧ a' ∈ flow.children b := by
      rintro a a' ⟨y, hy, hyaa⟩
      exact hnew y (List.mem_append_left _ hy) a a' hyaa
    have hcons : Consistent flow₁ := by
      refine hr.consistent h fun a a' haa => ?_
      rcases haa with haa | haa
      · exact ⟨h.parent_mem a a' ((h.mem_children_iff a a').1 haa), h.child_mem a a' haa⟩
      · obtain ⟨ha, ha'⟩ := hold a a' haa
        exact ⟨h.parent_mem a b ha, h.child_mem b a' ha'⟩
    have hparents : flow₁.parents b = flow.parents b := by
      ext a
      rw [hr.parents_iff, h.mem_children_iff]
      exact or_iff_left_of_imp fun haa => (hold a b haa).1
    have hchildren : flow₁.children b = flow.children b := by
      ext a
      rw [hr.children_iff]
      exact or_iff_left_of_imp fun haa => (hold b a haa).2
    obtain ⟨flow₂, hstep, hr'⟩ := hbody x hx flow₁ hcons hparents hchildren
    refine ⟨flow₂, ?_, (hr.trans hr').congr fun a a' => ?_⟩
    · rw [List.foldlM_append, hrun]
      simp only [bind, Except.bind, List.foldlM_cons, hstep]
      rfl
    · rw [hr.children_iff, or_assoc]
      refine or_congr_right ?_
      simp only [List.mem_append, List.mem_singleton, or_and_right, exists_or, exists_eq_left]

/-- One parent gets all the children of the block. -/
theorem foldlM_addChildIn (h : Consistent flow) (c : Choices) {b parent : ℕ}
    (hparent : parent ∈ flow.parents b) :
    ∃ flow', (c.order (.reparentedTo b parent) (flow.children b)).foldlM
        (fun flow' child => flow'.addChildIn b parent child) flow = .ok flow' ∧
      Rewired flow flow' fun a a' =>
        a' ∈ flow.children a ∨ a = parent ∧ a' ∈ flow.children b := by
  obtain ⟨flow', hrun, hr⟩ := foldlM_rewired b
    (c.order (.reparentedTo b parent) (flow.children b))
    (fun flow' child => flow'.addChildIn b parent child)
    (fun child a a' => a = parent ∧ a' = child)
    (fun child hchild a a' haa =>
      ⟨haa.1 ▸ hparent, haa.2 ▸ (c.mem_order _ _ _).1 hchild⟩)
    (fun child hchild flow₁ hcons hparents hchildren =>
      ⟨flow₁.addChild parent child, addChildIn_eq (hparents ▸ hparent)
        (hchildren ▸ (c.mem_order _ _ _).1 hchild), hcons.rewired_addChild parent child⟩) h
  refine ⟨flow', hrun, hr.congr fun a a' => or_congr_right ?_⟩
  simp only [c.mem_order]
  constructor
  · rintro ⟨child, hchild, ha, rfl⟩
    exact ⟨ha, hchild⟩
  · rintro ⟨ha, ha'⟩
    exact ⟨a', ha', ha, rfl⟩

/-- All the parents of the block get all its children. -/
theorem reparent_spec (h : Consistent flow) (c : Choices) (b : ℕ) :
    ∃ flow', flow.reparent c b = .ok flow' ∧ Rewired flow flow' fun a a' =>
      a' ∈ flow.children a ∨ a ∈ flow.parents b ∧ a' ∈ flow.children b := by
  obtain ⟨flow', hrun, hr⟩ := foldlM_rewired b (c.order (.reparented b) (flow.parents b))
    (fun flow₁ parent => (c.order (.reparentedTo b parent) (flow₁.children b)).foldlM
      (fun flow₂ child => flow₂.addChildIn b parent child) flow₁)
    (fun parent a a' => a = parent ∧ a' ∈ flow.children b)
    (fun parent hparent a a' haa => ⟨haa.1 ▸ (c.mem_order _ _ _).1 hparent, haa.2⟩)
    (fun parent hparent flow₁ hcons hparents hchildren => by
      have hparent' : parent ∈ flow₁.parents b := by
        rw [hparents]
        exact (c.mem_order _ _ _).1 hparent
      rw [← hchildren]
      exact foldlM_addChildIn hcons c hparent')
    h
  refine ⟨flow', hrun, hr.congr fun a a' => or_congr_right ?_⟩
  simp only [c.mem_order]
  constructor
  · rintro ⟨parent, hparent, rfl, ha'⟩
    exact ⟨hparent, ha'⟩
  · rintro ⟨ha, ha'⟩
    exact ⟨a, ha, rfl, ha'⟩

/-- What splicing a block out does to the edges. -/
def Splices (flow : ControlFlow Entry) (b a a' : ℕ) : Prop :=
  a ≠ b ∧ a' ≠ b ∧ (a' ∈ flow.children a ∨ b ∈ flow.children a ∧ a' ∈ flow.children b)

theorem Consistent.mem_of_edge (h : Consistent flow) {a a' : ℕ} (ha : a' ∈ flow.children a) :
    a ∈ insert entryPoint flow.blocks ∧ a' ∈ flow.blocks :=
  ⟨h.parent_mem a a' ((h.mem_children_iff a a').1 ha), h.child_mem a a' ha⟩

theorem Consistent.mem_of_splices (h : Consistent flow) {b a a' : ℕ}
    (ha : Splices flow b a a') : a ∈ insert entryPoint flow.blocks ∧ a' ∈ flow.blocks := by
  obtain ⟨-, -, haa | ⟨hab, hba⟩⟩ := ha
  · exact h.mem_of_edge haa
  · exact ⟨(h.mem_of_edge hab).1, (h.mem_of_edge hba).2⟩

/-- The parents of a block that is empty are connected to its children, and it is detached. -/
theorem removeEmpty_spec (h : Consistent flow) (c : Choices) (b : ℕ) (removed : Finset ℕ) :
    ∃ flow', ControlFlow.removeEmpty c (flow, removed) b =
        .ok (flow', if (flow.store b).empty then insert b removed else removed) ∧
      Rewired flow flow' fun a a' => if (flow.store b).empty then Splices flow b a a'
        else a' ∈ flow.children a := by
  by_cases hempty : (flow.store b).empty = true
  · simp only [hempty, if_true]
    obtain ⟨flow₁, hrun, hr⟩ := reparent_spec h c b
    have hcons : Consistent flow₁ := by
      refine hr.consistent h fun a a' haa => ?_
      rcases haa with haa | ⟨ha, ha'⟩
      · exact h.mem_of_edge haa
      · exact ⟨h.parent_mem a b ha, h.child_mem b a' ha'⟩
    obtain ⟨flow₂, hrun', hr'⟩ := detach_spec hcons c b
    refine ⟨flow₂, ?_, (hr.trans hr').congr fun a a' => ?_⟩
    · simp only [ControlFlow.removeEmpty, hempty, if_true, hrun, bind, Except.bind, hrun']
      rfl
    · rw [hr.children_iff, ← h.mem_children_iff a b, Splices]
  · simp only [eq_false hempty, if_false]
    exact ⟨flow, if_neg hempty, h.rewired_self⟩

/-! ## The loops over the blocks -/

theorem detachAll_spec (c : Choices) (l : List ℕ) (h : Consistent flow) :
    ∃ flow', l.foldlM (fun flow' b => flow'.detach c b) flow = .ok flow' ∧
      Rewired flow flow' fun a a' => a ∉ l ∧ a' ∉ l ∧ a' ∈ flow.children a := by
  induction l generalizing flow with
  | nil =>
    refine ⟨flow, rfl, h.rewired_self.congr fun a a' => ?_⟩
    simp
  | cons b l ih =>
    obtain ⟨flow₁, hrun, hr⟩ := detach_spec h c b
    obtain ⟨flow₂, hrun', hr'⟩ := ih (hr.consistent h fun a a' haa => h.mem_of_edge haa.2.2)
    refine ⟨flow₂, ?_, (hr.trans hr').congr fun a a' => ?_⟩
    · simp only [List.foldlM_cons, hrun, bind, Except.bind]
      exact hrun'
    · rw [hr.children_iff]
      simp only [List.mem_cons, not_or]
      tauto

/-- The invariant of the second loop: blocks that are removed have no edges, and at the others
    arrives what came along blocks that can be reached. -/
structure Pruned (flow₀ flow : ControlFlow Entry) (live : Set ℕ) (removed : Finset ℕ) : Prop where
  consistent : Consistent flow
  kept : Kept flow₀ flow
  isolated : ∀ a a', a' ∈ flow.children a → a ∉ removed ∧ a' ∉ removed
  arrives_iff : ∀ b, b ∉ removed → ∀ d,
    flow.problem.Arrives d b ↔ (flow₀.problem.restrict live).Arrives d b

/-- An empty block has no statements. -/
theorem problem_of_empty {b : ℕ} (hb : b ≠ entryPoint) (hempty : (flow.store b).empty = true) :
    flow.problem.gen b = ∅ ∧ flow.problem.kill b = ∅ := by
  have hstats : flow.stats b = [] := by
    rw [ControlBlock.empty, Bool.and_eq_true, Bool.and_eq_true, List.isEmpty_iff] at hempty
    exact hempty.1.2
  constructor
  · refine Set.eq_empty_of_forall_notMem fun d hd => ?_
    rcases hd with ⟨heq, -⟩ | ⟨-, hd⟩
    · exact hb heq
    · rw [hstats] at hd
      exact hd
  · refine Set.eq_empty_of_forall_notMem fun d hd => ?_
    obtain ⟨-, hd⟩ := hd
    rw [hstats] at hd
    exact absurd hd List.not_mem_nil

theorem Pruned.removeEmpty {flow₀ : ControlFlow Entry} {live : Set ℕ} {removed : Finset ℕ}
    (h : Pruned flow₀ flow live removed) (c : Choices) {b : ℕ} (hb : b ≠ entryPoint) :
    ∃ flow', ControlFlow.removeEmpty c (flow, removed) b =
        .ok (flow', if (flow₀.store b).empty then insert b removed else removed) ∧
      Pruned flow₀ flow' live (if (flow₀.store b).empty then insert b removed else removed) := by
  obtain ⟨flow', hrun, hr⟩ := removeEmpty_spec h.consistent c b removed
  rw [h.kept.empty_eq] at hrun hr
  refine ⟨flow', hrun, ?_⟩
  by_cases hempty : (flow₀.store b).empty = true
  · simp only [hempty, if_true] at hr ⊢
    refine ⟨hr.consistent h.consistent fun a a' haa => h.consistent.mem_of_splices haa,
      h.kept.trans hr.kept, fun a a' haa => ?_, fun n hn d => ?_⟩
    · obtain ⟨ha, ha', haa⟩ := (hr.children_iff a a').1 haa
      rw [Finset.mem_insert, Finset.mem_insert, or_iff_right ha, or_iff_right ha']
      rcases haa with haa | ⟨hab, hba⟩
      · exact h.isolated a a' haa
      · exact ⟨(h.isolated a b hab).1, (h.isolated b a' hba).2⟩
    · rw [Finset.mem_insert, not_or] at hn
      rw [← h.kept.empty_eq] at hempty
      obtain ⟨hgen, hkill⟩ := problem_of_empty hb hempty
      rw [← h.arrives_iff n hn.2 d]
      refine GenKill.arrives_splice hgen hkill (fun a _ => congrFun hr.kept.problem_eq.1 a)
        (fun a _ => congrFun hr.kept.problem_eq.2 a) (fun a p hne => ?_) hn.1
      have hedge : ∀ a a', a ∈ flow.problem.parents a' ↔ a' ∈ flow.children a := fun a a' =>
        (h.consistent.mem_children_iff a a').symm
      rw [hedge, hedge, hedge]
      refine (hr.parents_iff p a).trans (and_congr_right fun _ => ?_)
      rw [and_iff_right hne, and_comm (b := b ∈ flow.children p)]
  · simp only [eq_false hempty, if_false] at hr ⊢
    refine ⟨hr.consistent h.consistent fun a a' haa => h.consistent.mem_of_edge haa,
      h.kept.trans hr.kept, fun a a' haa => h.isolated a a' ((hr.children_iff a a').1 haa),
      fun n hn d => ?_⟩
    rw [← h.arrives_iff n hn d]
    refine GenKill.arrives_congr ?_ (fun _ p _ => congrFun hr.kept.problem_eq.1 p)
      fun _ p _ => congrFun hr.kept.problem_eq.2 p
    funext n
    ext p
    exact (hr.parents_iff p n).trans (h.consistent.mem_children_iff p n)

theorem Pruned.removeAll {flow₀ : ControlFlow Entry} {live : Set ℕ} {removed : Finset ℕ}
    (h : Pruned flow₀ flow live removed) (c : Choices) {l : List ℕ}
    (hl : ∀ b ∈ l, b ≠ entryPoint) :
    ∃ s, l.foldlM (ControlFlow.removeEmpty c) (flow, removed) = .ok s ∧
      Pruned flow₀ s.1 live s.2 ∧
        ∀ b, b ∈ s.2 ↔ b ∈ removed ∨ b ∈ l ∧ (flow₀.store b).empty = true := by
  induction l generalizing flow removed with
  | nil =>
    refine ⟨(flow, removed), rfl, h, fun b => ?_⟩
    simp
  | cons a l ih =>
    obtain ⟨flow₁, hrun, hpruned⟩ := h.removeEmpty c (hl a List.mem_cons_self)
    obtain ⟨s, hrun', hs, hmem⟩ := ih hpruned fun b hb => hl b (List.mem_cons_of_mem a hb)
    refine ⟨s, ?_, hs, fun b => ?_⟩
    · simp only [List.foldlM_cons, hrun, bind, Except.bind]
      exact hrun'
    · rw [hmem, List.mem_cons]
      split_ifs with hempty
      · rw [Finset.mem_insert]
        constructor
        · rintro ((rfl | hb) | ⟨hb, he⟩)
          · exact .inr ⟨.inl rfl, hempty⟩
          · exact .inl hb
          · exact .inr ⟨.inr hb, he⟩
        · rintro (hb | ⟨rfl | hb, he⟩)
          · exact .inl (.inr hb)
          · exact .inl (.inl rfl)
          · exact .inr ⟨hb, he⟩
      · refine or_congr_right (and_congr_left fun he => (or_iff_right ?_).symm)
        rintro rfl
        exact hempty he

/-- The result of `normalize`. -/
structure Normalized (flow flow' : ControlFlow Entry) : Prop where
  consistent : Consistent flow'
  same : SameBlocks flow flow'
  mem_blocks_iff : ∀ b, b ∈ flow'.blocks ↔
    b ∈ flow.blocks ∧ flow.Reachable b ∧ (flow.store b).empty = false
  arrives_iff : ∀ b ∈ flow'.blocks, ∀ d, flow'.problem.Arrives d b ↔
    (flow.problem.restrict {n | flow.Reachable n}).Arrives d b

/-- Unreachable blocks are detached: what is left comes along blocks that can be reached. -/
theorem pruned_detachAll (h : Consistent flow) {visited : Finset ℕ}
    (hvisited : ∀ b, b ∈ visited ↔ flow.Reachable b)
    (hr : Rewired flow flow' fun a a' =>
      a ∉ flow.blocks \ visited ∧ a' ∉ flow.blocks \ visited ∧ a' ∈ flow.children a) :
    Pruned flow flow' {n | flow.Reachable n} (flow.blocks \ visited) := by
  refine ⟨hr.consistent h fun a a' haa => h.mem_of_edge haa.2.2, hr.kept, fun a a' haa => ?_,
    fun b hb d => ?_⟩
  · obtain ⟨ha, ha', -⟩ := (hr.children_iff a a').1 haa
    exact ⟨ha, ha'⟩
  · refine GenKill.arrives_restrict (s := {n | n ∉ flow.blocks \ visited}) (fun n hn => ?_)
      (fun n hn => ?_) hr.kept.problem_eq.1 hr.kept.problem_eq.2 hb
    · exact fun hn' => (Finset.mem_sdiff.1 hn').2 ((hvisited n).2 hn)
    · ext p
      refine (hr.parents_iff p n).trans ?_
      have hparent : p ∈ flow.problem.parents n ↔ n ∈ flow.children p :=
        (h.mem_children_iff p n).symm
      rw [Set.mem_inter_iff, hparent, Set.mem_ofPred_eq, ← hvisited]
      constructor
      · rintro ⟨hp, -, hpn⟩
        refine ⟨hpn, ?_⟩
        rcases Finset.mem_insert.1 (h.mem_of_edge hpn).1 with rfl | hblock
        · exact (hvisited _).2 .refl
        · by_contra hnot
          exact hp (Finset.mem_sdiff.2 ⟨hblock, hnot⟩)
      · rintro ⟨hpn, hp⟩
        exact ⟨fun hp' => (Finset.mem_sdiff.1 hp').2 hp, hn, hpn⟩

theorem Pruned.normalized {flow₀ : ControlFlow Entry} {removed : Finset ℕ}
    (h : Pruned flow₀ flow {n | flow₀.Reachable n} removed)
    (hremoved : ∀ b ∈ flow₀.blocks,
      b ∉ removed ↔ flow₀.Reachable b ∧ (flow₀.store b).empty = false) :
    Normalized flow₀ { flow with blocks := flow.blocks \ removed } := by
  set flow' : ControlFlow Entry := { flow with blocks := flow.blocks \ removed } with hflow'
  have hmem : ∀ b, b ∈ flow'.blocks ↔ b ∈ flow₀.blocks ∧ b ∉ removed := by
    intro b
    rw [hflow', ← h.kept.blocks_eq]
    exact Finset.mem_sdiff
  have hedge : ∀ a a', a' ∈ flow.children a →
      a ∈ insert entryPoint flow'.blocks ∧ a' ∈ flow'.blocks := by
    intro a a' haa
    obtain ⟨ha, ha'⟩ := h.isolated a a' haa
    obtain ⟨hmem, hmem'⟩ := h.consistent.mem_of_edge haa
    refine ⟨?_, Finset.mem_sdiff.2 ⟨hmem', ha'⟩⟩
    rcases Finset.mem_insert.1 hmem with rfl | hmem
    · exact Finset.mem_insert_self _ _
    · exact Finset.mem_insert_of_mem (Finset.mem_sdiff.2 ⟨hmem, ha⟩)
  have hcons : Consistent flow' := by
    refine h.consistent.of_edges ⟨fun _ => rfl, fun _ => rfl, fun _ => rfl, rfl⟩
      h.consistent.mem_children_iff
      (fun a b hab => (hedge a b ((h.consistent.mem_children_iff a b).2 hab)).1)
      (fun a b hab => (hedge a b hab).2) ?_
    exact fun hentry => h.consistent.entryPoint_notMem (Finset.mem_sdiff.1 hentry).1
  refine ⟨hcons, ⟨h.kept.same.stats_eq, h.kept.same.gen_eq, h.kept.same.bounded_eq,
    h.kept.same.entries_eq⟩, fun b => ?_, fun b hb d => ?_⟩
  · rw [hmem]
    exact and_congr_right fun hb => hremoved b hb
  · rw [← h.arrives_iff b ((hmem b).1 hb).2 d]
    -- A block that is removed is before no other.
    have hblocks : ∀ n, ∀ p ∈ flow.problem.parents n, p ∈ flow'.blocks ↔ p ∈ flow.blocks := by
      intro n p hp
      have hpn : n ∈ flow.children p := (h.consistent.mem_children_iff p n).2 hp
      exact Finset.mem_sdiff.trans (and_iff_left (h.isolated p n hpn).1)
    have hparents : flow'.problem.parents = flow.problem.parents := rfl
    refine GenKill.arrives_congr hparents (fun n p hp => ?_) fun n p hp => ?_
    · ext d'
      refine or_congr_right (and_congr_left fun _ => hblocks n p hp)
    · ext d'
      exact and_congr_left fun _ => hblocks n p hp

theorem prune_spec (h : Consistent flow) (c : Choices) {visited : Finset ℕ}
    (hvisited : ∀ b, b ∈ visited ↔ flow.Reachable b) :
    ∃ flow', flow.prune c visited = .ok flow' ∧ Normalized flow flow' := by
  obtain ⟨flow₁, hrun, hr⟩ := detachAll_spec c (c.order .unreachable (flow.blocks \ visited)) h
  have hpruned : Pruned flow flow₁ {n | flow.Reachable n} (flow.blocks \ visited) := by
    refine pruned_detachAll h hvisited (hr.congr fun a a' => ?_)
    rw [c.mem_order, c.mem_order]
  obtain ⟨s, hrun', hs, hmem⟩ := hpruned.removeAll c
    (l := c.order .visited (visited.erase entryPoint))
    fun b hb => Finset.ne_of_mem_erase ((c.mem_order _ _ b).1 hb)
  have hentry : entryPoint ∈ visited := (hvisited _).2 .refl
  refine ⟨_, ?_, hs.normalized fun b hb => ?_⟩
  · simp only [ControlFlow.prune, hrun, bind, Except.bind, hentry, if_true, hrun']
    rfl
  · have hne : b ≠ entryPoint := fun heq => h.entryPoint_notMem (heq ▸ hb)
    rw [hmem, not_or, c.mem_order, Finset.mem_sdiff, not_and_not_right, ← Bool.not_eq_true,
      ← hvisited, Finset.mem_erase]
    constructor
    · rintro ⟨hv, hnot⟩
      exact ⟨hv hb, fun he => hnot ⟨⟨hne, hv hb⟩, he⟩⟩
    · rintro ⟨hv, he⟩
      exact ⟨fun _ => hv, fun hnot => he hnot.2⟩

/-- Whatever is chosen, `normalize` ends, without an exception. -/
theorem normalize_spec (h : Consistent flow) (c : Choices) :
    ∃ n flow', Normalized flow flow' ∧
      ∀ fuel, n < fuel → flow.normalize c fuel = some (.ok flow') := by
  obtain ⟨n, visited, hvisited, hsearch⟩ := search_spec c h.child_mem
  obtain ⟨flow', hprune, hnormalized⟩ := prune_spec h c hvisited
  refine ⟨n, flow', hnormalized, fun fuel hfuel => ?_⟩
  rw [ControlFlow.normalize, hsearch fuel hfuel, Option.map_some, hprune]

/-- The result does not depend on the fuel. -/
theorem normalized_of_normalize (h : Consistent flow) {c : Choices} {fuel : ℕ}
    {r : Except Failure (ControlFlow Entry)} (hr : flow.normalize c fuel = some r) :
    ∃ flow', r = .ok flow' ∧ Normalized flow flow' := by
  obtain ⟨n, flow', hnormalized, hrun⟩ := normalize_spec h c
  obtain ⟨visited, hsearch, hprune⟩ := Option.map_eq_some_iff.1 hr
  refine ⟨flow', ?_, hnormalized⟩
  have hmore := search_mono c (Nat.le_add_right fuel (n + 1)) hsearch
  have hsame := hrun (fuel + (n + 1)) (by omega)
  rw [ControlFlow.normalize, hmore, Option.map_some, hprune] at hsame
  exact Option.some.inj hsame

end

end AHPy.FlowControl
