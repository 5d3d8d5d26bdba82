import AHPy.FlowControl.Normalize

/-!
# The analysis of the graphs of functions

The graphs that are analysed are those that the methods build, before or after
`normalize` (`Graph`). For all of them the analysis ends and is exact. What `normalize`
deletes takes the definitions of the unreachable blocks with it: the definitions that
reach a block which is left are those that come along blocks that can be reached.
-/

namespace AHPy.FlowControl

variable {Entry : Type} [DecidableEq Entry] {isTracked : Entry → Bool}

/-- The graphs that are analysed. -/
inductive Graph (isTracked : Entry → Bool) : ControlFlow Entry → Prop
  | built {flow : ControlFlow Entry} (h : Built isTracked flow) : Graph isTracked flow
  | normalized {flow flow' : ControlFlow Entry} {c : Choices} {fuel : ℕ}
      (h : Graph isTracked flow) (hr : flow.normalize c fuel = some (.ok flow')) :
      Graph isTracked flow'

/-- The bit of a definition is in the input of a block, when the analysis has ended. -/
def ControlFlow.Reaches (flow : ControlFlow Entry) (entryOrder : List Entry)
    (blockOrder : List ℕ) (d : Definition Entry) (b : ℕ) : Prop :=
  ∃ fuel r, flow.reachingDefinitions blockOrder fuel
      (flow.initializeBits entryOrder blockOrder).2 = some r ∧
    d ∈ definitions entryOrder (blockOrder.flatMap flow.stats) ∧
    ∃ i, (flow.initializeBits entryOrder blockOrder).1.bitOf d = 2 ^ i ∧
      (r.iInput b).testBit i = true

variable {flow : ControlFlow Entry} {entryOrder : List Entry} {blockOrder : List ℕ}

theorem Graph.consistent (h : Graph isTracked flow) : Consistent flow := by
  induction h with
  | built h => exact h.consistent
  | @normalized flow flow' c fuel _ hr ih =>
    obtain ⟨flow'', heq, hnormalized⟩ := normalized_of_normalize ih hr
    obtain rfl := Except.ok.inj heq
    exact hnormalized.consistent

/-- What has a bit in the input of a block is what arrives there. -/
theorem reaches_iff (h : Consistent flow) (o : Orders flow entryOrder blockOrder) {b : ℕ}
    (hb : b ∈ flow.blocks) (d : Definition Entry) :
    flow.Reaches entryOrder blockOrder d b ↔ flow.problem.Arrives d b := by
  obtain ⟨fuel, r, hrun, hexact⟩ := reachingDefinitions_spec h o
  have hmem : ∀ d, flow.problem.Arrives d b →
      d ∈ definitions entryOrder (blockOrder.flatMap flow.stats) := by
    intro d hd
    obtain ⟨p, hp⟩ := hd.exists_gen
    exact (stands_iGen o h p).1 d hp
  constructor
  · rintro ⟨fuel', r', hrun', hd, i, hi, hbit⟩
    obtain rfl := reachingDefinitions_unique hrun' hrun
    obtain ⟨d', hd', hi'⟩ := (hexact.input b hb i).1 hbit
    -- Different definitions have different bits.
    by_cases hne : d = d'
    · rwa [hne]
    · have hand := hexact.disjoint d hd d' (hmem d' hd') hne
      rw [hi, hi', Nat.and_self] at hand
      exact absurd hand (Nat.two_pow_pos i).ne'
  · intro hd
    obtain ⟨i, hi⟩ := hexact.bit d (hmem d hd)
    exact ⟨fuel, r, hrun, hmem d hd, i, hi, (hexact.input b hb i).2 ⟨d, hd, hi⟩⟩

/-- The analysis of a graph ends, in every order of its sets, with the least solution of its
    equations. -/
theorem analysis_exact (h : Graph isTracked flow) (o : Orders flow entryOrder blockOrder) :
    ∃ r, (∃ fuel, flow.reachingDefinitions blockOrder fuel
        (flow.initializeBits entryOrder blockOrder).2 = some r) ∧
      (∀ fuel r', flow.reachingDefinitions blockOrder fuel
        (flow.initializeBits entryOrder blockOrder).2 = some r' → r' = r) ∧
      Exact flow entryOrder blockOrder r := by
  obtain ⟨fuel, r, hrun, hexact⟩ := reachingDefinitions_spec h.consistent o
  exact ⟨r, ⟨fuel, hrun⟩, fun fuel' r' hrun' => reachingDefinitions_unique hrun' hrun, hexact⟩

/-- `normalize` ends, without an exception; it removes blocks that are unreachable or empty, and
    the definitions that reach a block which is left are those that come to it along blocks that
    can be reached. -/
theorem normalize_preserves (h : Built isTracked flow) (c : Choices) :
    ∃ n flow', (∀ fuel, n < fuel → flow.normalize c fuel = some (.ok flow')) ∧
      (∀ a b, b ∈ flow'.children a ↔ a ∈ flow'.parents b) ∧
      flow'.blocks ⊆ flow.blocks ∧
      (∀ b ∈ flow.blocks, b ∉ flow'.blocks →
        ¬ flow.Reachable b ∨ (flow.store b).empty = true) ∧
      ∀ entryOrder blockOrder entryOrder' blockOrder', Orders flow entryOrder blockOrder →
        Orders flow' entryOrder' blockOrder' → ∀ b ∈ flow'.blocks, ∀ d,
          (flow.Reaches entryOrder blockOrder d b ↔ flow.problem.Arrives d b) ∧
          (flow'.Reaches entryOrder' blockOrder' d b ↔
            (flow.problem.restrict {n | flow.Reachable n}).Arrives d b) := by
  obtain ⟨n, flow', hnormalized, hrun⟩ := normalize_spec h.consistent c
  have hsub : flow'.blocks ⊆ flow.blocks := fun b hb => ((hnormalized.mem_blocks_iff b).1 hb).1
  refine ⟨n, flow', hrun, hnormalized.consistent.mem_children_iff, hsub, fun b hb hb' => ?_,
    fun _ _ _ _ o o' b hb d => ⟨reaches_iff h.consistent o (hsub hb) d, ?_⟩⟩
  · by_contra hnot
    rw [not_or, not_not, Bool.not_eq_true] at hnot
    exact hb' ((hnormalized.mem_blocks_iff b).2 ⟨hb, hnot.1, hnot.2⟩)
  · rw [reaches_iff hnormalized.consistent o' hb, hnormalized.arrives_iff b hb]

/-! ## A graph with a block that cannot be reached -/

/-- A loop that is read from, and an assignment that jumps into it from nowhere. -/
def deadCode : ControlFlow ℕ :=
  [Event.nextblock none, .markReference 0, .addChild 2 2, .setBlock none, .nextblock none,
    .markAssignment 0, .addChild 3 2].foldl (ControlFlow.apply fun _ => true) ControlFlow.init

theorem built_deadCode : Built (fun _ => true) deadCode := by
  have hinit : Built (fun _ : ℕ => true) ControlFlow.init := .init
  simp only [deadCode, List.foldl_cons, List.foldl_nil]
  refine .step (.step (.step (.step (.step (.step (.step hinit ?_) ?_) ?_) ?_) ?_) ?_) ?_
  · exact fun p hp => absurd hp (Option.not_mem_none p)
  · trivial
  · exact ⟨by decide, by decide⟩
  · exact fun p hp => absurd hp (Option.not_mem_none p)
  · exact fun p hp => absurd hp (Option.not_mem_none p)
  · trivial
  · exact ⟨by decide, by decide⟩

theorem orders_deadCode : Orders deadCode [0] [1, 2, 3] := by
  refine ⟨by decide, fun e => ?_, by decide, fun b => ?_⟩
  · have hentries : deadCode.entries = {0} := by decide
    rw [hentries, List.mem_singleton, Finset.mem_singleton]
  · have hblocks : deadCode.blocks = {1, 2, 3} := by decide
    rw [hblocks]
    simp

theorem analysis_exact_deadCode :
    ∃ r, (∃ fuel, deadCode.reachingDefinitions [1, 2, 3] fuel
        (deadCode.initializeBits [0] [1, 2, 3]).2 = some r) ∧
      (∀ fuel r', deadCode.reachingDefinitions [1, 2, 3] fuel
        (deadCode.initializeBits [0] [1, 2, 3]).2 = some r' → r' = r) ∧
      Exact deadCode [0] [1, 2, 3] r :=
  analysis_exact (.built built_deadCode) orders_deadCode

/-- Blocks are taken by their numbers. -/
def Choices.ascending : Choices where
  pop _ queue := (queue.sort (· ≤ ·)).headD 0
  order _ s := s.sort (· ≤ ·)
  pop_mem _ queue h := by
    have hne : queue.sort (· ≤ ·) ≠ [] := by
      rintro heq
      rw [← List.length_eq_zero_iff, Finset.length_sort, Finset.card_eq_zero] at heq
      exact h.ne_empty heq
    rw [List.headD_eq_head?_getD, List.head?_eq_some_head hne]
    exact (Finset.mem_sort _).1 (List.head_mem hne)
  order_nodup _ s := s.sort_nodup _
  mem_order _ _ _ := Finset.mem_sort _

theorem normalize_preserves_deadCode :
    ∃ n flow', (∀ fuel, n < fuel → deadCode.normalize .ascending fuel = some (.ok flow')) ∧
      (∀ a b, b ∈ flow'.children a ↔ a ∈ flow'.parents b) ∧
      flow'.blocks ⊆ deadCode.blocks ∧
      (∀ b ∈ deadCode.blocks, b ∉ flow'.blocks →
        ¬ deadCode.Reachable b ∨ (deadCode.store b).empty = true) ∧
      ∀ entryOrder blockOrder entryOrder' blockOrder', Orders deadCode entryOrder blockOrder →
        Orders flow' entryOrder' blockOrder' → ∀ b ∈ flow'.blocks, ∀ d,
          (deadCode.Reaches entryOrder blockOrder d b ↔ deadCode.problem.Arrives d b) ∧
          (flow'.Reaches entryOrder' blockOrder' d b ↔
            (deadCode.problem.restrict {n | deadCode.Reachable n}).Arrives d b) :=
  normalize_preserves built_deadCode .ascending

theorem reachable_deadCode {b : ℕ} (h : deadCode.Reachable b) : b = 0 ∨ b = 2 := by
  induction h with
  | refl => exact .inl rfl
  | @tail a b _ hab ih =>
    have hchildren : deadCode.children 0 = {2} ∧ deadCode.children 2 = {2} := by decide
    right
    rcases ih with rfl | rfl
    · rw [hchildren.1] at hab
      exact Finset.mem_singleton.1 hab
    · rw [hchildren.2] at hab
      exact Finset.mem_singleton.1 hab

/-- The assignment comes from the block that cannot be reached. -/
theorem not_arrives_deadCode (b : ℕ) :
    ¬ (deadCode.problem.restrict {n | deadCode.Reachable n}).Arrives (.assigned 1 0) b := by
  intro h
  induction h with
  | @generated p n hp hgen =>
    rcases reachable_deadCode hp.2 with rfl | rfl
    · rcases hgen with ⟨-, e, -, he⟩ | ⟨hblock, -⟩
      · cases he
      · exact absurd hblock (by decide)
    · rcases hgen with ⟨heq, -⟩ | ⟨-, hgen⟩
      · exact absurd heq (by decide)
      · have hstats : deadCode.stats 2 = [.reference 0] := by decide
        rw [hstats] at hgen
        exact hgen
  | passed _ _ _ ih => exact ih

theorem arrives_deadCode : deadCode.problem.Arrives (.assigned 1 0) 2 := by
  have hparent : 3 ∈ deadCode.parents 2 := by decide
  refine .generated hparent (.inr ⟨by decide, ?_⟩)
  have hstats : deadCode.stats 3 = [.assignment 1 0] := by decide
  rw [hstats]
  exact .inr rfl

/-- A definition that reached a block is gone, though the block is left. -/
theorem not_unchanged_deadCode :
    ¬ ∀ (flow flow' : ControlFlow ℕ) (c : Choices) (fuel : ℕ) (entryOrder : List ℕ)
      (blockOrder : List ℕ) (entryOrder' : List ℕ) (blockOrder' : List ℕ),
      Built (fun _ => true) flow → flow.normalize c fuel = some (.ok flow') →
      Orders flow entryOrder blockOrder → Orders flow' entryOrder' blockOrder' →
      ∀ b ∈ flow'.blocks, ∀ d,
        flow'.Reaches entryOrder' blockOrder' d b ↔ flow.Reaches entryOrder blockOrder d b := by
  intro hall
  have hcons := built_deadCode.consistent
  obtain ⟨n, flow', hnormalized, hrun⟩ := normalize_spec hcons .ascending
  have hmem : 2 ∈ flow'.blocks := by
    refine (hnormalized.mem_blocks_iff 2).2 ⟨by decide, ?_, by decide⟩
    have hchild : 2 ∈ deadCode.children entryPoint := by decide
    exact .single hchild
  have o' : Orders flow' (flow'.entries.sort (· ≤ ·)) (flow'.blocks.sort (· ≤ ·)) :=
    ⟨Finset.sort_nodup _ _, fun _ => Finset.mem_sort _, Finset.sort_nodup _ _,
      fun _ => Finset.mem_sort _⟩
  have hiff := hall deadCode flow' .ascending (n + 1) _ _ _ _ built_deadCode
    (hrun (n + 1) (Nat.lt_succ_self n)) orders_deadCode o' 2 hmem (.assigned 1 0)
  have hbefore := (reaches_iff hcons orders_deadCode (by decide) (.assigned 1 0)).2 arrives_deadCode
  have hafter := (reaches_iff hnormalized.consistent o' hmem _).1 (hiff.2 hbefore)
  exact not_arrives_deadCode 2 ((hnormalized.arrives_iff 2 hmem _).1 hafter)

end AHPy.FlowControl
