import AHPy.FlowControl.ReachingDefinitions

/-!
# The result of the loop

`reaching_definitions` recomputes the outputs of all blocks in place until nothing
changes. An output never loses a bit, and has none that is not in the least solution
(`Below`): so the loop ends, and ends with the least solution.

* `Below.visit`: the invariant of the loop;
* `exists_reachingDefinitions`: the loop ends;
* `reachingDefinitions_spec`: what `initialize` and the loop compute.
-/

namespace AHPy.FlowControl

variable {Entry : Type} [DecidableEq Entry]

/-! ## Masks as sets -/

/-- The problem that the masks state. -/
def bitProblem (flow : ControlFlow Entry) (a : Analysis) : GenKill ℕ ℕ where
  parents := fun b => {p | p ∈ flow.parents b}
  gen := fun b => {i | (a.iGen b).testBit i = true}
  kill := fun b => {i | (a.iKill b).testBit i = true}

/-- The bits of the outputs. -/
def outputBits (a : Analysis) (b : ℕ) : Set ℕ := {i | (a.iOutput b).testBit i = true}

section

variable {flow : ControlFlow Entry} {a : Analysis} {b i : ℕ}

omit [DecidableEq Entry]

theorem testBit_joinParents {iOutput : ℕ → ℕ} :
    (flow.joinParents iOutput b).testBit i = true ↔
      ∃ p ∈ flow.parents b, (iOutput p).testBit i = true := by
  rw [ControlFlow.joinParents]
  induction flow.parents b using Finset.induction_on with
  | empty => simp
  | insert p parents hp ih =>
    rw [Finset.fold_insert hp, Nat.testBit_or, Bool.or_eq_true, ih]
    simp only [Finset.mem_insert, exists_eq_or_imp]

theorem mem_joined : i ∈ (bitProblem flow a).joined (outputBits a) b ↔
    (flow.joinParents a.iOutput b).testBit i = true := testBit_joinParents.symm

theorem testBit_newOutput : (flow.newOutput a b).testBit i = true ↔
    i ∈ (bitProblem flow a).transfer b ((bitProblem flow a).joined (outputBits a) b) := by
  rw [ControlFlow.newOutput, Nat.testBit_or, Bool.or_eq_true, Nat.testBit_ldiff, Bool.and_eq_true,
    Bool.not_eq_true', ← Bool.not_eq_true, ← mem_joined]
  rfl

theorem le_of_testBit {m n : ℕ} (h : ∀ i, m.testBit i = true → n.testBit i = true) : m ≤ n := by
  have hand : m &&& n = m := by
    refine Nat.eq_of_testBit_eq fun i => ?_
    rw [Nat.testBit_and]
    cases hm : m.testBit i with
    | true => rw [h i hm, Bool.and_self]
    | false => rw [Bool.false_and]
  rw [← hand]
  exact Nat.and_le_right

/-! ## The loop -/

/-- The invariant: outputs are below the least solution, and their next values are above
    them. The blocks that are not in the graph keep what they generate. -/
structure Below (flow : ControlFlow Entry) (a : Analysis) : Prop where
  below : ∀ b, outputBits a b ⊆ (bitProblem flow a).leaving b
  grows : ∀ b ∈ flow.blocks,
    outputBits a b ⊆ (bitProblem flow a).transfer b ((bitProblem flow a).joined (outputBits a) b)
  outside : ∀ b, b ∉ flow.blocks → a.iOutput b = a.iGen b

theorem iOutput_visit (s : Analysis × Bool) (b : ℕ) :
    (flow.visit s b).1.iOutput = Function.update s.1.iOutput b (flow.newOutput s.1 b) := rfl

theorem outputBits_visit_self (s : Analysis × Bool) (b : ℕ) :
    outputBits (flow.visit s b).1 b = (bitProblem flow s.1).transfer b
      ((bitProblem flow s.1).joined (outputBits s.1) b) := by
  ext i
  rw [← testBit_newOutput, outputBits, iOutput_visit, Function.update_self]
  rfl

theorem outputBits_visit_of_ne (s : Analysis × Bool) {b c : ℕ} (h : c ≠ b) :
    outputBits (flow.visit s b).1 c = outputBits s.1 c := by
  rw [outputBits, iOutput_visit, Function.update_of_ne h]
  rfl

/-- An output does not lose a bit. -/
theorem Below.le_visit (h : Below flow a) {dirty : Bool} (hb : b ∈ flow.blocks) (c : ℕ) :
    outputBits a c ⊆ outputBits (flow.visit (a, dirty) b).1 c := by
  rcases eq_or_ne c b with rfl | hc
  · rw [outputBits_visit_self]
    exact h.grows c hb
  · rw [outputBits_visit_of_ne _ hc]

theorem Below.visit (h : Below flow a) (dirty : Bool) (hb : b ∈ flow.blocks) :
    Below flow (flow.visit (a, dirty) b).1 := by
  have hproblem : bitProblem flow (flow.visit (a, dirty) b).1 = bitProblem flow a := rfl
  refine ⟨fun c => ?_, fun c hc => ?_, fun c hc => ?_⟩
  · rw [hproblem]
    rcases eq_or_ne c b with rfl | hne
    · rw [outputBits_visit_self, GenKill.solves_leaving c]
      exact GenKill.transfer_mono (GenKill.joined_mono h.below c)
    · rw [outputBits_visit_of_ne _ hne]
      exact h.below c
  · rw [hproblem]
    have hmono : (bitProblem flow a).transfer c ((bitProblem flow a).joined (outputBits a) c) ⊆
        (bitProblem flow a).transfer c
          ((bitProblem flow a).joined (outputBits (flow.visit (a, dirty) b).1) c) :=
      GenKill.transfer_mono (GenKill.joined_mono (h.le_visit hb) c)
    rcases eq_or_ne c b with rfl | hne
    · rw [outputBits_visit_self]
      exact hmono
    · rw [outputBits_visit_of_ne _ hne]
      exact (h.grows c hc).trans hmono
  · have hne : c ≠ b := fun heq => hc (heq ▸ hb)
    rw [iOutput_visit, Function.update_of_ne hne]
    exact h.outside c hc

/-- What is left of a sweep: whether it was clean, or an output that has grown. -/
structure Swept (flow : ControlFlow Entry) (l : List ℕ) (a : Analysis) (dirty : Bool)
    (r : Analysis × Bool) : Prop where
  below : Below flow r.1
  iGen_eq : r.1.iGen = a.iGen
  iKill_eq : r.1.iKill = a.iKill
  grown : ∀ c, outputBits a c ⊆ outputBits r.1 c
  iInput_eq : ∀ c, c ∉ l → r.1.iInput c = a.iInput c
  clean : r.2 = false → dirty = false ∧ r.1.iOutput = a.iOutput ∧
    ∀ c ∈ l, flow.newOutput a c = a.iOutput c ∧ r.1.iInput c = flow.joinParents a.iOutput c
  changed : r.2 = true → dirty = true ∨ ∃ c ∈ l, a.iOutput c < r.1.iOutput c

/-- By induction on the blocks that are left. -/
theorem Below.swept {l : List ℕ} (hl : ∀ b ∈ l, b ∈ flow.blocks) (h : Below flow a)
    (dirty : Bool) : Swept flow l a dirty (l.foldl flow.visit (a, dirty)) := by
  induction l generalizing a dirty with
  | nil =>
    exact ⟨h, rfl, rfl, fun _ => subset_rfl, fun _ _ => rfl,
      fun hd => ⟨hd, rfl, fun c hc => absurd hc List.not_mem_nil⟩, .inl⟩
  | cons b l ih =>
    have hb := hl b List.mem_cons_self
    set s := flow.visit (a, dirty) b with hs
    obtain ⟨hbelow, hgen, hkill, hgrown, hinput, hclean, hchanged⟩ :=
      ih (fun c hc => hl c (List.mem_cons_of_mem b hc)) (h.visit dirty hb) s.2
    have hgrown' : ∀ c, outputBits a c ⊆ outputBits s.1 c := h.le_visit hb
    have hdirty : s.2 = (dirty || decide (flow.newOutput a b ≠ a.iOutput b)) := rfl
    rw [List.foldl_cons]
    refine ⟨hbelow, hgen, hkill, fun c => (hgrown' c).trans (hgrown c), fun c hc => ?_,
      fun hd => ?_, fun hd => ?_⟩
    · rw [List.mem_cons, not_or] at hc
      exact (hinput c hc.2).trans (Function.update_of_ne hc.1 ..)
    · obtain ⟨hs2, houtput, hrest⟩ := hclean hd
      rw [hdirty, Bool.or_eq_false_iff, decide_eq_false_iff_not, not_not] at hs2
      have hsame : s.1.iOutput = a.iOutput := by
        rw [hs, iOutput_visit, hs2.2, Function.update_eq_self]
      have hnew : ∀ c, flow.newOutput s.1 c = flow.newOutput a c := by
        intro c
        rw [ControlFlow.newOutput, ControlFlow.newOutput, hsame]
        rfl
      refine ⟨hs2.1, houtput.trans hsame, fun c hc => ?_⟩
      by_cases hcl : c ∈ l
      · obtain ⟨hfix, hin⟩ := hrest c hcl
        rw [hnew, hsame] at hfix
        rw [hsame] at hin
        exact ⟨hfix, hin⟩
      · obtain rfl : c = b := (List.mem_cons.1 hc).resolve_right hcl
        exact ⟨hs2.2, (hinput c hcl).trans (Function.update_self ..)⟩
    · rcases hchanged hd with hs2 | ⟨c, hc, hlt⟩
      · rw [hdirty, Bool.or_eq_true, decide_eq_true_iff] at hs2
        refine hs2.imp_right fun hne => ⟨b, List.mem_cons_self, ?_⟩
        have hle : a.iOutput b ≤ s.1.iOutput b := le_of_testBit (hgrown' b)
        have heq : s.1.iOutput b = flow.newOutput a b := Function.update_self ..
        exact (lt_of_le_of_ne hle fun heq' => hne (heq ▸ heq'.symm)).trans_le
          (le_of_testBit (hgrown b))
      · exact .inr ⟨c, List.mem_cons_of_mem b hc,
          (le_of_testBit (hgrown' c)).trans_lt hlt⟩

/-- Outputs have no more bits than the definitions. -/
theorem Below.iOutput_lt (h : Below flow a) {N : ℕ}
    (hN : ∀ b i, (a.iGen b).testBit i = true → i < N) (b : ℕ) : a.iOutput b < 2 ^ N := by
  refine Nat.lt_pow_two_of_testBit _ fun i hi => ?_
  rw [← Bool.not_eq_true]
  intro hbit
  obtain ⟨p, hp⟩ : ∃ p, i ∈ (bitProblem flow a).gen p := by
    rcases h.below b hbit with ⟨harrives, -⟩ | hgen
    · exact harrives.exists_gen
    · exact ⟨b, hgen⟩
  exact absurd (hN p i hp) (not_lt.2 hi)

/-- What the loop has reached when it ends. -/
structure Settled (flow : ControlFlow Entry) (a r : Analysis) : Prop where
  below : Below flow r
  iGen_eq : r.iGen = a.iGen
  iKill_eq : r.iKill = a.iKill
  output_eq : ∀ b ∈ flow.blocks, flow.newOutput r b = r.iOutput b
  input_eq : ∀ b ∈ flow.blocks, r.iInput b = flow.joinParents r.iOutput b

/-- The loop ends: a sweep that is not clean lets the sum of the outputs grow. -/
theorem exists_reachingDefinitions {l : List ℕ} (hl : ∀ b, b ∈ l ↔ b ∈ flow.blocks) {N : ℕ}
    (h : Below flow a) (hN : ∀ b i, (a.iGen b).testBit i = true → i < N) :
    ∃ fuel r, flow.reachingDefinitions l fuel a = some r ∧ Settled flow a r := by
  induction hm : l.length * 2 ^ N - (l.map a.iOutput).sum using Nat.strong_induction_on
    generalizing a with
  | _ m ih =>
    have hswept : Swept flow l a false (flow.sweep l a) := h.swept (fun b hb => (hl b).1 hb) false
    cases hdirty : (flow.sweep l a).2 with
    | false =>
      obtain ⟨-, houtput, hfix⟩ := hswept.clean hdirty
      refine ⟨1, (flow.sweep l a).1, ?_, hswept.below, hswept.iGen_eq, hswept.iKill_eq,
        fun b hb => ?_, fun b hb => ?_⟩
      · simp only [ControlFlow.reachingDefinitions, hdirty, Bool.false_eq_true, if_false]
      · have hnew : flow.newOutput (flow.sweep l a).1 b = flow.newOutput a b := by
          rw [ControlFlow.newOutput, ControlFlow.newOutput, houtput, hswept.iKill_eq,
            hswept.iGen_eq]
        rw [hnew, houtput]
        exact (hfix b ((hl b).2 hb)).1
      · rw [houtput]
        exact (hfix b ((hl b).2 hb)).2
    | true =>
      obtain ⟨c, hc, hlt⟩ := (hswept.changed hdirty).resolve_left Bool.false_ne_true
      have hle : ∀ b ∈ l, a.iOutput b ≤ (flow.sweep l a).1.iOutput b := fun b _ =>
        le_of_testBit (hswept.grown b)
      have hsum : (l.map a.iOutput).sum < (l.map (flow.sweep l a).1.iOutput).sum :=
        List.sum_lt_sum _ _ hle ⟨c, hc, hlt⟩
      have hN' : ∀ b i, ((flow.sweep l a).1.iGen b).testBit i = true → i < N := by
        rw [hswept.iGen_eq]
        exact hN
      have hbound : (l.map (flow.sweep l a).1.iOutput).sum ≤ l.length * 2 ^ N := by
        have hsum := List.sum_le_card_nsmul (l.map (flow.sweep l a).1.iOutput) (2 ^ N) fun x hx => by
          obtain ⟨b, -, rfl⟩ := List.mem_map.1 hx
          exact (hswept.below.iOutput_lt hN' b).le
        rwa [List.length_map, smul_eq_mul] at hsum
      obtain ⟨fuel, r, hr, hsettled⟩ := ih _ (by omega) hswept.below hN' rfl
      refine ⟨fuel + 1, r, ?_, hsettled.below, hsettled.iGen_eq.trans hswept.iGen_eq,
        hsettled.iKill_eq.trans hswept.iKill_eq, hsettled.output_eq, hsettled.input_eq⟩
      simpa only [ControlFlow.reachingDefinitions, hdirty, if_true] using hr

/-- More fuel does not change the result. -/
theorem reachingDefinitions_unique {l : List ℕ} {fuel fuel' : ℕ} {r r' : Analysis}
    (h : flow.reachingDefinitions l fuel a = some r)
    (h' : flow.reachingDefinitions l fuel' a = some r') : r = r' := by
  induction fuel generalizing a fuel' with
  | zero => cases h
  | succ fuel ih =>
    cases fuel' with
    | zero => cases h'
    | succ fuel' =>
      simp only [ControlFlow.reachingDefinitions] at h h'
      cases hdirty : (flow.sweep l a).2 with
      | false =>
        simp only [hdirty, Bool.false_eq_true, if_false, Option.some.injEq] at h h'
        exact h.symm.trans h'
      | true =>
        simp only [hdirty, if_true] at h h'
        exact ih h h'

end

/-! ## What is computed -/

section

variable {flow : ControlFlow Entry} {entryOrder : List Entry} {blockOrder : List ℕ}

/-- Nothing comes before a block that is not in the graph. -/
theorem Consistent.parents_eq (h : Consistent flow) {b : ℕ} (hb : b ∉ flow.blocks) :
    flow.parents b = ∅ :=
  Finset.eq_empty_of_forall_notMem fun p hp => hb (h.child_mem p b ((h.mem_children_iff p b).2 hp))

theorem below_initializeBits (flow : ControlFlow Entry) (entryOrder : List Entry)
    (blockOrder : List ℕ) : Below flow (flow.initializeBits entryOrder blockOrder).2 where
  below _ _ hi := .inr hi
  grows _ _ _ hi := .inr hi
  outside _ _ := rfl

/-- The outputs of the loop are the least solution. -/
theorem Settled.joinParents_iff {a r : Analysis} (hs : Settled flow a r) (h : Consistent flow)
    {b i : ℕ} : (flow.joinParents r.iOutput b).testBit i = true ↔ (bitProblem flow a).Arrives i b := by
  have hproblem : bitProblem flow r = bitProblem flow a := by
    rw [bitProblem, bitProblem, hs.iGen_eq, hs.iKill_eq]
  have hsolves : (bitProblem flow r).Solves (outputBits r) := by
    intro c
    ext j
    by_cases hc : c ∈ flow.blocks
    · rw [← testBit_newOutput, hs.output_eq c hc]
      rfl
    · have hempty : (bitProblem flow r).joined (outputBits r) c = ∅ := by
        refine Set.eq_empty_of_forall_notMem ?_
        rintro d ⟨p, hp, -⟩
        have hp' : p ∈ flow.parents c := hp
        rw [h.parents_eq hc] at hp'
        exact Finset.notMem_empty p hp'
      rw [hempty, GenKill.transfer, Set.empty_sdiff, Set.empty_union, outputBits,
        hs.below.outside c hc]
      rfl
  rw [← mem_joined, hsolves.joined_eq hs.below.below, hproblem]
  rfl

/-- The bits that arrive are those of the definitions that arrive. -/
theorem arrives_bit_iff (o : Orders flow entryOrder blockOrder) (h : Consistent flow) {b i : ℕ} :
    (bitProblem flow (flow.initializeBits entryOrder blockOrder).2).Arrives i b ↔
      ∃ d, flow.problem.Arrives d b ∧
        (definitions entryOrder (blockOrder.flatMap flow.stats)).idxOf d = i := by
  refine GenKill.arrives_image (g := flow.problem)
    (f := (definitions entryOrder (blockOrder.flatMap flow.stats)).idxOf) rfl (fun n => ?_)
    fun p d n hd => ?_
  · ext j
    exact (stands_iGen o h n).2 j
  · have hmem := (stands_iGen o h p).1 d hd
    refine ((stands_iKill o h n).2 _).trans ⟨?_, fun hk => ⟨d, ⟨hmem, hk⟩, rfl⟩⟩
    rintro ⟨d', ⟨hd', hk⟩, hidx⟩
    rwa [(List.idxOf_inj hd').1 hidx] at hk

/-- By induction on the path: it goes through blocks of the graph, after the entry point. -/
theorem joinParents_of_arrives {a : Analysis} (h : Consistent flow) {iOutput : ℕ → ℕ}
    (hentry : iOutput entryPoint = a.iGen entryPoint)
    (hout : ∀ b ∈ flow.blocks,
      iOutput b = Nat.ldiff (flow.joinParents iOutput b) (a.iKill b) ||| a.iGen b)
    {b i : ℕ} (hi : (bitProblem flow a).Arrives i b) :
    (flow.joinParents iOutput b).testBit i = true := by
  induction hi with
  | @generated p b hp hgen =>
    refine testBit_joinParents.2 ⟨p, hp, ?_⟩
    rcases Finset.mem_insert.1 (h.parent_mem p b hp) with rfl | hblock
    · rw [hentry]
      exact hgen
    · rw [hout p hblock, Nat.testBit_or, Bool.or_eq_true]
      exact .inr hgen
  | @passed p b hp harrives hkill ih =>
    refine testBit_joinParents.2 ⟨p, hp, ?_⟩
    rcases Finset.mem_insert.1 (h.parent_mem p b hp) with rfl | hblock
    · obtain ⟨q, hq, -⟩ := testBit_joinParents.1 ih
      rw [h.parents_eq h.entryPoint_notMem] at hq
      exact absurd hq (Finset.notMem_empty q)
    · rw [hout p hblock, Nat.testBit_or, Bool.or_eq_true, Nat.testBit_ldiff, Bool.and_eq_true,
        Bool.not_eq_true', ← Bool.not_eq_true]
      exact .inl ⟨ih, hkill⟩

/-- A statement changes the bits as it changes the definitions. -/
theorem stands_check (o : Orders flow entryOrder blockOrder) (h : Consistent flow) {b : ℕ}
    (hb : b ∈ flow.blocks) {stat : Stat Entry} (hstat : stat ∈ flow.stats b) {m : ℕ}
    {defs : Set (Definition Entry)}
    (hm : Stands (definitions entryOrder (blockOrder.flatMap flow.stats)) m defs) :
    Stands (definitions entryOrder (blockOrder.flatMap flow.stats))
      ((flow.initializeBits entryOrder blockOrder).1.check m stat) (stat.after defs) := by
  have halloc := o.allocated h
  obtain ⟨id, e, g, hsets⟩ | ⟨e, rfl⟩ := stat.sets_or_reference
  · have he : .uninitialized e ∈ definitions entryOrder (blockOrder.flatMap flow.stats) := by
      refine o.uninitialized_mem ?_
      rw [← hsets.entry_eq]
      exact h.entry_mem b stat hstat
    have hdef : g.definition e ∈ definitions entryOrder (blockOrder.flatMap flow.stats) := by
      rcases hsets.definition_eq with hd | hd
      · rw [hd]
        exact List.mem_append_right _ (List.mem_filterMap.2 ⟨stat, List.mem_flatMap.2
          ⟨b, (o.mem_blockOrder b).2 hb, hstat⟩, hsets.definition?_eq⟩)
      · rw [hd]
        exact he
    have hset : {d ∈ defs | d.entry ≠ e} = defs \
        {d | d ∈ definitions entryOrder (blockOrder.flatMap flow.stats) ∧ d.entry = e} := by
      ext d
      constructor
      · rintro ⟨hd, hne⟩
        exact ⟨hd, fun hd' => hne hd'.2⟩
      · rintro ⟨hd, hne⟩
        exact ⟨hd, fun heq => hne ⟨hm.1 d hd, heq⟩⟩
    rw [hsets.check_eq, hsets.after_eq, hset]
    exact (hm.ldiff (halloc.stands_mask he)).or (halloc.stands_bitOf hdef)
  · exact hm

theorem stands_walk (o : Orders flow entryOrder blockOrder) (h : Consistent flow) {b : ℕ}
    (hb : b ∈ flow.blocks) {stats : List (Stat Entry)} (hstats : ∀ s ∈ stats, s ∈ flow.stats b)
    {m : ℕ} {defs : Set (Definition Entry)}
    (hm : Stands (definitions entryOrder (blockOrder.flatMap flow.stats)) m defs) :
    Stands (definitions entryOrder (blockOrder.flatMap flow.stats))
      ((flow.initializeBits entryOrder blockOrder).1.walk stats m) (afterAll stats defs) := by
  induction stats generalizing m defs with
  | nil => exact hm
  | cons s stats ih =>
    exact ih (fun s' hs' => hstats s' (List.mem_cons_of_mem s hs'))
      (stands_check o h hb (hstats s List.mem_cons_self) hm)

/-- What `initialize` and `reaching_definitions` have computed. -/
structure Exact (flow : ControlFlow Entry) (entryOrder : List Entry) (blockOrder : List ℕ)
    (r : Analysis) : Prop where
  /-- Entries and assignments have a bit each, -/
  bit : ∀ d ∈ definitions entryOrder (blockOrder.flatMap flow.stats),
    ∃ k, (flow.initializeBits entryOrder blockOrder).1.bitOf d = 2 ^ k
  /-- of their own. -/
  disjoint : ∀ d ∈ definitions entryOrder (blockOrder.flatMap flow.stats),
    ∀ d' ∈ definitions entryOrder (blockOrder.flatMap flow.stats), d ≠ d' →
      (flow.initializeBits entryOrder blockOrder).1.bitOf d &&&
        (flow.initializeBits entryOrder blockOrder).1.bitOf d' = 0
  /-- The definitions that arrive at a block are those with a bit in its input. -/
  input : ∀ b ∈ flow.blocks, ∀ i, (r.iInput b).testBit i = true ↔
    ∃ d, flow.problem.Arrives d b ∧
      (flow.initializeBits entryOrder blockOrder).1.bitOf d = 2 ^ i
  /-- The equations hold, -/
  output : ∀ b ∈ flow.blocks, r.iInput b = flow.joinParents r.iOutput b ∧
    r.iOutput b = Nat.ldiff (r.iInput b) (r.iKill b) ||| r.iGen b
  /-- and every other solution of them has more bits. -/
  least : ∀ iOutput : ℕ → ℕ, iOutput entryPoint = r.iGen entryPoint →
    (∀ b ∈ flow.blocks,
      iOutput b = Nat.ldiff (flow.joinParents iOutput b) (r.iKill b) ||| r.iGen b) →
    ∀ b ∈ flow.blocks, ∀ i, (r.iInput b).testBit i = true →
      (flow.joinParents iOutput b).testBit i = true
  /-- The walk through the statements of a block goes from its input to its output. -/
  walk : ∀ b ∈ flow.blocks,
    (flow.initializeBits entryOrder blockOrder).1.walk (flow.stats b) (r.iInput b) = r.iOutput b

theorem Settled.exact {r : Analysis}
    (hs : Settled flow (flow.initializeBits entryOrder blockOrder).2 r)
    (o : Orders flow entryOrder blockOrder) (h : Consistent flow) :
    Exact flow entryOrder blockOrder r := by
  have halloc := o.allocated h
  have hinput : ∀ b ∈ flow.blocks,
      Stands (definitions entryOrder (blockOrder.flatMap flow.stats)) (r.iInput b)
        {d | flow.problem.Arrives d b} := by
    intro b hb
    refine ⟨fun d hd => ?_, fun i => ?_⟩
    · obtain ⟨p, hp⟩ := GenKill.Arrives.exists_gen hd
      exact (stands_iGen o h p).1 d hp
    · rw [hs.input_eq b hb, hs.joinParents_iff h, arrives_bit_iff o h]
      rfl
  refine ⟨fun d hd => ⟨_, halloc.bitOf_eq d hd⟩, fun d hd d' hd' hne => ?_, fun b hb i => ?_,
    fun b hb => ⟨hs.input_eq b hb, ?_⟩, fun out hentry hout b hb i hi => ?_, fun b hb => ?_⟩
  · refine Nat.eq_of_testBit_eq fun i => ?_
    rw [halloc.bitOf_eq d hd, halloc.bitOf_eq d' hd', Nat.testBit_and, Nat.testBit_two_pow,
      Nat.testBit_two_pow, Nat.zero_testBit, ← Bool.not_eq_true, Bool.and_eq_true,
      decide_eq_true_iff, decide_eq_true_iff]
    rintro ⟨hi, hi'⟩
    exact hne ((List.idxOf_inj hd).1 (hi.trans hi'.symm))
  · rw [(hinput b hb).2 i]
    refine exists_congr fun d => and_congr_right fun hd => ?_
    rw [halloc.bitOf_eq d ((hinput b hb).1 d hd)]
    exact (Nat.pow_right_injective (le_refl 2)).eq_iff.symm
  · rw [← hs.output_eq b hb, ControlFlow.newOutput, hs.input_eq b hb]
  · rw [hs.input_eq b hb, hs.joinParents_iff h] at hi
    rw [hs.iGen_eq] at hentry
    simp only [hs.iGen_eq, hs.iKill_eq] at hout
    exact joinParents_of_arrives h hentry hout hi
  · have hproblem : afterAll (flow.stats b) {d | flow.problem.Arrives d b} =
        flow.problem.transfer b {d | flow.problem.Arrives d b} :=
      (transfer_problem hb (fun heq => h.entryPoint_notMem (heq ▸ hb)) _).symm
    have hset : flow.problem.transfer b {d | flow.problem.Arrives d b} =
        ({d | flow.problem.Arrives d b} \ {d | d ∈ definitions entryOrder
          (blockOrder.flatMap flow.stats) ∧ d ∈ flow.problem.kill b}) ∪ flow.problem.gen b := by
      ext d
      refine or_congr_left (and_congr_right fun hd => not_congr ?_)
      exact (and_iff_right ((hinput b hb).1 d hd)).symm
    refine (stands_walk o h hb (fun s hs => hs) (hinput b hb)).eq ?_
    rw [hproblem, hset, ← hs.output_eq b hb, ControlFlow.newOutput, ← hs.input_eq b hb, hs.iGen_eq,
      hs.iKill_eq]
    exact ((hinput b hb).ldiff (stands_iKill o h b)).or (stands_iGen o h b)

/-- The loop ends, whatever the orders of the sets, and its result is exact. -/
theorem reachingDefinitions_spec (h : Consistent flow) (o : Orders flow entryOrder blockOrder) :
    ∃ fuel r, flow.reachingDefinitions blockOrder fuel
      (flow.initializeBits entryOrder blockOrder).2 = some r ∧
        Exact flow entryOrder blockOrder r := by
  obtain ⟨fuel, r, hr, hs⟩ := exists_reachingDefinitions o.mem_blockOrder
    (N := (definitions entryOrder (blockOrder.flatMap flow.stats)).length)
    (below_initializeBits flow entryOrder blockOrder) fun b i hi => by
      obtain ⟨d, hd, rfl⟩ := ((stands_iGen o h b).2 i).1 hi
      exact List.idxOf_lt_length_of_mem ((stands_iGen o h b).1 d hd)
  exact ⟨fuel, r, hr, hs.exact o h⟩

end

end AHPy.FlowControl
