import AHPy.Lib.Fragments
import AHPy.Plex.Languages
import AHPy.Plex.LexerGeneration

/-!
# The states of regular expressions

What `build_machine` adds between two states of a machine is a fragment
(`AHPy.Lib.Fragments`) that accepts `RE.accepts`, by induction over the expression.

* `Adds`: an operation adds edges to every machine with a number of states;
* `BuildsFragment`: it adds a fragment, with the new states inside;
* `RE.Proper.builds`: so does `build_machine`.
-/

namespace AHPy.Plex

open Computability Edges TransitionMap

variable {A : Type}

/-! ## Adding edges -/

/-- The transition maps of a machine are in order. -/
def SortedMaps (m : Machine A) : Prop := ∀ s, Sorted (m.node s).transitions.map

/-- The operation adds the edges `E` to every machine with `n` states, which then has
    `n'` states. -/
def Adds (A : Type) (n n' : Nat) (E : Edges Symbol Nat) (op : Machine A → Machine A) : Prop :=
  ∀ m, m.states.length = n → SortedMaps m → (op m).states.length = n' ∧ SortedMaps (op m) ∧
    (op m).automaton.step = m.automaton.step ⊔ E

theorem Adds.comp {n n' n'' : Nat} {E E' : Edges Symbol Nat} {op op' : Machine A → Machine A}
    (h : Adds A n n' E op) (h' : Adds A n' n'' E' op') :
    Adds A n n'' (E ⊔ E') fun m => op' (op m) := by
  intro m hm hs
  obtain ⟨hlength, hsorted, hstep⟩ := h m hm hs
  obtain ⟨hlength', hsorted', hstep'⟩ := h' (op m) hlength hsorted
  exact ⟨hlength', hsorted', by rw [hstep', hstep, sup_assoc]⟩

theorem Adds.id (n : Nat) : Adds A n n ⊥ fun m => m :=
  fun _ hm hs => ⟨hm, hs, (sup_bot_eq _).symm⟩

theorem adds_newState (n : Nat) : Adds A n (n + 1) ⊥ fun m => m.newState.2 := by
  intro m hm hs
  refine ⟨?_, fun s => ?_, ?_⟩
  · simp [Machine.newState, hm]
  · simpa using hs s
  · rw [sup_bot_eq]
    funext s a
    rcases a with _ | a | _ | _ | a <;>
      simp only [Machine.automaton, Machine.targets, Machine.node_newState]

/-- The label of the edges of a special event. -/
def specialLabels (sym : Special) : Set (Option Symbol) := {sym.symbol}

/-- The labels of the edges of a range. -/
def rangeLabels (code1 code2 : Int) : Set (Option Symbol) :=
  {a | ∃ c : CodePoint, (code1 ≤ c.val ∧ c.val < code2) ∧ a = some (.char c)}

/-- An operation on the transitions of a state adds edges from it. -/
theorem adds_modifyNode {n i f : Nat} (hi : i < n) (labels : Set (Option Symbol)) (event : Event)
    (hsorted : ∀ t : TransitionMap, Sorted t.map → Sorted (t.add event f).map)
    (hspecial : ∀ (t : TransitionMap) sym x, x ∈ (t.add event f).getSpecial sym ↔
      x ∈ t.getSpecial sym ∨ x = f ∧ sym.symbol ∈ labels)
    (hchar : ∀ t : TransitionMap, Sorted t.map → ∀ (c : CodePoint) x,
      x ∈ statesOf (t.add event f).map c.val ↔
        x ∈ statesOf t.map c.val ∨ x = f ∧ some (.char c) ∈ labels) :
    Adds A n n (between i f labels) fun m => m.addTransition i event f := by
  intro m hm hs
  have hnode : ∀ s, (m.addTransition i event f).node s =
      if s = i then { m.node s with transitions := (m.node s).transitions.add event f }
      else m.node s := by
    intro s
    rw [Machine.addTransition, Machine.node_modifyNode, hm]
    by_cases h : s = i
    · rw [if_pos ⟨h, h ▸ hi⟩, if_pos h]
    · rw [if_neg fun hc => h hc.1, if_neg h]
  refine ⟨?_, fun s => ?_, ?_⟩
  · simp [Machine.addTransition, Machine.modifyNode, hm]
  · rw [hnode]
    split
    exacts [hsorted _ (hs s), hs s]
  · funext s a
    ext x
    have hedge : x ∈ between i f labels s a ↔ s = i ∧ x = f ∧ a ∈ labels := Iff.rfl
    change x ∈ (m.addTransition i event f).targets s a ↔
      x ∈ m.targets s a ∨ x ∈ between i f labels s a
    rw [hedge]
    by_cases h : s = i
    · rw [eq_true h, true_and]
      rcases a with _ | _ | _ | _ | c <;> rw [Machine.targets, Machine.targets, hnode, if_pos h]
      · exact hspecial _ .epsilon x
      · exact hspecial _ .bol x
      · exact hspecial _ .eol x
      · exact hspecial _ .eof x
      · exact hchar _ (hs s) c x
    · rw [eq_false h, false_and, or_false]
      rcases a with _ | _ | _ | _ | c <;> rw [Machine.targets, Machine.targets, hnode, if_neg h]

theorem adds_addSpecial {n i : Nat} (hi : i < n) (sym : Special) (f : Nat) :
    Adds A n n (between i f (specialLabels sym)) fun m => m.addTransition i (.special sym) f := by
  have hsymbol : ∀ sym' : Special, sym'.symbol ∈ specialLabels sym ↔ sym' = sym := by
    intro sym'
    rcases sym with _ | _ | _ | _ <;> rcases sym' with _ | _ | _ | _ <;>
      simp [specialLabels, Special.symbol]
  refine adds_modifyNode hi _ _ (fun t ht => ht) (fun t sym' x => ?_) fun t _ c x => ?_
  · rw [TransitionMap.add, getSpecial_addSet, hsymbol]
    split
    next h => simp [h, or_comm]
    next h => simp [h]
  · have hlabel : some (Symbol.char c) ∉ specialLabels sym := by
      rcases sym with _ | _ | _ | _ <;> simp [specialLabels, Special.symbol]
    simp [hlabel, TransitionMap.add, TransitionMap.addSet]

theorem adds_addRange {n i : Nat} (hi : i < n) {code1 code2 : Int} (h₁ : InRange code1)
    (h₂ : InRange code2) (f : Nat) :
    Adds A n n (between i f (rangeLabels code1 code2))
      fun m => m.addTransition i (.range code1 code2) f := by
  have hmaxint : maxint = 2147483647 := rfl
  refine adds_modifyNode hi _ _ (fun t ht => (addSet_range ht h₁ h₂ {f}).1) (fun t sym x => ?_)
    fun t ht c x => ?_
  · have hlabel : sym.symbol ∉ rangeLabels code1 code2 := by
      rintro ⟨c, -, hc⟩
      rcases sym with _ | _ | _ | _ <;> cases hc
    simp [hlabel, TransitionMap.add, TransitionMap.addSet, getSpecial]
  · have hc := c.isLt
    have hlabel : some (Symbol.char c) ∈ rangeLabels code1 code2 ↔
        code1 ≤ c.val ∧ (c.val : Int) < code2 := by
      simp [rangeLabels]
    rw [TransitionMap.add, (addSet_range ht h₁ h₂ {f}).2.2 c.val (by omega) (by omega), hlabel]
    split
    next h => simp [h, or_comm]
    next h => simp [h]

/-! ## Adding fragments -/

/-- What `b` builds from a state to another is a fragment for `L`, with the new states
    inside. -/
def BuildsFragment (A : Type) (b : Nat → Nat → Machine A → Machine A) (L : Language Symbol) :
    Prop :=
  ∀ n i f, i < n → f < n → i ≠ f → ∃ E n', n ≤ n' ∧ Fragment E i f (Set.Ico n n') L ∧
    Adds A n n' E (b i f)

/-- An operation is the same as another on machines with `n` states. -/
theorem Adds.congr {n n' : Nat} {E : Edges Symbol Nat} {op op' : Machine A → Machine A}
    (h : Adds A n n' E op) (heq : ∀ m : Machine A, m.states.length = n → op' m = op m) :
    Adds A n n' E op' := by
  intro m hm hs
  rw [heq m hm]
  exact h m hm hs

namespace BuildsFragment

variable {b b' : Nat → Nat → Machine A → Machine A} {L L' : Language Symbol}

theorem bot : BuildsFragment A (fun _ _ m => m) 0 := fun n i f _ _ hne =>
  ⟨⊥, n, le_rfl, by rw [Set.Ico_self]; exact .bot hne, .id n⟩

theorem parallel (h : BuildsFragment A b L) (h' : BuildsFragment A b' L') :
    BuildsFragment A (fun i f m => b' i f (b i f m)) (L + L') := by
  intro n i f hi hf hne
  obtain ⟨E, n₁, hn₁, hE, hadds⟩ := h n i f hi hf hne
  obtain ⟨E', n₂, hn₂, hE', hadds'⟩ := h' n₁ i f (hi.trans_le hn₁) (hf.trans_le hn₁) hne
  refine ⟨E ⊔ E', n₂, hn₁.trans hn₂, ?_, hadds.comp hadds'⟩
  rw [← Set.Ico_union_Ico_eq_Ico hn₁ hn₂]
  exact hE.parallel hE' (Set.Ico_disjoint_Ico_same)

/-- With a new state between them. -/
theorem sequence (h : BuildsFragment A b L) (h' : BuildsFragment A b' L') :
    BuildsFragment A (fun i f m => b' m.newState.1 f (b i m.newState.1 m.newState.2)) (L * L') := by
  intro n i f hi hf hne
  obtain ⟨E, n₁, hn₁, hE, hadds⟩ := h (n + 1) i n (by omega) (by omega) (by omega)
  obtain ⟨E', n₂, hn₂, hE', hadds'⟩ := h' n₁ n f (by omega) (by omega) (by omega)
  refine ⟨E ⊔ E', n₂, by omega, ?_, ?_⟩
  · have hinner : Set.Ico n n₂ = Set.Ico (n + 1) n₁ ∪ insert n (Set.Ico n₁ n₂) := by
      ext x
      simp only [Set.mem_Ico, Set.mem_union, Set.mem_insert_iff]
      omega
    rw [hinner]
    refine hE.sequence hE' Set.Ico_disjoint_Ico_same hne ?_ ?_ <;> rw [Set.mem_Ico] <;> omega
  · have hall := ((adds_newState (A := A) n).comp hadds).comp hadds'
    rw [bot_sup_eq] at hall
    refine hall.congr fun m hm => ?_
    subst hm
    rfl

/-- Around what is built, with two new states. -/
theorem repetition (h : BuildsFragment A b L) :
    BuildsFragment A (fun i f m =>
      ((b m.newState.1 m.newState.2.newState.1
        (m.newState.2.newState.2.linkTo i m.newState.1)).linkTo m.newState.2.newState.1
          m.newState.1).linkTo m.newState.2.newState.1 f) (L * L∗) := by
  intro n i f hi hf hne
  obtain ⟨E, n', hn', hE, hadds⟩ := h (n + 2) n (n + 1) (by omega) (by omega) (by omega)
  have hinner : Set.Ico n n' = insert n (insert (n + 1) (Set.Ico (n + 2) n')) := by
    ext x
    simp only [Set.mem_Ico, Set.mem_insert_iff]
    omega
  refine ⟨Edges.between i n {none} ⊔ E ⊔ Edges.between (n + 1) n {none} ⊔
    Edges.between (n + 1) f {none}, n', by omega, ?_, ?_⟩
  · rw [hinner]
    refine hE.repetition hne (by omega) (by omega) (by omega) (by omega) ?_ ?_ <;>
      rw [Set.mem_Ico] <;> omega
  · have hnew := (adds_newState (A := A) n).comp (adds_newState (n + 1))
    have hfirst := hnew.comp (adds_addSpecial (show i < n + 2 by omega) .epsilon n)
    have hlast := (adds_addSpecial (A := A) (show n + 1 < n' by omega) .epsilon n).comp
      (adds_addSpecial (show n + 1 < n' by omega) .epsilon f)
    have hall := (hfirst.comp hadds).comp hlast
    rw [bot_sup_eq, bot_sup_eq, ← sup_assoc] at hall
    refine hall.congr fun m hm => ?_
    have hlength : m.newState.2.newState.1 = n + 1 := by simp [Machine.newState, hm]
    subst hm
    simp only [hlength]
    rfl

/-- The words of labels. -/
def labelWords (labels : Set (Option Symbol)) : Language Symbol := {w | ∃ a ∈ labels, w = a.toList}

theorem between (labels : Set (Option Symbol))
    (h : ∀ n i f, i < n → Adds A n n (Edges.between i f labels) (b i f)) :
    BuildsFragment A b (labelWords labels) := by
  intro n i f hi hf hne
  refine ⟨_, n, le_rfl, ?_, h n i f hi⟩
  rw [Set.Ico_self]
  exact .between hne labels

theorem special (sym : Special) :
    BuildsFragment A (fun i f m => m.addTransition i (.special sym) f) {sym.symbol.toList} := by
  have hwords : labelWords (specialLabels sym) = {sym.symbol.toList} := by
    ext w
    constructor
    · rintro ⟨a, rfl, rfl⟩
      rfl
    · rintro rfl
      exact ⟨sym.symbol, rfl, rfl⟩
  rw [← hwords]
  exact between _ fun n i f hi => adds_addSpecial hi sym f

/-- The edges of `build_opt`. -/
theorem optional (sym : Special) {a : Symbol} (hsym : sym.symbol = some a) :
    BuildsFragment A (fun i f m => (m.linkTo i f).addTransition i (.special sym) f) (opt true a) := by
  have hwords : opt true a = {[]} + {[a]} := by
    ext w
    rw [Language.mem_add]
    exact or_congr Iff.rfl (and_iff_right rfl)
  have hlast := special (A := A) sym
  rw [hsym] at hlast
  rw [hwords]
  exact (special .epsilon).parallel hlast

/-- The beginning of a line before what is built, if it is to be matched. -/
theorem withBol (h : BuildsFragment A b L) (matchBol : Bool) :
    BuildsFragment A (fun i f m => b (m.buildBol i matchBol).1 f (m.buildBol i matchBol).2)
      (opt matchBol .bol * L) := by
  rcases matchBol with _ | _
  · rw [opt_false, one_mul]
    exact h
  · exact (optional .bol rfl).sequence h

/-- The words of a range, if there is one. -/
def optionWords : Option (Int × Int) → Language Symbol
  | none => 0
  | some r => labelWords (rangeLabels r.1 r.2)

theorem range (r : Option (Int × Int)) (h : ∀ r' ∈ r, InRange r'.1 ∧ InRange r'.2) :
    BuildsFragment A (fun i f m => m.addRange i f r) (optionWords r) := by
  rcases r with _ | r
  · exact bot
  · obtain ⟨h₁, h₂⟩ := h r rfl
    exact between _ fun n i f hi => adds_addRange hi h₁ h₂ f

end BuildsFragment

/-! ## Regular expressions -/

namespace RE

theorem buildSeq_builds {reList : List RE} {nocase : Bool}
    (h : ∀ re ∈ reList, ∀ matchBol, BuildsFragment A
      (fun i f m => re.buildMachine i f matchBol nocase m) (re.accepts matchBol nocase))
    (matchBol : Bool) :
    BuildsFragment A (fun i f m => buildSeq i f matchBol nocase reList m)
      (acceptsSeq matchBol nocase reList) := by
  induction reList generalizing matchBol with
  | nil => exact BuildsFragment.special .epsilon
  | cons re reList ih =>
    have hre := h re List.mem_cons_self matchBol
    have hrest := ih (fun re' hre' => h re' (.tail re hre'))
      (re.matchNl || (matchBol && re.nullable))
    rw [acceptsSeq]
    rcases reList with _ | ⟨re', reList⟩
    · rw [acceptsSeq, mul_one]
      exact hre
    · exact hre.sequence hrest

theorem buildEach_builds {reList : List RE} {matchBol nocase : Bool}
    (h : ∀ re ∈ reList, BuildsFragment A
      (fun i f m => re.buildMachine i f matchBol nocase m) (re.accepts matchBol nocase))
    (nullableOnes : Bool) :
    BuildsFragment A (fun i f m => buildEach i f matchBol nocase nullableOnes reList m)
      (acceptsEach matchBol nocase nullableOnes reList) := by
  induction reList with
  | nil => exact BuildsFragment.bot
  | cons re reList ih =>
    have hrest := ih fun re' hre' => h re' (.tail re hre')
    rw [acceptsEach]
    by_cases hn : re.nullable = nullableOnes
    · rw [if_pos hn]
      have hboth := (h re List.mem_cons_self).parallel hrest
      simpa only [buildEach, if_pos hn] using hboth
    · rw [if_neg hn, zero_add]
      simpa only [buildEach, if_neg hn] using hrest

theorem mem_labelWords_range {code1 code2 : Int} {w : List Symbol} :
    w ∈ BuildsFragment.labelWords (rangeLabels code1 code2) ↔
      ∃ c : CodePoint, (code1 ≤ c.val ∧ c.val < code2) ∧ w = [.char c] := by
  constructor
  · rintro ⟨_, ⟨c, hc, rfl⟩, rfl⟩
    exact ⟨c, hc, rfl⟩
  · rintro ⟨c, hc, rfl⟩
    exact ⟨_, ⟨c, hc, rfl⟩, rfl⟩

theorem mem_shifted (code1 code2 lo hi d : Int) (w : List Symbol) :
    w ∈ BuildsFragment.optionWords (if max code1 lo < min code2 (hi + 1) then
        some (max code1 lo + d, min code2 (hi + 1) + d) else none) ↔ ∃ c : CodePoint,
      ((lo + d ≤ (c.val : Int) ∧ (c.val : Int) ≤ hi + d) ∧ code1 ≤ c.val - d ∧
        c.val - d < code2) ∧ w = [.char c] := by
  split
  next h =>
    rw [BuildsFragment.optionWords, mem_labelWords_range]
    refine exists_congr fun c => and_congr_left fun _ => ?_
    simp only
    omega
  next h =>
    refine iff_of_false (Language.notMem_zero w) ?_
    rintro ⟨c, hc, -⟩
    omega

theorem mem_uppercase {code1 code2 : Int} {w : List Symbol} :
    w ∈ BuildsFragment.optionWords (uppercaseRange code1 code2) ↔ ∃ c : CodePoint,
      ((65 ≤ (c.val : Int) ∧ (c.val : Int) ≤ 90) ∧ code1 ≤ c.val + 32 ∧ c.val + 32 < code2) ∧
        w = [.char c] :=
  (mem_shifted code1 code2 97 122 (65 - 97) w).trans <|
    exists_congr fun c => and_congr_left fun _ => by omega

theorem mem_lowercase {code1 code2 : Int} {w : List Symbol} :
    w ∈ BuildsFragment.optionWords (lowercaseRange code1 code2) ↔ ∃ c : CodePoint,
      ((97 ≤ (c.val : Int) ∧ (c.val : Int) ≤ 122) ∧ code1 ≤ c.val - 32 ∧ c.val - 32 < code2) ∧
        w = [.char c] :=
  (mem_shifted code1 code2 65 90 (97 - 65) w).trans <|
    exists_congr fun c => and_congr_left fun _ => by omega

/-- The characters of a range, with the letters of the other case. -/
theorem chars_eq (code1 code2 : Int) (nocase : Bool) : chars code1 code2 nocase =
    BuildsFragment.labelWords (rangeLabels code1 code2) + if nocase then
      BuildsFragment.optionWords (uppercaseRange code1 code2) +
        BuildsFragment.optionWords (lowercaseRange code1 code2) else 0 := by
  ext w
  rw [Language.mem_add, mem_labelWords_range]
  rcases nocase with _ | _
  · rw [if_neg Bool.false_ne_true, or_iff_left (Language.notMem_zero w)]
    refine exists_congr fun c => and_congr_left fun _ => ?_
    exact or_iff_left fun h => Bool.false_ne_true h.1
  · rw [if_pos rfl, Language.mem_add, mem_uppercase, mem_lowercase, ← exists_or, ← exists_or]
    refine exists_congr fun c => ?_
    rw [← or_and_right, ← or_and_right]
    refine and_congr_left fun _ => ?_
    simp only [InClass, otherCase, true_and]
    split
    next h => omega
    next h =>
      split
      next h' => omega
      next h' => omega

/-- The states of an RE accept `RE.accepts`. -/
theorem Proper.builds {re : RE} (h : re.Proper) (matchBol nocase : Bool) :
    BuildsFragment A (fun i f m => re.buildMachine i f matchBol nocase m)
      (re.accepts matchBol nocase) := by
  induction h generalizing matchBol nocase with
  | @rawCodeRange code1 code2 h₁ h₂ hnl =>
    have hrange : BuildsFragment A (fun i f m => m.addTransition i (.range code1 code2) f)
        (BuildsFragment.labelWords (rangeLabels code1 code2)) :=
      BuildsFragment.between _ fun n i f hi => adds_addRange hi h₁ h₂ f
    rw [accepts, chars_eq]
    rcases nocase with _ | _
    · rw [if_neg Bool.false_ne_true, add_zero]
      exact hrange.withBol matchBol
    · rw [if_pos rfl, ← add_assoc]
      have hletters : ∀ r : Int × Int, (0 ≤ r.1 ∧ r.1 < 256) ∧ 0 ≤ r.2 ∧ r.2 < 256 →
          InRange r.1 ∧ InRange r.2 := by
        intro r hr
        have hmaxint : maxint = 2147483647 := rfl
        constructor <;> constructor <;> omega
      have hupper := BuildsFragment.range (A := A) (uppercaseRange code1 code2)
        fun r hr => hletters r (uppercaseRange_bounded code1 code2 r hr)
      have hlower := BuildsFragment.range (A := A) (lowercaseRange code1 code2)
        fun r hr => hletters r (lowercaseRange_bounded code1 code2 r hr)
      exact ((hrange.parallel hupper).parallel hlower).withBol matchBol
  | rawNewline =>
    have hnl : BuildsFragment A (fun i f m => m.addTransition i (.range nlCode (nlCode + 1)) f)
        {[.char nl]} := by
      have hwords : BuildsFragment.labelWords (rangeLabels nlCode (nlCode + 1)) = {[.char nl]} := by
        ext w
        rw [mem_labelWords_range]
        constructor
        · rintro ⟨c, hc, rfl⟩
          have hcode : nlCode = 10 := rfl
          obtain rfl : c = nl := Fin.ext (show c.val = 10 by omega)
          rfl
        · rintro rfl
          exact ⟨nl, by decide, rfl⟩
      rw [← hwords]
      have h₁ : InRange nlCode := by constructor <;> decide
      have h₂ : InRange (nlCode + 1) := by constructor <;> decide
      exact BuildsFragment.between _ fun n i f hi => adds_addRange hi h₁ h₂ f
    exact ((BuildsFragment.optional .eol rfl).sequence hnl).withBol matchBol
  | @specialSymbol sym hsym => exact (BuildsFragment.special sym).withBol (matchBol && sym = .eol)
  | @seq reList hall ih =>
    exact buildSeq_builds (fun re hre matchBol => ih re hre matchBol nocase) matchBol
  | @alt reList hall ih =>
    have hnullable := buildEach_builds (fun re hre => ih re hre matchBol nocase) true
    have hothers := (buildEach_builds (fun re hre => ih re hre false nocase) false).withBol matchBol
    rw [accepts]
    by_cases hany : (reList.any fun re => !re.nullable) = true
    · simpa only [buildMachine, if_pos hany] using hnullable.parallel hothers
    · have hnone : acceptsEach false nocase false reList = 0 := by
        ext w
        rw [mem_acceptsEach]
        refine iff_of_false ?_ (Language.notMem_zero w)
        rintro ⟨re, hre, hn, -⟩
        exact hany (List.any_eq_true.2 ⟨re, hre, by rw [hn]; rfl⟩)
      rw [hnone, mul_zero, add_zero]
      simpa only [buildMachine, if_neg hany] using hnullable
  | @rep1 re hre ih => exact (ih (matchBol || re.matchNl) nocase).repetition
  | switchCase _ nocase' ih => exact ih matchBol nocase'

end RE

/-- A machine with `n` states and nothing else. -/
def Machine.blank (n : Nat) : Machine A := ⟨List.replicate n .new, .empty⟩

theorem Machine.node_blank (n s : Nat) : (Machine.blank n : Machine A).node s = .new := by
  rw [Machine.node, Machine.blank, List.getElem?_replicate]
  split <;> rfl

theorem sortedMaps_blank (n : Nat) : SortedMaps (Machine.blank n : Machine A) := by
  intro s
  rw [Machine.node_blank]
  exact sorted_new

theorem step_blank (n : Nat) : (Machine.blank n : Machine A).automaton.step = ⊥ := by
  have hcode : ∀ code, statesOf TransitionMap.new.map code = ∅ := by
    intro code
    by_cases h : -maxint ≤ code <;> simp [statesOf, TransitionMap.new, h]
  have htargets : ∀ s a, (Machine.blank n : Machine A).targets s a = ∅ := by
    intro s a
    rcases a with _ | _ | _ | _ | c <;> rw [Machine.targets, Machine.node_blank]
    exacts [rfl, rfl, rfl, rfl, hcode _]
  funext s a
  change ((Machine.blank n : Machine A).targets s a : Set Nat) = ∅
  rw [htargets, Finset.coe_empty]

namespace RE

/-- The machine that is built between two states of a blank one accepts `RE.accepts`. -/
theorem Proper.mem_evalFrom_iff {re : RE} (h : re.Proper) (matchBol nocase : Bool) {n i f : Nat}
    (hi : i < n) (hf : f < n) (hne : i ≠ f) {w : List Symbol} :
    f ∈ (re.buildMachine i f matchBol nocase (.blank n : Machine A)).automaton.evalFrom {i} w ↔
      w ∈ re.accepts matchBol nocase := by
  obtain ⟨E, n', -, hE, hadds⟩ := h.builds (A := A) matchBol nocase n i f hi hf hne
  obtain ⟨-, -, hstep⟩ := hadds (.blank n) (List.length_replicate) (sortedMaps_blank n)
  rw [Edges.mem_evalFrom_iff, hstep, step_blank, bot_sup_eq, hE.spells]

/-- What `build_machine` adds to a machine between two states: edges from the first
    state and new ones to the last state and new ones, along which the sequences of
    `RE.accepts` are read. These are decorations of the language of the RE; and they
    are exactly those where a `BOL` only comes at the beginning of a line. -/
theorem buildMachine_fragment {re : RE} (h : re.Proper) (matchBol nocase : Bool) {n i f : Nat}
    (hi : i < n) (hf : f < n) (hne : i ≠ f) :
    (∃ (E : Edges Symbol Nat) (n' : Nat),
      (∀ m : Machine A, m.states.length = n → SortedMaps m →
        (re.buildMachine i f matchBol nocase m).states.length = n' ∧
          (re.buildMachine i f matchBol nocase m).automaton.step = m.automaton.step ⊔ E) ∧
      (∀ s a, ∀ t ∈ E s a, (s = i ∨ n ≤ s ∧ s < n') ∧ (t = f ∨ n ≤ t ∧ t < n')) ∧
      ∀ w, E.Spells i w f ↔ w ∈ re.accepts matchBol nocase) ∧
    (∀ w, f ∈ (re.buildMachine i f matchBol nocase (.blank n : Machine A)).automaton.evalFrom
      {i} w ↔ w ∈ re.accepts matchBol nocase) ∧
    (∀ w, Possible matchBol w → (w ∈ re.accepts matchBol nocase ↔
      ∃ v ∈ re.language nocase, w ∈ decorations matchBol v)) ∧
    (∀ v ∈ re.language nocase, ∀ w ∈ decorations matchBol v, w ∈ re.accepts matchBol nocase) ∧
    ∀ w ∈ re.accepts matchBol nocase, ∃ v ∈ re.language nocase, w ∈ looseDecorations v := by
  obtain ⟨E, n', -, hE, hadds⟩ := h.builds (A := A) matchBol nocase n i f hi hf hne
  refine ⟨⟨E, n', fun m hm hs => ?_, fun s a t ht => ?_, hE.spells⟩,
    fun w => h.mem_evalFrom_iff matchBol nocase hi hf hne, fun w => h.mem_accepts_iff nocase,
    h.covers matchBol nocase, h.coveredBy matchBol nocase⟩
  · obtain ⟨hlength, -, hstep⟩ := hadds m hm hs
    exact ⟨hlength, hstep⟩
  · exact ⟨(hE.source s a t ht).imp_right Set.mem_Ico.1,
      (hE.target s a t ht).imp_right Set.mem_Ico.1⟩

/-- Letters and newlines, one or more, from the beginning of a line. -/
theorem buildMachine_fragment_lines :
    1 ∈ ((RE.rep1 (.alt [.rawCodeRange 97 123, .rawNewline])).buildMachine 0 1 true false
      (.blank 2 : Machine Unit)).automaton.evalFrom {0} [.bol, .char 97, .eol, .char nl] ↔
    [.bol, .char 97, .eol, .char nl] ∈
      (RE.rep1 (.alt [.rawCodeRange 97 123, .rawNewline])).accepts true false := by
  have hproper : (RE.rep1 (.alt [.rawCodeRange 97 123, .rawNewline])).Proper := by
    refine .rep1 (.alt fun re hre => ?_)
    simp only [List.mem_cons, List.not_mem_nil, or_false] at hre
    rcases hre with rfl | rfl
    · exact .rawCodeRange (by constructor <;> decide) (by constructor <;> decide) (by decide)
    · exact .rawNewline
  exact (buildMachine_fragment (A := Unit) hproper true false (show 0 < 2 by decide)
    (show 1 < 2 by decide) (by decide)).2.1 _

/-- A symbol that is no `BOL` and no `EOL` is one of the sequence that is decorated. -/
theorem mem_decorations_cons {lineStart : Bool} {a : Symbol} {v w : List Symbol} (hbol : a ≠ .bol)
    (heol : a ≠ .eol) (h : a :: w ∈ decorations lineStart v) :
    ∃ v', v = a :: v' ∧ w ∈ decorations a.isNl v' := by
  rcases v with _ | ⟨b, v⟩
  · cases h
  · obtain ⟨_, ⟨_, ⟨k, hk, e, he, rfl⟩, x, rfl, rfl⟩, y, hy, heq⟩ := h
    rcases hk with rfl | ⟨-, rfl⟩
    · rcases he with rfl | ⟨-, rfl⟩
      · obtain ⟨rfl, rfl⟩ := List.cons.inj heq
        exact ⟨v, rfl, hy⟩
      · exact absurd (List.cons.inj heq).1.symm heol
    · exact absurd (List.cons.inj heq).1.symm hbol

/-- One or more `a`s, from the beginning of a line: also after an `a` there may be a
    `BOL`, although no newline is before it. -/
theorem not_buildMachine_exact :
    ¬∀ (re : RE) (matchBol nocase : Bool) (n i f : Nat) (w : List Symbol), re.Proper → i < n →
      f < n → i ≠ f →
      (f ∈ (re.buildMachine i f matchBol nocase (.blank n : Machine Unit)).automaton.evalFrom
        {i} w ↔ ∃ v ∈ re.language nocase, w ∈ decorations matchBol v) := by
  intro hall
  have hproper : (RE.rep1 (.rawCodeRange 97 98)).Proper :=
    .rep1 (.rawCodeRange (by constructor <;> decide) (by constructor <;> decide) (by decide))
  have hiff := hall _ true false 2 0 1 [.char 97, .bol, .char 97] hproper (by decide) (by decide)
    (by decide)
  rw [hproper.mem_evalFrom_iff true false (by decide) (by decide) (by decide)] at hiff
  have ha : [Symbol.char 97] ∈ chars 97 98 false := ⟨97, .inl (by decide), rfl⟩
  have hacc : [Symbol.char 97, .bol, .char 97] ∈ (RE.rep1 (.rawCodeRange 97 98)).accepts
      true false := by
    refine ⟨[.char 97], ⟨[], nil_mem_opt _ _, _, ha, rfl⟩, [.bol, .char 97], ?_, rfl⟩
    refine Language.mem_kstar.2 ⟨[[.bol, .char 97]], rfl, fun y hy => ?_⟩
    rw [List.mem_singleton.1 hy]
    exact ⟨[.bol], .inr ⟨rfl, rfl⟩, _, ha, rfl⟩
  obtain ⟨v, hv, hw⟩ := hiff.1 hacc
  -- The sequence that is decorated has no `BOL` of its own.
  have hchars : ∀ a ∈ v, a ≠ .bol := by
    obtain ⟨_, ⟨c, -, rfl⟩, u, hu, rfl⟩ := hv
    obtain ⟨l, rfl, hl⟩ := Language.mem_kstar.1 hu
    intro a ha
    rcases List.mem_append.1 ha with ha | ha
    · rw [List.mem_singleton.1 ha]
      exact Symbol.noConfusion
    · obtain ⟨y, hy, ha⟩ := List.mem_flatten.1 ha
      obtain ⟨c', -, rfl⟩ := hl y hy
      rw [List.mem_singleton.1 ha]
      exact Symbol.noConfusion
  have hfirst := mem_decorations_cons (show Symbol.char 97 ≠ .bol by decide)
    (show Symbol.char 97 ≠ .eol by decide) hw
  obtain ⟨v', rfl, hw'⟩ := hfirst
  rcases v' with _ | ⟨a, v'⟩
  · cases hw'
  · obtain ⟨_, ⟨_, ⟨k, hk, e, he, rfl⟩, x, rfl, rfl⟩, y, hy, heq⟩ := hw'
    have hk' : k = [] := hk.resolve_right fun h => Bool.false_ne_true h.1
    rcases he with rfl | ⟨-, rfl⟩
    · rw [hk'] at heq
      exact hchars a (by simp) (List.cons.inj heq).1
    · rw [hk'] at heq
      cases (List.cons.inj heq).1

end RE

end AHPy.Plex
