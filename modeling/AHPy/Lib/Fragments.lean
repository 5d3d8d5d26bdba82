import Mathlib

/-!
# Fragments of automata

A construction of an automaton from a regular expression adds edges between two
states, with other states inside. A `Fragment` is what it adds: the edges leave the
first state and the inner ones, they lead to the last state and the inner ones, and
the words along them are those of a language.

* `Fragment.parallel`: two fragments between the same states are one for the union;
* `Fragment.sequence`: one after the other, they are one for the product;
* `Fragment.repetition`: with edges without a symbol from the end back to the start, a
  fragment is one for the repetitions of its words.
-/

namespace AHPy

variable {α σ : Type*}

/-- The edges of an automaton: the targets from a state, on a symbol or on none. -/
abbrev Edges (α σ : Type*) := σ → Option α → Set σ

namespace Edges

/-- The word `w` is read along edges from one state to another. -/
inductive Spells (E : Edges α σ) : σ → List α → σ → Prop
  | nil (s : σ) : Spells E s [] s
  | move {s t u : σ} {a : Option α} {w : List α} (h : t ∈ E s a) (hw : Spells E t w u) :
      Spells E s (a.toList ++ w) u

/-- The edges from `i` to `f` on the labels of a set. -/
def between (i f : σ) (labels : Set (Option α)) : Edges α σ :=
  fun s a => {t | s = i ∧ t = f ∧ a ∈ labels}

variable {E E' : Edges α σ} {s t u : σ} {v w : List α}

theorem Spells.mono (h : E ≤ E') (hw : Spells E s w t) : Spells E' s w t := by
  induction hw with
  | nil s => exact .nil s
  | move he _ ih => exact .move (h _ _ he) ih

theorem Spells.append (hv : Spells E s v t) (hw : Spells E t w u) : Spells E s (v ++ w) u := by
  induction hv with
  | nil s => exact hw
  | move he _ ih =>
    rw [List.append_assoc]
    exact .move he (ih hw)

/-- The words along the steps of an automaton are those it reads. -/
theorem mem_evalFrom_iff (M : εNFA α σ) : t ∈ M.evalFrom {s} w ↔ Spells M.step s w t := by
  rw [εNFA.mem_evalFrom_iff_exists_path]
  constructor
  · rintro ⟨x, rfl, hx⟩
    induction hx with
    | nil s => exact .nil s
    | cons t s u a x he _ ih =>
      rcases a with _ | a
      · rw [List.reduceOption_cons_of_none]
        exact .move he ih
      · rw [List.reduceOption_cons_of_some]
        exact .move he ih
  · intro h
    induction h with
    | nil s => exact ⟨[], rfl, .nil s⟩
    | @move s t u a w he _ ih =>
      obtain ⟨x, rfl, hx⟩ := ih
      refine ⟨a :: x, ?_, .cons t s u a x he hx⟩
      rcases a with _ | a
      · rw [List.reduceOption_cons_of_none]
        rfl
      · rw [List.reduceOption_cons_of_some]
        rfl

/-- From the states of `S`, which only the edges of `E` leave, only these are taken. -/
theorem Spells.restrict {S : Set σ} {f : σ} (hE' : ∀ s ∈ S, ∀ a t, t ∉ E' s a)
    (hE : ∀ s ∈ S, ∀ a, ∀ t ∈ E s a, t ∈ S ∨ t = f) (hf : ∀ a t, t ∉ (E ⊔ E') f a)
    (hs : s ∈ S ∨ s = f) (hw : Spells (E ⊔ E') s w u) : Spells E s w u := by
  induction hw with
  | nil s => exact .nil s
  | move he _ ih =>
    rcases hs with hs | rfl
    · rcases he with he | he
      · exact .move he (ih (hE _ hs _ _ he))
      · exact absurd he (hE' _ hs _ _)
    · exact absurd he (hf _ _)

/-- Edges between `i` and `f`, with the states of `inner` inside, along which the
    words of `L` are read. -/
structure Fragment (E : Edges α σ) (i f : σ) (inner : Set σ) (L : Language α) : Prop where
  ne : i ≠ f
  source : ∀ s a, ∀ t ∈ E s a, s = i ∨ s ∈ inner
  target : ∀ s a, ∀ t ∈ E s a, t = f ∨ t ∈ inner
  first : i ∉ inner
  last : f ∉ inner
  spells : ∀ w, Spells E i w f ↔ w ∈ L

namespace Fragment

variable {i f : σ} {inner inner' : Set σ} {L L' : Language α}

/-- No edge leaves the last state. -/
theorem not_mem (h : Fragment E i f inner L) (a : Option α) (t : σ) : t ∉ E f a := by
  intro he
  rcases h.source f a t he with heq | hmem
  · exact h.ne heq.symm
  · exact h.last hmem

/-- No edge leaves a state outside. -/
theorem not_mem_of_outside (h : Fragment E i f inner L) (hi : s ≠ i) (hs : s ∉ inner)
    (a : Option α) (t : σ) : t ∉ E s a := fun he => (h.source s a t he).elim hi hs

theorem bot (h : i ≠ f) : Fragment (⊥ : Edges α σ) i f ∅ 0 where
  ne := h
  source := fun _ _ _ he => he.elim
  target := fun _ _ _ he => he.elim
  first := Set.notMem_empty i
  last := Set.notMem_empty f
  spells := by
    intro w
    refine ⟨fun hw => ?_, fun hw => (Language.notMem_zero w hw).elim⟩
    cases hw with
    | nil => exact absurd rfl h
    | move he _ => exact he.elim

/-- Edges from the first to the last state. -/
theorem between (h : i ≠ f) (labels : Set (Option α)) :
    Fragment (Edges.between i f labels) i f ∅ {w | ∃ a ∈ labels, w = a.toList} where
  ne := h
  source := fun _ _ _ he => .inl he.1
  target := fun _ _ _ he => .inl he.2.1
  first := Set.notMem_empty i
  last := Set.notMem_empty f
  spells := by
    intro w
    constructor
    · intro hw
      cases hw with
      | nil => exact absurd rfl h
      | move he hw =>
        obtain ⟨-, rfl, ha⟩ := he
        cases hw with
        | nil => exact ⟨_, ha, List.append_nil _⟩
        | move he _ => exact absurd he.1.symm h
    · rintro ⟨a, ha, rfl⟩
      rw [← List.append_nil a.toList]
      exact .move ⟨rfl, rfl, ha⟩ (.nil f)

/-- A path of two fragments that starts with an edge of the first stays in it. -/
theorem spells_left (h : Fragment E i f inner L) (h' : Fragment E' i f inner' L')
    (hd : Disjoint inner inner') {a : Option α} (he : t ∈ E i a) (hw : Spells (E ⊔ E') t w f) :
    a.toList ++ w ∈ L := by
  have hout : ∀ s ∈ inner, ∀ a t, t ∉ E' s a := by
    intro s hs
    refine h'.not_mem_of_outside ?_ (Set.disjoint_left.1 hd hs)
    rintro rfl
    exact h.first hs
  have hlast : ∀ a t, t ∉ (E ⊔ E') f a := fun a t ht => ht.elim (h.not_mem a t) (h'.not_mem a t)
  have hstay := Spells.restrict hout (fun s _ a t ht => (h.target s a t ht).symm) hlast
    (h.target i a t he).symm hw
  exact (h.spells _).1 (.move he hstay)

/-- Two fragments between the same states. -/
theorem parallel (h : Fragment E i f inner L) (h' : Fragment E' i f inner' L')
    (hd : Disjoint inner inner') : Fragment (E ⊔ E') i f (inner ∪ inner') (L + L') where
  ne := h.ne
  source := by
    rintro s a t (he | he)
    · exact (h.source s a t he).imp_right .inl
    · exact (h'.source s a t he).imp_right .inr
  target := by
    rintro s a t (he | he)
    · exact (h.target s a t he).imp_right .inl
    · exact (h'.target s a t he).imp_right .inr
  first := fun hi => hi.elim h.first h'.first
  last := fun hf => hf.elim h.last h'.last
  spells := by
    intro w
    rw [Language.mem_add]
    constructor
    · intro hw
      cases hw with
      | nil => exact absurd rfl h.ne
      | move he hw =>
        rcases he with he | he
        · exact .inl (h.spells_left h' hd he hw)
        · rw [sup_comm] at hw
          exact .inr (h'.spells_left h hd.symm he hw)
    · rintro (hw | hw)
      · exact ((h.spells w).2 hw).mono le_sup_left
      · exact ((h'.spells w).2 hw).mono le_sup_right

/-- One fragment after the other, with the state `m` between them. -/
theorem sequence {m : σ} (h : Fragment E i m inner L) (h' : Fragment E' m f inner' L')
    (hd : Disjoint inner inner') (hne : i ≠ f) (hi : i ∉ inner') (hf : f ∉ inner) :
    Fragment (E ⊔ E') i f (inner ∪ insert m inner') (L * L') where
  ne := hne
  source := by
    rintro s a t (he | he)
    · exact (h.source s a t he).imp_right .inl
    · exact .inr (.inr (h'.source s a t he))
  target := by
    rintro s a t (he | he)
    · rcases h.target s a t he with rfl | ht
      · exact .inr (.inr (.inl rfl))
      · exact .inr (.inl ht)
    · exact (h'.target s a t he).imp_right fun ht => .inr (.inr ht)
  first := by
    rintro (hi' | rfl | hi')
    exacts [h.first hi', h.ne rfl, hi hi']
  last := by
    rintro (hf' | rfl | hf')
    exacts [hf hf', h'.ne rfl, h'.last hf']
  spells := by
    have hmiddle : ∀ s ∈ insert m inner', ∀ a t, t ∉ E s a := by
      rintro s (rfl | hs)
      · exact h.not_mem
      · refine h.not_mem_of_outside ?_ (Set.disjoint_right.1 hd hs)
        rintro rfl
        exact hi hs
    have hlast : ∀ a t, t ∉ (E' ⊔ E) f a := fun a t ht =>
      ht.elim (h'.not_mem a t) (h.not_mem_of_outside hne.symm hf a t)
    have hsplit : ∀ s w, Spells (E ⊔ E') s w f → s = i ∨ s ∈ inner →
        ∃ v w', w = v ++ w' ∧ Spells E s v m ∧ Spells E' m w' f := by
      intro s w hw
      generalize hg : f = g at hw
      induction hw with
      | nil s =>
        rintro (rfl | hs)
        · exact absurd hg.symm hne
        · exact absurd (hg ▸ hs) hf
      | @move s t u a w he hw ih =>
        intro hs
        have hedge : t ∈ E s a := by
          refine he.resolve_right (h'.not_mem_of_outside ?_ ?_ a t)
          · rcases hs with rfl | hs
            · exact h.ne
            · rintro rfl
              exact h.last hs
          · rcases hs with rfl | hs
            · exact hi
            · exact Set.disjoint_left.1 hd hs
        rcases h.target s a t hedge with rfl | ht
        · -- The rest is a path of the second fragment.
          rw [sup_comm] at hw
          refine ⟨a.toList, w, rfl, ?_, ?_⟩
          · rw [← List.append_nil a.toList]
            exact .move hedge (.nil t)
          · subst hg
            refine Spells.restrict hmiddle (fun s _ a t ht => ?_) hlast
              (.inl (Set.mem_insert t inner')) hw
            exact (h'.target s a t ht).symm.imp_left .inr
        · obtain ⟨v, w', rfl, hv, hw'⟩ := ih hg (.inr ht)
          exact ⟨a.toList ++ v, w', (List.append_assoc _ _ _).symm, .move hedge hv, hw'⟩
    intro w
    rw [Language.mem_mul]
    constructor
    · intro hw
      obtain ⟨v, w', rfl, hv, hw'⟩ := hsplit i w hw (.inl rfl)
      exact ⟨v, (h.spells v).1 hv, w', (h'.spells w').1 hw', rfl⟩
    · rintro ⟨v, hv, w', hw', rfl⟩
      exact (((h.spells v).2 hv).mono le_sup_left).append (((h'.spells w').2 hw').mono le_sup_right)

/-- A fragment from `m` to `n` with edges without a symbol around it: to `m` from the
    first state and from `n`, and from `n` to the last state. -/
theorem repetition {m n : σ} (h : Fragment E m n inner L) (hne : i ≠ f) (him : i ≠ m) (hin : i ≠ n)
    (hfm : f ≠ m) (hfn : f ≠ n) (hi : i ∉ inner) (hf : f ∉ inner) :
    Fragment (Edges.between i m {none} ⊔ E ⊔ Edges.between n m {none} ⊔ Edges.between n f {none})
      i f (insert m (insert n inner)) (L * KStar.kstar L) where
  ne := hne
  source := by
    rintro s a t (((⟨rfl, -⟩ | he) | ⟨rfl, -⟩) | ⟨rfl, -⟩)
    · exact .inl rfl
    · exact .inr ((h.source s a t he).imp_right .inr)
    · exact .inr (.inr (.inl rfl))
    · exact .inr (.inr (.inl rfl))
  target := by
    rintro s a t (((⟨-, rfl, -⟩ | he) | ⟨-, rfl, -⟩) | ⟨-, rfl, -⟩)
    · exact .inr (.inl rfl)
    · exact .inr (.inr (h.target s a t he))
    · exact .inr (.inl rfl)
    · exact .inl rfl
  first := by
    rintro (rfl | rfl | hi')
    exacts [him rfl, hin rfl, hi hi']
  last := by
    rintro (rfl | rfl | hf')
    exacts [hfm rfl, hfn rfl, hf hf']
  spells := by
    -- From the start a word of `L` is read up to `n`, and from `n` on repetitions of such.
    have hsplit : ∀ s w g, Spells (Edges.between i m {none} ⊔ E ⊔ Edges.between n m {none} ⊔
        Edges.between n f {none}) s w g → g = f →
        (s = m ∨ s ∈ inner → ∃ v u, w = v ++ u ∧ Spells E s v n ∧ u ∈ KStar.kstar L) ∧
          (s = n → w ∈ KStar.kstar L) ∧ (s = f → w = []) := by
      intro s w g hw hg
      induction hw with
      | nil s =>
        refine ⟨?_, fun _ => Language.nil_mem_kstar L, fun _ => rfl⟩
        rintro (rfl | hs)
        · exact absurd hg.symm hfm
        · exact absurd (hg ▸ hs) hf
      | @move s t u a w he hw ih =>
        obtain ⟨ihm, ihn, ihf⟩ := ih hg
        rcases he with ((⟨rfl, rfl, rfl⟩ | he) | ⟨rfl, rfl, rfl⟩) | ⟨rfl, rfl, rfl⟩
        · exact ⟨fun hs => hs.elim (absurd · him) (absurd · hi), (absurd · hin), (absurd · hne)⟩
        · refine ⟨fun _ => ?_, ?_, ?_⟩
          · rcases h.target s a t he with rfl | ht
            · exact ⟨a.toList, w, rfl, List.append_nil a.toList ▸ .move he (.nil t), ihn rfl⟩
            · obtain ⟨v, u', rfl, hv, hu⟩ := ihm (.inr ht)
              exact ⟨a.toList ++ v, u', (List.append_assoc _ _ _).symm, .move he hv, hu⟩
          · rintro rfl
            exact absurd he (h.not_mem a t)
          · rintro rfl
            exact absurd he (h.not_mem_of_outside hfm hf a t)
        · refine ⟨?_, fun _ => ?_, (absurd ·.symm hfn)⟩
          · rintro (hs | hs)
            exacts [absurd hs.symm h.ne, absurd hs h.last]
          · obtain ⟨v, u', rfl, hv, hu⟩ := ihm (.inl rfl)
            rw [← Language.one_add_self_mul_kstar_eq_kstar, Language.mem_add]
            exact .inr (Language.mem_mul.2 ⟨v, (h.spells v).1 hv, u', hu, rfl⟩)
        · refine ⟨?_, fun _ => ?_, (absurd ·.symm hfn)⟩
          · rintro (hs | hs)
            exacts [absurd hs.symm h.ne, absurd hs h.last]
          · rw [ihf rfl]
            exact Language.nil_mem_kstar L
    have hbody : ∀ v ∈ L, Spells (Edges.between i m {none} ⊔ E ⊔ Edges.between n m {none} ⊔
        Edges.between n f {none}) m v n := fun v hv =>
      ((h.spells v).2 hv).mono (le_sup_right.trans (le_sup_left.trans le_sup_left))
    have hrepeat : ∀ u ∈ KStar.kstar L, Spells (Edges.between i m {none} ⊔ E ⊔
        Edges.between n m {none} ⊔ Edges.between n f {none}) n u f := by
      intro u hu
      obtain ⟨l, rfl, hl⟩ := Language.mem_kstar.1 hu
      induction l with
      | nil => exact .move (a := none) (.inr ⟨rfl, rfl, rfl⟩) (.nil f)
      | cons v l ih =>
        obtain ⟨hv, hl⟩ := List.forall_mem_cons.1 hl
        have hrest := ih hl (Language.mem_kstar.2 ⟨l, rfl, hl⟩)
        exact .move (a := none) (.inl (.inr ⟨rfl, rfl, rfl⟩)) ((hbody v hv).append hrest)
    intro w
    rw [Language.mem_mul]
    constructor
    · intro hw
      cases hw with
      | nil => exact absurd rfl hne
      | @move s t u a w he hw =>
        rcases he with ((⟨-, rfl, rfl⟩ | he) | ⟨rfl, -⟩) | ⟨rfl, -⟩
        · obtain ⟨v, u, rfl, hv, hu⟩ := (hsplit t w f hw rfl).1 (.inl rfl)
          exact ⟨v, (h.spells v).1 hv, u, hu, rfl⟩
        · exact absurd he (h.not_mem_of_outside him hi a t)
        · exact absurd rfl hin
        · exact absurd rfl hin
    · rintro ⟨v, hv, u, hu, rfl⟩
      exact .move (a := none) (.inl (.inl (.inl ⟨rfl, rfl, rfl⟩)))
        ((hbody v hv).append (hrepeat u hu))

end Fragment

end Edges

end AHPy
