import Mathlib

/-!
# Problems of generated and killed facts

A graph whose nodes generate facts and kill others. A fact *arrives* at a node along a
path from a node that generates it, if no node on the way kills it.

* `Solves.arrives`, `solves_leaving`: the facts that leave the nodes are the least
  solution of the equations;
* `Solves.joined_eq`: a solution below it is the least one;
* `arrives_image`: facts may have other names;
* `arrives_splice`: a node that neither generates nor kills may be left out.
-/

namespace AHPy

/-- Nodes with the nodes before them, and what they generate and kill. -/
structure GenKill (N D : Type*) where
  parents : N → Set N
  gen : N → Set D
  kill : N → Set D

namespace GenKill

variable {N D : Type*} (g : GenKill N D)

/-- What leaves a node. -/
def transfer (n : N) (facts : Set D) : Set D := (facts \ g.kill n) ∪ g.gen n

/-- What comes from the nodes before a node. -/
def joined (out : N → Set D) (n : N) : Set D := {d | ∃ p ∈ g.parents n, d ∈ out p}

/-- A fact comes to a node on some path. -/
inductive Arrives (d : D) : N → Prop
  | generated {p n : N} (hp : p ∈ g.parents n) (h : d ∈ g.gen p) : Arrives d n
  | passed {p n : N} (hp : p ∈ g.parents n) (h : Arrives d p) (hkill : d ∉ g.kill p) : Arrives d n

/-- The equations. -/
def Solves (out : N → Set D) : Prop := ∀ n, out n = g.transfer n (g.joined out n)

/-- What leaves a node, of the facts that arrive at it. -/
def leaving (n : N) : Set D := g.transfer n {d | g.Arrives d n}

variable {g}

theorem transfer_mono {n : N} {facts facts' : Set D} (h : facts ⊆ facts') :
    g.transfer n facts ⊆ g.transfer n facts' :=
  Set.union_subset_union_left _ (Set.sdiff_subset_sdiff_left h)

theorem joined_mono {out out' : N → Set D} (h : ∀ n, out n ⊆ out' n) (n : N) :
    g.joined out n ⊆ g.joined out' n := by
  rintro d ⟨p, hp, hd⟩
  exact ⟨p, hp, h p hd⟩

/-! ## The least solution -/

theorem joined_leaving (n : N) : g.joined g.leaving n = {d | g.Arrives d n} := by
  ext d
  constructor
  · rintro ⟨p, hp, ⟨hd, hkill⟩ | hgen⟩
    · exact .passed hp hd hkill
    · exact .generated hp hgen
  · rintro (⟨hp, hgen⟩ | ⟨hp, hd, hkill⟩)
    · exact ⟨_, hp, .inr hgen⟩
    · exact ⟨_, hp, .inl ⟨hd, hkill⟩⟩

theorem solves_leaving : g.Solves g.leaving := fun n => by rw [joined_leaving, leaving]

/-- By induction on the path. -/
theorem Solves.arrives {out : N → Set D} (h : g.Solves out) {d : D} {n : N}
    (hd : g.Arrives d n) : d ∈ g.joined out n := by
  induction hd with
  | @generated p n hp hgen =>
    refine ⟨p, hp, ?_⟩
    rw [h p]
    exact .inr hgen
  | @passed p n hp _ hkill ih =>
    refine ⟨p, hp, ?_⟩
    rw [h p]
    exact .inl ⟨ih, hkill⟩

/-- A solution that has no fact too many. -/
theorem Solves.joined_eq {out : N → Set D} (h : g.Solves out) (hle : ∀ n, out n ⊆ g.leaving n)
    (n : N) : g.joined out n = {d | g.Arrives d n} := by
  apply Set.Subset.antisymm
  · rw [← joined_leaving]
    exact joined_mono hle n
  · exact fun d hd => h.arrives hd

/-- Something generates what arrives. -/
theorem Arrives.exists_gen {d : D} {n : N} (h : g.Arrives d n) : ∃ p, d ∈ g.gen p := by
  induction h with
  | generated _ hgen => exact ⟨_, hgen⟩
  | passed _ _ _ ih => exact ih

/-! ## Changes of a problem -/

/-- The facts have other names: `f` tells those apart that are generated. -/
theorem arrives_image {D' : Type*} {g' : GenKill N D'} {f : D → D'}
    (hparents : g'.parents = g.parents) (hgen : ∀ n, g'.gen n = f '' g.gen n)
    (hkill : ∀ p d n, d ∈ g.gen p → (f d ∈ g'.kill n ↔ d ∈ g.kill n)) {d' : D'} {n : N} :
    g'.Arrives d' n ↔ ∃ d, g.Arrives d n ∧ f d = d' := by
  constructor
  · intro h
    induction h with
    | @generated p n hp h =>
      rw [hparents] at hp
      rw [hgen] at h
      obtain ⟨d, hd, rfl⟩ := h
      exact ⟨d, .generated hp hd, rfl⟩
    | @passed p n hp _ hk ih =>
      rw [hparents] at hp
      obtain ⟨d, hd, rfl⟩ := ih
      obtain ⟨q, hq⟩ := hd.exists_gen
      exact ⟨d, .passed hp hd fun h => hk ((hkill q d p hq).2 h), rfl⟩
  · rintro ⟨d, h, rfl⟩
    induction h with
    | @generated p n hp h =>
      rw [← hparents] at hp
      refine .generated hp ?_
      rw [hgen]
      exact ⟨d, h, rfl⟩
    | @passed p n hp h hk ih =>
      obtain ⟨q, hq⟩ := h.exists_gen
      rw [← hparents] at hp
      exact .passed hp ih fun h => hk ((hkill q d p hq).1 h)

/-- The problem in which only the nodes of a set come before others. -/
def restrict (g : GenKill N D) (live : Set N) : GenKill N D where
  parents := fun n => g.parents n ∩ live
  gen := g.gen
  kill := g.kill

/-- Only what the nodes before others generate and kill matters. -/
theorem arrives_congr {g' : GenKill N D} (hparents : g'.parents = g.parents)
    (hgen : ∀ n, ∀ p ∈ g.parents n, g'.gen p = g.gen p)
    (hkill : ∀ n, ∀ p ∈ g.parents n, g'.kill p = g.kill p) {d : D} {n : N} :
    g'.Arrives d n ↔ g.Arrives d n := by
  constructor
  · intro h
    induction h with
    | @generated p n hp h =>
      rw [hparents] at hp
      rw [hgen n p hp] at h
      exact .generated hp h
    | @passed p n hp _ hk ih =>
      rw [hparents] at hp
      rw [hkill n p hp] at hk
      exact .passed hp ih hk
  · intro h
    induction h with
    | @generated p n hp h =>
      rw [← hgen n p hp] at h
      rw [← hparents] at hp
      exact .generated hp h
    | @passed p n hp _ hk ih =>
      rw [← hkill n p hp] at hk
      rw [← hparents] at hp
      exact .passed hp ih hk

/-- The nodes outside of a set that holds the live ones may have any nodes before them. -/
theorem arrives_restrict {g' : GenKill N D} {live s : Set N} (hlive : live ⊆ s)
    (hparents : ∀ n ∈ s, g'.parents n = g.parents n ∩ live) (hgen : g'.gen = g.gen)
    (hkill : g'.kill = g.kill) {d : D} {n : N} (hn : n ∈ s) :
    g'.Arrives d n ↔ (g.restrict live).Arrives d n := by
  constructor
  · intro h
    induction h with
    | @generated p n hp h =>
      rw [hparents n hn] at hp
      rw [hgen] at h
      exact .generated hp h
    | @passed p n hp _ hk ih =>
      rw [hparents n hn] at hp
      rw [hkill] at hk
      exact .passed hp (ih (hlive hp.2)) hk
  · intro h
    induction h with
    | @generated p n hp h =>
      have hp' : p ∈ g'.parents n := by
        rw [hparents n hn]
        exact hp
      have h' : d ∈ g'.gen p := by
        rw [hgen]
        exact h
      exact .generated hp' h'
    | @passed p n hp _ hk ih =>
      have hp' : p ∈ g'.parents n := by
        rw [hparents n hn]
        exact hp
      have hk' : d ∉ g'.kill p := by
        rw [hkill]
        exact hk
      exact .passed hp' (ih (hlive hp.2)) hk'

/-- A node that neither generates nor kills is left out: the nodes before it come before the
    nodes after it. -/
theorem arrives_splice {g' : GenKill N D} {b : N} (hgen : g.gen b = ∅) (hkill : g.kill b = ∅)
    (hgen' : ∀ n, n ≠ b → g'.gen n = g.gen n) (hkill' : ∀ n, n ≠ b → g'.kill n = g.kill n)
    (hparents : ∀ n p, n ≠ b →
      (p ∈ g'.parents n ↔ p ≠ b ∧ (p ∈ g.parents n ∨ b ∈ g.parents n ∧ p ∈ g.parents b)))
    {d : D} {n : N} (hn : n ≠ b) : g'.Arrives d n ↔ g.Arrives d n := by
  constructor
  · intro h
    induction h with
    | @generated p n hp hd =>
      obtain ⟨hpb, hp | ⟨hb, hp⟩⟩ := (hparents n p hn).1 hp
      · rw [hgen' p hpb] at hd
        exact .generated hp hd
      · rw [hgen' p hpb] at hd
        refine .passed hb (.generated hp hd) ?_
        rw [hkill]
        exact Set.notMem_empty d
    | @passed p n hp _ hk ih =>
      obtain ⟨hpb, hp | ⟨hb, hp⟩⟩ := (hparents n p hn).1 hp
      · rw [hkill' p hpb] at hk
        exact .passed hp (ih hpb) hk
      · rw [hkill' p hpb] at hk
        refine .passed hb (.passed hp (ih hpb) hk) ?_
        rw [hkill]
        exact Set.notMem_empty d
  · intro h
    -- What is at the node that is left out will be at all the nodes after it.
    have hboth : (n ≠ b → g'.Arrives d n) ∧
        (n = b → ∀ m, m ≠ b → b ∈ g.parents m → g'.Arrives d m) := by
      clear hn
      induction h with
      | @generated p n hp hd =>
        have hpb : p ≠ b := by
          rintro rfl
          rw [hgen] at hd
          exact hd
        rw [← hgen' p hpb] at hd
        refine ⟨fun hn => .generated ((hparents n p hn).2 ⟨hpb, .inl hp⟩) hd, ?_⟩
        rintro rfl m hm hb
        exact .generated ((hparents m p hm).2 ⟨hpb, .inr ⟨hb, hp⟩⟩) hd
      | @passed p n hp _ hk ih =>
        rcases eq_or_ne p b with rfl | hpb
        · refine ⟨fun hn => ih.2 rfl n hn hp, ?_⟩
          rintro rfl m hm hb
          exact ih.2 rfl m hm hb
        · rw [← hkill' p hpb] at hk
          refine ⟨fun hn => .passed ((hparents n p hn).2 ⟨hpb, .inl hp⟩) (ih.1 hpb) hk, ?_⟩
          rintro rfl m hm hb
          exact .passed ((hparents m p hm).2 ⟨hpb, .inr ⟨hb, hp⟩⟩) (ih.1 hpb) hk
    exact hboth.1 hn

end GenKill

end AHPy
