import AHPy.MatchCase.ClassLookups

/-!
# The checks of class patterns

The code checks the sub-patterns that have a temp for their subject, keyword ones first; Python
checks all of them, positional ones first.

* `runKeywords_agrees`: the code after the positional sub-subjects are bound does what Python does
  if and only if the sub-patterns that are reached have a temp, and those of one kind have nothing
  to evaluate (`ClassMatch.InOrder`).
-/

namespace AHPy.MatchCase

namespace ClassPattern

variable {Obj ε : Type}

/-- What is compared of a match: its log and its end, up to the texts of `TypeError`s. -/
def observe (r : Log Obj × Outcome Obj (Exc Obj ε)) : Log Obj × Outcome Obj (Option ε) :=
  (r.1, r.2.map Exc.kind)

/-- Sub-patterns that are checked in Python's order: those that Python gets to have a temp, and
    those of one kind have nothing to evaluate. -/
structure ClassMatch.InOrder (m : ClassMatch Obj ε) (positional keyword : List Obj) : Prop where
  temps : ∀ before p o after,
    m.positionalPlaces.zip positional ++ m.keywordPlaces.zip keyword =
      before ++ (p, o) :: after →
    (∀ t ∈ before, t.1.2.verdict t.2 = .ok true) → p.2.evaluates = true → p.2.hasTemp = true
  kinds : (∀ p ∈ m.positional, p.evaluates = true → p.hasTemp = false) ∨
    ∀ p ∈ m.keywords, p.2.evaluates = true → p.2.hasTemp = false

/-! ## Python's checks -/

section

variable {l r : List ((Place × SubPattern Obj ε) × Obj)}

theorem pyChecks_cons_of_not_evaluates {t : (Place × SubPattern Obj ε) × Obj}
    (h : t.1.2.evaluates = false) : pyChecks (t :: l) = pyChecks l := by
  obtain ⟨⟨place, p⟩, o⟩ := t
  rw [pyChecks, if_neg (by rw [h]; exact Bool.false_ne_true)]

theorem pyChecks_cons_of_true {t : (Place × SubPattern Obj ε) × Obj}
    (h : t.1.2.evaluates = true) (hv : t.1.2.verdict t.2 = .ok true) :
    pyChecks (t :: l) = ((t.1.1, t.2) :: (pyChecks l).1, (pyChecks l).2) := by
  obtain ⟨⟨place, p⟩, o⟩ := t
  have hv : p.verdict o = .ok true := hv
  rw [pyChecks, if_pos h, hv]

theorem pyChecks_cons_of_not_true {t : (Place × SubPattern Obj ε) × Obj}
    (h : t.1.2.evaluates = true) (hv : t.1.2.verdict t.2 ≠ .ok true) :
    pyChecks (t :: l) = ([(t.1.1, t.2)], t.1.2.verdict t.2) := by
  obtain ⟨⟨place, p⟩, o⟩ := t
  rw [pyChecks, if_pos h]
  split
  next htrue => exact (hv htrue).elim
  next => rfl

/-- Sub-patterns without a temp that are not reached make no difference. -/
theorem pyChecks_filter
    (h : ∀ before p o after, l = before ++ (p, o) :: after →
      (∀ t ∈ before, t.1.2.verdict t.2 = .ok true) → p.2.evaluates = true → p.2.hasTemp = true) :
    pyChecks (l.filter fun t => t.1.2.hasTemp) = pyChecks l := by
  induction l with
  | nil => rfl
  | cons t l ih =>
    have hrest (hv : t.1.2.verdict t.2 = .ok true) :
        pyChecks (l.filter fun t => t.1.2.hasTemp) = pyChecks l :=
      ih fun before p o after heq hbefore => h (t :: before) p o after
        (by rw [heq, List.cons_append]) fun t' ht' => by
          rcases List.mem_cons.mp ht' with rfl | ht'
          · exact hv
          · exact hbefore t' ht'
    have hreached : t.1.2.evaluates = true → t.1.2.hasTemp = true :=
      h [] t.1 t.2 l rfl fun _ ht' => by cases ht'
    cases hevaluates : t.1.2.evaluates with
    | false =>
      have hv := (t.1.2.quiet hevaluates).2 t.2
      rw [pyChecks_cons_of_not_evaluates hevaluates, List.filter_cons]
      split
      next => rw [pyChecks_cons_of_not_evaluates hevaluates, hrest hv]
      next => exact hrest hv
    | true =>
      rw [List.filter_cons, if_pos (hreached hevaluates)]
      by_cases hv : t.1.2.verdict t.2 = .ok true
      · rw [pyChecks_cons_of_true hevaluates hv, pyChecks_cons_of_true hevaluates hv, hrest hv]
      · rw [pyChecks_cons_of_not_true hevaluates hv, pyChecks_cons_of_not_true hevaluates hv]

theorem pyChecks_append_left (h : ∀ t ∈ l, t.1.2.evaluates = false) :
    pyChecks (l ++ r) = pyChecks r := by
  induction l with
  | nil => rfl
  | cons t l ih =>
    rw [List.cons_append, pyChecks_cons_of_not_evaluates (h t List.mem_cons_self),
      ih fun t' ht' => h t' (List.mem_cons_of_mem t ht')]

theorem pyChecks_append_right (h : ∀ t ∈ r, t.1.2.evaluates = false) :
    pyChecks (l ++ r) = pyChecks l := by
  induction l with
  | nil =>
    rw [List.nil_append, ← List.append_nil r, pyChecks_append_left h]
  | cons t l ih =>
    rw [List.cons_append]
    cases hevaluates : t.1.2.evaluates with
    | false => rw [pyChecks_cons_of_not_evaluates hevaluates, ih,
        pyChecks_cons_of_not_evaluates hevaluates]
    | true =>
      by_cases hv : t.1.2.verdict t.2 = .ok true
      · rw [pyChecks_cons_of_true hevaluates hv, pyChecks_cons_of_true hevaluates hv, ih]
      · rw [pyChecks_cons_of_not_true hevaluates hv, pyChecks_cons_of_not_true hevaluates hv]

theorem mem_log {x : Place × Obj} (h : x ∈ (pyChecks l).1) : ∃ t ∈ l, x = (t.1.1, t.2) := by
  induction l with
  | nil => cases h
  | cons t l ih =>
    have hrest (h : x ∈ (pyChecks l).1) : ∃ t' ∈ t :: l, x = (t'.1.1, t'.2) := by
      obtain ⟨t', ht', heq⟩ := ih h
      exact ⟨t', List.mem_cons_of_mem t ht', heq⟩
    cases hevaluates : t.1.2.evaluates with
    | false => exact hrest (pyChecks_cons_of_not_evaluates hevaluates ▸ h)
    | true =>
      by_cases hv : t.1.2.verdict t.2 = .ok true
      · rw [pyChecks_cons_of_true hevaluates hv, List.mem_cons] at h
        exact h.elim (fun heq => ⟨t, List.mem_cons_self, heq⟩) hrest
      · rw [pyChecks_cons_of_not_true hevaluates hv, List.mem_singleton] at h
        exact ⟨t, List.mem_cons_self, h⟩

/-- A sub-pattern that is reached is in the log. -/
theorem mem_log_of_reached (before after : List ((Place × SubPattern Obj ε) × Obj))
    {t : (Place × SubPattern Obj ε) × Obj}
    (hbefore : ∀ t ∈ before, t.1.2.verdict t.2 = .ok true) (h : t.1.2.evaluates = true) :
    (t.1.1, t.2) ∈ (pyChecks (before ++ t :: after)).1 := by
  induction before with
  | nil =>
    rw [List.nil_append]
    by_cases hv : t.1.2.verdict t.2 = .ok true
    · rw [pyChecks_cons_of_true h hv]
      exact List.mem_cons_self
    · rw [pyChecks_cons_of_not_true h hv]
      exact List.mem_cons_self
  | cons b before ih =>
    have hrest := ih fun t' ht' => hbefore t' (List.mem_cons_of_mem b ht')
    rw [List.cons_append]
    cases hevaluates : b.1.2.evaluates with
    | false => rwa [pyChecks_cons_of_not_evaluates hevaluates]
    | true =>
      rw [pyChecks_cons_of_true hevaluates (hbefore b List.mem_cons_self)]
      exact List.mem_cons_of_mem _ hrest

/-- The log begins with a sub-pattern of the first list that has something to evaluate. -/
theorem head_log (h : ∃ t ∈ l, t.1.2.evaluates = true) :
    ∃ t ∈ l, (pyChecks (l ++ r)).1.head? = some (t.1.1, t.2) := by
  induction l with
  | nil => obtain ⟨t, ht, -⟩ := h; cases ht
  | cons t l ih =>
    rw [List.cons_append]
    cases hevaluates : t.1.2.evaluates with
    | false =>
      obtain ⟨t', ht', h'⟩ := h
      have hmem : t' ∈ l := by
        rcases List.mem_cons.mp ht' with rfl | ht'
        · rw [hevaluates] at h'; cases h'
        · exact ht'
      obtain ⟨t'', ht'', heq⟩ := ih ⟨t', hmem, h'⟩
      rw [pyChecks_cons_of_not_evaluates hevaluates]
      exact ⟨t'', List.mem_cons_of_mem t ht'', heq⟩
    | true =>
      refine ⟨t, List.mem_cons_self, ?_⟩
      by_cases hv : t.1.2.verdict t.2 = .ok true
      · rw [pyChecks_cons_of_true hevaluates hv, List.head?_cons]
      · rw [pyChecks_cons_of_not_true hevaluates hv, List.head?_cons]

/-- Checks that evaluate nothing match. -/
theorem pyChecks_eq_true (h : (pyChecks l).1 = []) : (pyChecks l).2 = .ok true := by
  induction l with
  | nil => rfl
  | cons t l ih =>
    cases hevaluates : t.1.2.evaluates with
    | false =>
      rw [pyChecks_cons_of_not_evaluates hevaluates] at h ⊢
      exact ih h
    | true =>
      have hmem := mem_log_of_reached [] l (fun _ ht => by cases ht)
        hevaluates
      rw [List.nil_append, h] at hmem
      cases hmem

@[simp] theorem observe_conclude_fst {c : Log Obj × Except ε Bool} {subjects : List Obj} :
    (observe (conclude c subjects)).1 = c.1 := by
  obtain ⟨log, v⟩ := c
  rcases v with e | b
  · rfl
  · cases b <;> rfl

/-- A match without a log is a match. -/
theorem observe_conclude_of_nil {subjects : List Obj}
    (h : (observe (conclude (pyChecks l) subjects)).1 = []) :
    observe (conclude (pyChecks l) subjects) = ([], .matched subjects) := by
  rw [observe_conclude_fst] at h
  have hv := pyChecks_eq_true h
  rw [observe, conclude, hv, h]
  rfl

/-- The end of a match tells what its checks gave. -/
theorem observe_conclude {c c' : Log Obj × Except ε Bool} {subjects : List Obj} :
    observe (conclude c subjects) = observe (conclude c' subjects) ↔ c = c' := by
  refine ⟨fun h => ?_, fun h => by rw [h]⟩
  obtain ⟨log, v⟩ := c
  obtain ⟨log', v'⟩ := c'
  rcases v with e | b <;> rcases v' with e' | b'
  · simpa [observe, conclude, Outcome.map, Exc.kind] using h
  · cases b' <;> simp [observe, conclude, Outcome.map] at h
  · cases b <;> simp [observe, conclude, Outcome.map] at h
  · cases b <;> cases b' <;> simp_all [observe, conclude, Outcome.map]

end

/-! ## The temps -/

/-- The temps of sub-patterns have their subjects. -/
inductive Binds : List (Place × SubPattern Obj ε) → List Obj → List (Option Obj) → Prop
  | nil : Binds [] [] []
  | cons {p : Place × SubPattern Obj ε} {ps : List (Place × SubPattern Obj ε)} {o : Obj}
      {os : List Obj} {t : Option Obj} {ts : List (Option Obj)}
      (h : p.2.hasTemp = true → t = some o) (hs : Binds ps os ts) :
      Binds (p :: ps) (o :: os) (t :: ts)

theorem SubPattern.hasTemp_of_hasTargets {p : SubPattern Obj ε} (h : p.hasTargets = true) :
    p.hasTemp = true := by
  rw [hasTemp, h]
  rfl

theorem runChecks_some (l : List ((Place × SubPattern Obj ε) × Obj)) :
    runChecks (l.map fun t => (t.1, some t.2)) = some (pyChecks l) := by
  induction l with
  | nil => rfl
  | cons t l ih =>
    obtain ⟨⟨place, p⟩, o⟩ := t
    rw [List.map_cons, runChecks, pyChecks]
    split
    next =>
      simp only [ih]
      rcases p.verdict o with e | b
      · rfl
      · cases b <;> rfl
    next => exact ih

namespace Binds

variable {ps qs : List (Place × SubPattern Obj ε)} {os us : List Obj} {ts ws : List (Option Obj)}

theorem lengths (h : Binds ps os ts) : ps.length = os.length ∧ ps.length = ts.length := by
  induction h with
  | nil => exact ⟨rfl, rfl⟩
  | cons _ _ ih => exact ⟨congrArg _ ih.1, congrArg _ ih.2⟩

theorem append (h : Binds ps os ts) (h' : Binds qs us ws) :
    Binds (ps ++ qs) (os ++ us) (ts ++ ws) := by
  induction h with
  | nil => exact h'
  | cons ht _ ih => exact .cons ht ih

theorem of_some (h : ps.length = os.length) : Binds ps os (os.map some) := by
  induction ps generalizing os with
  | nil =>
    cases os with
    | nil => exact .nil
    | cons o os => cases h
  | cons p ps ih =>
    cases os with
    | nil => cases h
    | cons o os => exact .cons (fun _ => rfl) (ih (Nat.succ.inj h))

theorem of_wanted (h : ps.length = os.length) :
    Binds ps os (List.zipWith wanted (ps.map fun p => p.2.hasTemp) os) := by
  induction ps generalizing os with
  | nil =>
    cases os with
    | nil => exact .nil
    | cons o os => cases h
  | cons p ps ih =>
    cases os with
    | nil => cases h
    | cons o os => exact .cons (fun htemp => if_pos htemp) (ih (Nat.succ.inj h))

theorem wanted_isSome (h : Binds ps os ts) :
    List.Forall₂ (fun wanted (t : Option Obj) => wanted = true → t.isSome = true)
      (ps.map fun p => p.2.hasTemp) ts := by
  induction h with
  | nil => exact .nil
  | cons ht _ ih => exact .cons (fun htemp => by rw [ht htemp]; rfl) ih

theorem filter_hasTemp (h : Binds ps os ts) : ((ps.zip ts).filter fun t => t.1.2.hasTemp) =
    ((ps.zip os).filter fun t => t.1.2.hasTemp).map fun t => (t.1, some t.2) := by
  induction h with
  | nil => rfl
  | @cons p ps o os t ts ht _ ih =>
    rw [List.zip_cons_cons, List.zip_cons_cons, List.filter_cons, List.filter_cons]
    by_cases htemp : p.2.hasTemp = true
    · rw [if_pos htemp, if_pos htemp, ih, ht htemp, List.map_cons]
    · rw [if_neg htemp, if_neg htemp, ih]

theorem assignTargets (h : Binds ps os ts) : assignTargets (ps.zip ts) =
    some (((ps.zip os).filter fun t => t.1.2.hasTargets).map Prod.snd) := by
  induction h with
  | nil => rfl
  | @cons p ps o os t ts ht _ ih =>
    rw [ClassPattern.assignTargets] at ih ⊢
    rw [List.zip_cons_cons, List.zip_cons_cons, List.filter_cons, List.filter_cons]
    by_cases htargets : p.2.hasTargets = true
    · rw [if_pos htargets, if_pos htargets, List.mapM_cons, ih,
        ht (SubPattern.hasTemp_of_hasTargets htargets)]
      rfl
    · rw [if_neg htargets, if_neg htargets, ih]

end Binds

namespace ClassMatch

variable {m : ClassMatch Obj ε} {positional keyword : List Obj}

theorem length_positionalPlaces : m.positionalPlaces.length = m.positional.length :=
  List.length_mapIdx

theorem length_keywordPlaces : m.keywordPlaces.length = m.keywordItems.length := by
  rw [keywordPlaces, List.length_mapIdx, keywordItems, keywordNames, List.length_map,
    List.length_map, List.length_map]

theorem exists_positional {p : Place × SubPattern Obj ε} (h : p ∈ m.positionalPlaces) :
    ∃ i, p.1 = .positional i ∧ m.positional[i]? = some p.2 := by
  obtain ⟨i, hi, rfl⟩ := List.mem_mapIdx.mp h
  exact ⟨i, rfl, List.getElem?_eq_getElem hi⟩

theorem exists_keyword {p : Place × SubPattern Obj ε} (h : p ∈ m.keywordPlaces) :
    ∃ i, p.1 = .keyword i ∧ (m.keywords.map Prod.snd)[i]? = some p.2 := by
  obtain ⟨i, hi, rfl⟩ := List.mem_mapIdx.mp h
  exact ⟨i, rfl, List.getElem?_eq_getElem hi⟩

/-- A place belongs to one sub-pattern. -/
theorem place_unique {p q : Place × SubPattern Obj ε}
    (hp : p ∈ m.positionalPlaces ∨ p ∈ m.keywordPlaces)
    (hq : q ∈ m.positionalPlaces ∨ q ∈ m.keywordPlaces) (h : p.1 = q.1) : p.2 = q.2 := by
  rcases hp with hp | hp <;> rcases hq with hq | hq
  · obtain ⟨i, hi, hp⟩ := exists_positional hp
    obtain ⟨j, hj, hq⟩ := exists_positional hq
    rw [hi, hj, Place.positional.injEq] at h
    exact Option.some.inj (hp.symm.trans (h ▸ hq))
  · obtain ⟨i, hi, -⟩ := exists_positional hp
    obtain ⟨j, hj, -⟩ := exists_keyword hq
    rw [hi, hj] at h
    cases h
  · obtain ⟨i, hi, -⟩ := exists_keyword hp
    obtain ⟨j, hj, -⟩ := exists_positional hq
    rw [hi, hj] at h
    cases h
  · obtain ⟨i, hi, hp⟩ := exists_keyword hp
    obtain ⟨j, hj, hq⟩ := exists_keyword hq
    rw [hi, hj, Place.keyword.injEq] at h
    exact Option.some.inj (hp.symm.trans (h ▸ hq))

theorem mem_zip {α β : Type} {l : List α} {l' : List β} {a : α} (h : l.length = l'.length)
    (ha : a ∈ l) : ∃ b, (a, b) ∈ l.zip l' := by
  have hmap : (l.zip l').map Prod.fst = l := List.map_fst_zip h.le
  rw [← hmap] at ha
  obtain ⟨⟨a', b⟩, hmem, rfl⟩ := List.mem_map.mp ha
  exact ⟨b, hmem⟩

/-- The checks give the same in both orders if and only if the order does not show. -/
theorem pyChecks_inOrder (hp : m.positionalPlaces.length = positional.length)
    (hk : m.keywordPlaces.length = keyword.length) :
    pyChecks ((m.keywordPlaces.zip keyword ++ m.positionalPlaces.zip positional).filter
        fun t => t.1.2.hasTemp) =
      pyChecks (m.positionalPlaces.zip positional ++ m.keywordPlaces.zip keyword) ↔
    m.InOrder positional keyword := by
  constructor
  · intro h
    refine ⟨fun before p o after heq hbefore hevaluates => ?_, ?_⟩
    · have hlog := mem_log_of_reached before after (t := (p, o)) hbefore hevaluates
      rw [← heq, ← h] at hlog
      obtain ⟨t, ht, hplace⟩ := mem_log hlog
      obtain ⟨hmem, htemp⟩ := List.mem_filter.mp ht
      have hp : (p, o) ∈ m.positionalPlaces.zip positional ++ m.keywordPlaces.zip keyword :=
        heq ▸ List.mem_append_right before List.mem_cons_self
      have hunique : p.2 = t.1.2 := place_unique
        ((List.mem_append.mp hp).imp (fun h => (List.of_mem_zip h).1)
          fun h => (List.of_mem_zip h).1)
        ((List.mem_append.mp hmem).symm.imp (fun h => (List.of_mem_zip h).1)
          fun h => (List.of_mem_zip h).1) (Prod.ext_iff.mp hplace).1
      rwa [hunique]
    · -- Otherwise the logs begin with sub-patterns of different kinds.
      by_contra hkinds
      push Not at hkinds
      obtain ⟨⟨p, hpos, hpe, hpt⟩, q, hkey, hqe, hqt⟩ := hkinds
      obtain ⟨i, hi, hpi⟩ := List.getElem_of_mem hpos
      have hpplace : (Place.positional i, p) ∈ m.positionalPlaces :=
        List.mem_mapIdx.mpr ⟨i, hi, by rw [hpi]⟩
      obtain ⟨j, hj, hqj⟩ := List.getElem_of_mem (List.mem_map_of_mem (f := Prod.snd) hkey)
      have hqplace : (Place.keyword j, q.2) ∈ m.keywordPlaces :=
        List.mem_mapIdx.mpr ⟨j, hj, by rw [hqj]⟩
      obtain ⟨o, ho⟩ := mem_zip hp hpplace
      obtain ⟨u, hu⟩ := mem_zip hk hqplace
      obtain ⟨t, ht, hhead⟩ := head_log (r := m.keywordPlaces.zip keyword) ⟨_, ho, hpe⟩
      have htemp : q.2.hasTemp = true := (Bool.not_eq_false _).mp hqt
      obtain ⟨t', ht', hhead'⟩ := head_log
        (l := (m.keywordPlaces.zip keyword).filter fun t => t.1.2.hasTemp)
        (r := (m.positionalPlaces.zip positional).filter fun t => t.1.2.hasTemp)
        ⟨_, List.mem_filter.mpr ⟨hu, htemp⟩, hqe⟩
      rw [← h, List.filter_append, hhead', Option.some_inj] at hhead
      obtain ⟨i, hi, -⟩ := exists_positional (List.of_mem_zip ht).1
      obtain ⟨j, hj, -⟩ := exists_keyword (List.of_mem_zip (List.mem_filter.mp ht').1).1
      rw [hi, hj] at hhead
      cases hhead
  · rintro ⟨htemps, hkinds⟩
    rw [← pyChecks_filter htemps, List.filter_append, List.filter_append]
    rcases hkinds with hkinds | hkinds
    · have hnone : ∀ t ∈ (m.positionalPlaces.zip positional).filter fun t => t.1.2.hasTemp,
          t.1.2.evaluates = false := by
        intro t ht
        obtain ⟨hmem, htemp⟩ := List.mem_filter.mp ht
        obtain ⟨i, -, hi⟩ := exists_positional (List.of_mem_zip hmem).1
        refine Bool.not_eq_true _ ▸ fun he => ?_
        rw [hkinds _ (List.mem_of_getElem? hi) he] at htemp
        cases htemp
      rw [pyChecks_append_left hnone, pyChecks_append_right hnone]
    · have hnone : ∀ t ∈ (m.keywordPlaces.zip keyword).filter fun t => t.1.2.hasTemp,
          t.1.2.evaluates = false := by
        intro t ht
        obtain ⟨hmem, htemp⟩ := List.mem_filter.mp ht
        obtain ⟨i, -, hi⟩ := exists_keyword (List.of_mem_zip hmem).1
        obtain ⟨q, hq, heq⟩ := List.mem_map.mp (List.mem_of_getElem? hi)
        refine Bool.not_eq_true _ ▸ fun he => ?_
        rw [← heq, hkinds q hq (heq ▸ he)] at htemp
        cases htemp
      rw [pyChecks_append_left hnone, pyChecks_append_right hnone]

theorem keywordLookups_eq (names : List Name) :
    m.keywordLookups names = itemLookups m.getAttr (names.map .str) := by
  induction names with
  | nil => rfl
  | cons name names ih =>
    cases hget : m.getAttr name <;>
      simp only [keywordLookups, List.map_cons, itemLookups, ih, hget]

theorem places_zip (hp : m.positionalPlaces.length = positional.length) :
    m.places.zip (positional ++ keyword) =
      m.positionalPlaces.zip positional ++ m.keywordPlaces.zip keyword :=
  List.zip_append hp

/-- The checks of the code, and the targets of Python. -/
theorem runKeywords_found {temps : List (Option Obj)}
    (h : Binds m.positionalPlaces positional temps)
    (hfound : Found m.getAttr m.keywordItems keyword) :
    m.runKeywords temps = some (conclude
      (pyChecks ((m.keywordPlaces.zip keyword ++ m.positionalPlaces.zip positional).filter
        fun t => t.1.2.hasTemp))
      (((m.places.zip (positional ++ keyword)).filter fun t => t.1.2.hasTargets).map
        Prod.snd)) := by
  have hlookups : m.keywordLookups m.keywordNames = .ok (some keyword) := by
    rw [keywordLookups_eq]
    exact itemLookups_eq_some.mpr hfound
  have hkeyword : Binds m.keywordPlaces keyword (keyword.map some) :=
    .of_some (length_keywordPlaces.trans hfound.length_eq)
  have hchecks : m.subpatternChecks temps (keyword.map some) =
      ((m.keywordPlaces.zip keyword ++ m.positionalPlaces.zip positional).filter
        fun t => t.1.2.hasTemp).map fun t => (t.1, some t.2) := by
    rw [subpatternChecks, List.filter_append, h.filter_hasTemp, hkeyword.filter_hasTemp,
      List.filter_append, List.map_append]
  have htargets := (h.append hkeyword).assignTargets
  rw [List.zip_append h.lengths.2] at htargets
  rw [runKeywords, hlookups]
  simp only [hchecks, runChecks_some, ClassMatch.temps, htargets, places]
  generalize pyChecks _ = checked
  obtain ⟨log, v⟩ := checked
  rcases v with e | b
  · rfl
  · cases b <;> rfl

/-- The code after the positional sub-subjects are bound agrees with Python if and only if the
    order of the checks does not show. -/
theorem runKeywords_agrees {temps : List (Option Obj)}
    (h : Binds m.positionalPlaces positional temps) :
    (m.runKeywords temps).map observe = some (observe (m.pyConclude
        ((itemLookups m.getAttr m.keywordItems).map (Option.map (positional ++ ·))))) ↔
      ∀ keyword, Found m.getAttr m.keywordItems keyword → m.InOrder positional keyword := by
  have hlookups : m.keywordLookups m.keywordNames = itemLookups m.getAttr m.keywordItems :=
    keywordLookups_eq _
  cases hitems : itemLookups m.getAttr m.keywordItems with
  | error x =>
    refine iff_of_true ?_ fun keyword hfound => ?_
    · rw [runKeywords, hlookups, hitems]
      rfl
    · rw [itemLookups_eq_some.mpr hfound] at hitems
      cases hitems
  | ok r =>
    cases r with
    | none =>
      refine iff_of_true ?_ fun keyword hfound => ?_
      · rw [runKeywords, hlookups, hitems]
        rfl
      · rw [itemLookups_eq_some.mpr hfound] at hitems
        cases hitems
    | some keyword =>
      have hfound := itemLookups_eq_some.mp hitems
      have hp := h.lengths.1
      have hk := length_keywordPlaces.trans hfound.length_eq
      have honly : (∀ k, Found m.getAttr m.keywordItems k → m.InOrder positional k) ↔
          m.InOrder positional keyword := by
        refine ⟨fun hall => hall keyword hfound, fun hone k hk => ?_⟩
        rw [itemLookups_eq_some.mpr hk] at hitems
        cases hitems
        exact hone
      rw [honly, ← pyChecks_inOrder hp hk, runKeywords_found h hfound, Option.map_some,
        Option.some_inj, ← places_zip hp]
      exact observe_conclude

end ClassMatch

end ClassPattern

end AHPy.MatchCase
