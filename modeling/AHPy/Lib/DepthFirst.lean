import Mathlib

/-!
# Depth-first search

The postorder of a depth-first search in an acyclic graph, from several roots one after
another.

* `Dag.dfs`, `Dag.search`: the search from a vertex, and from a list of roots;
* `Dag.search_extends`: each vertex comes after its successors, and no vertex comes twice;
* `Dag.mem_search`: what is found are the vertices below the roots;
* `Dag.pair_search`: what is below some first roots comes before what is not.
-/

namespace AHPy

/-- A list without duplicates has two of its members in one order. -/
theorem pair_asymm {α : Type} {l : List α} (hl : l.Nodup) {a b : α} (h : [a, b].Sublist l) :
    ¬ [b, a].Sublist l := by
  induction l with
  | nil => cases h
  | cons c l ih =>
    obtain ⟨hc, hl⟩ := List.nodup_cons.1 hl
    rw [List.sublist_cons_iff] at h ⊢
    rintro h'
    rcases h with h | ⟨r, hr, h⟩ <;> rcases h' with h' | ⟨r', hr', h'⟩
    · exact ih hl h h'
    · obtain ⟨rfl, rfl⟩ := List.cons.inj hr'
      exact hc (h.subset (List.mem_cons_of_mem a List.mem_cons_self))
    · obtain ⟨rfl, rfl⟩ := List.cons.inj hr
      exact hc (h'.subset (List.mem_cons_of_mem b List.mem_cons_self))
    · obtain ⟨rfl, rfl⟩ := List.cons.inj hr
      obtain ⟨rfl, rfl⟩ := List.cons.inj hr'
      exact hc (h'.subset List.mem_cons_self)

/-- An acyclic graph: the rank decreases along its edges. -/
structure Dag (V : Type) where
  successors : V → List V
  rank : V → ℕ
  decreasing : ∀ u, ∀ v ∈ successors u, rank v < rank u

/-- The vertices that were seen, and those whose visit has ended. -/
structure Visit (V : Type) where
  seen : List V
  result : List V

namespace Dag

/-! ## Orders of visits -/

variable {V : Type} (g : Dag V)

/-- The vertices below a vertex, itself among them. -/
def Below (u v : V) : Prop := Relation.ReflTransGen (fun a b => b ∈ g.successors a) u v

theorem rank_le_of_below {u v : V} (h : g.Below u v) : g.rank v ≤ g.rank u := by
  induction h with
  | refl => exact le_rfl
  | tail _ hstep ih => exact (g.decreasing _ _ hstep).le.trans ih

/-- The successors of each vertex of the list are vertices of `p` or earlier ones. -/
def Closed (p : V → Prop) : List V → Prop
  | [] => True
  | u :: l => (∀ v ∈ g.successors u, p v) ∧ Closed (fun v => p v ∨ v = u) l

variable {g}

theorem Closed.imp {p q : V → Prop} {l : List V} (h : g.Closed p l) (hpq : ∀ v, p v → q v) :
    g.Closed q l := by
  induction l generalizing p q with
  | nil => trivial
  | cons u l ih =>
    exact ⟨fun v hv => hpq v (h.1 v hv), ih h.2 fun v hv => hv.imp_left (hpq v)⟩

theorem Closed.append {p : V → Prop} {l l' : List V} (h : g.Closed p l)
    (h' : g.Closed (fun v => p v ∨ v ∈ l) l') : g.Closed p (l ++ l') := by
  induction l generalizing p with
  | nil => exact h'.imp fun v hv => hv.resolve_right List.not_mem_nil
  | cons u l ih =>
    refine ⟨h.1, ih h.2 (h'.imp fun v hv => ?_)⟩
    rw [List.mem_cons, ← or_assoc] at hv
    exact hv

/-- A vertex that is no successor does not matter. -/
theorem Closed.forget {p : V → Prop} {l : List V} {w : V}
    (h : g.Closed (fun v => p v ∨ v = w) l) (hw : ∀ u ∈ l, w ∉ g.successors u) :
    g.Closed p l := by
  induction l generalizing p with
  | nil => trivial
  | cons u l ih =>
    refine ⟨fun v hv => (h.1 v hv).resolve_right fun hvw => ?_, ih (h.2.imp fun v hv => ?_) ?_⟩
    · exact hw u List.mem_cons_self (hvw ▸ hv)
    · exact or_right_comm.1 hv
    · exact fun u' hu' => hw u' (List.mem_cons_of_mem u hu')

/-- A closed list has the successors of its vertices before them. -/
theorem Closed.pair {p : V → Prop} {l : List V} (h : g.Closed p l) {u v : V} (hu : u ∈ l)
    (hv : v ∈ g.successors u) : p v ∨ [v, u].Sublist l := by
  induction l generalizing p with
  | nil => cases hu
  | cons w l ih =>
    rcases List.mem_cons.1 hu with rfl | hmem
    · exact .inl (h.1 v hv)
    · rcases ih h.2 hmem with (hp | rfl) | hpair
      · exact .inl hp
      · exact .inr (.cons_cons v (List.singleton_sublist.2 hmem))
      · exact .inr (.cons w hpair)

/-- The vertices `post` were visited on the way from `s` to `s'`. -/
structure Extends (g : Dag V) (s s' : Visit V) (post : List V) : Prop where
  result : s'.result = s.result ++ post
  seen : ∀ v, v ∈ s'.seen ↔ v ∈ s.seen ∨ v ∈ post
  nodup : post.Nodup
  fresh : ∀ v ∈ post, v ∉ s.seen
  closed : g.Closed (· ∈ s.seen) post

theorem Extends.refl (s : Visit V) : g.Extends s s [] where
  result := (List.append_nil _).symm
  seen v := by simp
  nodup := List.nodup_nil
  fresh v hv := absurd hv List.not_mem_nil
  closed := trivial

theorem Extends.trans {s s' s'' : Visit V} {post post' : List V} (h : g.Extends s s' post)
    (h' : g.Extends s' s'' post') : g.Extends s s'' (post ++ post') where
  result := by rw [h'.result, h.result, List.append_assoc]
  seen v := by rw [h'.seen, h.seen, List.mem_append, or_assoc]
  nodup := by
    refine h.nodup.append h'.nodup fun v hv hv' => ?_
    exact h'.fresh v hv' ((h.seen v).2 (.inr hv))
  fresh v hv hseen := by
    rcases List.mem_append.1 hv with hv | hv
    · exact h.fresh v hv hseen
    · exact h'.fresh v hv ((h.seen v).2 (.inl hseen))
  closed := h.closed.append (h'.closed.imp fun v hv => (h.seen v).1 hv)

/-! ## The search -/

variable [DecidableEq V] (g)

/-- The visit of a vertex and of what is below it. -/
def dfs (u : V) (s : Visit V) : Visit V :=
  if u ∈ s.seen then s
  else
    let s' := (g.successors u).attach.foldl (fun s v => dfs v.1 s) ⟨u :: s.seen, s.result⟩
    ⟨s'.seen, s'.result ++ [u]⟩
termination_by g.rank u
decreasing_by exact g.decreasing u v.1 v.2

/-- The visits of some vertices. -/
def visits (roots : List V) (s : Visit V) : Visit V := roots.foldl (fun s u => g.dfs u s) s

/-- The search from some roots. -/
def search (roots : List V) : Visit V := g.visits roots ⟨[], []⟩

theorem dfs_of_mem {u : V} {s : Visit V} (h : u ∈ s.seen) : g.dfs u s = s := by
  rw [dfs, if_pos h]

theorem dfs_of_notMem {u : V} {s : Visit V} (h : u ∉ s.seen) :
    g.dfs u s = ⟨(g.visits (g.successors u) ⟨u :: s.seen, s.result⟩).seen,
      (g.visits (g.successors u) ⟨u :: s.seen, s.result⟩).result ++ [u]⟩ := by
  rw [dfs, if_neg h, visits, ← List.foldl_attach (l := g.successors u)]

theorem visits_append (roots roots' : List V) (s : Visit V) :
    g.visits (roots ++ roots') s = g.visits roots' (g.visits roots s) :=
  List.foldl_append

variable {g}

/-- What a search from some roots does, if the search from each one does it. -/
theorem visits_spec {roots : List V} (h : ∀ u ∈ roots, ∀ s, ∃ post,
    g.Extends s (g.dfs u s) post ∧ u ∈ (g.dfs u s).seen ∧ ∀ v ∈ post, g.Below u v) (s : Visit V) :
    ∃ post, g.Extends s (g.visits roots s) post ∧
      (∀ u ∈ roots, u ∈ (g.visits roots s).seen) ∧ ∀ v ∈ post, ∃ u ∈ roots, g.Below u v := by
  induction roots generalizing s with
  | nil => exact ⟨[], .refl s, fun u hu => absurd hu List.not_mem_nil,
      fun v hv => absurd hv List.not_mem_nil⟩
  | cons u roots ih =>
    obtain ⟨post, hpost, hu, hbelow⟩ := h u List.mem_cons_self s
    obtain ⟨post', hpost', hroots, hbelow'⟩ :=
      ih (fun v hv => h v (List.mem_cons_of_mem u hv)) (g.dfs u s)
    refine ⟨post ++ post', hpost.trans hpost', fun v hv => ?_, fun v hv => ?_⟩
    · rcases List.mem_cons.1 hv with rfl | hv
      · exact (hpost'.seen v).2 (.inl hu)
      · exact hroots v hv
    · rcases List.mem_append.1 hv with hv | hv
      · exact ⟨u, List.mem_cons_self, hbelow v hv⟩
      · obtain ⟨w, hw, hwv⟩ := hbelow' v hv
        exact ⟨w, List.mem_cons_of_mem u hw, hwv⟩

/-- The visit of a vertex. -/
theorem dfs_spec (u : V) (s : Visit V) : ∃ post, g.Extends s (g.dfs u s) post ∧
    u ∈ (g.dfs u s).seen ∧ ∀ v ∈ post, g.Below u v := by
  induction hn : g.rank u using Nat.strong_induction_on generalizing u s with
  | _ n ih =>
    subst hn
    by_cases hu : u ∈ s.seen
    · rw [dfs_of_mem g hu]
      exact ⟨[], .refl s, hu, fun v hv => absurd hv List.not_mem_nil⟩
    obtain ⟨post, hpost, hsuccessors, hbelow⟩ := visits_spec
      (fun v hv s => ih (g.rank v) (g.decreasing u v hv) v s rfl) ⟨u :: s.seen, s.result⟩
    have hfar : ∀ v ∈ post, g.rank v < g.rank u := by
      intro v hv
      obtain ⟨w, hw, hwv⟩ := hbelow v hv
      exact (g.rank_le_of_below hwv).trans_lt (g.decreasing u w hw)
    rw [dfs_of_notMem g hu]
    refine ⟨post ++ [u], ⟨?_, fun v => ?_, ?_, fun v hv => ?_, ?_⟩, ?_, fun v hv => ?_⟩
    · rw [hpost.result, List.append_assoc]
    · rw [hpost.seen, List.mem_cons, List.mem_append, List.mem_singleton]
      tauto
    · rw [List.nodup_append_comm, List.singleton_append, List.nodup_cons]
      exact ⟨fun hmem => (hfar u hmem).false, hpost.nodup⟩
    · rcases List.mem_append.1 hv with hv | hv
      · exact fun hseen => hpost.fresh v hv (List.mem_cons_of_mem u hseen)
      · rwa [List.mem_singleton.1 hv]
    · have hclosed : g.Closed (· ∈ s.seen) post := by
        refine Closed.forget (w := u) (hpost.closed.imp fun v hv => ?_) fun v hv hmem => ?_
        · rw [List.mem_cons] at hv
          exact hv.symm
        · exact (hfar v hv).asymm (g.decreasing v u hmem)
      refine hclosed.append ⟨fun v hv => ?_, trivial⟩
      have hseen := hsuccessors v hv
      rw [hpost.seen, List.mem_cons] at hseen
      rcases hseen with (rfl | hseen) | hseen
      · exact absurd (g.decreasing v v hv) (lt_irrefl _)
      · exact .inl hseen
      · exact .inr hseen
    · exact (hpost.seen u).2 (.inl List.mem_cons_self)
    · rcases List.mem_append.1 hv with hv | hv
      · obtain ⟨w, hw, hwv⟩ := hbelow v hv
        exact .head hw hwv
      · rw [List.mem_singleton.1 hv]
        exact .refl

variable (g) in
/-- The search visits what it finds once, after what is below it. -/
theorem search_spec (roots : List V) :
    g.Extends ⟨[], []⟩ (g.search roots) (g.search roots).result ∧
      ∀ v, v ∈ (g.search roots).result ↔ ∃ u ∈ roots, g.Below u v := by
  obtain ⟨post, hpost, hroots, hbelow⟩ := visits_spec
    (fun u (_ : u ∈ roots) s => dfs_spec u s) (⟨[], []⟩ : Visit V)
  have hresult : (g.search roots).result = post := hpost.result
  rw [hresult]
  refine ⟨hpost, fun v => ⟨hbelow v, ?_⟩⟩
  rintro ⟨u, hu, huv⟩
  induction huv with
  | refl => simpa using (hpost.seen u).1 (hroots u hu)
  | tail _ hstep ih =>
    rcases hpost.closed.pair ih hstep with hseen | hpair
    · cases hseen
    · exact hpair.subset List.mem_cons_self

theorem search_nodup (roots : List V) : (g.search roots).result.Nodup :=
  (g.search_spec roots).1.nodup

theorem mem_search {roots : List V} {v : V} :
    v ∈ (g.search roots).result ↔ ∃ u ∈ roots, g.Below u v :=
  (g.search_spec roots).2 v

/-- A vertex is found after its successors. -/
theorem pair_of_successor {roots : List V} {u v : V} (hu : u ∈ (g.search roots).result)
    (hv : v ∈ g.successors u) : [v, u].Sublist (g.search roots).result := by
  rcases (g.search_spec roots).1.closed.pair hu hv with hseen | hpair
  · cases hseen
  · exact hpair

/-- What is below some first roots is found before what is not. -/
theorem pair_of_first_roots {roots roots' : List V} {u v : V}
    (hu : u ∈ (g.search roots).result) (hv : v ∉ (g.search roots).result)
    (hv' : v ∈ (g.search (roots ++ roots')).result) :
    [u, v].Sublist (g.search (roots ++ roots')).result := by
  obtain ⟨post, hpost, -⟩ := visits_spec
    (fun u (_ : u ∈ roots') s => dfs_spec u s) (g.search roots)
  have hresult : (g.search (roots ++ roots')).result = (g.search roots).result ++ post := by
    rw [← hpost.result, search, visits_append]
    rfl
  rw [hresult] at hv' ⊢
  have hpost' := (List.mem_append.1 hv').resolve_left hv
  exact (List.singleton_sublist.2 hu).append (List.singleton_sublist.2 hpost')

end Dag

end AHPy
