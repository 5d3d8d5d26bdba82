import AHPy.Lib.OrderedDict

/-!
# Transitive merges

`DependencyTree.transitive_merge` of `Dependencies.py`: what is extracted from a
node, merged with what its `cimport`s lead to. The results are cached, except
for nodes inside of a loop that is still open. `extract` and `merge` may change
a state, where the extracted objects live.

* `transitiveMergeHelper`, `runQueries`: the function, and queries that share a
  cache;
* `Laws`: what is needed of `extract` and `merge`, whatever order they are
  called in: what an object stands for is a set of nodes;
* `transitiveMergeHelper_spec`: a search returns an object that stands for nodes
  it has explored, which are closed up to open nodes (`Explored`);
* `runQueries_spec`: every query returns an object that stands for the nodes
  that are reachable, and it stays as it is.
-/

namespace AHPy.Dependencies

variable {Node σ δ : Type} [DecidableEq Node]

/-- `extract` and `merge`, on a state. -/
structure Extraction (Node σ δ : Type) where
  extract : Node → σ → δ × σ
  merge : δ → δ → σ → δ × σ

/-- `seen`, and the state. -/
structure Cache (Node σ δ : Type) where
  seen : OrderedDict Node δ
  state : σ

/-- `deps` and `loop` -/
structure Found (Node δ : Type) where
  deps : δ
  loop : Option Node

/-- The loop that goes back further; a node that is not in the stack is a `KeyError`. -/
def updateLoop (stack : OrderedDict Node Nat) (loop subLoop : Option Node) :
    Option (Option Node) :=
  match subLoop with
  | none => some loop
  | some s =>
    match loop with
    | none => some (some s)
    | some l => do
      let i ← stack.get? l
      let j ← stack.get? s
      if i < j then some (some l) else some (some s)

/-- The loop over the outgoing nodes, which are searched by `visit`. -/
def mergeOutgoing (x : Extraction Node σ δ)
    (visit : Node → Cache Node σ δ → Option (Found Node δ × Cache Node σ δ))
    (stack : OrderedDict Node Nat) :
    List Node → Found Node δ → Cache Node σ δ → Option (Found Node δ × Cache Node σ δ)
  | [], found, c => some (found, c)
  | next :: rest, found, c => do
    let (sub, c) ← visit next c
    let loop ← updateLoop stack found.loop sub.loop
    let (deps, state) := x.merge found.deps sub.deps c.state
    mergeOutgoing x visit stack rest ⟨deps, loop⟩ { c with state := state }

/-- The end of `transitive_merge_helper`: what is not in a loop is cached. -/
def finishNode (node : Node) (found : Found Node δ) (c : Cache Node σ δ) :
    Found Node δ × Cache Node σ δ :=
  let loop := if found.loop = some node then none else found.loop
  (⟨found.deps, loop⟩,
    if loop = none then { c with seen := c.seen.set node found.deps } else c)

/-- `transitive_merge_helper`; the entry in the stack ends with the call. -/
def transitiveMergeHelper (x : Extraction Node σ δ) (outgoing : Node → List Node) :
    Nat → Node → OrderedDict Node Nat → Cache Node σ δ → Option (Found Node δ × Cache Node σ δ)
  | 0, _, _, _ => none
  | fuel + 1, node, stack, c =>
    match c.seen.get? node with
    | some deps => some (⟨deps, none⟩, c)
    | none =>
      let (deps, state) := x.extract node c.state
      let c := { c with state := state }
      if node ∈ stack then some (⟨deps, some node⟩, c)
      else do
        let stack := stack.set node stack.entries.length
        let (found, c) ← mergeOutgoing x
          (fun next c => transitiveMergeHelper x outgoing fuel next stack c) stack
          (outgoing node) ⟨deps, none⟩ c
        some (finishNode node found c)

/-- `transitive_merge`, with the `seen` of its `extract` and `merge` -/
def transitiveMerge (x : Extraction Node σ δ) (outgoing : Node → List Node) (fuel : Nat)
    (node : Node) (c : Cache Node σ δ) : Option (δ × Cache Node σ δ) :=
  (transitiveMergeHelper x outgoing fuel node .empty c).map fun r => (r.1.deps, r.2)

/-- Queries one after another: each result, and the state right after the query. -/
def runQueries (x : Extraction Node σ δ) (outgoing : Node → List Node) (fuel : Nat) :
    List Node → Cache Node σ δ → Option (List (δ × σ) × Cache Node σ δ)
  | [], c => some ([], c)
  | node :: nodes, c => do
    let (deps, c) ← transitiveMerge x outgoing fuel node c
    let state := c.state
    let (results, c) ← runQueries x outgoing fuel nodes c
    some ((deps, state) :: results, c)

/-! ## Laws -/

/-- The nodes that are reachable from a node, itself included. -/
def reach (outgoing : Node → List Node) (node : Node) : Set Node :=
  {m | Relation.ReflTransGen (fun a b => b ∈ outgoing a) node m}

omit [DecidableEq Node] in
theorem mem_reach_self (outgoing : Node → List Node) (node : Node) : node ∈ reach outgoing node :=
  Relation.ReflTransGen.refl

omit [DecidableEq Node] in
theorem reach_subset {outgoing : Node → List Node} {node next : Node} (h : next ∈ outgoing node) :
    reach outgoing next ⊆ reach outgoing node := fun _ hm => hm.head h

omit [DecidableEq Node] in
/-- A set of nodes that is closed has all nodes that are reachable from it. -/
theorem reach_subset_of_closed {outgoing : Node → List Node} {s : Set Node} {node : Node}
    (hnode : node ∈ s) (h : ∀ m ∈ s, ∀ next ∈ outgoing m, next ∈ s) :
    reach outgoing node ⊆ s := by
  intro m hm
  induction hm with
  | refl => exact hnode
  | tail _ hnext ih => exact h _ ih _ hnext

/-- What is needed of `extract` and `merge`. An object belongs to a node (`own`),
    and what it looks like stands for a set of nodes; a node's object is only
    changed by an extraction from the node, and by a merge into it. -/
structure Laws (x : Extraction Node σ δ) (outgoing : Node → List Node) (O : Type) where
  look : σ → δ → O
  own : δ → Node → Prop
  Stands : O → Set Node → Prop
  /-- The objects of the state are what earlier calls have left. -/
  Inv : σ → Prop
  extract_inv : ∀ n s, Inv s → Inv (x.extract n s).2
  extract_own : ∀ n s, own (x.extract n s).1 n
  extract_stands : ∀ n s, Inv s → ∃ T, n ∈ T ∧ T ⊆ reach outgoing n ∧
    Stands (look (x.extract n s).2 (x.extract n s).1) T
  extract_keeps : ∀ n s d T, Inv s → own d n → n ∈ T → Stands (look s d) T →
    Stands (look (x.extract n s).2 d) T
  extract_frame : ∀ n s d m, own d m → m ≠ n → look (x.extract n s).2 d = look s d
  merge_inv : ∀ n s d e T U, Inv s → own d n → n ∈ T → T ⊆ reach outgoing n →
    U ⊆ reach outgoing n → Stands (look s d) T → Stands (look s e) U → Inv (x.merge d e s).2
  merge_own : ∀ n s d e, own d n → own (x.merge d e s).1 n
  merge_stands : ∀ n s d e T U, own d n → Stands (look s d) T → Stands (look s e) U →
    Stands (look (x.merge d e s).2 (x.merge d e s).1) (T ∪ U)
  merge_frame : ∀ n s d e f m, own d n → own f m → m ≠ n →
    look (x.merge d e s).2 f = look s f

variable {x : Extraction Node σ δ} {outgoing : Node → List Node} {O : Type}

namespace Laws

variable (laws : Laws x outgoing O)

/-- The cache has objects that stand for the nodes that are reachable. -/
structure CacheOk (c : Cache Node σ δ) : Prop where
  inv : laws.Inv c.state
  seen : ∀ n d, c.seen.get? n = some d →
    laws.own d n ∧ laws.Stands (laws.look c.state d) (reach outgoing n)

/-- What a search does not change: the cached objects, which stay cached, and
    what the objects of open nodes stand for; and it caches no open node. -/
structure Frame (open_ : Node → Prop) (c c' : Cache Node σ δ) : Prop where
  seen : ∀ n d, c.seen.get? n = some d → c'.seen.get? n = some d ∧
    (laws.own d n → laws.look c'.state d = laws.look c.state d)
  unseen : ∀ n, open_ n → c'.seen.get? n = c.seen.get? n
  stands : ∀ n d T, open_ n → laws.own d n → n ∈ T → laws.Stands (laws.look c.state d) T →
    laws.Stands (laws.look c'.state d) T

variable {laws}

theorem Frame.refl (open_ : Node → Prop) (c : Cache Node σ δ) : laws.Frame open_ c c where
  seen := fun _ _ h => ⟨h, fun _ => rfl⟩
  unseen := fun _ _ => rfl
  stands := fun _ _ _ _ _ _ h => h

theorem Frame.trans {open_ : Node → Prop} {c c₁ c₂ : Cache Node σ δ} (h : laws.Frame open_ c c₁)
    (h' : laws.Frame open_ c₁ c₂) : laws.Frame open_ c c₂ where
  seen := fun n d hd =>
    ⟨(h'.seen n d (h.seen n d hd).1).1, fun ho =>
      ((h'.seen n d (h.seen n d hd).1).2 ho).trans ((h.seen n d hd).2 ho)⟩
  unseen := fun n hn => (h'.unseen n hn).trans (h.unseen n hn)
  stands := fun n d T hn ho hm hs => h'.stands n d T hn ho hm (h.stands n d T hn ho hm hs)

theorem Frame.mono {open_ open' : Node → Prop} {c c' : Cache Node σ δ}
    (h : laws.Frame open_ c c') (ho : ∀ n, open' n → open_ n) : laws.Frame open' c c' where
  seen := h.seen
  unseen := fun n hn => h.unseen n (ho n hn)
  stands := fun n d T hn => h.stands n d T (ho n hn)

end Laws

/-! ## Searches -/

/-- `loop` is the node of `B`, a set of nodes of the stack, that is furthest back. -/
structure LoopOk (stack : OrderedDict Node Nat) (loop : Option Node) (B : Set Node) : Prop where
  inStack : ∀ b ∈ B, b ∈ stack
  of_none : loop = none → B = ∅
  of_some : ∀ l, loop = some l → l ∈ B
  furthest : ∀ l i, loop = some l → stack.get? l = some i →
    ∀ b ∈ B, ∀ j, stack.get? b = some j → i ≤ j

theorem LoopOk.empty (stack : OrderedDict Node Nat) : LoopOk stack none ∅ where
  inStack := fun b hb => absurd hb (Set.notMem_empty b)
  of_none := fun _ => rfl
  of_some := fun l h => absurd h.symm (Option.some_ne_none l)
  furthest := fun l _ h => absurd h.symm (Option.some_ne_none l)

theorem LoopOk.singleton {stack : OrderedDict Node Nat} {node : Node} (h : node ∈ stack) :
    LoopOk stack (some node) {node} where
  inStack := by
    rintro b rfl
    exact h
  of_none := fun h => absurd h (Option.some_ne_none node)
  of_some := by
    rintro l ⟨⟩
    rfl
  furthest := by
    rintro l i ⟨⟩ hi b rfl j hj
    exact (Option.some.inj (hi.symm.trans hj)).le

/-- The loop that goes back further is that of both sets. -/
theorem updateLoop_spec {stack : OrderedDict Node Nat} {loop subLoop : Option Node} {B C : Set Node}
    (h : LoopOk stack loop B) (h' : LoopOk stack subLoop C) :
    ∃ r, updateLoop stack loop subLoop = some r ∧ LoopOk stack r (B ∪ C) := by
  rcases subLoop with _ | s
  · rw [h'.of_none rfl, Set.union_empty]
    exact ⟨loop, rfl, h⟩
  rcases loop with _ | l
  · rw [h.of_none rfl, Set.empty_union]
    exact ⟨some s, rfl, h'⟩
  obtain ⟨i, hi⟩ := OrderedDict.mem_iff_exists_get?.1 (h.inStack l (h.of_some l rfl))
  obtain ⟨j, hj⟩ := OrderedDict.mem_iff_exists_get?.1 (h'.inStack s (h'.of_some s rfl))
  have hstack : ∀ b ∈ B ∪ C, b ∈ stack := fun b hb => hb.elim (h.inStack b) (h'.inStack b)
  have hl : ∀ b ∈ B, ∀ k, stack.get? b = some k → i ≤ k := h.furthest l i rfl hi
  have hs : ∀ b ∈ C, ∀ k, stack.get? b = some k → j ≤ k := h'.furthest s j rfl hj
  simp only [updateLoop, hi, hj, Option.bind_eq_bind, Option.bind_some]
  by_cases hij : i < j
  · refine ⟨some l, if_pos hij, hstack, fun h => absurd h (Option.some_ne_none l), ?_, ?_⟩
    · rintro m ⟨⟩
      exact .inl (h.of_some l rfl)
    · rintro m k ⟨⟩ hk b hb n hn
      obtain rfl := Option.some.inj (hi.symm.trans hk)
      exact hb.elim (fun hb => hl b hb n hn) fun hb => hij.le.trans (hs b hb n hn)
  · refine ⟨some s, if_neg hij, hstack, fun h => absurd h (Option.some_ne_none s), ?_, ?_⟩
    · rintro m ⟨⟩
      exact .inr (h'.of_some s rfl)
    · rintro m k ⟨⟩ hk b hb n hn
      obtain rfl := Option.some.inj (hj.symm.trans hk)
      exact hb.elim (fun hb => (Nat.not_lt.1 hij).trans (hl b hb n hn)) fun hb => hs b hb n hn

variable (laws : Laws x outgoing O)

/-- What a search of a node returns: an object that stands for a set `T` of
    nodes that are reachable. Among these are explored nodes `F`, which are closed
    but for the nodes `B` of the stack that loops lead back to. -/
structure SearchOk (stack : OrderedDict Node Nat) (node : Node) (c : Cache Node σ δ)
    (found : Found Node δ) (c' : Cache Node σ δ) (T F B : Set Node) : Prop where
  cacheOk : laws.CacheOk c'
  frame : laws.Frame (· ∈ stack) c c'
  own : laws.own found.deps node
  stands : laws.Stands (laws.look c'.state found.deps) T
  mem : node ∈ F
  explored : F ⊆ T
  reachable : T ⊆ reach outgoing node
  closed : ∀ m ∈ F, m ∉ B → ∀ next ∈ outgoing m, next ∈ F
  loop : LoopOk stack found.loop B
  cached : found.loop = none → c'.seen.get? node = some found.deps

/-- A search succeeds. -/
def Searches (stack : OrderedDict Node Nat) (node : Node) (c : Cache Node σ δ)
    (r : Option (Found Node δ × Cache Node σ δ)) : Prop :=
  ∃ found c' T F B, r = some (found, c') ∧ SearchOk laws stack node c found c' T F B

/-- The positions in a stack are below its height. -/
def StackOk (stack : OrderedDict Node Nat) : Prop :=
  ∀ n i, stack.get? n = some i → i < stack.entries.length

variable {laws} {stack : OrderedDict Node Nat} {node : Node}

theorem StackOk.push (h : StackOk stack) (hnode : node ∉ stack) :
    (stack.set node stack.entries.length).entries.length = stack.entries.length + 1 ∧
      StackOk (stack.set node stack.entries.length) := by
  have hlen : (stack.set node stack.entries.length).entries.length = stack.entries.length + 1 := by
    rw [OrderedDict.set, dif_neg hnode, List.length_append, List.length_singleton]
  refine ⟨hlen, fun n i hn => ?_⟩
  rw [hlen]
  rcases OrderedDict.get?_set_cases hn with ⟨-, rfl⟩ | ⟨-, hn⟩
  · omega
  · have := h n i hn
    omega

/-- The extraction from a node that is not cached. -/
theorem extract_spec {c : Cache Node σ δ} (hc : laws.CacheOk c) (hseen : c.seen.get? node = none) :
    laws.CacheOk { c with state := (x.extract node c.state).2 } ∧
      laws.Frame (fun _ => True) c { c with state := (x.extract node c.state).2 } := by
  -- The cached objects are those of other nodes.
  have hne : ∀ n d, c.seen.get? n = some d → n ≠ node := by
    rintro n d hd rfl
    exact Option.some_ne_none d (hd.symm.trans hseen)
  refine ⟨⟨laws.extract_inv _ _ hc.inv, fun n d hd => ?_⟩, fun n d hd => ⟨hd, fun ho => ?_⟩,
    fun _ _ => rfl, fun n d T _ ho hm hs => ?_⟩
  · obtain ⟨ho, hs⟩ := hc.seen n d hd
    exact ⟨ho, by rw [laws.extract_frame node c.state d n ho (hne n d hd)]; exact hs⟩
  · exact laws.extract_frame node c.state d n ho (hne n d hd)
  · by_cases hn : n = node
    · exact laws.extract_keeps node c.state d T hc.inv (hn ▸ ho) (hn ▸ hm) hs
    · rw [laws.extract_frame node c.state d n ho hn]
      exact hs

/-- The loop over outgoing nodes. Its invariant is that of a search, but that
    the node is still open, and that nodes in `rest` are still to be searched. -/
theorem mergeOutgoing_spec {visit : Node → Cache Node σ δ → Option (Found Node δ × Cache Node σ δ)}
    {stack' : OrderedDict Node Nat} (hstack' : ∀ n, n ∈ stack' ↔ n = node ∨ n ∈ stack)
    (hnode : node ∉ stack) (hvisit : ∀ next c, laws.CacheOk c → Searches laws stack' next c (visit next c))
    {rest : List Node} (hrest : ∀ next ∈ rest, next ∈ outgoing node) (found : Found Node δ)
    {c : Cache Node σ δ} {T F B : Set Node} (hc : laws.CacheOk c) (hseen : c.seen.get? node = none)
    (hown : laws.own found.deps node) (hstands : laws.Stands (laws.look c.state found.deps) T)
    (hmem : node ∈ F) (hF : F ⊆ T) (hT : T ⊆ reach outgoing node)
    (hclosed : ∀ m ∈ F, m ∉ B → m ≠ node → ∀ next ∈ outgoing m, next ∈ F)
    (hloop : LoopOk stack' found.loop B) :
    ∃ found' c' T' F' B', mergeOutgoing x visit stack' rest found c = some (found', c') ∧
      laws.CacheOk c' ∧ c'.seen.get? node = none ∧ laws.Frame (· ∈ stack) c c' ∧
      laws.own found'.deps node ∧ laws.Stands (laws.look c'.state found'.deps) T' ∧
      F ⊆ F' ∧ (∀ next ∈ rest, next ∈ F') ∧ F' ⊆ T' ∧ T' ⊆ reach outgoing node ∧
      (∀ m ∈ F', m ∉ B' → m ≠ node → ∀ next ∈ outgoing m, next ∈ F') ∧
      LoopOk stack' found'.loop B' := by
  induction rest generalizing found c T F B with
  | nil =>
    exact ⟨found, c, T, F, B, rfl, hc, hseen, .refl _ _, hown, hstands, subset_rfl,
      fun next h => absurd h List.not_mem_nil, hF, hT, hclosed, hloop⟩
  | cons next rest ih =>
    have hopen : node ∈ stack' := (hstack' node).2 (.inl rfl)
    obtain ⟨sub, c₁, U, G, C, hv, hs⟩ := hvisit next c hc
    obtain ⟨loop, hl, hloop₁⟩ := updateLoop_spec hloop hs.loop
    have hstands₁ := hs.frame.stands node found.deps T hopen hown (hF hmem) hstands
    have hU : U ⊆ reach outgoing node :=
      hs.reachable.trans (reach_subset (hrest next List.mem_cons_self))
    have hseen₁ : c₁.seen.get? node = none := (hs.frame.unseen node hopen).trans hseen
    -- The merge changes the object of the open node only.
    have hframe : laws.Frame (· ∈ stack) c₁
        { c₁ with state := (x.merge found.deps sub.deps c₁.state).2 } := by
      refine ⟨fun n d hd => ⟨hd, fun ho => ?_⟩, fun _ _ => rfl, fun n d V hn ho _ hs => ?_⟩
      · refine laws.merge_frame node _ _ _ _ n hown ho ?_
        rintro rfl
        exact Option.some_ne_none d (hd.symm.trans hseen₁)
      · rw [laws.merge_frame node _ _ _ _ n hown ho (by rintro rfl; exact hnode hn)]
        exact hs
    have hc₂ : laws.CacheOk { c₁ with state := (x.merge found.deps sub.deps c₁.state).2 } := by
      refine ⟨laws.merge_inv node _ _ _ T U hs.cacheOk.inv hown (hF hmem) hT hU hstands₁ hs.stands,
        fun n d hd => ?_⟩
      obtain ⟨ho, hst⟩ := hs.cacheOk.seen n d hd
      refine ⟨ho, ?_⟩
      rw [(hframe.seen n d hd).2 ho]
      exact hst
    have hstep : mergeOutgoing x visit stack' (next :: rest) found c =
        mergeOutgoing x visit stack' rest
          ⟨(x.merge found.deps sub.deps c₁.state).1, loop⟩
          { c₁ with state := (x.merge found.deps sub.deps c₁.state).2 } := by
      simp only [mergeOutgoing, hv, hl, Option.bind_eq_bind, Option.bind_some]
    obtain ⟨found', c', T', F', B', hrun, hc', hseen', hframe', hrest'⟩ := ih
      (fun n hn => hrest n (List.mem_cons_of_mem next hn)) ⟨_, loop⟩
      (T := T ∪ U) (F := F ∪ G) (B := B ∪ C) hc₂ hseen₁ (laws.merge_own node _ _ _ hown)
      (laws.merge_stands node _ _ _ T U hown hstands₁ hs.stands) (.inl hmem)
      (Set.union_subset_union hF hs.explored) (Set.union_subset hT hU)
      (fun m hm hB hne n hn => by
        rw [Set.mem_union, not_or] at hB
        exact hm.elim (fun hm => .inl (hclosed m hm hB.1 hne n hn))
          fun hm => .inr (hs.closed m hm hB.2 n hn)) hloop₁
    obtain ⟨hown', hstands', hsub, hmem', hF', hT', hclosed', hloop'⟩ := hrest'
    refine ⟨found', c', T', F', B', hstep.trans hrun, hc', hseen',
      ((hs.frame.mono fun n hn => (hstack' n).2 (.inr hn)).trans hframe).trans hframe', hown',
      hstands', fun m hm => hsub (.inl hm), fun n hn => ?_, hF', hT', hclosed', hloop'⟩
    rcases List.mem_cons.1 hn with rfl | hn
    · exact hsub (.inr hs.mem)
    · exact hmem' n hn

/-- The end of a search: a node is cached exactly when no loop leads back
    beyond it, and then what has been explored is closed. -/
theorem finishNode_spec (hok : StackOk stack) (hnode : node ∉ stack) {found : Found Node δ}
    {c₀ c : Cache Node σ δ} {T F B : Set Node} (hc : laws.CacheOk c)
    (hframe : laws.Frame (· ∈ stack) c₀ c) (hseen : c.seen.get? node = none)
    (hown : laws.own found.deps node) (hstands : laws.Stands (laws.look c.state found.deps) T)
    (hmem : node ∈ F) (hnext : ∀ next ∈ outgoing node, next ∈ F) (hF : F ⊆ T)
    (hT : T ⊆ reach outgoing node)
    (hclosed : ∀ m ∈ F, m ∉ B → m ≠ node → ∀ next ∈ outgoing m, next ∈ F)
    (hloop : LoopOk (stack.set node stack.entries.length) found.loop B) :
    ∃ C, SearchOk laws stack node c₀ (finishNode node found c).1 (finishNode node found c).2 T F C := by
  -- Without a loop beyond the node, everything that is reachable has been explored.
  have cached : found.loop = none ∨ found.loop = some node →
      SearchOk laws stack node c₀ ⟨found.deps, none⟩
        { c with seen := c.seen.set node found.deps } T F ∅ := by
    intro h
    have hB : ∀ m ∈ B, m = node := by
      rcases h with h | h
      · rw [hloop.of_none h]
        exact fun m hm => absurd hm (Set.notMem_empty m)
      · intro m hm
        by_contra hne
        obtain ⟨j, hj⟩ := OrderedDict.mem_iff_exists_get?.1 (hloop.inStack m hm)
        have hle := hloop.furthest node _ h (OrderedDict.get?_set_self _ _ _) m hm j hj
        rw [OrderedDict.get?_set_of_ne _ hne] at hj
        exact absurd (hok m j hj) (Nat.not_lt.2 hle)
    have hall : ∀ m ∈ F, ∀ next ∈ outgoing m, next ∈ F := by
      intro m hm next hn
      by_cases hne : m = node
      · exact hnext next (hne ▸ hn)
      · exact hclosed m hm (fun hb => hne (hB m hb)) hne next hn
    have hreach : T = reach outgoing node :=
      hT.antisymm ((reach_subset_of_closed hmem hall).trans hF)
    refine ⟨⟨hc.inv, fun n d hd => ?_⟩, ⟨fun n d hd => ?_, fun n hn => ?_, hframe.stands⟩, hown,
      hstands, hmem, hF, hT, fun m hm _ => hall m hm, .empty stack,
      fun _ => OrderedDict.get?_set_self _ _ _⟩
    · rcases OrderedDict.get?_set_cases hd with ⟨rfl, rfl⟩ | ⟨-, hd⟩
      · exact ⟨hown, hreach ▸ hstands⟩
      · exact hc.seen n d hd
    · obtain ⟨hd', hl⟩ := hframe.seen n d hd
      refine ⟨?_, hl⟩
      rw [OrderedDict.get?_set_of_ne _ ?_]
      · exact hd'
      · rintro rfl
        exact Option.some_ne_none d (hd'.symm.trans hseen)
    · rw [OrderedDict.get?_set_of_ne _ (by rintro rfl; exact hnode hn)]
      exact hframe.unseen n hn
  rw [finishNode]
  rcases hl : found.loop with _ | l
  · exact ⟨∅, by simpa [hl] using cached (.inl hl)⟩
  by_cases hne : l = node
  · subst hne
    exact ⟨∅, by simpa [hl] using cached (.inr hl)⟩
  · -- The loop goes back further: the node is left to the search that it goes back to.
    have hsome : (some l : Option Node) ≠ some node := fun h => hne (Option.some.inj h)
    simp only [if_neg hsome, reduceCtorEq, if_false]
    refine ⟨B \ {node}, hc, hframe, hown, hstands, hmem, hF, hT, fun m hm hB => ?_, ?_,
      fun h => absurd h (Option.some_ne_none l)⟩
    · by_cases hm' : m = node
      · exact hm' ▸ hnext
      · exact hclosed m hm (fun hb => hB ⟨hb, hm'⟩) hm'
    · have hget : ∀ m, m ≠ node →
          (stack.set node stack.entries.length).get? m = stack.get? m :=
        fun m hm => OrderedDict.get?_set_of_ne _ hm _
      refine ⟨fun b hb => ?_, fun h => absurd h (Option.some_ne_none l), ?_, ?_⟩
      · exact (OrderedDict.mem_set_iff.1 (hloop.inStack b hb.1)).resolve_left hb.2
      · rintro m ⟨⟩
        exact ⟨hloop.of_some l hl, hne⟩
      · rintro m i ⟨⟩ hi b hb j hj
        exact hloop.furthest l i hl ((hget l hne).trans hi) b hb.1 j ((hget b hb.2).trans hj)

/-- A search succeeds with fuel for the nodes that are not in the stack. -/
theorem transitiveMergeHelper_spec [Fintype Node] (laws : Laws x outgoing O) {fuel : Nat}
    (node : Node) {stack : OrderedDict Node Nat} {c : Cache Node σ δ} (hc : laws.CacheOk c)
    (hok : StackOk stack) (hfuel : Fintype.card Node < fuel + stack.entries.length) :
    Searches laws stack node c (transitiveMergeHelper x outgoing fuel node stack c) := by
  induction fuel generalizing node stack c with
  | zero =>
    -- The nodes in the stack are distinct.
    have hcard := stack.nodup.length_le_card
    rw [List.length_map] at hcard
    omega
  | succ fuel ih =>
    rw [transitiveMergeHelper]
    rcases hseen : c.seen.get? node with _ | deps
    · obtain ⟨hc₁, hframe⟩ := extract_spec hc hseen
      obtain ⟨T, hmem, hT, hstands⟩ := laws.extract_stands node c.state hc.inv
      have hown := laws.extract_own node c.state
      by_cases hnode : node ∈ stack
      · simp only [if_pos hnode]
        exact ⟨_, _, T, {node}, {node}, rfl, hc₁, hframe.mono fun _ _ => trivial, hown, hstands, rfl,
          Set.singleton_subset_iff.2 hmem, hT, fun m hm hB => absurd hm hB, .singleton hnode,
          fun h => absurd h (Option.some_ne_none node)⟩
      · obtain ⟨hlen, hpush⟩ := hok.push hnode
        simp only [if_neg hnode]
        obtain ⟨found, c₂, T', F, B, hrun, hc₂, hseen₂, hframe₂, hown₂, hstands₂, hsub, hnext, hF, hT',
          hclosed, hloop⟩ := mergeOutgoing_spec (T := T) (F := {node}) (B := ∅)
            (fun n => OrderedDict.mem_set_iff) hnode
            (fun next c hc => ih next hc hpush (by omega)) (fun next h => h) ⟨_, none⟩ hc₁ hseen hown
            hstands rfl (Set.singleton_subset_iff.2 hmem) hT
            (fun m hm _ hne => absurd hm hne) (.empty _)
        obtain ⟨C, hs⟩ := finishNode_spec hok hnode hc₂
          ((hframe.mono fun _ _ => trivial).trans hframe₂) hseen₂ hown₂ hstands₂ (hsub rfl) hnext hF hT'
          hclosed hloop
        refine ⟨_, _, T', F, C, ?_, hs⟩
        rw [hrun]
        rfl
    · obtain ⟨hown, hstands⟩ := hc.seen node deps hseen
      exact ⟨_, _, reach outgoing node, reach outgoing node, ∅, rfl, hc, .refl _ _, hown, hstands,
        mem_reach_self outgoing node, subset_rfl, subset_rfl,
        fun m hm _ next hn => hm.tail hn, .empty stack, fun _ => hseen⟩

/-- A query returns an object that is cached from then on. -/
theorem transitiveMerge_spec [Fintype Node] (laws : Laws x outgoing O) {fuel : Nat}
    (hfuel : Fintype.card Node < fuel) (node : Node) {c : Cache Node σ δ} (hc : laws.CacheOk c) :
    ∃ deps c', transitiveMerge x outgoing fuel node c = some (deps, c') ∧ laws.CacheOk c' ∧
      laws.Frame (fun _ => False) c c' ∧ c'.seen.get? node = some deps := by
  obtain ⟨found, c', T, F, B, hrun, hs⟩ := transitiveMergeHelper_spec laws node hc
    (show StackOk .empty from fun n i h => absurd h (by simp))
    (show Fintype.card Node < fuel + 0 by omega)
  have hloop : found.loop = none := by
    rcases h : found.loop with _ | l
    · rfl
    · exact absurd (hs.loop.inStack l (hs.loop.of_some l h)) (OrderedDict.not_mem_empty l)
  refine ⟨found.deps, c', ?_, hs.cacheOk, hs.frame.mono fun _ h => h.elim, hs.cached hloop⟩
  rw [transitiveMerge, hrun, Option.map_some]

/-- The result `r` of a query of `node`, with the state after it: it stands for
    the nodes that are reachable from `node`, and looks the same in the state `s`. -/
def ResultOk (laws : Laws x outgoing O) (s : σ) (node : Node) (r : δ × σ) : Prop :=
  laws.own r.1 node ∧ laws.Stands (laws.look r.2 r.1) (reach outgoing node) ∧
    laws.look s r.1 = laws.look r.2 r.1

/-- Queries that share a cache, one after another: no query fails, each result
    stands for the nodes that are reachable, and no later query changes it. -/
theorem runQueries_spec [Fintype Node] (laws : Laws x outgoing O) {fuel : Nat}
    (hfuel : Fintype.card Node < fuel) (nodes : List Node) {c : Cache Node σ δ}
    (hc : laws.CacheOk c) :
    ∃ results c', runQueries x outgoing fuel nodes c = some (results, c') ∧ laws.CacheOk c' ∧
      laws.Frame (fun _ => False) c c' ∧ List.Forall₂ (ResultOk laws c'.state) nodes results := by
  induction nodes generalizing c with
  | nil => exact ⟨[], c, rfl, hc, .refl _ _, .nil⟩
  | cons node nodes ih =>
    obtain ⟨deps, c₁, hrun, hc₁, hframe, hseen⟩ := transitiveMerge_spec laws hfuel node hc
    obtain ⟨results, c₂, hruns, hc₂, hframe₂, hall⟩ := ih hc₁
    obtain ⟨hown, hstands⟩ := hc₁.seen node deps hseen
    refine ⟨(deps, c₁.state) :: results, c₂, ?_, hc₂, hframe.trans hframe₂, .cons ?_ hall⟩
    · simp only [runQueries, hrun, hruns, Option.bind_eq_bind, Option.bind_some]
    · exact ⟨hown, hstands, (hframe₂.seen node deps hseen).2 hown⟩

end AHPy.Dependencies
