import AHPy.ModuleWriter.ConstantRegistry

/-!
# Shared constants

* `eq_key_iff`: the keys of constants are equal in Python only if the constants are written
  alike, up to the notation of integers;
* `CompilerState.Inv`: a name found by the identity of a node is the one of its key, as long as
  registered nodes are not collected;
* `constantRegistry_sound`: the nodes that have a name denote the constant of the node it was
  made for, and nodes that are written alike have the same one.
-/

namespace AHPy.ModuleWriter

/-! ## Keys of constants -/

namespace Constant

mutual

/-- The key of a constant. -/
def key : Constant (List Char) → PyKey
  | .none => .tuple [.str ['n', 'o', 'n', 'e']]
  | .bool b => ExprNode.tagged ['b', 'o', 'o', 'l'] (.bool b)
  | .int n => ExprNode.tagged ['i', 'n', 't'] (.int n)
  | .float x => ExprNode.tagged ['f', 'l', 'o', 'a', 't'] (.str x)
  | .imaginary x => ExprNode.tagged ['i', 'm', 'a', 'g'] (.str x)
  | .str s => ExprNode.tagged ['u', 'n', 'i', 'c', 'o', 'd', 'e'] (.str s)
  | .bytes data => ExprNode.tagged ['b', 'y', 't', 'e', 's'] (.bytes data)
  | .tuple items => ExprNode.tagged ['t', 'u', 'p', 'l', 'e'] (.tuple (keys items))

def keys : List (Constant (List Char)) → List PyKey
  | [] => []
  | c :: cs => key c :: keys cs

end

end Constant

@[simp]
theorem eq_tagged (tag tag' : List Char) (k k' : PyKey) :
    (ExprNode.tagged tag k).eq (ExprNode.tagged tag' k') = (decide (tag = tag') && k.eq k') := by
  simp only [ExprNode.tagged, PyKey.eq, PyKey.eqItems, Bool.and_true]

/-- The key of `None` has no value, those of other constants have one. -/
@[simp]
theorem eq_none_tagged (tag : List Char) (k : PyKey) (s : List Char) :
    (PyKey.tuple [.str s]).eq (ExprNode.tagged tag k) = false ∧
      (ExprNode.tagged tag k).eq (.tuple [.str s]) = false := by
  simp only [ExprNode.tagged, PyKey.eq, PyKey.eqItems, Bool.and_false, and_self]

mutual

/-- Python tells the keys of different constants apart: their tags differ, or their values. -/
theorem eq_key_iff : ∀ c c' : Constant (List Char), c.key.eq c'.key = true ↔ c = c'
  | .none, c' => by cases c' <;> simp [Constant.key, PyKey.eq, PyKey.eqItems]
  | .bool b, c' => by cases c' <;> simp [Constant.key, PyKey.eq]
  | .int n, c' => by cases c' <;> simp [Constant.key, PyKey.eq]
  | .float x, c' => by cases c' <;> simp [Constant.key, PyKey.eq]
  | .imaginary x, c' => by cases c' <;> simp [Constant.key, PyKey.eq]
  | .str s, c' => by cases c' <;> simp [Constant.key, PyKey.eq]
  | .bytes data, c' => by cases c' <;> simp [Constant.key, PyKey.eq]
  | .tuple items, .tuple items' => by
    simp [Constant.key, PyKey.eq, eqItems_keys_iff items items']
  | .tuple items, .none | .tuple items, .bool _ | .tuple items, .int _ | .tuple items, .float _
  | .tuple items, .imaginary _ | .tuple items, .str _ | .tuple items, .bytes _ => by
    simp [Constant.key]

theorem eqItems_keys_iff : ∀ cs cs' : List (Constant (List Char)),
    PyKey.eqItems (Constant.keys cs) (Constant.keys cs') = true ↔ cs = cs'
  | [], [] => by simp [Constant.keys, PyKey.eqItems]
  | [], _ :: _ => by simp [Constant.keys, PyKey.eqItems]
  | _ :: _, [] => by simp [Constant.keys, PyKey.eqItems]
  | c :: cs, c' :: cs' => by
    rw [Constant.keys, Constant.keys, PyKey.eqItems, Bool.and_eq_true, eq_key_iff c c',
      eqItems_keys_iff cs cs', List.cons.injEq]

end

/-! ## Keys of nodes -/

namespace ExprNode

theorem denotes_of_isStarred {F : Type} (float : List Char → Option F) {arg : ExprNode}
    (h : arg.isStarred = true) : denotes float arg = Option.none := by
  cases arg with
  | other starred => rfl
  | _ => cases h

theorem denoteAll_of_isStarred {F : Type} (float : List Char → Option F) {args : List ExprNode}
    (h : args.any isStarred = true) : denoteAll float args = Option.none := by
  induction args with
  | nil => cases h
  | cons arg args ih =>
    rw [denoteAll]
    rw [List.any_cons, Bool.or_eq_true] at h
    rcases h with h | h
    · rw [denotes_of_isStarred float h]
      rfl
    · rw [ih h]
      cases denotes float arg <;> rfl

mutual

/-- A node has the key of the constant that it is written as. -/
theorem constantKey_eq : ∀ node : ExprNode, node.constantKey = node.written.map Constant.key
  | .none | .bool _ | .float _ | .imag _ | .unicode _ | .bytes _ | .other _ => rfl
  | .int value => by
    rw [constantKey, written, denotes]
    cases pyInt value <;> rfl
  | .tuple args multFactor unpackedItems => by
    have hargs := itemKeys_eq args
    rw [constantKey, written, denotes, hargs]
    by_cases hplain : multFactor = true ∨ unpackedItems = true
    · rw [if_pos hplain, if_pos (by tauto)]
      rfl
    · rw [if_neg hplain]
      by_cases hstarred : args.any isStarred = true
      · rw [if_pos (by tauto), denoteAll_of_isStarred some hstarred]
        rfl
      · rw [if_neg (by tauto)]
        cases denoteAll some args <;> rfl

theorem itemKeys_eq : ∀ args : List ExprNode,
    itemKeys args = (denoteAll some args).map Constant.keys
  | [] => rfl
  | arg :: args => by
    have harg := constantKey_eq arg
    rw [written] at harg
    rw [itemKeys, denoteAll, harg, itemKeys_eq args]
    cases denotes some arg with
    | none => rfl
    | some c => cases denoteAll some args <;> rfl

end

end ExprNode

namespace Constant

variable {F G : Type} (float : F → Option G)

mutual

/-- A constant whose floating-point numbers are read. -/
def read : Constant F → Option (Constant G)
  | .none => some .none
  | .bool b => some (.bool b)
  | .int n => some (.int n)
  | .float x => (float x).map .float
  | .imaginary x => (float x).map .imaginary
  | .str s => some (.str s)
  | .bytes data => some (.bytes data)
  | .tuple items => (readAll items).map .tuple

def readAll : List (Constant F) → Option (List (Constant G))
  | [] => some []
  | c :: cs => do
    let c ← read c
    let cs ← readAll cs
    return c :: cs

end

end Constant

namespace ExprNode

variable {F : Type} (float : List Char → Option F)

mutual

/-- What a node denotes is determined by how it is written. -/
theorem denotes_eq : ∀ node : ExprNode, denotes float node = node.written.bind (Constant.read float)
  | .none | .bool _ | .float _ | .imag _ | .unicode _ | .bytes _ | .other _ => rfl
  | .int value => by
    rw [denotes, written, denotes]
    cases pyInt value <;> rfl
  | .tuple args multFactor unpackedItems => by
    have hargs := denoteAll_eq args
    rw [denotes, written, denotes]
    split
    next => rfl
    next =>
      rw [hargs]
      cases denoteAll some args <;> rfl

theorem denoteAll_eq : ∀ args : List ExprNode,
    denoteAll float args = (denoteAll some args).bind (Constant.readAll float)
  | [] => rfl
  | arg :: args => by
    have harg := denotes_eq arg
    have hargs := denoteAll_eq args
    rw [written] at harg
    rw [denoteAll, denoteAll, harg, hargs]
    cases denotes some arg with
    | none => rfl
    | some c =>
      cases denoteAll some args with
      | none =>
        simp only [Option.bind_some, bind, Option.bind_none]
        cases Constant.read float c <;> rfl
      | some cs => rfl

end

/-- Nodes that are written alike have equal keys, and no others. -/
theorem eq_of_constantKey {node node' : ExprNode} {key key' : PyKey}
    (h : node.constantKey = some key) (h' : node'.constantKey = some key')
    (heq : key.eq key' = true) : node.written = node'.written := by
  rw [constantKey_eq] at h h'
  obtain ⟨c, hc, rfl⟩ := Option.map_eq_some_iff.1 h
  obtain ⟨c', hc', rfl⟩ := Option.map_eq_some_iff.1 h'
  rw [hc, hc', (eq_key_iff c c').1 heq]

theorem constantKey_congr {node node' : ExprNode} (h : node.written = node'.written) :
    node.constantKey = node'.constantKey := by
  rw [constantKey_eq, constantKey_eq, h]

theorem constant_congr {node node' : ExprNode} (h : node.written = node'.written) :
    node.constant = node'.constant := by
  show denotes (pyFloat binary64) node = denotes (pyFloat binary64) node'
  rw [denotes_eq, denotes_eq, h]

theorem constantKey_refl {node : ExprNode} {key : PyKey} (h : node.constantKey = some key) :
    key.eq key = true := by
  rw [constantKey_eq] at h
  obtain ⟨c, -, rfl⟩ := Option.map_eq_some_iff.1 h
  exact (eq_key_iff c c).2 rfl

end ExprNode

/-! ## The registry -/

namespace ConstantRegistry

variable {r : ConstantRegistry} {ident : ℕ} {node : ExprNode} {key : PyKey} {attr : ℕ}

/-- A name stays the one of its key when another key is added. -/
theorem attributeOfKey_append (h : r.attributeOfKey key = some attr) (e : PyKey × ℕ) :
    ((r.keyToAttribute ++ [e]).find? fun e => e.1.eq key).map Prod.snd = some attr := by
  rw [attributeOfKey, Option.map_eq_some_iff] at h
  obtain ⟨e', he', rfl⟩ := h
  rw [List.find?_append, he']
  rfl

theorem attributeOfKey_concat (h : r.attributeOfKey key = none) (hkey : key.eq key = true)
    (attr : ℕ) :
    ((r.keyToAttribute ++ [(key, attr)]).find? fun e => e.1.eq key).map Prod.snd = some attr := by
  rw [attributeOfKey, Option.map_eq_none_iff] at h
  simp only [List.find?_append, h, List.find?_singleton, hkey, if_true, Option.none_or,
    Option.map_some]

theorem registerNode_of_no_key (h : node.constantKey = none) :
    r.registerNode ident node = (none, r) := by
  rw [registerNode, h]

theorem registerNode_of_attr (h : node.constantKey = some key)
    (hattr : r.attributeOfKey key = some attr) :
    r.registerNode ident node =
      (some attr, { r with nodeAttributes := r.nodeAttributes.set ident attr }) := by
  simp only [registerNode, h, hattr]

/-- The registry with an entry for a new key. -/
def addEntry (r : ConstantRegistry) (ident : ℕ) (node : ExprNode) (key : PyKey) :
    ConstantRegistry where
  entries := r.entries ++ [(r.entries.length, ident, node)]
  keyToAttribute := r.keyToAttribute ++ [(key, r.entries.length)]
  nodeAttributes := r.nodeAttributes.set ident r.entries.length

theorem registerNode_of_new (h : node.constantKey = some key) (hattr : r.attributeOfKey key = none) :
    r.registerNode ident node = (some r.entries.length, r.addEntry ident node key) := by
  simp only [registerNode, h, hattr]
  rfl

end ConstantRegistry

/-! ## Runs -/

namespace CompilerState

variable {s s' : CompilerState} {out : Option ℕ}

/-- The nodes that were registered stay alive. -/
def KeepsRegistered (s : CompilerState) (e : CompilerEvent) : Prop :=
  ∀ ident, e = .collect ident → s.registry.nodeAttributes.get? ident = none

/-- The names of keys belong to entries whose nodes have the keys, and a node that was registered
    has the name of its key. -/
structure Inv (s : CompilerState) : Prop where
  keyed : ∀ e ∈ s.registry.keyToAttribute, ∃ ident first,
    (e.2, ident, first) ∈ s.registry.entries ∧ first.constantKey = some e.1
  numbered : s.registry.entries.map Prod.fst = List.range s.registry.entries.length
  named : ∀ ident attr, s.registry.nodeAttributes.get? ident = some attr →
    ∃ node key, s.nodes ident = some node ∧ node.constantKey = some key ∧
      s.registry.attributeOfKey key = some attr

theorem inv_init : Inv init where
  keyed _ he := absurd he List.not_mem_nil
  numbered := rfl
  named _ _ h := nomatch h

/-- The name of a node is the one of its key. -/
theorem Inv.attributeForNode_eq (h : Inv s) {ident : ℕ} {node : ExprNode}
    (hnode : s.nodes ident = some node) :
    s.registry.attributeForNode ident node = node.constantKey.bind s.registry.attributeOfKey := by
  rw [ConstantRegistry.attributeForNode]
  rcases hget : s.registry.nodeAttributes.get? ident with - | attr
  · rfl
  · obtain ⟨node', key, hnode', hkey, hattr⟩ := h.named ident attr hget
    obtain rfl := Option.some.inj (hnode.symm.trans hnode')
    rw [hkey, Option.bind_some, hattr]

theorem Inv.updateNode (h : Inv s) {ident : ℕ}
    (hregistered : s.registry.nodeAttributes.get? ident = none) (node : Option ExprNode) :
    Inv { s with nodes := Function.update s.nodes ident node } where
  keyed := h.keyed
  numbered := h.numbered
  named ident' attr hget := by
    obtain ⟨node', key, hnode', hkey, hattr⟩ := h.named ident' attr hget
    refine ⟨node', key, ?_, hkey, hattr⟩
    have hne : ident' ≠ ident := by
      rintro rfl
      rw [hregistered] at hget
      cases hget
    exact (Function.update_of_ne hne _ _).trans hnode'

/-- A node that is registered under the name of its key is named so. -/
theorem named_set {nodes : ℕ → Option ExprNode} {names : OrderedDict ℕ ℕ} {find : PyKey → Option ℕ}
    {ident attr : ℕ} {node : ExprNode} {key : PyKey} (hnode : nodes ident = some node)
    (hkey : node.constantKey = some key) (hattr : find key = some attr)
    (h : ∀ ident attr, names.get? ident = some attr →
      ∃ node key, nodes ident = some node ∧ node.constantKey = some key ∧ find key = some attr) :
    ∀ ident' attr', (names.set ident attr).get? ident' = some attr' →
      ∃ node key, nodes ident' = some node ∧ node.constantKey = some key ∧
        find key = some attr' := by
  intro ident' attr' hget
  rcases OrderedDict.get?_set_cases hget with ⟨rfl, rfl⟩ | ⟨-, hget⟩
  · exact ⟨node, key, hnode, hkey, hattr⟩
  · exact h ident' attr' hget

/-- A registration names a node by its key, and keeps the names of other keys. -/
theorem Inv.register (h : Inv s) {ident : ℕ} {node : ExprNode}
    (hnode : s.nodes ident = some node) :
    Inv { s with registry := (s.registry.registerNode ident node).2 } := by
  rcases hkey : node.constantKey with - | key
  · rw [ConstantRegistry.registerNode_of_no_key hkey]
    exact h
  · rcases hattr : s.registry.attributeOfKey key with - | attr
    · rw [ConstantRegistry.registerNode_of_new hkey hattr]
      refine ⟨fun e he => ?_, ?_, ?_⟩
      · rcases List.mem_append.1 he with he | he
        · obtain ⟨ident', first, hmem, hfirst⟩ := h.keyed e he
          exact ⟨ident', first, List.mem_append_left _ hmem, hfirst⟩
        · obtain rfl := List.mem_singleton.1 he
          exact ⟨ident, node, List.mem_append_right _ List.mem_cons_self, hkey⟩
      · show (s.registry.entries ++ [_]).map Prod.fst =
          List.range (s.registry.entries ++ [_]).length
        rw [List.map_append, h.numbered, List.length_append, List.length_singleton,
          List.range_succ]
        rfl
      · refine named_set hnode hkey
          (ConstantRegistry.attributeOfKey_concat hattr (ExprNode.constantKey_refl hkey) _) ?_
        intro ident' attr' hget
        obtain ⟨node', key', hnode', hkey', hattr'⟩ := h.named ident' attr' hget
        exact ⟨node', key', hnode', hkey', ConstantRegistry.attributeOfKey_append hattr' _⟩
    · rw [ConstantRegistry.registerNode_of_attr hkey hattr]
      exact ⟨h.keyed, h.numbered, named_set hnode hkey hattr h.named⟩

theorem inv_step (h : Inv s) (e : CompilerEvent) (hkeeps : KeepsRegistered s e)
    (hstep : step s e = some (s', out)) : Inv s' := by
  cases e with
  | create ident node =>
    rw [step] at hstep
    split at hstep
    next hfree =>
      cases hstep
      -- A node that gets a free identity is not one that was registered.
      refine h.updateNode (Option.eq_none_iff_forall_ne_some.2 fun attr hget => ?_) (some node)
      obtain ⟨node', _, hnode', -⟩ := h.named ident attr hget
      rw [hfree] at hnode'
      cases hnode'
    next => cases hstep
  | collect ident =>
    rw [step] at hstep
    split at hstep
    next => cases hstep
    next =>
      cases hstep
      exact h.updateNode (hkeeps ident rfl) none
  | register ident =>
    rw [step, Option.map_eq_some_iff] at hstep
    obtain ⟨node, hnode, hstep⟩ := hstep
    cases hstep
    exact h.register hnode
  | query ident =>
    rw [step, Option.map_eq_some_iff] at hstep
    obtain ⟨node, hnode, hstep⟩ := hstep
    cases hstep
    exact h

/-- A node that has a name denotes the constant of the node that the name was made for. -/
def CreatedAlike (s : CompilerState) : Prop :=
  ∀ ident node attr, s.nodes ident = some node →
    s.registry.attributeForNode ident node = some attr →
    ∃ first, (attr, first) ∈ s.registry.entries ∧
      (∀ e ∈ s.registry.entries, e.1 = attr → e = (attr, first)) ∧
      first.2.constant = node.constant

/-- Nodes that are written alike have the same name, or none. -/
def SharesWritten (s : CompilerState) : Prop :=
  ∀ ident ident' node node', s.nodes ident = some node → s.nodes ident' = some node' →
    node.written = node'.written →
    s.registry.attributeForNode ident node = s.registry.attributeForNode ident' node'

/-- Nodes that denote the same constant have the same name, or none. -/
def SharesEqual (s : CompilerState) : Prop :=
  ∀ ident ident' node node', s.nodes ident = some node → s.nodes ident' = some node' →
    node.constant = node'.constant →
    s.registry.attributeForNode ident node = s.registry.attributeForNode ident' node'

theorem Inv.createdAlike (h : Inv s) : s.CreatedAlike := by
  intro ident node attr hnode hattr
  rw [h.attributeForNode_eq hnode, Option.bind_eq_some_iff] at hattr
  obtain ⟨key, hkey, hattr⟩ := hattr
  rw [ConstantRegistry.attributeOfKey, Option.map_eq_some_iff] at hattr
  obtain ⟨e, he, rfl⟩ := hattr
  obtain ⟨ident', first, hmem, hfirst⟩ := h.keyed e (List.mem_of_find?_eq_some he)
  have heq := List.find?_some he
  have hnodup : (s.registry.entries.map Prod.fst).Nodup := h.numbered ▸ List.nodup_range
  refine ⟨(ident', first), hmem, fun e' he' hattr => ?_,
    ExprNode.constant_congr (ExprNode.eq_of_constantKey hfirst hkey heq)⟩
  exact List.inj_on_of_nodup_map hnodup he' hmem hattr

theorem Inv.sharesWritten (h : Inv s) : s.SharesWritten := by
  intro ident ident' node node' hnode hnode' hwritten
  rw [h.attributeForNode_eq hnode, h.attributeForNode_eq hnode',
    ExprNode.constantKey_congr hwritten]

/-- As long as registered nodes are not collected, the name of a node is one of its constant, and
    nodes that are written alike share it. -/
theorem constantRegistry_sound (hs : Reaches step KeepsRegistered init s) :
    s.CreatedAlike ∧ s.SharesWritten := by
  have h : Inv s := hs.invariant inv_init fun _ e _ _ h hkeeps hstep => inv_step h e hkeeps hstep
  exact ⟨h.createdAlike, h.sharesWritten⟩

/-- Two nodes are created and registered. -/
def registerBoth (node node' : ExprNode) : List CompilerEvent :=
  [.create 0 node, .register 0, .create 1 node', .register 1]

theorem keepsRegistered_registerBoth (node node' : ExprNode) (s : CompilerState) :
    ∀ e ∈ registerBoth node node', KeepsRegistered s e := by
  intro e he ident hcollect
  subst hcollect
  simp [registerBoth] at he

/-- `(1, True)` and `(0x1, True)` -/
theorem constantRegistry_sound_tuple : ∃ s, Reaches step KeepsRegistered init s ∧
    s.registry.attributeForNode 1 (.tuple [.int ['0', 'x', '1'], .bool true] false false) =
      some 0 ∧ s.CreatedAlike ∧ s.SharesWritten := by
  have hinit : Reaches step KeepsRegistered init init := .init
  have hs := hinit.foldlM
    (keepsRegistered_registerBoth (.tuple [.int ['1'], .bool true] false false)
      (.tuple [.int ['0', 'x', '1'], .bool true] false false)) rfl
  exact ⟨_, hs, rfl, constantRegistry_sound hs⟩

/-- `1.0` and `1.00` do not share a name, and `2` gets the one of `1` together with the identity
    of a collected node. -/
theorem constantRegistry_not_sound :
    (∃ s, Reaches step KeepsRegistered init s ∧ ¬s.SharesEqual) ∧
      ∃ s, Reaches step (fun _ _ => True) init s ∧ ¬s.CreatedAlike := by
  constructor
  · have hinit : Reaches step KeepsRegistered init init := .init
    have hs := hinit.foldlM
      (keepsRegistered_registerBoth (.float ['1', '.', '0']) (.float ['1', '.', '0', '0'])) rfl
    refine ⟨_, hs, fun hshares => ?_⟩
    have hconstant : (ExprNode.float ['1', '.', '0']).constant =
        (ExprNode.float ['1', '.', '0', '0']).constant := by
      have hvalue : (Decimal.mk 10 (-1)).value = (Decimal.mk 100 (-2)).value :=
        Subtype.ext (by norm_num [Decimal.value])
      exact congrArg (fun q => some (Constant.float (binary64.round false q))) hvalue
    exact absurd (hshares 0 1 _ _ rfl rfl hconstant) (by decide)
  · have hinit : Reaches step (fun _ _ => True) init init := .init
    have hmeets : ∀ s : CompilerState, ∀ e ∈ registerBoth (.int ['1']) (.int ['1']) ++
        [.collect 1, .create 1 (.int ['2'])],
        (fun (_ : CompilerState) (_ : CompilerEvent) => True) s e := fun _ _ _ => trivial
    have hs := hinit.foldlM hmeets rfl
    refine ⟨_, hs, fun hcreated => ?_⟩
    obtain ⟨first, hmem, -, hconstant⟩ := hcreated 1 (.int ['2']) 0 rfl rfl
    obtain rfl : first = (0, .int ['1']) := congrArg Prod.snd (List.mem_singleton.1 hmem)
    have hints : (1 : ℤ) = 2 := Constant.int.inj (Option.some.inj hconstant)
    exact absurd hints (by decide)

end CompilerState

end AHPy.ModuleWriter
