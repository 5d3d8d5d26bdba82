import AHPy.Lib.NumberTexts
import AHPy.Lib.OrderedDict
import AHPy.Lib.Runs
import AHPy.ModuleWriter.NativeScalars

/-!
# The cache of constants

Immutable literals get names under which a module keeps their objects
(`_HPyConstantRegistry`). A name is found by the identity of a node, or by a key:
a tuple of Python with a tag and a value, compared as Python compares tuples
(`PyKey.eq`).

* `ExprNode.constantKey`: the key of a node;
* `ConstantRegistry.registerNode`, `attributeForNode`: the operations;
* `ExprNode.constant`: what a node denotes;
* `CompilerEvent`: registrations and queries, while nodes come and go.
-/

namespace AHPy.ModuleWriter

/-! ## Keys -/

/-- The values that keys consist of. -/
inductive PyKey where
  | str (s : List Char)
  | int (n : ℤ)
  | bool (b : Bool)
  | bytes (data : List UInt8)
  | tuple (items : List PyKey)

namespace PyKey

mutual

/-- The equality of Python: a truth value is equal to the integer that it is. -/
def eq : PyKey → PyKey → Bool
  | .str s, .str s' => s = s'
  | .int n, .int n' => n = n'
  | .bool b, .bool b' => b = b'
  | .int n, .bool b => n = b.toInt
  | .bool b, .int n => b.toInt = n
  | .bytes data, .bytes data' => data = data'
  | .tuple items, .tuple items' => eqItems items items'
  | _, _ => false

def eqItems : List PyKey → List PyKey → Bool
  | [], [] => true
  | k :: ks, k' :: ks' => eq k k' && eqItems ks ks'
  | _, _ => false

end

end PyKey

/-! ## Nodes -/

/-- Literal nodes, and nodes of the other types. Texts are lists of characters, those of strings
    may have surrogates. -/
inductive ExprNode where
  | none
  | bool (value : Bool)
  | int (value : List Char)
  | float (value : List Char)
  | imag (value : List Char)
  | unicode (value : List Char)
  | bytes (value : List UInt8)
  /-- With a factor that it is multiplied by, or with items that are unpacked, or without. -/
  | tuple (args : List ExprNode) (multFactor unpackedItems : Bool)
  | other (isStarred : Bool)

namespace ExprNode

def isStarred : ExprNode → Bool
  | .other starred => starred
  | _ => false

/-- `("tag", value)` -/
def tagged (tag : List Char) (value : PyKey) : PyKey := .tuple [.str tag, value]

mutual

def constantKey : ExprNode → Option PyKey
  | .none => some (.tuple [.str ['n', 'o', 'n', 'e']])
  | .bool value => some (tagged ['b', 'o', 'o', 'l'] (.bool value))
  | .int value => (pyInt value).map fun n => tagged ['i', 'n', 't'] (.int n)
  | .float value => some (tagged ['f', 'l', 'o', 'a', 't'] (.str value))
  | .imag value => some (tagged ['i', 'm', 'a', 'g'] (.str value))
  | .unicode value => some (tagged ['u', 'n', 'i', 'c', 'o', 'd', 'e'] (.str value))
  | .bytes value => some (tagged ['b', 'y', 't', 'e', 's'] (.bytes value))
  | .tuple args multFactor unpackedItems =>
    if multFactor ∨ unpackedItems ∨ args.any isStarred then Option.none
    else (itemKeys args).map fun keys => tagged ['t', 'u', 'p', 'l', 'e'] (.tuple keys)
  | .other _ => Option.none

def itemKeys : List ExprNode → Option (List PyKey)
  | [] => some []
  | arg :: args => do
    let key ← constantKey arg
    let keys ← itemKeys args
    return key :: keys

end

end ExprNode

/-! ## The registry -/

/-- `_HPyConstantRegistry`; the identity of a node is a number. The entries hold their nodes. -/
structure ConstantRegistry where
  entries : List (ℕ × ℕ × ExprNode)
  keyToAttribute : List (PyKey × ℕ)
  nodeAttributes : OrderedDict ℕ ℕ

namespace ConstantRegistry

def empty : ConstantRegistry := ⟨[], [], .empty⟩

variable (r : ConstantRegistry)

/-- `self._key_to_attribute.get(key)` -/
def attributeOfKey (key : PyKey) : Option ℕ :=
  (r.keyToAttribute.find? fun e => e.1.eq key).map Prod.snd

/-- The number of the attribute for a node, under the prefix, and the registry after it. -/
def registerNode (ident : ℕ) (node : ExprNode) : Option ℕ × ConstantRegistry :=
  match node.constantKey with
  | none => (none, r)
  | some key =>
    match r.attributeOfKey key with
    | some attr => (some attr, { r with nodeAttributes := r.nodeAttributes.set ident attr })
    | none =>
      let attr := r.entries.length
      (some attr,
        { entries := r.entries ++ [(attr, ident, node)]
          keyToAttribute := r.keyToAttribute ++ [(key, attr)]
          nodeAttributes := r.nodeAttributes.set ident attr })

def attributeForNode (ident : ℕ) (node : ExprNode) : Option ℕ :=
  match r.nodeAttributes.get? ident with
  | some attr => some attr
  | none => node.constantKey.bind r.attributeOfKey

end ConstantRegistry

/-! ## Constants -/

/-- Constants of Python, with floating-point numbers of type `F`. -/
inductive Constant (F : Type) where
  | none
  | bool (b : Bool)
  | int (n : ℤ)
  | float (x : F)
  /-- A complex number with a real part of zero. -/
  | imaginary (x : F)
  | str (s : List Char)
  | bytes (data : List UInt8)
  | tuple (items : List (Constant F))

namespace ExprNode

variable {F : Type} (float : List Char → Option F)

mutual

/-- The type and the value of the object that a node denotes, if it is a constant. -/
def denotes : ExprNode → Option (Constant F)
  | .none => some .none
  | .bool value => some (.bool value)
  | .int value => (pyInt value).map .int
  | .float value => (float value).map .float
  | .imag value => (float value).map .imaginary
  | .unicode value => some (.str value)
  | .bytes value => some (.bytes value)
  | .tuple args multFactor unpackedItems =>
    if multFactor ∨ unpackedItems then Option.none else (denoteAll args).map .tuple
  | .other _ => Option.none

def denoteAll : List ExprNode → Option (List (Constant F))
  | [] => some []
  | arg :: args => do
    let c ← denotes arg
    let cs ← denoteAll args
    return c :: cs

end

/-- The constant that a node denotes. -/
def constant : ExprNode → Option (Constant (FloatValue binary64)) := denotes (pyFloat binary64)

/-- The constant with the texts of the floating-point numbers in place of their values. -/
def written : ExprNode → Option (Constant (List Char)) := denotes some

end ExprNode

/-! ## Runs -/

/-- The nodes that are alive, by their identities, and the registry. -/
structure CompilerState where
  nodes : ℕ → Option ExprNode
  registry : ConstantRegistry

inductive CompilerEvent where
  /-- A node gets an identity that no node has. -/
  | create (ident : ℕ) (node : ExprNode)
  /-- A node that no entry holds is collected. -/
  | collect (ident : ℕ)
  | register (ident : ℕ)
  | query (ident : ℕ)

namespace CompilerState

def init : CompilerState := ⟨fun _ => none, .empty⟩

/-- The state after an event that can happen, with the attribute that is returned. -/
def step (s : CompilerState) : CompilerEvent → Option (CompilerState × Option ℕ)
  | .create ident node =>
    match s.nodes ident with
    | none => some ({ s with nodes := Function.update s.nodes ident (some node) }, none)
    | some _ => none
  | .collect ident =>
    if s.registry.entries.any fun e => e.2.1 = ident then none
    else some ({ s with nodes := Function.update s.nodes ident none }, none)
  | .register ident =>
    (s.nodes ident).map fun node =>
      let (attr, registry) := s.registry.registerNode ident node
      ({ s with registry }, attr)
  | .query ident =>
    (s.nodes ident).map fun node => (s, s.registry.attributeForNode ident node)

end CompilerState

end AHPy.ModuleWriter
