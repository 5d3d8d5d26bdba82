import AHPy.MemoryView.Slicing

/-!
# Expanded indices

The objects that a memoryview is indexed with (`__getitem__`, `_unellipsify`, `get_item_pointer`
and `pybuffer_index` of `MemoryView.pyx`): Ellipses and missing indices are replaced with full
slices, and then the dimensions are read at the positions of the items.

* `unellipsify`: the expansion;
* `getItem`: the expansion, and the reads of the dimensions;
* `meets_iff`: when there is one item for each dimension, and nothing else is read.
-/

namespace AHPy.MemoryView

open ModuleWriter (SsizeType)

variable {t : SsizeType}

/-- An item of an index. Slices have the values of their parts, `None` if they have none. -/
inductive Item where
  | ellipsis
  | integer (index : ℤ)
  | slice (start stop step : Option ℤ)
  /-- An object of a type without `__index__`. -/
  | other (typeName : String)
deriving DecidableEq

/-- `slice(None)` -/
def Item.full : Item := .slice none none none

/-- An index. -/
inductive IndexObject where
  | item (item : Item)
  | tuple (items : List Item)

inductive IndexingError where
  | typeError (message : String)
  | overflowError
  /-- The `IndexError` of a list. -/
  | listAssignment
  /-- The `IndexError` of `pybuffer_index`. -/
  | outOfBounds (dim : Nat)
  | slice (e : SliceError)
  | attributeError
  /-- Shape, strides or suboffsets are read behind their end. -/
  | readsBeyond (dim : Nat)
deriving DecidableEq

namespace IndexingError

def message : IndexingError → String
  | typeError message => message
  | overflowError => "Python int too large to convert to C ssize_t"
  | listAssignment => "list assignment index out of range"
  | outOfBounds dim => s!"Out of bounds on buffer access (axis {dim})"
  | slice e => e.message
  | attributeError => ""
  | readsBeyond _ => ""

/-- The exception is an `IndexError`. -/
def IsIndexError : IndexingError → Prop
  | listAssignment => True
  | outOfBounds _ => True
  | slice (.indexOutOfBounds _) => True
  | _ => False

end IndexingError

/-! ## Expansion -/

namespace Item

def isEllipsis : Item → Bool
  | ellipsis => true
  | _ => false

def isSlice : Item → Bool
  | slice _ _ _ => true
  | _ => false

/-- `_err_invalid_index`, where it is called. -/
def check : Item → Except IndexingError Unit
  | other typeName => .error (.typeError s!"Cannot index with type '{typeName}'")
  | _ => .ok ()

end Item

/-- `result[idx] = item` -/
def setItem (result : List Item) (idx : ℤ) (item : Item) : Except IndexingError (List Item) :=
  let n := if idx ≥ 0 then idx else idx + result.length
  if 0 ≤ n ∧ n < result.length then .ok (result.set n.toNat item) else .error .listAssignment

/-- Items are assigned from `idx` on, but for Ellipses. -/
def setItems : List Item → ℤ → List Item → Except IndexingError (List Item)
  | result, _, [] => .ok result
  | result, idx, .ellipsis :: items => setItems result (idx + 1) items
  | result, idx, item :: items => do
    let result ← setItem result idx item
    setItems result (idx + 1) items

/-- The items before the first Ellipsis. -/
def beforeEllipsis (items : List Item) : List Item := items.takeWhile (!·.isEllipsis)

/-- The first Ellipsis, if there is one, and what follows it. -/
def fromEllipsis (items : List Item) : List Item := items.dropWhile (!·.isEllipsis)

/-- `_unellipsify_index_tuple` -/
def unellipsifyIndexTuple (indexTuple : List Item) (ndim : Nat) :
    Except IndexingError (Bool × List Item) := do
  indexTuple.forM Item.check
  match fromEllipsis indexTuple with
  | _ :: items =>
    let result ← setItems (List.replicate ndim .full) 0 (beforeEllipsis indexTuple)
    let indicesFromEllipsis : ℤ := items.length + 1
    let result ← setItems result (ndim - indicesFromEllipsis + 1) items
    return (true, result)
  | [] =>
    if ndim > indexTuple.length then
      return (true, indexTuple ++ List.replicate (ndim - indexTuple.length) .full)
    else return (indexTuple.any Item.isSlice, indexTuple)

/-- `_unellipsify` -/
def unellipsify (ndim : Nat) : IndexObject → Except IndexingError (Bool × List Item)
  | .item .ellipsis => .ok (true, List.replicate ndim .full)
  | .tuple items => unellipsifyIndexTuple items ndim
  | .item index => do
    index.check
    if ndim = 1 then return (index.isSlice, [index])
    else if ndim = 2 then return (true, [index, .full])
    else return (true, index :: List.replicate (ndim - 1) .full)

/-! ## Reads -/

/-- A memoryview object, with the dimensions of its buffer or slice. -/
structure Indexed (t : SsizeType) where
  view : View
  data : ℤ
  dims : List (Dimension t)
  length_dims : dims.length = view.ndim
  ndim_pos : 0 < view.ndim

/-- The conversion to `Py_ssize_t`. -/
def asSsize (t : SsizeType) (v : ℤ) : Except IndexingError t.Value :=
  if h : t.InRange v then .ok ⟨v, h⟩ else .error .overflowError

/-- A part of a slice. -/
def asBound (t : SsizeType) : Option ℤ → Except IndexingError (Option t.Value)
  | none => .ok none
  | some v => do return some (← asSsize t v)

/-- What a dimension is indexed with. -/
def Item.toIndex (t : SsizeType) : Item → Except IndexingError (Index t)
  | integer index => do return .integer (← asSsize t index)
  | slice start stop step => do
    let start ← asBound t start
    let stop ← asBound t stop
    let step ← asBound t step
    return .slice ⟨start, stop, step⟩
  | _ => .error .attributeError

/-- `shape[dim]`, `strides[dim]` and `suboffsets[dim]` -/
def readDimension (dims : List (Dimension t)) (dim : Nat) : Except IndexingError (Dimension t) :=
  match dims[dim]? with
  | some d => .ok d
  | none => .error (.readsBeyond dim)

/-- `pybuffer_index` -/
def pybufferIndex (memory : ℤ → ℤ) (dims : List (Dimension t)) (bufp index : ℤ) (dim : Nat) :
    Except IndexingError ℤ := do
  let d ← readDimension dims dim
  let index := if index < 0 then index + d.shape else index
  if index < 0 ∨ index ≥ d.shape then throw (.outOfBounds dim)
  else
    let offset ← (ssize t (index * d.stride)).mapError .slice
    let resultp := bufp + offset
    return if (d.suboffset : ℤ) ≥ 0 then memory resultp + d.suboffset else resultp

/-- `get_item_pointer`, from the dimension `dim` on. -/
def getItemPointer (memory : ℤ → ℤ) (dims : List (Dimension t)) :
    List Item → (dim : Nat) → ℤ → Except IndexingError ℤ
  | [], _, itemp => .ok itemp
  | .integer index :: items, dim, itemp => do
    let index ← asSsize t index
    let itemp ← pybufferIndex memory dims itemp index dim
    getItemPointer memory dims items (dim + 1) itemp
  | _ :: _, _, _ => .error (.typeError "an integer is required")

/-- The loop of `memview_slice`, with the reads of the dimensions. -/
def sliceItems (memory : ℤ → ℤ) (dims : List (Dimension t)) :
    List Item → (dim : Nat) → Slicing → Except IndexingError Slicing
  | [], _, s => .ok s
  | item :: items, dim, s => do
    let index ← item.toIndex t
    let d ← readDimension dims dim
    let s ← (sliceMemviewslice memory s d dim index).mapError .slice
    sliceItems memory dims items (dim + 1) s

/-- What is looked up: the memoryview itself, a slice of it, or an item. -/
inductive Looked where
  | itself
  | sliced (s : Slicing)
  | item (itemp : ℤ)

theorem lt_of_mem_none : ∀ dim ∈ (none : Option Nat), dim < 0 := fun _ h => by cases h

/-- The common part of `__getitem__` and `__setitem__`. -/
def lookUp (memory : ℤ → ℤ) (m : Indexed t) (index : IndexObject) :
    Except IndexingError Looked := do
  let (haveSlices, indices) ← unellipsify m.view.ndim index
  if haveSlices then
    return .sliced (← sliceItems memory m.dims indices 0
      ⟨⟨m.view, m.data, fun _ => 0, fun _ => 0, fun _ => 0⟩, 0, none, lt_of_mem_none⟩)
  else return .item (← getItemPointer memory m.dims indices 0 m.data)

/-- `__getitem__`, up to the conversion of the item. -/
def getItem (memory : ℤ → ℤ) (m : Indexed t) : IndexObject → Except IndexingError Looked
  | .item .ellipsis => .ok .itself
  | .item (.integer i) =>
    if m.view.ndim = 1 then do
      let i ← asSsize t i
      return .item (← pybufferIndex memory m.dims m.data i 0)
    else lookUp memory m (.item (.integer i))
  | index => lookUp memory m index

/-! ## What an index means -/

def IndexObject.items : IndexObject → List Item
  | item x => [x]
  | tuple items => items

/-- The items after the first Ellipsis, and after others that directly follow it. -/
def afterEllipsis (items : List Item) : List Item := (fromEllipsis items).dropWhile Item.isEllipsis

/-- A later Ellipsis is one full slice. -/
def Item.expanded : Item → Item
  | ellipsis => full
  | item => item

/-- There is an item for each dimension: the first ones are those before the Ellipsis, the last
    ones those after it. -/
structure Expands (ndim : Nat) (items result : List Item) : Prop where
  length_eq : result.length = ndim
  parts : ∃ k, result = beforeEllipsis items ++ List.replicate k .full ++
    (afterEllipsis items).map Item.expanded

/-- The index is expanded to an item for each dimension, or an exception is raised: an
    `IndexError`, if there are too many items. Nothing is read behind the last dimension. -/
structure Meets (memory : ℤ → ℤ) (m : Indexed t) (index : IndexObject) : Prop where
  expands : ∀ haveSlices indices, unellipsify m.view.ndim index = .ok (haveSlices, indices) →
    Expands m.view.ndim index.items indices
  raises : (∀ item ∈ index.items, item.check = .ok ()) →
    m.view.ndim < (index.items.filter (!·.isEllipsis)).length →
      ∃ e, getItem memory m index = .error e ∧ e.IsIndexError
  reads : ∀ dim, getItem memory m index ≠ .error (.readsBeyond dim) ∧
    lookUp memory m index ≠ .error (.readsBeyond dim)

/-- The items fit the dimensions, or `_unellipsify` raises: there are too many items before the
    Ellipsis, or those after it are more than twice the dimensions. -/
def Fits (ndim : Nat) (items : List Item) : Prop :=
  (∃ item ∈ items, item.check ≠ .ok ()) ∨
    (beforeEllipsis items).length + (afterEllipsis items).length ≤ ndim ∨
      .ellipsis ∈ items ∧
        (ndim < (beforeEllipsis items).length ∨ 2 * ndim < (afterEllipsis items).length)

/-! ## Assignments to the list -/

section

variable {result items : List Item} {idx : ℤ} {item : Item} {ndim : Nat}

theorem setItems_cons : setItems result idx (item :: items) =
    if item.isEllipsis then setItems result (idx + 1) items
    else (setItem result idx item).bind fun result => setItems result (idx + 1) items := by
  cases item <;> rfl

theorem setItem_of_nonneg (h : 0 ≤ idx) (hlt : idx < result.length) :
    setItem result idx item = .ok (result.set idx.toNat item) := by
  rw [setItem, if_pos (show idx ≥ 0 from h)]
  exact if_pos ⟨h, hlt⟩

theorem setItem_of_length_le (h : result.length ≤ idx) :
    setItem result idx item = .error .listAssignment := by
  rw [setItem, if_pos (show idx ≥ 0 by omega)]
  exact if_neg (by omega)

theorem setItem_of_lt_neg_length (h : idx < -result.length) :
    setItem result idx item = .error .listAssignment := by
  rw [setItem, if_neg (show ¬idx ≥ 0 by omega)]
  exact if_neg (by omega)

theorem exists_setItem (item : Item) (h : -result.length ≤ idx) (hlt : idx < result.length) :
    ∃ result', setItem result idx item = .ok result' ∧ result'.length = result.length := by
  by_cases hidx : idx ≥ 0
  · exact ⟨_, setItem_of_nonneg hidx hlt, List.length_set⟩
  · rw [setItem, if_neg hidx]
    exact ⟨_, if_pos (by omega), List.length_set⟩

/-- Full slices are replaced, from a position on. -/
theorem setItems_replicate (pre items post : List Item) :
    setItems (pre ++ List.replicate items.length .full ++ post) pre.length items =
      .ok (pre ++ items.map Item.expanded ++ post) := by
  induction items generalizing pre with
  | nil => simp [setItems]
  | cons item items ih =>
    have hsplit (x : Item) : pre ++ x :: List.replicate items.length Item.full ++ post =
        (pre ++ [x]) ++ List.replicate items.length Item.full ++ post := by simp
    have hlength (x : Item) : (pre.length : ℤ) + 1 = ((pre ++ [x]).length : ℤ) := by simp
    rw [List.length_cons, List.replicate_succ, setItems_cons]
    by_cases h : item.isEllipsis
    · have hitem : item.expanded = .full := by cases item <;> first | rfl | exact nomatch h
      rw [if_pos h, hsplit, hlength .full, ih, List.map_cons, hitem]
      simp
    · have hitem : item.expanded = item := by cases item <;> first | rfl | exact absurd rfl h
      rw [if_neg h, setItem_of_nonneg (by omega) (by simp; omega)]
      have hset : (pre ++ Item.full :: List.replicate items.length Item.full ++ post).set
          (pre.length : ℤ).toNat item =
            (pre ++ [item]) ++ List.replicate items.length Item.full ++ post := by simp
      rw [hset, Except.bind, hlength item, ih, List.map_cons, hitem]
      simp

/-- All positions are there, some of them counted from the end. -/
theorem exists_setItems (h : -result.length ≤ idx) (hle : idx + items.length ≤ result.length) :
    ∃ result', setItems result idx items = .ok result' ∧ result'.length = result.length := by
  induction items generalizing result idx with
  | nil => exact ⟨result, rfl, rfl⟩
  | cons item items ih =>
    rw [List.length_cons] at hle
    push_cast at hle
    rw [setItems_cons]
    split
    next => exact ih (by omega) (by omega)
    next =>
      obtain ⟨result', hitem, hlength⟩ := exists_setItem item h (by omega)
      rw [hitem, Except.bind, ← hlength]
      exact ih (by omega) (by omega)

/-- Too many items, none of them an Ellipsis. -/
theorem setItems_of_lt (hitems : ∀ item ∈ items, item.isEllipsis = false) (h : 0 ≤ idx)
    (hle : idx ≤ result.length) (hlt : result.length < idx + items.length) :
    setItems result idx items = .error .listAssignment := by
  induction items generalizing result idx with
  | nil =>
    rw [List.length_nil] at hlt
    omega
  | cons item items ih =>
    rw [List.length_cons] at hlt
    push_cast at hlt
    rw [setItems_cons, if_neg (by simp [hitems item List.mem_cons_self])]
    rcases eq_or_lt_of_le hle with heq | hlt'
    · rw [setItem_of_length_le heq.ge, Except.bind]
    · rw [setItem_of_nonneg h hlt', Except.bind]
      exact ih (fun x hx => hitems x (List.mem_cons_of_mem _ hx)) (by omega)
        (by rw [List.length_set]; omega) (by rw [List.length_set]; omega)

theorem setItems_ellipses (j : Nat) :
    setItems result idx (List.replicate j .ellipsis ++ items) =
      setItems result (idx + j) items := by
  induction j generalizing idx with
  | zero => simp
  | succ j ih =>
    rw [List.replicate_succ, List.cons_append, setItems, ih]
    congr 1
    push_cast
    ring

/-! ## The parts of an index -/

theorem exists_ellipses (items : List Item) :
    ∃ j, items = List.replicate j .ellipsis ++ items.dropWhile Item.isEllipsis := by
  induction items with
  | nil => exact ⟨0, rfl⟩
  | cons item items ih =>
    cases item with
    | ellipsis =>
      obtain ⟨j, hj⟩ := ih
      refine ⟨j + 1, ?_⟩
      rw [List.dropWhile_cons_of_pos rfl, List.replicate_succ, List.cons_append, ← hj]
    | _ => exact ⟨0, rfl⟩

theorem fromEllipsis_of_mem (h : .ellipsis ∈ items) :
    ∃ rest, fromEllipsis items = .ellipsis :: rest := by
  induction items with
  | nil => exact absurd h List.not_mem_nil
  | cons item items ih =>
    cases item with
    | ellipsis => exact ⟨items, rfl⟩
    | _ => exact ih (by simpa using h)

theorem parts_of_not_mem (h : .ellipsis ∉ items) :
    fromEllipsis items = [] ∧ beforeEllipsis items = items := by
  induction items with
  | nil => exact ⟨rfl, rfl⟩
  | cons item items ih =>
    rw [List.mem_cons, not_or] at h
    obtain ⟨hfrom, hbefore⟩ := ih h.2
    cases item with
    | ellipsis => exact absurd rfl h.1
    | _ => exact ⟨hfrom, congrArg _ hbefore⟩

theorem isEllipsis_of_mem_before (h : item ∈ beforeEllipsis items) : item.isEllipsis = false := by
  simpa using List.mem_takeWhile_imp h

/-- Ellipses apart, there are no more items than those. -/
theorem length_filter_le (items : List Item) : (items.filter (!·.isEllipsis)).length ≤
    (beforeEllipsis items).length + (afterEllipsis items).length := by
  obtain ⟨j, hj⟩ := exists_ellipses (fromEllipsis items)
  have hitems : items = beforeEllipsis items ++ fromEllipsis items :=
    List.takeWhile_append_dropWhile.symm
  have hellipses : (List.replicate j Item.ellipsis).filter (!·.isEllipsis) = [] := by
    rw [List.filter_replicate]
    rfl
  conv_lhs => rw [hitems, hj]
  rw [List.filter_append, List.filter_append, hellipses, List.nil_append, List.length_append]
  exact Nat.add_le_add (List.length_filter_le ..) (List.length_filter_le ..)

theorem forM_check (items : List Item) :
    items.forM Item.check = .ok () ∧ (∀ item ∈ items, item.check = .ok ()) ∨
      (∃ item ∈ items, item.check ≠ .ok ()) ∧
        ∃ message, items.forM Item.check = .error (.typeError message) := by
  induction items with
  | nil => exact Or.inl ⟨rfl, fun _ h => absurd h List.not_mem_nil⟩
  | cons item items ih =>
    have hcons : (item :: items).forM Item.check =
      item.check.bind fun _ => items.forM Item.check := rfl
    rw [hcons]
    cases item with
    | other typeName => exact Or.inr ⟨⟨_, List.mem_cons_self, nofun⟩, _, rfl⟩
    | _ =>
      rcases ih with ⟨h, hall⟩ | ⟨⟨item, hmem, hitem⟩, h⟩
      · exact Or.inl ⟨h, List.forall_mem_cons.2 ⟨rfl, hall⟩⟩
      · exact Or.inr ⟨⟨item, List.mem_cons_of_mem _ hmem, hitem⟩, h⟩

/-! ## The expansion of tuples -/

theorem unellipsifyIndexTuple_of_not_mem (hcheck : items.forM Item.check = .ok ())
    (h : .ellipsis ∉ items) : unellipsifyIndexTuple items ndim =
      if ndim > items.length then
        .ok (true, items ++ List.replicate (ndim - items.length) .full)
      else .ok (items.any Item.isSlice, items) := by
  rw [unellipsifyIndexTuple, hcheck, (parts_of_not_mem h).1]
  rfl

/-- What follows the Ellipses is assigned to the last positions. -/
theorem unellipsifyIndexTuple_of_mem (hcheck : items.forM Item.check = .ok ())
    (h : .ellipsis ∈ items) : unellipsifyIndexTuple items ndim =
      (setItems (List.replicate ndim .full) 0 (beforeEllipsis items)).bind fun result =>
        (setItems result (ndim - (afterEllipsis items).length) (afterEllipsis items)).bind
          fun result => .ok (true, result) := by
  obtain ⟨rest, hrest⟩ := fromEllipsis_of_mem h
  obtain ⟨j, hj⟩ := exists_ellipses rest
  have hafter : afterEllipsis items = rest.dropWhile Item.isEllipsis := by
    rw [afterEllipsis, hrest]
    rfl
  have hset (result : List Item) : setItems result (ndim - (rest.length + 1) + 1) rest =
      setItems result (ndim - (afterEllipsis items).length) (afterEllipsis items) := by
    rw [hafter]
    conv_lhs => rw [hj]
    rw [setItems_ellipses, List.length_append, List.length_replicate]
    congr 1
    push_cast
    ring
  rw [unellipsifyIndexTuple, hcheck, hrest]
  simp only [← hset]
  rfl

/-- The items fit: each one is where it belongs. -/
theorem unellipsifyIndexTuple_of_fits (hcheck : items.forM Item.check = .ok ())
    (h : .ellipsis ∈ items)
    (hfits : (beforeEllipsis items).length + (afterEllipsis items).length ≤ ndim) :
    unellipsifyIndexTuple items ndim = .ok (true, beforeEllipsis items ++ List.replicate
      (ndim - (beforeEllipsis items).length - (afterEllipsis items).length) .full ++
        (afterEllipsis items).map Item.expanded) := by
  have hlist : List.replicate ndim Item.full = [] ++ List.replicate (beforeEllipsis items).length
      Item.full ++ List.replicate (ndim - (beforeEllipsis items).length) Item.full := by
    rw [List.nil_append, List.replicate_append_replicate]
    congr 1
    omega
  have hbefore : setItems (List.replicate ndim .full) 0 (beforeEllipsis items) =
      .ok (beforeEllipsis items ++
        List.replicate (ndim - (beforeEllipsis items).length) .full) := by
    rw [hlist]
    refine (setItems_replicate [] _ _).trans ?_
    rw [List.nil_append, List.map_congr_left (fun item hitem => ?_), List.map_id]
    cases item with
    | ellipsis => exact nomatch isEllipsis_of_mem_before hitem
    | _ => rfl
  have hsplit : beforeEllipsis items ++
      List.replicate (ndim - (beforeEllipsis items).length) Item.full =
        (beforeEllipsis items ++ List.replicate
          (ndim - (beforeEllipsis items).length - (afterEllipsis items).length) Item.full) ++
            List.replicate (afterEllipsis items).length Item.full ++ [] := by
    rw [List.append_nil, List.append_assoc, List.replicate_append_replicate]
    congr 2
    omega
  have hidx : (ndim - (afterEllipsis items).length : ℤ) = (beforeEllipsis items ++ List.replicate
      (ndim - (beforeEllipsis items).length - (afterEllipsis items).length) Item.full).length := by
    rw [List.length_append, List.length_replicate]
    omega
  rw [unellipsifyIndexTuple_of_mem hcheck h, hbefore, Except.bind, hsplit, hidx,
    setItems_replicate, Except.bind, List.append_nil]

theorem exists_setItems_before (h : (beforeEllipsis items).length ≤ ndim) :
    ∃ result, setItems (List.replicate ndim .full) 0 (beforeEllipsis items) = .ok result ∧
      result.length = ndim := by
  obtain ⟨result, hresult, hlength⟩ : ∃ result,
      setItems (List.replicate ndim .full) 0 (beforeEllipsis items) = .ok result ∧
        result.length = (List.replicate ndim Item.full).length :=
    exists_setItems (by simp) (by rw [List.length_replicate]; omega)
  exact ⟨result, hresult, hlength.trans List.length_replicate⟩

/-- The items before the Ellipsis do not fit, or those after it are counted beyond the start. -/
theorem unellipsifyIndexTuple_raises (hcheck : items.forM Item.check = .ok ())
    (h : .ellipsis ∈ items)
    (hlt : ndim < (beforeEllipsis items).length ∨ 2 * ndim < (afterEllipsis items).length) :
    unellipsifyIndexTuple items ndim = .error .listAssignment := by
  rw [unellipsifyIndexTuple_of_mem hcheck h]
  by_cases hbefore : ndim < (beforeEllipsis items).length
  · rw [setItems_of_lt (fun item hitem => isEllipsis_of_mem_before hitem) le_rfl (by simp)
      (by simpa using hbefore), Except.bind]
  · obtain ⟨result, hresult, hlength⟩ := exists_setItems_before (not_lt.1 hbefore)
    have hafter := hlt.resolve_left hbefore
    rw [hresult, Except.bind]
    cases hitems : afterEllipsis items with
    | nil =>
      rw [hitems, List.length_nil] at hafter
      omega
    | cons item rest =>
      have hitem : ¬item.isEllipsis := by
        have hhead := List.head?_dropWhile_not Item.isEllipsis (fromEllipsis items)
        rw [← afterEllipsis, hitems] at hhead
        simpa using hhead
      rw [hitems] at hafter
      rw [setItems_cons, if_neg hitem, setItem_of_lt_neg_length (by rw [hlength]; omega)]
      rfl

/-- Otherwise there is a result, in which some items are lost. -/
theorem unellipsifyIndexTuple_ok (hcheck : items.forM Item.check = .ok ())
    (h : .ellipsis ∈ items) (hbefore : (beforeEllipsis items).length ≤ ndim)
    (hafter : (afterEllipsis items).length ≤ 2 * ndim) :
    ∃ result, unellipsifyIndexTuple items ndim = .ok (true, result) := by
  obtain ⟨result, hresult, hlength⟩ := exists_setItems_before hbefore
  obtain ⟨result', hresult', -⟩ : ∃ result',
      setItems result (ndim - (afterEllipsis items).length) (afterEllipsis items) = .ok result' ∧
        result'.length = result.length := exists_setItems (by omega) (by omega)
  refine ⟨result', ?_⟩
  rw [unellipsifyIndexTuple_of_mem hcheck h, hresult, Except.bind, hresult', Except.bind]

end

/-! ## Reads of dimensions -/

/-- Nothing is read behind the last dimension. -/
def ReadsWithin {α : Type} (x : Except IndexingError α) : Prop :=
  ∀ dim, x ≠ .error (.readsBeyond dim)

namespace ReadsWithin

variable {α β : Type} {memory : ℤ → ℤ} {dims : List (Dimension t)} {items : List Item} {dim : Nat}

theorem ok (a : α) : ReadsWithin (.ok a) := fun _ => nofun

theorem bind {x : Except IndexingError α} {f : α → Except IndexingError β} (hx : ReadsWithin x)
    (hf : ∀ a, ReadsWithin (f a)) : ReadsWithin (x >>= f) := by
  intro dim h
  cases x with
  | ok a => exact hf a dim h
  | error e => exact hx dim (congrArg Except.error (Except.error.inj h))

theorem mapError (x : Except SliceError α) : ReadsWithin (x.mapError .slice) := by
  intro dim h
  cases x with
  | ok a => exact nomatch h
  | error e => exact nomatch Except.error.inj h

theorem asSsize (v : ℤ) : ReadsWithin (asSsize t v) := by
  intro dim h
  rw [MemoryView.asSsize] at h
  split at h
  · exact nomatch h
  · exact nomatch Except.error.inj h

theorem asBound (v : Option ℤ) : ReadsWithin (asBound t v) := by
  cases v with
  | none => exact ok none
  | some v => exact (asSsize v).bind fun v => ok (some v)

theorem toIndex (item : Item) : ReadsWithin (item.toIndex t) := by
  cases item with
  | integer index => exact (asSsize index).bind fun v => ok _
  | slice start stop step =>
    exact (asBound start).bind fun _ => (asBound stop).bind fun _ => (asBound step).bind fun _ =>
      ok _
  | _ => exact fun dim h => nomatch Except.error.inj h

theorem readDimension (h : dim < dims.length) : ReadsWithin (readDimension dims dim) := by
  rw [MemoryView.readDimension, List.getElem?_eq_getElem h]
  exact ok _

theorem pybufferIndex (bufp index : ℤ) (h : dim < dims.length) :
    ReadsWithin (pybufferIndex memory dims bufp index dim) := by
  refine (readDimension h).bind fun d => ?_
  generalize hi : (if index < 0 then index + d.shape else index) = i
  by_cases hbounds : i < 0 ∨ i ≥ d.shape
  · simp only [if_pos hbounds]
    exact fun dim h => nomatch Except.error.inj h
  · simp only [if_neg hbounds]
    exact (mapError _).bind fun _ => ok _

theorem getItemPointer (itemp : ℤ) (h : dim + items.length ≤ dims.length) :
    ReadsWithin (getItemPointer memory dims items dim itemp) := by
  induction items generalizing dim itemp with
  | nil => exact ok itemp
  | cons item items ih =>
    rw [List.length_cons] at h
    cases item with
    | integer index =>
      exact (asSsize index).bind fun i => (pybufferIndex itemp i (by omega)).bind fun itemp =>
        ih itemp (by omega)
    | _ => exact fun dim h => nomatch Except.error.inj h

theorem sliceItems (s : Slicing) (h : dim + items.length ≤ dims.length) :
    ReadsWithin (sliceItems memory dims items dim s) := by
  induction items generalizing dim s with
  | nil => exact ok s
  | cons item items ih =>
    rw [List.length_cons] at h
    exact (toIndex item).bind fun _ => (readDimension (by omega)).bind fun _ =>
      (mapError _).bind fun s => ih s (by omega)

end ReadsWithin

/-! ## The exact condition -/

section

variable {memory : ℤ → ℤ} {m : Indexed t} {index : IndexObject}

theorem readsWithin_lookUp (h : ∀ haveSlices indices,
    unellipsify m.view.ndim index = .ok (haveSlices, indices) → indices.length ≤ m.dims.length)
    (herror : ReadsWithin (unellipsify m.view.ndim index)) :
    ReadsWithin (lookUp memory m index) := by
  rw [lookUp]
  cases hresult : unellipsify m.view.ndim index with
  | error e => exact fun dim hdim => herror dim (hresult.trans (by rw [Except.error.inj hdim]))
  | ok result =>
    obtain ⟨haveSlices, indices⟩ := result
    have hlength := h _ _ hresult
    cases haveSlices with
    | true => exact (ReadsWithin.sliceItems _ (by omega)).bind fun _ => .ok _
    | false => exact (ReadsWithin.getItemPointer _ (by omega)).bind fun _ => .ok _

theorem readsWithin_getItem (h : ReadsWithin (lookUp memory m index)) :
    ReadsWithin (getItem memory m index) := by
  have hpos : 0 < m.dims.length := m.length_dims ▸ m.ndim_pos
  cases index with
  | tuple items => exact h
  | item item =>
    cases item with
    | ellipsis => exact .ok _
    | integer i =>
      rw [getItem]
      split
      · exact (ReadsWithin.asSsize i).bind fun i =>
          (ReadsWithin.pybufferIndex _ _ hpos).bind fun _ => .ok _
      · exact h
    | _ => exact h

/-- An item that is no tuple is followed by full slices. -/
theorem unellipsify_item (ndim : Nat) {item : Item} (hitem : item ≠ .ellipsis)
    (hcheck : item.check = .ok ()) : ∃ haveSlices, unellipsify ndim (.item item) =
      .ok (haveSlices, item :: List.replicate (ndim - 1) .full) := by
  have hresult : unellipsify ndim (.item item) =
      if ndim = 1 then .ok (item.isSlice, [item])
      else if ndim = 2 then .ok (true, [item, .full])
      else .ok (true, item :: List.replicate (ndim - 1) .full) := by
    cases item with
    | ellipsis => exact absurd rfl hitem
    | other => exact nomatch hcheck
    | _ => rfl
  rw [hresult]
  split_ifs with h₁ h₂
  · exact ⟨_, by rw [h₁]; rfl⟩
  · exact ⟨_, by rw [h₂]; rfl⟩
  · exact ⟨_, rfl⟩

theorem expands_of_not_mem {ndim : Nat} {items : List Item} (h : .ellipsis ∉ items)
    (hle : items.length ≤ ndim) :
    Expands ndim items (items ++ List.replicate (ndim - items.length) .full) := by
  obtain ⟨hfrom, hbefore⟩ := parts_of_not_mem h
  refine ⟨?_, ndim - items.length, ?_⟩
  · rw [List.length_append, List.length_replicate]
    omega
  · rw [hbefore, afterEllipsis, hfrom]
    exact (List.append_nil _).symm

theorem expands_item {ndim : Nat} {item : Item} {haveSlices : Bool} {indices : List Item}
    (hndim : 0 < ndim) (h : unellipsify ndim (.item item) = .ok (haveSlices, indices)) :
    Expands ndim [item] indices := by
  have hother (hitem : item ≠ .ellipsis) (hcheck : item.check = .ok ()) :
      Expands ndim [item] indices := by
    obtain ⟨haveSlices', hresult⟩ := unellipsify_item ndim hitem hcheck
    obtain ⟨-, rfl⟩ := Prod.mk.inj (Except.ok.inj (hresult.symm.trans h))
    exact expands_of_not_mem (by simpa using hitem.symm) hndim
  cases item with
  | ellipsis =>
    obtain ⟨-, rfl⟩ := Prod.mk.inj (Except.ok.inj h)
    exact ⟨List.length_replicate, ndim, by
      simp [beforeEllipsis, afterEllipsis, fromEllipsis, Item.isEllipsis]⟩
  | other => exact nomatch h
  | _ => exact hother nofun rfl

theorem readsWithin_unellipsify_item (ndim : Nat) (item : Item) :
    ReadsWithin (unellipsify ndim (.item item)) := by
  have hother (hitem : item ≠ .ellipsis) (hcheck : item.check = .ok ()) :
      ReadsWithin (unellipsify ndim (.item item)) := by
    obtain ⟨haveSlices, hresult⟩ := unellipsify_item ndim hitem hcheck
    rw [hresult]
    exact .ok _
  cases item with
  | ellipsis => exact .ok _
  | other => exact fun dim h => nomatch Except.error.inj h
  | _ => exact hother nofun rfl

theorem fits_item {ndim : Nat} (hndim : 0 < ndim) (item : Item) : Fits ndim [item] := by
  cases item with
  | ellipsis => exact Or.inr (Or.inl (Nat.zero_le _))
  | _ => exact Or.inr (Or.inl hndim)

/-- The expansion of a tuple that fits, or an exception. -/
theorem unellipsifyIndexTuple_cases {ndim : Nat} {items : List Item} (h : Fits ndim items) :
    (∃ message, unellipsifyIndexTuple items ndim = .error (.typeError message)) ∧
        (∃ item ∈ items, item.check ≠ .ok ()) ∨
      unellipsifyIndexTuple items ndim = .error .listAssignment ∨
        (∃ haveSlices indices, unellipsifyIndexTuple items ndim = .ok (haveSlices, indices) ∧
          Expands ndim items indices) ∧
            (beforeEllipsis items).length + (afterEllipsis items).length ≤ ndim := by
  rcases forM_check items with ⟨hcheck, hall⟩ | ⟨hother, message, hcheck⟩
  · have hnot : ¬∃ item ∈ items, item.check ≠ .ok () :=
      fun ⟨item, hmem, hitem⟩ => hitem (hall item hmem)
    rcases h.resolve_left hnot with hle | ⟨hmem, hlt⟩
    · refine Or.inr (Or.inr ⟨?_, hle⟩)
      by_cases hmem : .ellipsis ∈ items
      · refine ⟨_, _, unellipsifyIndexTuple_of_fits hcheck hmem hle, ?_, _, rfl⟩
        rw [List.length_append, List.length_append, List.length_replicate, List.length_map]
        omega
      · have hle' : items.length ≤ ndim := by
          rw [(parts_of_not_mem hmem).2] at hle
          omega
        have hexpands := expands_of_not_mem hmem hle'
        rw [unellipsifyIndexTuple_of_not_mem hcheck hmem]
        split
        next => exact ⟨_, _, rfl, hexpands⟩
        next hlt =>
          refine ⟨_, _, rfl, ?_⟩
          rwa [Nat.sub_eq_zero_of_le (by omega), List.replicate_zero, List.append_nil]
            at hexpands
    · exact Or.inr (Or.inl (unellipsifyIndexTuple_raises hcheck hmem hlt))
  · refine Or.inl ⟨⟨message, ?_⟩, hother⟩
    rw [unellipsifyIndexTuple, hcheck]
    rfl

/-- A tuple that does not fit gives a list that is none of its expansions. -/
theorem fits_of_expands {ndim : Nat} {items : List Item}
    (h : ∀ haveSlices indices, unellipsifyIndexTuple items ndim = .ok (haveSlices, indices) →
      Expands ndim items indices) : Fits ndim items := by
  rcases forM_check items with ⟨hcheck, -⟩ | ⟨hother, -⟩
  swap
  · exact Or.inl hother
  refine Or.inr ?_
  by_cases hmem : .ellipsis ∈ items
  · by_contra hfits
    rw [not_or, not_and_or, not_or] at hfits
    obtain ⟨hlt, hle⟩ := hfits
    obtain ⟨hbefore, hafter⟩ := hle.resolve_left (fun h => h hmem)
    obtain ⟨result, hresult⟩ :=
      unellipsifyIndexTuple_ok hcheck hmem (not_lt.1 hbefore) (not_lt.1 hafter)
    obtain ⟨hlength, k, hparts⟩ := h _ _ hresult
    rw [hparts, List.length_append, List.length_append, List.length_replicate,
      List.length_map] at hlength
    omega
  · obtain ⟨hfrom, hbefore⟩ := parts_of_not_mem hmem
    refine Or.inl ?_
    rw [hbefore, afterEllipsis, hfrom]
    by_contra hlt
    have hlength : ¬ndim > items.length := fun h => hlt h.le
    have hresult := (unellipsifyIndexTuple_of_not_mem hcheck hmem).trans (if_neg hlength)
    exact hlt (h _ _ hresult).length_eq.le

/-- An index is expanded to one item for each dimension, or raises, and reads within the
    dimensions, exactly if it fits. -/
theorem meets_iff (memory : ℤ → ℤ) (m : Indexed t) (index : IndexObject) :
    Meets memory m index ↔ Fits m.view.ndim index.items := by
  have hpos := m.ndim_pos
  have hreads (hexpands : ∀ haveSlices indices,
      unellipsify m.view.ndim index = .ok (haveSlices, indices) →
        Expands m.view.ndim index.items indices)
      (herror : ReadsWithin (unellipsify m.view.ndim index)) (dim : Nat) :
      getItem memory m index ≠ .error (.readsBeyond dim) ∧
        lookUp memory m index ≠ .error (.readsBeyond dim) := by
    have hlookUp : ReadsWithin (lookUp memory m index) :=
      readsWithin_lookUp (fun haveSlices indices h =>
        ((hexpands _ _ h).length_eq.trans m.length_dims.symm).le) herror
    exact ⟨readsWithin_getItem hlookUp dim, hlookUp dim⟩
  cases index with
  | item item =>
    refine iff_of_true ⟨fun _ _ => expands_item hpos, fun _ hlt => ?_,
      hreads (fun _ _ => expands_item hpos) ?_⟩ ?_
    · have hle := List.length_filter_le (!·.isEllipsis) (IndexObject.item item).items
      rw [IndexObject.items, List.length_singleton] at hle
      rw [IndexObject.items] at hlt
      omega
    · exact readsWithin_unellipsify_item m.view.ndim item
    · exact fits_item hpos item
  | tuple items =>
    refine ⟨fun h => fits_of_expands h.expands, fun h => ?_⟩
    rcases unellipsifyIndexTuple_cases h with ⟨⟨message, herror⟩, item, hmem, hitem⟩ | herror |
      ⟨⟨haveSlices, indices, hok, hexpands⟩, hle⟩
    · have hresult : unellipsify m.view.ndim (.tuple items) = .error (.typeError message) := herror
      refine ⟨fun _ _ h => ?_, fun hall => absurd (hall item hmem) hitem, hreads ?_ ?_⟩
      · exact nomatch hresult.symm.trans h
      · exact fun _ _ h => nomatch hresult.symm.trans h
      · exact fun dim h => nomatch Except.error.inj (hresult.symm.trans h)
    · have hresult : unellipsify m.view.ndim (.tuple items) = .error .listAssignment := herror
      refine ⟨fun _ _ h => ?_, fun _ _ => ⟨.listAssignment, ?_, trivial⟩, hreads ?_ ?_⟩
      · exact nomatch hresult.symm.trans h
      · have hlookUp : lookUp memory m (.tuple items) = .error .listAssignment := by
          rw [lookUp, hresult]
          rfl
        exact hlookUp
      · exact fun _ _ h => nomatch hresult.symm.trans h
      · exact fun dim h => nomatch Except.error.inj (hresult.symm.trans h)
    · have hresult : unellipsify m.view.ndim (.tuple items) = .ok (haveSlices, indices) := hok
      have hall (haveSlices' indices') (h : unellipsify m.view.ndim (.tuple items) =
          .ok (haveSlices', indices')) : Expands m.view.ndim items indices' := by
        obtain ⟨-, rfl⟩ := Prod.mk.inj (Except.ok.inj (hresult.symm.trans h))
        exact hexpands
      refine ⟨hall, fun _ hlt => ?_, hreads hall fun dim h => nomatch hresult.symm.trans h⟩
      have hfilter := length_filter_le (IndexObject.tuple items).items
      omega

/-- A memoryview of two bytes. -/
def twoBytes : Indexed ModuleWriter.ssize64 where
  view := ⟨1, 1⟩
  data := 0
  dims := [⟨⟨2, by decide⟩, ⟨1, by decide⟩, ⟨-1, by decide⟩, by decide⟩]
  length_dims := rfl
  ndim_pos := by decide

/-- Two indices of one dimension: the second one is looked up behind its end. -/
theorem twoBytes_not_meets : ¬Meets (fun _ => 0) twoBytes (.tuple [.integer 0, .integer 0]) :=
  fun h => (h.reads 1).1 rfl

end

end AHPy.MemoryView
