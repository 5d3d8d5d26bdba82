import AHPy.MemoryView.CopyCorrectness
import AHPy.Lib.NestedLoops
import AHPy.Lib.ReferenceCounts

/-!
# References of object slices

The reference counts of the objects in slices, when slices are copied and assigned to
(`memoryview_copy_contents` and `slice_assign_scalar` of `MemoryView.pyx`): the references of the
destination are given up in one pass before the copy, and taken in another one after it.

* `memoryviewCopyContentsRefs`, `sliceAssignScalarRefs`: the operations on reference counts;
* `copyKeepsReferences_iff`, `assignKeepsReferences_iff`: no object that is copied is freed
  meanwhile exactly if it has another owner than the destination, or is not held by it.
-/

namespace AHPy.MemoryView

/-- An object, which is the bytes of the pointer to it. -/
abbrev Object := List UInt8

/-- The objects in the cells of a slice, in the order of `refcount_objects_in_slice`. -/
def cellObjects (slice : MemviewSlice) (ndim itemsize : Nat) (m : Memory) : List Object :=
  (nestedLoops slice.shape slice.strides ndim slice.data).map fun addr => bytesAt m addr itemsize

/-- `refcount_copying` -/
def refcountCopying (dst : MemviewSlice) (ndim itemsize : Nat) (inc : Bool) (m : Memory) :
    List (RefOp Object) :=
  (cellObjects dst ndim itemsize m).map (if inc then .incref else .decref)

/-! ## Copies -/

/-- The destination as it is copied to, unless a transposition raises an exception. -/
def copyTarget (src dst : MemviewSlice) (ndim : Nat) (order : Order) (broadcasting : Bool) :
    Option MemviewSlice :=
  if ¬broadcasting ∧ directCopy src dst ndim then some dst
  else if order = .f ∧ getBestOrder dst ndim = .f then do
    let _ ← (transposeMemslice src).toOption
    (transposeMemslice dst).toOption
  else some dst

/-- The references that are taken after a copy, if it returns. -/
def takenRefs (target : MemviewSlice) (ndim itemsize : Nat) : Outcome → List (RefOp Object)
  | .returned m => refcountCopying target ndim itemsize true m
  | _ => []

/-- The passes around `copyDisjoint`. -/
def disjointRefs (srcSpace : Space) (src dst : MemviewSlice) (ndim itemsize : Nat) (order : Order)
    (broadcasting : Bool) (m : Memory) : List (RefOp Object) :=
  match copyTarget src dst ndim order broadcasting with
  | none => []
  | some target =>
    refcountCopying target ndim itemsize false m ++
      takenRefs target ndim itemsize
        (copyDisjoint srcSpace src dst ndim itemsize order broadcasting m)

/-- The passes of `copyVerified`. -/
def verifiedRefs (malloc : Nat → Option Int) (tmp src dst : MemviewSlice) (ndim : Nat)
    (order : Order) (broadcasting : Bool) (m : Memory) : List (RefOp Object) :=
  let itemsize := src.view.itemsize
  if slicesOverlap src dst ndim itemsize then
    let order := tempOrder src dst order ndim
    match malloc (sliceGetSize src ndim) with
    | none => []
    | some data =>
      let tmp := tempSlice src tmp data order ndim
      match copyToTemp src tmp order ndim m with
      | none => []
      | some m => disjointRefs .temp tmp dst ndim itemsize order broadcasting m
  else disjointRefs .heap src dst ndim itemsize order broadcasting m

/-- The operations of `memoryview_copy_contents` on reference counts. -/
def memoryviewCopyContentsRefs (malloc : Nat → Option Int) (tmp src dst : MemviewSlice)
    (srcNdim dstNdim : Nat) (m : Memory) : List (RefOp Object) :=
  let order := getBestOrder src srcNdim
  let slices := broadcastBoth src dst srcNdim dstNdim
  let ndim := max srcNdim dstNdim
  match (List.range ndim).foldlM (checkDim slices.2) (slices.1, false) with
  | .error _ => []
  | .ok (src, broadcasting) => verifiedRefs malloc tmp src slices.2 ndim order broadcasting m

/-! ## Scalars -/

/-- `memcpy(data, item, itemsize)` -/
def assignItem (item : Object) (m : Memory) (data : Int) : Memory := fun p =>
  if p.space = .heap ∧ data ≤ p.addr ∧ p.addr < data + item.length then
    item.getD (p.addr - data).toNat 0
  else m p

/-- `_slice_assign_scalar` -/
def sliceAssignScalar (dst : MemviewSlice) (ndim : Nat) (item : Object) (m : Memory) : Memory :=
  (nestedLoops dst.shape dst.strides ndim dst.data).foldl (assignItem item) m

/-- The operations of `slice_assign_scalar` on reference counts. -/
def sliceAssignScalarRefs (dst : MemviewSlice) (ndim : Nat) (item : Object) (m : Memory) :
    List (RefOp Object) :=
  refcountCopying dst ndim item.length false m ++
    refcountCopying dst ndim item.length true (sliceAssignScalar dst ndim item m)

/-! ## What is to be kept -/

/-- The objects of the source, which are those of a temporary copy, too. -/
def InSource (src : MemviewSlice) (srcNdim : Nat) (m : Memory) (o : Object) : Prop :=
  o ∈ cellObjects src srcNdim src.view.itemsize m

/-- What is said about a copy, whatever memory it may get: the counts change with the cells of the
    destination, and no object of the source is freed meanwhile. -/
structure CopyKeepsReferences (src dst : MemviewSlice) (srcNdim dstNdim : Nat) (m : Memory)
    (refs : Object → ℤ) : Prop where
  counts : ∀ malloc tmp m',
    (memoryviewCopyContents malloc tmp src dst srcNdim dstNdim m = .returned m' ∨
      ∃ e, memoryviewCopyContents malloc tmp src dst srcNdim dstNdim m = .raised e m') →
    ∀ o, refsAfter refs (memoryviewCopyContentsRefs malloc tmp src dst srcNdim dstNdim m) o =
      refs o - referencesTo o (cellObjects dst dstNdim src.view.itemsize m) +
        referencesTo o (cellObjects dst dstNdim src.view.itemsize m')
  alive : ∀ malloc tmp o, InSource src srcNdim m o →
    ¬ReachesZero refs (memoryviewCopyContentsRefs malloc tmp src dst srcNdim dstNdim m) o

/-- What is said about the assignment of an object to all cells. -/
structure AssignKeepsReferences (dst : MemviewSlice) (ndim : Nat) (item : Object) (m : Memory)
    (refs : Object → ℤ) : Prop where
  counts : ∀ o, refsAfter refs (sliceAssignScalarRefs dst ndim item m) o =
    refs o - referencesTo o (cellObjects dst ndim item.length m) +
      referencesTo o (cellObjects dst ndim item.length (sliceAssignScalar dst ndim item m))
  alive : ¬ReachesZero refs (sliceAssignScalarRefs dst ndim item m) item

/-- The object is in none of the cells, or it has more references than theirs. -/
def OwnedElsewhere (refs : Object → ℤ) (cells : List Object) (o : Object) : Prop :=
  o ∈ cells → referencesTo o cells < refs o

/-- If the slices may be transposed, they are direct and the transposition is one of their own
    dimensions. -/
structure TransposesWithin (src dst : MemviewSlice) (ndim : Nat) : Prop where
  src_le : src.view.ndim ≤ ndim
  dst_le : dst.view.ndim ≤ ndim
  direct : ∀ i < ndim, dst.suboffsets i < 0

/-! ## The cells of the destination -/

section

variable {src dst target : MemviewSlice} {ndim itemsize : Nat} {order : Order}
  {broadcasting : Bool} {space : Space} {m : Memory} {refs : Object → ℤ} {o : Object}

theorem not_reachesZero_exchange_iff {olds news : List Object} :
    ¬ReachesZero refs (olds.map .decref ++ news.map .incref) o ↔ OwnedElsewhere refs olds o := by
  rw [reachesZero_exchange_iff, OwnedElsewhere, not_and, not_le]

/-- A transposed slice has the same cells. -/
theorem cellObjects_reversed (hdst : dst.view.ndim ≤ ndim) (m : Memory) :
    (cellObjects { dst with
      shape := fun i => dst.shape (reverseDims dst.view.ndim i)
      strides := fun i => dst.strides (reverseDims dst.view.ndim i) } ndim itemsize m).Perm
        (cellObjects dst ndim itemsize m) := by
  obtain ⟨k, rfl⟩ := Nat.exists_eq_add_of_le hdst
  exact List.Perm.map _ (Multiset.coe_eq_coe.1
    (nestedLoops_reverse_outer dst.shape dst.strides dst.view.ndim k dst.data))

/-- The dimensions that are added have no further cells. -/
theorem cellObjects_extended {slice slice' : MemviewSlice} {lead : Nat}
    (h : Extended slice ndim slice' lead) (m : Memory) :
    cellObjects slice' (lead + ndim) itemsize m = cellObjects slice ndim itemsize m := by
  rw [cellObjects, cellObjects, nestedLoops_append_of_one fun i hi => (h.leading i hi).1, h.data]
  exact congrArg _ (nestedLoops_congr h.shape h.strides)

theorem cellObjects_checkedTarget {src dst : MemviewSlice} {srcNdim dstNdim : Nat} (m : Memory) :
    cellObjects (checkedTarget src dst srcNdim dstNdim) (max srcNdim dstNdim) itemsize m =
      cellObjects dst dstNdim itemsize m := by
  have hndim : max srcNdim dstNdim - dstNdim + dstNdim = max srcNdim dstNdim := by omega
  rw [← cellObjects_extended (broadcastBoth_spec src dst srcNdim dstNdim).2 m, hndim]
  rfl

theorem cellObjects_congr {m m' : Memory} (h : ∀ addr, m ⟨.heap, addr⟩ = m' ⟨.heap, addr⟩) :
    cellObjects dst ndim itemsize m = cellObjects dst ndim itemsize m' := by
  refine List.map_congr_left fun addr _ => ?_
  rw [bytesAt, bytesAt]
  exact List.map_congr_left fun b _ => h _

/-- What is copied to has the cells of the destination. -/
theorem exists_copyTarget (hsrc : ∀ i < ndim, src.suboffsets i < 0)
    (h : getBestOrder dst ndim = .f → TransposesWithin src dst ndim) :
    ∃ target, copyTarget src dst ndim order broadcasting = some target ∧
      ∀ m, (cellObjects target ndim itemsize m).Perm (cellObjects dst ndim itemsize m) := by
  rw [copyTarget]
  split_ifs with hdirect horder
  · exact ⟨dst, rfl, fun _ => .refl _⟩
  · obtain ⟨hsrc_le, hdst_le, hdst⟩ := h horder.2
    have htarget := @transposeMemslice_eq_ok dst fun i hi => hdst i (hi.trans_le hdst_le)
    rw [transposeMemslice_eq_ok fun i hi => hsrc i (hi.trans_le hsrc_le), htarget]
    exact ⟨_, rfl, cellObjects_reversed hdst_le⟩
  · exact ⟨dst, rfl, fun _ => .refl _⟩

/-- No transposition raises an exception. -/
theorem copyDisjoint_ne_raised (h : copyTarget src dst ndim order broadcasting = some target)
    (e : CopyError) (m' : Memory) :
    copyDisjoint space src dst ndim itemsize order broadcasting m ≠ .raised e m' := by
  have hofCopy (result : Option Memory) : Outcome.ofCopy result ≠ .raised e m' := by
    cases result <;> exact Outcome.noConfusion
  rw [copyTarget] at h
  rw [copyDisjoint]
  split_ifs at h ⊢ with hdirect horder
  · exact hofCopy _
  · cases hsrc : transposeMemslice src with
    | error _ =>
      rw [hsrc] at h
      cases h
    | ok src' =>
      cases hdst : transposeMemslice dst with
      | error _ =>
        rw [hsrc, hdst] at h
        cases h
      | ok dst' => exact hofCopy _
  · exact hofCopy _

/-- The operations exchange the references of the destination for others, which a copy that returns
    has put there. -/
structure Exchanges (dst : MemviewSlice) (ndim itemsize : Nat) (m : Memory)
    (ops : List (RefOp Object)) (outcome : Outcome) (olds news : List Object) : Prop where
  ops_eq : ops = olds.map .decref ++ news.map .incref
  olds_perm : olds.Perm (cellObjects dst ndim itemsize m)
  news_perm : ∀ m', outcome = .returned m' → news.Perm (cellObjects dst ndim itemsize m')
  not_raised : ∀ e m', outcome ≠ .raised e m'

theorem disjointRefs_exchanges (hsrc : ∀ i < ndim, src.suboffsets i < 0)
    (h : getBestOrder dst ndim = .f → TransposesWithin src dst ndim) (m : Memory) :
    ∃ olds news, Exchanges dst ndim itemsize m
      (disjointRefs space src dst ndim itemsize order broadcasting m)
      (copyDisjoint space src dst ndim itemsize order broadcasting m) olds news := by
  obtain ⟨target, htarget, hperm⟩ : ∃ target,
      copyTarget src dst ndim order broadcasting = some target ∧
        ∀ m, (cellObjects target ndim itemsize m).Perm (cellObjects dst ndim itemsize m) :=
    exists_copyTarget hsrc h
  have hraised := @copyDisjoint_ne_raised _ _ _ _ itemsize _ _ space m htarget
  rw [disjointRefs, htarget]
  cases houtcome : copyDisjoint space src dst ndim itemsize order broadcasting m with
  | returned m₁ =>
    refine ⟨_, _, rfl, hperm m, fun m' hm' => ?_, fun e m' => Outcome.noConfusion⟩
    obtain rfl := Outcome.returned.inj hm'
    exact hperm m₁
  | raised e m₁ => exact absurd houtcome (hraised e m₁)
  | undefined =>
    exact ⟨_, [], by simp [refcountCopying, takenRefs], hperm m, nofun,
      fun e m' => Outcome.noConfusion⟩

/-- The same, through the temporary copy: unless there is no memory for it. -/
theorem verifiedRefs_exchanges (hsrc : ∀ i < ndim, src.suboffsets i < 0)
    (h : getBestOrder dst ndim = .f → TransposesWithin src dst ndim)
    (malloc : Nat → Option Int) (tmp : MemviewSlice) (m : Memory) :
    (verifiedRefs malloc tmp src dst ndim order broadcasting m = [] ∧
        copyVerified malloc tmp src dst ndim order broadcasting m = .raised .noMemory m ∧
          ∃ n, malloc n = none) ∨
      ∃ olds news, Exchanges dst ndim src.view.itemsize m
        (verifiedRefs malloc tmp src dst ndim order broadcasting m)
        (copyVerified malloc tmp src dst ndim order broadcasting m) olds news := by
  rw [verifiedRefs, copyVerified]
  by_cases hoverlap : slicesOverlap src dst ndim src.view.itemsize
  · simp only [if_pos hoverlap]
    cases hdata : malloc (sliceGetSize src ndim) with
    | none => exact Or.inl ⟨rfl, rfl, _, hdata⟩
    | some data =>
      obtain ⟨m₁, hrun, -, hheap⟩ :=
        copyToTemp_spec src tmp data (tempOrder src dst order ndim) ndim m
      simp only [hrun]
      have hdirect : ∀ i < ndim,
          (tempSlice src tmp data (tempOrder src dst order ndim) ndim).suboffsets i < 0 :=
        fun i hi => (if_pos hi).trans_lt (by decide)
      obtain ⟨olds, news, hops, holds, hnews, hraised⟩ := @disjointRefs_exchanges _ _ _
        src.view.itemsize (tempOrder src dst order ndim) broadcasting .temp hdirect
        (fun horder => ⟨(h horder).src_le, (h horder).dst_le, (h horder).direct⟩) m₁
      exact Or.inr ⟨olds, news, hops, cellObjects_congr hheap ▸ holds, hnews, hraised⟩
  · simp only [Bool.eq_false_iff.2 hoverlap, Bool.false_eq_true, if_false]
    exact Or.inr (disjointRefs_exchanges hsrc h m)

end

/-! ## When the references are kept -/

section

variable {src dst : MemviewSlice} {srcNdim dstNdim : Nat} {m : Memory} {refs : Object → ℤ}

theorem memoryviewCopyContentsRefs_of_accepts (h : Accepts src dst srcNdim dstNdim)
    (malloc : Nat → Option Int) (tmp : MemviewSlice) (m : Memory) :
    memoryviewCopyContentsRefs malloc tmp src dst srcNdim dstNdim m =
      verifiedRefs malloc tmp (checkedSource src dst srcNdim dstNdim)
        (checkedTarget src dst srcNdim dstNdim) (max srcNdim dstNdim) (getBestOrder src srcNdim)
        (broadcasts src dst srcNdim dstNdim) m := by
  have hok := @checkDims_eq_ok (broadcastBoth src dst srcNdim dstNdim).2 _
    (List.nodup_range (n := max srcNdim dstNdim)) (broadcastBoth src dst srcNdim dstNdim).1 false
    fun i hi => h i (List.mem_range.1 hi)
  rw [Bool.false_or] at hok
  simp only [memoryviewCopyContentsRefs, hok]
  rfl

/-- A copy exchanges the references of the cells of the destination. -/
theorem memoryviewCopyContentsRefs_exchanges (haccepts : Accepts src dst srcNdim dstNdim)
    (hwithin : getBestOrder (checkedTarget src dst srcNdim dstNdim) (max srcNdim dstNdim) = .f →
      TransposesWithin (checkedSource src dst srcNdim dstNdim)
        (checkedTarget src dst srcNdim dstNdim) (max srcNdim dstNdim))
    (malloc : Nat → Option Int) (tmp : MemviewSlice) (m : Memory) :
    (memoryviewCopyContentsRefs malloc tmp src dst srcNdim dstNdim m = [] ∧
        memoryviewCopyContents malloc tmp src dst srcNdim dstNdim m = .raised .noMemory m ∧
          ∃ n, malloc n = none) ∨
      ∃ olds news, Exchanges dst dstNdim src.view.itemsize m
        (memoryviewCopyContentsRefs malloc tmp src dst srcNdim dstNdim m)
        (memoryviewCopyContents malloc tmp src dst srcNdim dstNdim m) olds news := by
  have hview : (checkedSource src dst srcNdim dstNdim).view = src.view :=
    (broadcastBoth_spec src dst srcNdim dstNdim).1.view
  have hsrc : ∀ i < max srcNdim dstNdim, (checkedSource src dst srcNdim dstNdim).suboffsets i < 0 :=
    fun i hi => (haccepts i hi).2
  rw [memoryviewCopyContentsRefs_of_accepts haccepts, memoryviewCopyContents_of_accepts haccepts]
  rcases verifiedRefs_exchanges hsrc hwithin malloc tmp m with
    h | ⟨olds, news, hops, holds, hnews, hraised⟩
  · exact Or.inl h
  · rw [hview, cellObjects_checkedTarget] at holds
    refine Or.inr ⟨olds, news, hops, holds, fun m' hm' => ?_, hraised⟩
    have hperm := hnews m' hm'
    rwa [hview, cellObjects_checkedTarget] at hperm

theorem copyKeepsReferences_iff (haccepts : Accepts src dst srcNdim dstNdim)
    (hwithin : getBestOrder (checkedTarget src dst srcNdim dstNdim) (max srcNdim dstNdim) = .f →
      TransposesWithin (checkedSource src dst srcNdim dstNdim)
        (checkedTarget src dst srcNdim dstNdim) (max srcNdim dstNdim)) :
    CopyKeepsReferences src dst srcNdim dstNdim m refs ↔ ∀ o, InSource src srcNdim m o →
      OwnedElsewhere refs (cellObjects dst dstNdim src.view.itemsize m) o := by
  have hexchange {ops : List (RefOp Object)} {outcome : Outcome} {olds news : List Object}
      (h : Exchanges dst dstNdim src.view.itemsize m ops outcome olds news) (o : Object) :
      ¬ReachesZero refs ops o ↔
        OwnedElsewhere refs (cellObjects dst dstNdim src.view.itemsize m) o := by
    rw [h.ops_eq, not_reachesZero_exchange_iff, OwnedElsewhere, OwnedElsewhere,
      referencesTo_perm h.olds_perm, h.olds_perm.mem_iff]
  constructor
  · intro h o ho
    -- With memory for the temporary copy, the references are exchanged.
    rcases memoryviewCopyContentsRefs_exchanges haccepts hwithin (fun _ => some 0) src m with
      ⟨-, -, n, hn⟩ | ⟨olds, news, hexchanges⟩
    · exact absurd hn (Option.some_ne_none 0)
    · exact (hexchange hexchanges o).1 (h.alive _ _ o ho)
  · intro h
    refine ⟨fun malloc tmp m' hm' o => ?_, fun malloc tmp o ho => ?_⟩
    · rcases memoryviewCopyContentsRefs_exchanges haccepts hwithin malloc tmp m with
        ⟨hops, hraised, -⟩ | ⟨olds, news, hops, holds, hnews, hraised⟩
      · -- Nothing is changed without memory.
        have hm : m' = m := by
          rcases hm' with hm' | ⟨e, hm'⟩
          · exact nomatch hraised.symm.trans hm'
          · exact (Outcome.raised.inj (hraised.symm.trans hm')).2.symm
        rw [hops, hm]
        exact (sub_add_cancel _ _).symm
      · have hreturned := hm'.resolve_right fun ⟨e, he⟩ => hraised e m' he
        rw [hops, refsAfter_exchange, referencesTo_perm holds,
          referencesTo_perm (hnews m' hreturned)]
    · rcases memoryviewCopyContentsRefs_exchanges haccepts hwithin malloc tmp m with
        ⟨hops, -, -⟩ | ⟨olds, news, hexchanges⟩
      · rw [hops]
        rintro ⟨before, after, heq, -⟩
        exact absurd heq.symm (by simp)
      · exact (hexchange hexchanges o).2 (h o ho)

theorem assignKeepsReferences_iff (dst : MemviewSlice) (ndim : Nat) (item : Object) (m : Memory)
    (refs : Object → ℤ) : AssignKeepsReferences dst ndim item m refs ↔
      OwnedElsewhere refs (cellObjects dst ndim item.length m) item := by
  have hops : sliceAssignScalarRefs dst ndim item m =
      (cellObjects dst ndim item.length m).map .decref ++
        (cellObjects dst ndim item.length (sliceAssignScalar dst ndim item m)).map .incref := rfl
  refine ⟨fun h => ?_, fun h => ⟨fun o => ?_, ?_⟩⟩
  · rw [← not_reachesZero_exchange_iff, ← hops]
    exact h.alive
  · rw [hops, refsAfter_exchange]
  · rw [hops, not_reachesZero_exchange_iff]
    exact h

end

/-! ## Two cells of three -/

/-- Two of the objects of an array, from one on. -/
def twoOfThree (first : Int) : MemviewSlice where
  view := ⟨1, 8⟩
  data := 8 * first
  shape _ := 2
  strides _ := 8
  suboffsets _ := -1

/-- Three different objects. -/
def threeObjects : Memory := fun p => if p.addr % 8 = 0 then (p.addr / 8).toNat.toUInt8 else 0

theorem accepts_twoOfThree (i j : Int) : Accepts (twoOfThree i) (twoOfThree j) 1 1 :=
  fun _ _ => ⟨Or.inl rfl, show (-1 : ℤ) < 0 by decide⟩

theorem bestOrder_twoOfThree (i j : Int) :
    getBestOrder (checkedTarget (twoOfThree i) (twoOfThree j) 1 1) (max 1 1) = .c := rfl

theorem cellObjects_twoOfThree :
    cellObjects (twoOfThree 0) 1 8 threeObjects =
        [[0, 0, 0, 0, 0, 0, 0, 0], [1, 0, 0, 0, 0, 0, 0, 0]] ∧
      cellObjects (twoOfThree 1) 1 8 threeObjects =
        [[1, 0, 0, 0, 0, 0, 0, 0], [2, 0, 0, 0, 0, 0, 0, 0]] :=
  ⟨rfl, rfl⟩

end AHPy.MemoryView
