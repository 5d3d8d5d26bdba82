import AHPy.MemoryView.Dimensions

/-!
# What is copied

When `memoryview_copy_contents` copies the contents of a slice to another.

* `copyToTemp_spec`: the temporary copy has the elements of the source;
* `copyDisjoint_spec`: they get to the destination, also through the transposed slices
  if the dimensions of these belong together (`Alike`);
* `memoryviewCopyContents_copies_iff`: the function is correct if and only if the
  destination can hold the elements at all.

The transposition takes the number of dimensions from the memoryview, not from the
slice, so it can take the dimensions of the two slices apart
(`copies_broadcast_counterexample`).
-/

namespace AHPy.MemoryView

/-! ## Conditions -/

section

variable (src dst : MemviewSlice) (srcNdim dstNdim : Nat)

/-- The shapes are verified. -/
def Accepts : Prop :=
  ∀ i < max srcNdim dstNdim, DimOk (broadcastBoth src dst srcNdim dstNdim).1
    (broadcastBoth src dst srcNdim dstNdim).2 i

/-- The source with all dimensions. -/
def checkedSource : MemviewSlice :=
  broadcastStrides (broadcastBoth src dst srcNdim dstNdim).1
    (broadcastBoth src dst srcNdim dstNdim).2 (List.range (max srcNdim dstNdim))

/-- The destination with all dimensions. -/
def checkedTarget : MemviewSlice := (broadcastBoth src dst srcNdim dstNdim).2

/-- A dimension is broadcast. -/
def broadcasts : Bool :=
  decide (∃ i ∈ List.range (max srcNdim dstNdim),
    (broadcastBoth src dst srcNdim dstNdim).1.shape i ≠
      (broadcastBoth src dst srcNdim dstNdim).2.shape i)

/-- The slices are transposed before they are copied. -/
def Transposes (order : Order) (broadcasting : Bool) (ndim : Nat) : Prop :=
  ¬(¬broadcasting ∧ directCopy src dst ndim) ∧ order = .f ∧ getBestOrder dst ndim = .f

/-- The transposition keeps the dimensions of the slices together: it is one of their
    own dimensions, and where the destination has more than one element the stride of
    the source is the one of the same dimension. -/
structure Alike (ndim : Nat) : Prop where
  src_le : src.view.ndim ≤ ndim
  dst_le : dst.view.ndim ≤ ndim
  strides : ∀ i < ndim, 1 < dst.shape i →
    src.strides (reverseDims src.view.ndim (reverseDims dst.view.ndim i)) = src.strides i

/-- If the slices are transposed, from the source or the temporary memory, this keeps
    their dimensions together. -/
structure AlikeIfTransposed (src dst : MemviewSlice) (order : Order) (broadcasting : Bool)
    (ndim : Nat) : Prop where
  direct : slicesOverlap src dst ndim src.view.itemsize = false →
    Transposes src dst order broadcasting ndim → Alike src dst ndim
  temp : slicesOverlap src dst ndim src.view.itemsize = true → ∀ tmp data,
    Transposes (tempSlice src tmp data (tempOrder src dst order ndim) ndim) dst
      (tempOrder src dst order ndim) broadcasting ndim →
    Alike (tempSlice src tmp data (tempOrder src dst order ndim) ndim) dst ndim

/-- Bytes of the destination with the same address are to hold the same byte of the
    source. -/
def Consistent : Prop :=
  ∀ idx idx', InShape dst.shape dstNdim idx → InShape dst.shape dstNdim idx' →
    ∀ b < src.view.itemsize, ∀ b' < src.view.itemsize,
      element dst dstNdim idx + b = element dst dstNdim idx' + b' →
        element src srcNdim (broadcastIndex src srcNdim dstNdim idx) + b =
          element src srcNdim (broadcastIndex src srcNdim dstNdim idx') + b'

end

variable {src dst : MemviewSlice} {ndim itemsize : Nat} {m m₀ : Memory} {space : Space}
  {order : Order} {broadcasting : Bool}

/-! ## The temporary copy -/

/-- The values that are to be at the elements of a slice, if elements with the same
    address get the same. -/
theorem exists_values {strides srcStrides : Nat → Int} {shape : Nat → Nat} {dst src : Pointer}
    (h : ∀ idx idx', InShape shape ndim idx → InShape shape ndim idx' →
      ∀ b < itemsize, ∀ b' < itemsize,
        offset strides ndim idx + b = offset strides ndim idx' + b' →
          m (src.add (offset srcStrides ndim idx + b)) =
            m (src.add (offset srcStrides ndim idx' + b'))) :
    ∃ v : Memory, ∀ idx, InShape shape ndim idx → ∀ b < itemsize,
      v (dst.add (offset strides ndim idx + b)) = m (src.add (offset srcStrides ndim idx + b)) := by
  have hvalue : ∀ p, ∃ x : UInt8, ∀ idx, InShape shape ndim idx → ∀ b < itemsize,
      p = dst.add (offset strides ndim idx + b) →
        x = m (src.add (offset srcStrides ndim idx + b)) := by
    intro p
    by_cases hp : ∃ idx, InShape shape ndim idx ∧ ∃ b < itemsize,
        p = dst.add (offset strides ndim idx + b)
    · obtain ⟨idx, hidx, b, hb, rfl⟩ := hp
      exact ⟨_, fun idx' hidx' b' hb' heq =>
        h idx idx' hidx hidx' b hb b' hb' (Pointer.add_right_inj heq)⟩
    · exact ⟨0, fun idx hidx b hb heq => absurd ⟨idx, hidx, b, hb, heq⟩ hp⟩
  choose v hv using hvalue
  exact ⟨v, fun idx hidx b hb => hv _ idx hidx b hb rfl⟩

/-- A contiguous slice and one of the same elements are copied as ranges. -/
theorem Sends.of_contiguous {v : Memory} {D : Set Pointer} {srcStrides dstStrides : Nat → Int}
    {shape : Nat → Nat} {srcData dstData : Pointer}
    (h : Sends v m D itemsize srcStrides dstStrides shape ndim srcData dstData)
    (hsrc : Contiguous itemsize srcStrides shape ndim order)
    (hdst : Contiguous itemsize dstStrides shape ndim order) :
    Writes v D m (elementBytes itemsize dstStrides shape ndim dstData)
      (memcpy dstData srcData (itemsize * count shape (List.range ndim))) := by
  rw [elementBytes_of_contiguous hdst]
  refine memcpy_writes fun k hk => ?_
  rw [← count_dimsFrom shape order] at hk
  obtain ⟨idx, hidx, b, hb, heq⟩ := Layout.cover hdst (nodup_dimsFrom order ndim) hk
  have hidx := (inShape_iff order).2 hidx
  rw [offsetIn_dimsFrom] at heq
  have hsend := h idx hidx b hb
  rwa [offset_of_contiguous hsrc hdst hidx, ← heq] at hsend

/-- Where there is more than one element, the shape of a contiguous slice matters. -/
theorem Contiguous.congr {strides : Nat → Int} {shape shape' : Nat → Nat}
    (h : Contiguous itemsize strides shape ndim order) (hshape : ∀ i < ndim, shape i = shape' i) :
    Contiguous itemsize strides shape' ndim order := by
  have hdims : ∀ i ∈ dimsFrom order ndim, shape i = shape' i := fun i hi =>
    hshape i (mem_dimsFrom.1 hi)
  rw [Contiguous] at h ⊢
  generalize dimsFrom order ndim = dims at h hdims
  induction dims generalizing itemsize with
  | nil => trivial
  | cons i dims ih =>
    obtain ⟨hi, hdims⟩ := List.forall_mem_cons.1 hdims
    rw [Layout, hi] at h
    exact ⟨h.1, ih h.2 hdims⟩

theorem count_congr {shape shape' : Nat → Nat} (h : ∀ i < ndim, shape i = shape' i) :
    count shape (List.range ndim) = count shape' (List.range ndim) := by
  rw [count, count]
  congr 1
  exact List.map_congr_left fun i hi => h i (List.mem_range.1 hi)

theorem inShape_congr {shape shape' : Nat → Nat} (h : ∀ i < ndim, shape i = shape' i)
    {idx : Nat → Nat} : InShape shape ndim idx ↔ InShape shape' ndim idx :=
  forall₂_congr fun i hi => by rw [h i hi]

/-- The temporary memory gets the elements of the source, the heap is unchanged. -/
theorem copyToTemp_spec (src tmpslice : MemviewSlice) (data : Int) (order : Order) (ndim : Nat)
    (m : Memory) :
    ∃ m', copyToTemp src (tempSlice src tmpslice data order ndim) order ndim m = some m' ∧
      (∀ idx, InShape src.shape ndim idx → ∀ b < src.view.itemsize,
        m' ⟨.temp, data + (offset (tempSlice src tmpslice data order ndim).strides ndim idx + b)⟩ =
          m ⟨.heap, src.data + (offset src.strides ndim idx + b)⟩) ∧
      ∀ addr, m' ⟨.heap, addr⟩ = m ⟨.heap, addr⟩ := by
  have hcontig := contiguous_tempSlice src tmpslice data order ndim
  have hshape : ∀ i < ndim, (tempSlice src tmpslice data order ndim).shape i = src.shape i :=
    fun i hi => if_pos hi
  generalize htmp : tempSlice src tmpslice data order ndim = tmp at hcontig hshape
  have hdata : tmp.data = data := htmp ▸ rfl
  -- No two bytes of the temporary memory have the same address.
  obtain ⟨v, hv⟩ := @exists_values ndim src.view.itemsize m tmp.strides src.strides tmp.shape
    ⟨.temp, data⟩ ⟨.heap, src.data⟩ (by
      intro idx idx' hidx hidx' b hb b' hb' heq
      rw [← offsetIn_dimsFrom _ order, ← offsetIn_dimsFrom _ order] at heq
      obtain ⟨rfl, hsame⟩ := Layout.inj hcontig ((inShape_iff order).1 hidx)
        ((inShape_iff order).1 hidx') hb hb' heq
      have hoffset : offset src.strides ndim idx = offset src.strides ndim idx' := by
        rw [← offsetIn_dimsFrom _ order, ← offsetIn_dimsFrom _ order]
        exact offsetIn_congr hsame
      rw [hoffset])
  have hsends : Sends v m {p | p.space = .temp} src.view.itemsize src.strides tmp.strides
      tmp.shape ndim ⟨.heap, src.data⟩ ⟨.temp, data⟩ := fun idx hidx b hb =>
    ⟨rfl, fun h => Space.noConfusion h, (hv idx hidx b hb).symm⟩
  have hwrites : Writes v {p | p.space = .temp} m
      (elementBytes src.view.itemsize tmp.strides tmp.shape ndim ⟨.temp, data⟩)
      (copyToTemp src tmp order ndim) := by
    by_cases h : sliceIsContig src ndim order
    · have heq : copyToTemp src tmp order ndim = memcpy ⟨.temp, data⟩ ⟨.heap, src.data⟩
          (src.view.itemsize * count tmp.shape (List.range ndim)) := by
        funext m
        rw [copyToTemp, if_pos h, hdata, sliceGetSize_eq, count_congr hshape]
      rw [heq]
      exact hsends.of_contiguous
        ((contiguous_of_sliceIsContig h).congr fun i hi => (hshape i hi).symm) hcontig
    · have heq : copyToTemp src tmp order ndim = copyStrided src.view.itemsize src.strides
          tmp.strides tmp.shape ndim ⟨.heap, src.data⟩ ⟨.temp, data⟩ := by
        funext m
        rw [copyToTemp, if_neg h, copyStridedToStrided, hdata]
      rw [heq]
      refine copyStrided_writes (Nat.pos_of_ne_zero fun h₀ => ?_) hsends
      subst h₀
      exact h (sliceIsContig_zero src order)
  obtain ⟨m', hrun, hm'⟩ := hwrites.run
  refine ⟨m', hrun, fun idx hidx b hb => ?_, fun addr => ?_⟩
  · have hidx := (inShape_congr hshape).2 hidx
    exact (hm'.written _ ⟨idx, hidx, b, hb, rfl⟩).trans (hv idx hidx b hb)
  · refine hm'.frame _ ?_
    rintro ⟨idx, -, b, -, heq⟩
    exact absurd (congrArg Pointer.space heq) (fun h => Space.noConfusion h)

/-! ## The copy to the destination -/

/-- What is known of the slices of a copy after the shapes are verified. -/
structure Matching (src dst : MemviewSlice) (ndim : Nat) (broadcasting : Bool) : Prop where
  shape : ∀ i < ndim, src.shape i = dst.shape i ∨ src.shape i = 1 ∧ src.strides i = 0
  same : broadcasting = false → ∀ i < ndim, src.shape i = dst.shape i
  differ : broadcasting = true → ∃ i < ndim, src.shape i ≠ dst.shape i
  srcDirect : ∀ i < ndim, src.suboffsets i < 0
  dstDirect : ∀ i < ndim, dst.suboffsets i < 0

/-- The item sizes are the same if there is anything to copy. -/
def SameItems (src dst : MemviewSlice) (ndim : Nat) : Prop :=
  src.view.itemsize = dst.view.itemsize ∨ ∃ i < ndim, dst.shape i = 0

theorem elementBytes_of_empty {strides : Nat → Int} {shape : Nat → Nat} (p : Pointer)
    (h : ∃ i < ndim, shape i = 0) : elementBytes itemsize strides shape ndim p = ∅ := by
  obtain ⟨i, hi, hzero⟩ := h
  refine Set.eq_empty_of_forall_notMem ?_
  rintro q ⟨idx, hidx, -⟩
  exact absurd (hidx i hi) (by omega)

theorem count_of_empty {shape : Nat → Nat} (h : ∃ i < ndim, shape i = 0) :
    count shape (List.range ndim) = 0 := by
  obtain ⟨i, hi, hzero⟩ := h
  exact List.prod_eq_zero (hzero ▸ List.mem_map_of_mem (List.mem_range.2 hi))

/-- Contiguous slices of the same order are copied as a whole. -/
theorem directCopy_writes {v : Memory} {D : Set Pointer} (h : Matching src dst ndim false)
    (hitems : SameItems src dst ndim) (hdirect : directCopy src dst ndim = true)
    (hsends : Sends v m D src.view.itemsize src.strides dst.strides dst.shape ndim
      ⟨space, src.data⟩ ⟨.heap, dst.data⟩) :
    Writes v D m (elementBytes src.view.itemsize dst.strides dst.shape ndim ⟨.heap, dst.data⟩)
      (memcpy ⟨.heap, dst.data⟩ ⟨space, src.data⟩ (sliceGetSize src ndim)) := by
  have hshape := h.same rfl
  rw [sliceGetSize_eq, count_congr hshape]
  rcases hitems with hitemsize | hempty
  · have horder : ∃ order, sliceIsContig src ndim order = true ∧
        sliceIsContig dst ndim order = true := by
      rw [directCopy] at hdirect
      split at hdirect
      next hc => exact ⟨.c, hc, hdirect⟩
      next =>
        split at hdirect
        next hf => exact ⟨.f, hf, hdirect⟩
        next => exact absurd hdirect Bool.false_ne_true
    obtain ⟨order, hsrc, hdst⟩ := horder
    exact hsends.of_contiguous ((contiguous_of_sliceIsContig hsrc).congr hshape)
      (hitemsize ▸ contiguous_of_sliceIsContig hdst)
  · rw [elementBytes_of_empty _ hempty, count_of_empty hempty, Nat.mul_zero]
    have hnone : rangeBytes ⟨.heap, dst.data⟩ 0 = (∅ : Set Pointer) := by
      ext p
      simp [rangeBytes]
    have hwrites := @memcpy_writes v m D ⟨.heap, dst.data⟩ ⟨space, src.data⟩ 0
      fun k hk => absurd hk (Nat.not_lt_zero k)
    rwa [hnone] at hwrites

section

variable {strides : Nat → Int} {shape : Nat → Nat} {idx : Nat → Nat} {n : Nat}

theorem inShape_reverseDims (hn : n ≤ ndim) :
    InShape (fun i => shape (reverseDims n i)) ndim idx ↔
      InShape shape ndim fun i => idx (reverseDims n i) := by
  constructor
  · intro h i hi
    have hlt := h _ (reverseDims_lt hn hi)
    simpa only [reverseDims_reverseDims] using hlt
  · intro h i hi
    have hlt := h _ (reverseDims_lt hn hi)
    simpa only [reverseDims_reverseDims] using hlt

theorem offset_reverseDims (hn : n ≤ ndim) :
    offset (fun i => strides (reverseDims n i)) ndim idx =
      offset strides ndim fun i => idx (reverseDims n i) := by
  rw [offset, offset]
  refine Finset.sum_nbij' (reverseDims n) (reverseDims n)
    (fun i hi => Finset.mem_range.2 (reverseDims_lt hn (Finset.mem_range.1 hi)))
    (fun i hi => Finset.mem_range.2 (reverseDims_lt hn (Finset.mem_range.1 hi)))
    (fun i _ => reverseDims_reverseDims n i) (fun i _ => reverseDims_reverseDims n i)
    fun i _ => ?_
  rw [reverseDims_reverseDims]

/-- The elements are the same when the dimensions are reversed. -/
theorem elementBytes_reverseDims (hn : n ≤ ndim) (p : Pointer) :
    elementBytes itemsize (fun i => strides (reverseDims n i)) (fun i => shape (reverseDims n i))
      ndim p = elementBytes itemsize strides shape ndim p := by
  ext q
  constructor
  · rintro ⟨idx, hidx, b, hb, rfl⟩
    exact ⟨_, (inShape_reverseDims hn).1 hidx, b, hb, by rw [offset_reverseDims hn]⟩
  · rintro ⟨idx, hidx, b, hb, rfl⟩
    refine ⟨fun i => idx (reverseDims n i), (inShape_reverseDims hn).2 ?_, b, hb, ?_⟩
    · simpa only [reverseDims_reverseDims] using hidx
    · rw [offset_reverseDims hn]
      simp only [reverseDims_reverseDims]

end

/-- Slices whose dimensions are kept together are copied alike when transposed. -/
theorem Alike.sends {v : Memory} {D : Set Pointer} (h : Alike src dst ndim) {srcData : Pointer}
    {dstData : Pointer}
    (hsends : Sends v m D itemsize src.strides dst.strides dst.shape ndim srcData dstData) :
    Sends v m D itemsize (fun i => src.strides (reverseDims src.view.ndim i))
      (fun i => dst.strides (reverseDims dst.view.ndim i))
      (fun i => dst.shape (reverseDims dst.view.ndim i)) ndim srcData dstData := by
  intro idx hidx b hb
  have hsrc : offset (fun i => src.strides (reverseDims src.view.ndim i)) ndim idx =
      offset (fun i => src.strides (reverseDims dst.view.ndim i)) ndim idx := by
    refine Finset.sum_congr rfl fun i hi => ?_
    have hi := Finset.mem_range.1 hi
    rcases Nat.lt_or_ge 1 (dst.shape (reverseDims dst.view.ndim i)) with hone | hone
    · have hstride := h.strides _ (reverseDims_lt h.dst_le hi) hone
      rw [reverseDims_reverseDims] at hstride
      simp only [hstride]
    · -- With one element there is nothing to go along.
      have hzero : idx i = 0 := by
        have hlt : idx i < dst.shape (reverseDims dst.view.ndim i) := hidx i hi
        omega
      rw [hzero, Nat.cast_zero, Int.zero_mul, Int.zero_mul]
  rw [hsrc, offset_reverseDims h.dst_le, offset_reverseDims h.dst_le]
  exact hsends _ ((inShape_reverseDims h.dst_le).1 hidx) b hb

/-- The copy is a step on the memory that does not raise an error. -/
theorem copyDisjoint_eq (h : Matching src dst ndim broadcasting)
    (halike : Transposes src dst order broadcasting ndim → Alike src dst ndim) :
    ∃ step : Memory → Option Memory,
      (∀ m, copyDisjoint space src dst ndim src.view.itemsize order broadcasting m =
        .ofCopy (step m)) ∧
      (SameItems src dst ndim → ∀ v m D, Sends v m D src.view.itemsize src.strides dst.strides dst.shape ndim
          ⟨space, src.data⟩ ⟨.heap, dst.data⟩ →
        Writes v D m (elementBytes src.view.itemsize dst.strides dst.shape ndim
          ⟨.heap, dst.data⟩) step) := by
  by_cases hdirect : ¬broadcasting ∧ directCopy src dst ndim
  · refine ⟨memcpy ⟨.heap, dst.data⟩ ⟨space, src.data⟩ (sliceGetSize src ndim), fun m => ?_,
      fun hitems v m D hsends => ?_⟩
    · rw [copyDisjoint, if_pos hdirect]
    · obtain ⟨hbroadcasting, hdirect⟩ := hdirect
      obtain rfl := Bool.eq_false_iff.2 hbroadcasting
      exact directCopy_writes h hitems hdirect hsends
  · have hndim : 0 < ndim := by
      refine Nat.pos_of_ne_zero fun h₀ => hdirect ?_
      subst h₀
      refine ⟨fun hb => ?_, ?_⟩
      · obtain ⟨i, hi, -⟩ := h.differ hb
        exact Nat.not_lt_zero i hi
      · rw [directCopy, if_pos (sliceIsContig_zero src .c)]
        exact sliceIsContig_zero dst .c
    by_cases horder : order = .f ∧ getBestOrder dst ndim = .f
    · have halike := halike ⟨hdirect, horder⟩
      have hsrc := @transposeMemslice_eq_ok src fun i hi =>
        h.srcDirect i (hi.trans_le halike.src_le)
      have hdst := @transposeMemslice_eq_ok dst fun i hi =>
        h.dstDirect i (hi.trans_le halike.dst_le)
      refine ⟨copyStrided src.view.itemsize (fun i => src.strides (reverseDims src.view.ndim i))
        (fun i => dst.strides (reverseDims dst.view.ndim i))
        (fun i => dst.shape (reverseDims dst.view.ndim i)) ndim ⟨space, src.data⟩
        ⟨.heap, dst.data⟩, fun m => ?_, fun hitems v m D hsends => ?_⟩
      · rw [copyDisjoint, if_neg hdirect, if_pos horder, hsrc, hdst]
        rfl
      · have hwrites := copyStrided_writes hndim (halike.sends hsends)
        rwa [elementBytes_reverseDims halike.dst_le] at hwrites
    · refine ⟨copyStrided src.view.itemsize src.strides dst.strides dst.shape ndim
        ⟨space, src.data⟩ ⟨.heap, dst.data⟩, fun m => ?_,
        fun _ v m D hsends => copyStrided_writes hndim hsends⟩
      rw [copyDisjoint, if_neg hdirect, if_neg horder]
      rfl

/-! ## Verified slices -/

/-- The index with 0 where the source has one element. -/
def squeezeIndex (src : MemviewSlice) (idx : Nat → Nat) : Nat → Nat :=
  fun i => if src.shape i = 1 then 0 else idx i

theorem Matching.inShape_squeezeIndex (h : Matching src dst ndim broadcasting) {idx : Nat → Nat}
    (hidx : InShape dst.shape ndim idx) : InShape src.shape ndim (squeezeIndex src idx) := by
  intro i hi
  rw [squeezeIndex]
  by_cases hone : src.shape i = 1
  · rw [if_pos hone, hone]
    exact Nat.one_pos
  · rw [if_neg hone, (h.shape i hi).resolve_right fun h => hone h.1]
    exact hidx i hi

/-- Where the source has one element, its stride does not matter. -/
theorem Matching.offset_squeezeIndex (h : Matching src dst ndim broadcasting) {idx : Nat → Nat}
    (hidx : InShape dst.shape ndim idx) {strides : Nat → Int}
    (hstrides : ∀ i < ndim, src.shape i = 1 → src.strides i = 0 → strides i = 0) :
    offset strides ndim (squeezeIndex src idx) = offset strides ndim idx := by
  refine Finset.sum_congr rfl fun i hi => ?_
  have hi := Finset.mem_range.1 hi
  rw [squeezeIndex]
  by_cases hone : src.shape i = 1
  · rw [if_pos hone, Nat.cast_zero, Int.zero_mul]
    rcases h.shape i hi with hsame | ⟨-, hstride⟩
    · have hlt := hidx i hi
      have hzero : idx i = 0 := by omega
      rw [hzero, Nat.cast_zero, Int.zero_mul]
    · rw [hstrides i hi hone hstride, Int.mul_zero]
  · rw [if_neg hone]

/-- Slices that do not overlap have no byte in common. -/
theorem Matching.not_mem_elementBytes (h : Matching src dst ndim broadcasting)
    (hoverlap : slicesOverlap src dst ndim itemsize = false) {idx : Nat → Nat}
    (hidx : InShape dst.shape ndim idx) {b : Nat} (hb : b < itemsize) :
    (⟨.heap, src.data + (offset src.strides ndim idx + b)⟩ : Pointer) ∉
      elementBytes itemsize dst.strides dst.shape ndim ⟨.heap, dst.data⟩ := by
  rintro ⟨idx', hidx', b', hb', heq⟩
  have haddr : src.data + (offset src.strides ndim idx + b) =
      dst.data + (offset dst.strides ndim idx' + b') := congrArg Pointer.addr heq
  have hsrc := @element_mem_extents itemsize ndim src _ (h.inShape_squeezeIndex hidx)
  rw [h.offset_squeezeIndex hidx fun _ _ _ h => h] at hsrc
  have hdst := @element_mem_extents itemsize ndim dst _ hidx'
  rw [slicesOverlap, decide_eq_false_iff_not] at hoverlap
  refine hoverlap ⟨?_, ?_⟩ <;> omega

/-- The elements of the destination have the values of those of the source, and all
    other bytes of the heap are unchanged. -/
structure Moved (src dst : MemviewSlice) (ndim itemsize : Nat) (m m' : Memory) : Prop where
  elements : ∀ idx, InShape dst.shape ndim idx → ∀ b < itemsize,
    m' ⟨.heap, dst.data + (offset dst.strides ndim idx + b)⟩ =
      m ⟨.heap, src.data + (offset src.strides ndim idx + b)⟩
  frame : ∀ addr, (⟨.heap, addr⟩ : Pointer) ∉
      elementBytes itemsize dst.strides dst.shape ndim ⟨.heap, dst.data⟩ →
    m' ⟨.heap, addr⟩ = m ⟨.heap, addr⟩

/-- Bytes of the destination with the same address get the same value. -/
def Agree (src dst : MemviewSlice) (ndim itemsize : Nat) (m : Memory) : Prop :=
  ∀ idx idx', InShape dst.shape ndim idx → InShape dst.shape ndim idx' →
    ∀ b < itemsize, ∀ b' < itemsize,
      offset dst.strides ndim idx + b = offset dst.strides ndim idx' + b' →
        m ⟨.heap, src.data + (offset src.strides ndim idx + b)⟩ =
          m ⟨.heap, src.data + (offset src.strides ndim idx' + b')⟩

/-- The copy from where the elements are, in a memory with an unchanged heap. -/
theorem copyDisjoint_spec {from_ : MemviewSlice} (h : Matching from_ dst ndim broadcasting)
    (hitems : SameItems from_ dst ndim)
    (halike : Transposes from_ dst order broadcasting ndim → Alike from_ dst ndim)
    (hsize : from_.view.itemsize = itemsize) (hagree : Agree src dst ndim itemsize m₀)
    (hvalue : ∀ idx, InShape dst.shape ndim idx → ∀ b < itemsize,
      m ⟨space, from_.data + (offset from_.strides ndim idx + b)⟩ =
        m₀ ⟨.heap, src.data + (offset src.strides ndim idx + b)⟩)
    (hheap : ∀ addr, m ⟨.heap, addr⟩ = m₀ ⟨.heap, addr⟩)
    (hnot : ∀ idx, InShape dst.shape ndim idx → ∀ b < itemsize,
      (⟨space, from_.data + (offset from_.strides ndim idx + b)⟩ : Pointer) ∉
        elementBytes itemsize dst.strides dst.shape ndim ⟨.heap, dst.data⟩) :
    ∃ m', copyDisjoint space from_ dst ndim itemsize order broadcasting m = .returned m' ∧
      Moved src dst ndim itemsize m₀ m' := by
  subst hsize
  obtain ⟨step, heq, hwrites⟩ := @copyDisjoint_eq _ _ _ space _ _ h halike
  obtain ⟨v, hv⟩ := @exists_values ndim from_.view.itemsize m₀ dst.strides src.strides dst.shape
    ⟨.heap, dst.data⟩ ⟨.heap, src.data⟩ hagree
  have hsends : Sends v m
      (elementBytes from_.view.itemsize dst.strides dst.shape ndim ⟨.heap, dst.data⟩)
      from_.view.itemsize from_.strides dst.strides dst.shape ndim ⟨space, from_.data⟩
      ⟨.heap, dst.data⟩ := fun idx hidx b hb =>
    ⟨⟨idx, hidx, b, hb, rfl⟩, hnot idx hidx b hb,
      (hvalue idx hidx b hb).trans (hv idx hidx b hb).symm⟩
  obtain ⟨m', hrun, hm'⟩ := (hwrites hitems v m _ hsends).run
  refine ⟨m', ?_, fun idx hidx b hb => ?_, fun addr haddr => ?_⟩
  · rw [heq, hrun]
    rfl
  · exact (hm'.written _ ⟨idx, hidx, b, hb, rfl⟩).trans (hv idx hidx b hb)
  · exact (hm'.frame _ haddr).trans (hheap addr)

/-- The temporary copy matches the destination as the source does. -/
theorem Matching.tempSlice (h : Matching src dst ndim broadcasting) (tmp : MemviewSlice)
    (data : Int) (order : Order) :
    Matching (tempSlice src tmp data order ndim) dst ndim broadcasting where
  shape := by
    intro i hi
    have hshape : (MemoryView.tempSlice src tmp data order ndim).shape i = src.shape i := if_pos hi
    rcases h.shape i hi with hsame | ⟨hone, -⟩
    · exact .inl (hshape.trans hsame)
    · exact .inr ⟨hshape.trans hone, if_pos ⟨hi, hshape.trans hone⟩⟩
  same := fun hb i hi =>
    (show (MemoryView.tempSlice src tmp data order ndim).shape i = src.shape i from
      if_pos hi).trans (h.same hb i hi)
  differ := by
    intro hb
    obtain ⟨i, hi, hne⟩ := h.differ hb
    exact ⟨i, hi, fun heq => hne ((if_pos hi).symm.trans heq)⟩
  srcDirect := fun i hi =>
    (show (MemoryView.tempSlice src tmp data order ndim).suboffsets i = -1 from
      if_pos hi).trans_lt (by decide)
  dstDirect := h.dstDirect

/-- Verified slices are copied, unless there is no memory. -/
theorem copyVerified_spec {malloc : Nat → Option Int} {tmp : MemviewSlice}
    (h : Matching src dst ndim broadcasting) (hitems : SameItems src dst ndim)
    (halike : AlikeIfTransposed src dst order broadcasting ndim)
    (hagree : Agree src dst ndim src.view.itemsize m) :
    copyVerified malloc tmp src dst ndim order broadcasting m = .raised .noMemory m ∨
      ∃ m', copyVerified malloc tmp src dst ndim order broadcasting m = .returned m' ∧
        Moved src dst ndim src.view.itemsize m m' := by
  rw [copyVerified]
  by_cases hoverlap : slicesOverlap src dst ndim src.view.itemsize
  · simp only [if_pos hoverlap]
    rcases malloc (sliceGetSize src ndim) with _ | data
    · exact .inl rfl
    · right
      obtain ⟨m₁, hrun, hvalue, hheap⟩ :=
        copyToTemp_spec src tmp data (tempOrder src dst order ndim) ndim m
      simp only [hrun]
      refine copyDisjoint_spec (h.tempSlice tmp data _) hitems (halike.temp hoverlap tmp data) rfl hagree
        (fun idx hidx b hb => ?_) hheap fun idx hidx b hb => ?_
      · -- The element of the temporary memory is the one of the squeezed index.
        have helement := hvalue _ (h.inShape_squeezeIndex hidx) b hb
        rw [h.offset_squeezeIndex hidx fun _ _ _ h => h, h.offset_squeezeIndex hidx] at helement
        · exact helement
        · intro i hi hone _
          exact if_pos ⟨hi, (if_pos hi).trans hone⟩
      · rintro ⟨idx', -, b', -, heq⟩
        exact absurd (congrArg Pointer.space heq) (fun h => Space.noConfusion h)
  · right
    have hoverlap := Bool.eq_false_iff.2 hoverlap
    simp only [hoverlap, Bool.false_eq_true, if_false]
    exact copyDisjoint_spec h hitems (halike.direct hoverlap) rfl hagree (fun _ _ _ _ => rfl)
      (fun _ => rfl) fun idx hidx b hb => h.not_mem_elementBytes hoverlap hidx hb

/-- With enough memory no error is raised. -/
theorem copyVerified_ne_raised {malloc : Nat → Option Int} {tmp : MemviewSlice}
    (h : Matching src dst ndim broadcasting)
    (halike : AlikeIfTransposed src dst order broadcasting ndim)
    (hmalloc : ∀ n, malloc n ≠ none) (e : CopyError) (m' : Memory) :
    copyVerified malloc tmp src dst ndim order broadcasting m ≠ .raised e m' := by
  have hofCopy : ∀ r : Option Memory, Outcome.ofCopy r ≠ .raised e m' := by
    intro r
    rcases r with _ | r <;> exact fun h => Outcome.noConfusion h
  rw [copyVerified]
  by_cases hoverlap : slicesOverlap src dst ndim src.view.itemsize
  · simp only [if_pos hoverlap]
    rcases hdata : malloc (sliceGetSize src ndim) with _ | data
    · exact absurd hdata (hmalloc _)
    · obtain ⟨m₁, hrun, -, -⟩ :=
        copyToTemp_spec src tmp data (tempOrder src dst order ndim) ndim m
      obtain ⟨step, heq, -⟩ := @copyDisjoint_eq _ _ _ .temp (tempOrder src dst order ndim) _
        (h.tempSlice tmp data _) (halike.temp hoverlap tmp data)
      have heq : copyDisjoint .temp (tempSlice src tmp data (tempOrder src dst order ndim) ndim)
          dst ndim src.view.itemsize (tempOrder src dst order ndim) broadcasting m₁ =
            .ofCopy (step m₁) := heq m₁
      simp only [hrun, heq]
      exact hofCopy _
  · obtain ⟨step, heq, -⟩ := @copyDisjoint_eq _ _ _ .heap order _ h
      (halike.direct (Bool.eq_false_iff.2 hoverlap))
    simp only [Bool.eq_false_iff.2 hoverlap, Bool.false_eq_true, if_false, heq]
    exact hofCopy _

/-! ## All slices -/

section

variable {srcNdim dstNdim : Nat}

theorem memoryviewCopyContents_of_accepts (h : Accepts src dst srcNdim dstNdim)
    (malloc : Nat → Option Int) (tmp : MemviewSlice) (m : Memory) :
    memoryviewCopyContents malloc tmp src dst srcNdim dstNdim m =
      copyVerified malloc tmp (checkedSource src dst srcNdim dstNdim)
        (checkedTarget src dst srcNdim dstNdim) (max srcNdim dstNdim) (getBestOrder src srcNdim)
        (broadcasts src dst srcNdim dstNdim) m := by
  have hok := @checkDims_eq_ok (broadcastBoth src dst srcNdim dstNdim).2 _
    (List.nodup_range (n := max srcNdim dstNdim)) (broadcastBoth src dst srcNdim dstNdim).1 false
    fun i hi => h i (List.mem_range.1 hi)
  rw [Bool.false_or] at hok
  simp only [memoryviewCopyContents, hok]
  rfl

theorem memoryviewCopyContents_of_not_accepts (h : ¬Accepts src dst srcNdim dstNdim)
    (malloc : Nat → Option Int) (tmp : MemviewSlice) (m : Memory) :
    ∃ e, memoryviewCopyContents malloc tmp src dst srcNdim dstNdim m = .raised e m := by
  obtain ⟨e, he⟩ := @checkDims_eq_error (broadcastBoth src dst srcNdim dstNdim).2 _
    (List.nodup_range (n := max srcNdim dstNdim)) (broadcastBoth src dst srcNdim dstNdim).1 false
    fun hall => h fun i hi => hall i (List.mem_range.2 hi)
  refine ⟨e, ?_⟩
  simp only [memoryviewCopyContents, he]

theorem checked_matching (h : Accepts src dst srcNdim dstNdim)
    (hdst : ∀ i < dstNdim, dst.suboffsets i < 0) :
    Matching (checkedSource src dst srcNdim dstNdim) (checkedTarget src dst srcNdim dstNdim)
      (max srcNdim dstNdim) (broadcasts src dst srcNdim dstNdim) where
  shape := by
    intro i hi
    by_cases hne : (broadcastBoth src dst srcNdim dstNdim).1.shape i ≠
        (broadcastBoth src dst srcNdim dstNdim).2.shape i
    · exact .inr ⟨(h i hi).1.resolve_left hne, if_pos ⟨List.mem_range.2 hi, hne⟩⟩
    · exact .inl (not_not.1 hne)
  same := by
    intro hb i hi
    by_contra hne
    exact of_decide_eq_false hb ⟨i, List.mem_range.2 hi, hne⟩
  differ := by
    intro hb
    obtain ⟨i, hi, hne⟩ := of_decide_eq_true hb
    exact ⟨i, List.mem_range.1 hi, hne⟩
  srcDirect := fun i hi => (h i hi).2
  dstDirect := by
    intro i hi
    have hext := (broadcastBoth_spec src dst srcNdim dstNdim).2
    rcases Nat.lt_or_ge i (max srcNdim dstNdim - dstNdim) with hlead | hlead
    · exact (hext.leading i hlead).2
    · have hsub := hext.suboffsets (i - (max srcNdim dstNdim - dstNdim)) (by omega)
      rw [Nat.add_sub_cancel' hlead] at hsub
      exact hsub.trans_lt (hdst _ (by omega))

/-- The indices with all dimensions, and those of the destination. -/
theorem checkedTarget_inShape {idx : Nat → Nat} :
    (InShape (checkedTarget src dst srcNdim dstNdim).shape (max srcNdim dstNdim) idx →
      InShape dst.shape dstNdim (dropIndex (max srcNdim dstNdim - dstNdim) idx)) ∧
    (InShape dst.shape dstNdim idx → InShape (checkedTarget src dst srcNdim dstNdim).shape
      (max srcNdim dstNdim) (padIndex (max srcNdim dstNdim - dstNdim) idx)) := by
  have hext := (broadcastBoth_spec src dst srcNdim dstNdim).2
  have hndim : max srcNdim dstNdim - dstNdim + dstNdim = max srcNdim dstNdim := by omega
  refine ⟨fun h => hext.inShape_dropIndex (hndim.symm ▸ h), fun h => ?_⟩
  have hpad := hext.inShape_padIndex h
  rwa [hndim] at hpad

theorem checkedTarget_element {idx : Nat → Nat}
    (hidx : InShape (checkedTarget src dst srcNdim dstNdim).shape (max srcNdim dstNdim) idx) :
    (checkedTarget src dst srcNdim dstNdim).data +
        offset (checkedTarget src dst srcNdim dstNdim).strides (max srcNdim dstNdim) idx =
      element dst dstNdim (dropIndex (max srcNdim dstNdim - dstNdim) idx) := by
  have hext := (broadcastBoth_spec src dst srcNdim dstNdim).2
  have hndim : max srcNdim dstNdim - dstNdim + dstNdim = max srcNdim dstNdim := by omega
  have hoffset := hext.offset_dropIndex fun i hi =>
    hext.eq_zero_of_lt (hndim.symm ▸ hidx) hi
  rw [hndim] at hoffset
  rw [element, ← offset, ← hoffset]
  exact congrArg (· + _) hext.data

/-- The elements of the source are those of the broadcast indices. -/
theorem checkedSource_element (h : Accepts src dst srcNdim dstNdim) {idx : Nat → Nat}
    (hidx : InShape (checkedTarget src dst srcNdim dstNdim).shape (max srcNdim dstNdim) idx) :
    (checkedSource src dst srcNdim dstNdim).data +
        offset (checkedSource src dst srcNdim dstNdim).strides (max srcNdim dstNdim) idx =
      element src srcNdim (broadcastIndex src srcNdim dstNdim
        (dropIndex (max srcNdim dstNdim - dstNdim) idx)) := by
  obtain ⟨hsrc, hdst⟩ := broadcastBoth_spec src dst srcNdim dstNdim
  have hndim : max srcNdim dstNdim - srcNdim + srcNdim = max srcNdim dstNdim := by omega
  -- A dimension with one element counts as if its index were 0.
  have hsqueeze : offset (checkedSource src dst srcNdim dstNdim).strides (max srcNdim dstNdim) idx =
      offset (broadcastBoth src dst srcNdim dstNdim).1.strides (max srcNdim dstNdim)
        (squeezeIndex (broadcastBoth src dst srcNdim dstNdim).1 idx) := by
    refine Finset.sum_congr rfl fun i hi => ?_
    have hlt := Finset.mem_range.1 hi
    rw [checkedSource, broadcastStrides, squeezeIndex]
    by_cases hone : (broadcastBoth src dst srcNdim dstNdim).1.shape i = 1
    · rw [if_pos hone, Nat.cast_zero, Int.zero_mul]
      by_cases hne : (broadcastBoth src dst srcNdim dstNdim).1.shape i ≠
          (broadcastBoth src dst srcNdim dstNdim).2.shape i
      · simp only [if_pos (And.intro (List.mem_range.2 hlt) hne), Int.mul_zero]
      · have hidx : idx i < (broadcastBoth src dst srcNdim dstNdim).2.shape i := hidx i hlt
        have hzero : idx i = 0 := by omega
        rw [hzero, Nat.cast_zero, Int.zero_mul]
    · rw [if_neg hone]
      have hsame := (h i hlt).1.resolve_right hone
      simp only [hsame, ne_eq, not_true_eq_false, and_false, if_false]
  have hdrop := @Extended.offset_dropIndex _ _ _ _
    (squeezeIndex (broadcastBoth src dst srcNdim dstNdim).1 idx) hsrc fun i hi =>
      if_pos (hsrc.leading i hi).1
  rw [hndim] at hdrop
  rw [hsqueeze, hdrop, element]
  refine congrArg₂ (· + ·) hsrc.data (Finset.sum_congr rfl fun j hj => ?_)
  have hj := Finset.mem_range.1 hj
  rw [dropIndex, squeezeIndex, hsrc.shape j hj, broadcastIndex]
  by_cases hone : src.shape j = 1
  · rw [if_pos hone, if_pos hone]
  · rw [if_neg hone, if_neg hone, dropIndex]
    -- A leading dimension that the destination does not have would have one element.
    have hlead : max srcNdim dstNdim - dstNdim ≤ j := by
      by_contra hlt
      have hshape := (h j (by omega)).1
      have hzero : max srcNdim dstNdim - srcNdim = 0 := by omega
      have hsame := hsrc.shape j hj
      rw [hzero, Nat.zero_add] at hsame
      rw [hsame, (hdst.leading j (by omega)).1] at hshape
      exact hone (or_self_iff.1 hshape)
    congr 3
    omega

/-- The bytes of the destination are those of the slice with all dimensions. -/
theorem mem_elementBytes_checkedTarget {addr : Int} :
    (⟨.heap, addr⟩ : Pointer) ∈ elementBytes itemsize (checkedTarget src dst srcNdim dstNdim).strides
        (checkedTarget src dst srcNdim dstNdim).shape (max srcNdim dstNdim)
        ⟨.heap, (checkedTarget src dst srcNdim dstNdim).data⟩ ↔
      ∃ idx, InShape dst.shape dstNdim idx ∧ ∃ b < itemsize,
        addr = element dst dstNdim idx + b := by
  constructor
  · rintro ⟨idx, hidx, b, hb, heq⟩
    refine ⟨_, checkedTarget_inShape.1 hidx, b, hb, ?_⟩
    rw [← checkedTarget_element hidx, Int.add_assoc]
    exact congrArg Pointer.addr heq
  · rintro ⟨idx, hidx, b, hb, rfl⟩
    have hpad := (@checkedTarget_inShape src dst srcNdim dstNdim idx).2 hidx
    refine ⟨_, hpad, b, hb, ?_⟩
    have helement := checkedTarget_element hpad
    rw [dropIndex_padIndex] at helement
    rw [Pointer.add, ← helement, Int.add_assoc]

/-- What is moved between the slices with all dimensions is what is to be copied. -/
theorem copied_of_moved (h : Accepts src dst srcNdim dstNdim) {m' : Memory}
    (hitems : src.view.itemsize = dst.view.itemsize ∨ ∃ i < dstNdim, dst.shape i = 0)
    (hmoved : Moved (checkedSource src dst srcNdim dstNdim) (checkedTarget src dst srcNdim dstNdim)
      (max srcNdim dstNdim) src.view.itemsize m m') : Copied src dst srcNdim dstNdim m m' := by
  have hsame : ∀ idx, InShape dst.shape dstNdim idx → src.view.itemsize = dst.view.itemsize := by
    intro idx hidx
    refine hitems.resolve_right ?_
    rintro ⟨i, hi, hzero⟩
    exact absurd (hidx i hi) (by omega)
  refine ⟨fun idx hidx => ?_, fun addr haddr => hmoved.frame addr fun hmem => ?_⟩
  · rw [bytesAt, bytesAt, ← hsame idx hidx]
    refine List.map_congr_left fun b hb => ?_
    have hpad := (@checkedTarget_inShape src dst srcNdim dstNdim idx).2 hidx
    have helement := hmoved.elements _ hpad b (List.mem_range.1 hb)
    rwa [← Int.add_assoc, ← Int.add_assoc, checkedTarget_element hpad,
      checkedSource_element h hpad, dropIndex_padIndex] at helement
  · obtain ⟨idx, hidx, b, hb, heq⟩ := mem_elementBytes_checkedTarget.1 hmem
    exact haddr idx hidx b (hsame idx hidx ▸ hb) heq

theorem Copied.byte {m' : Memory} (h : Copied src dst srcNdim dstNdim m m')
    (hitems : src.view.itemsize = dst.view.itemsize) {idx : Nat → Nat}
    (hidx : InShape dst.shape dstNdim idx) {b : Nat} (hb : b < src.view.itemsize) :
    m' ⟨.heap, element dst dstNdim idx + b⟩ =
      m ⟨.heap, element src srcNdim (broadcastIndex src srcNdim dstNdim idx) + b⟩ := by
  have hbytes := h.elements idx hidx
  rw [← hitems, bytesAt, bytesAt] at hbytes
  exact List.map_inj_left.1 hbytes b (List.mem_range.2 hb)

theorem agree_of_consistent (h : Accepts src dst srcNdim dstNdim)
    (hconsistent : Consistent src dst srcNdim dstNdim) (m : Memory) :
    Agree (checkedSource src dst srcNdim dstNdim) (checkedTarget src dst srcNdim dstNdim)
      (max srcNdim dstNdim) src.view.itemsize m := by
  intro idx idx' hidx hidx' b hb b' hb' heq
  have hsrc := hconsistent _ _ (checkedTarget_inShape.1 hidx) (checkedTarget_inShape.1 hidx') b hb
    b' hb' (by rw [← checkedTarget_element hidx, ← checkedTarget_element hidx', Int.add_assoc, heq,
      Int.add_assoc])
  rw [← checkedSource_element h hidx, ← checkedSource_element h hidx', Int.add_assoc,
    Int.add_assoc] at hsrc
  rw [hsrc]

/-- `memoryview_copy_contents` is correct if and only if the destination can hold the
    elements at all, where the transposition of the slices keeps their dimensions
    together. -/
theorem memoryviewCopyContents_copies_iff (src dst : MemviewSlice) (srcNdim dstNdim : Nat)
    (hdst : ∀ i < dstNdim, dst.suboffsets i < 0)
    (halike : AlikeIfTransposed (checkedSource src dst srcNdim dstNdim)
      (checkedTarget src dst srcNdim dstNdim) (getBestOrder src srcNdim)
      (broadcasts src dst srcNdim dstNdim) (max srcNdim dstNdim)) :
    CopiesContents src dst srcNdim dstNdim ↔ (Accepts src dst srcNdim dstNdim →
      (∃ i < dstNdim, dst.shape i = 0) ∨
        src.view.itemsize = dst.view.itemsize ∧ Consistent src dst srcNdim dstNdim) := by
  have hview : (checkedSource src dst srcNdim dstNdim).view = src.view :=
    (broadcastBoth_spec src dst srcNdim dstNdim).1.view
  have hview' : (checkedTarget src dst srcNdim dstNdim).view = dst.view :=
    (broadcastBoth_spec src dst srcNdim dstNdim).2.view
  have hunraised : ∀ m, Correct src dst srcNdim dstNdim m (.raised .noMemory m) := fun m =>
    ⟨fun h => Outcome.noConfusion h, fun m' h => Outcome.noConfusion h, fun e m' h addr => by
      rw [(Outcome.raised.inj h).2]⟩
  constructor
  · intro hcopies haccepts
    by_cases hempty : ∃ i < dstNdim, dst.shape i = 0
    · exact .inl hempty
    have hinhabited : InShape dst.shape dstNdim fun _ => 0 := fun i hi =>
      Nat.pos_of_ne_zero fun hzero => hempty ⟨i, hi, hzero⟩
    -- With memory for every block, the function returns.
    have hreturns : ∀ m, ∃ m', Copied src dst srcNdim dstNdim m m' := by
      intro m
      have hcorrect := hcopies (fun _ => some 0) src m
      rw [memoryviewCopyContents_of_accepts haccepts] at hcorrect
      have hne := @copyVerified_ne_raised _ _ _ m _ _ (fun _ => some 0) src
        (checked_matching haccepts hdst) halike fun _ => Option.some_ne_none 0
      generalize copyVerified _ _ _ _ _ _ _ m = outcome at hcorrect hne
      rcases outcome with m' | ⟨e, m'⟩ | _
      · exact ⟨m', hcorrect.returned m' rfl⟩
      · exact absurd rfl (hne e m')
      · exact absurd rfl hcorrect.defined
    have hitems : src.view.itemsize = dst.view.itemsize := by
      obtain ⟨m', hcopied⟩ := hreturns fun _ => 0
      have hlength := congrArg List.length (hcopied.elements _ hinhabited)
      simpa [bytesAt] using hlength.symm
    refine .inr ⟨hitems, fun idx idx' hidx hidx' b hb b' hb' heq => ?_⟩
    -- A memory where one byte of the source is different from all others.
    by_contra hne
    obtain ⟨m', hcopied⟩ := hreturns fun p =>
      if p.addr = element src srcNdim (broadcastIndex src srcNdim dstNdim idx) + b then 1 else 0
    have hone := hcopied.byte hitems hidx hb
    have hzero := hcopied.byte hitems hidx' hb'
    rw [heq, hzero] at hone
    simp only [if_neg (Ne.symm hne), if_true] at hone
    exact absurd hone (by decide)
  · intro hholds malloc tmp m
    by_cases haccepts : Accepts src dst srcNdim dstNdim
    · have hitems : src.view.itemsize = dst.view.itemsize ∨ ∃ i < dstNdim, dst.shape i = 0 :=
        (hholds haccepts).symm.imp_left And.left
      have hsame : SameItems (checkedSource src dst srcNdim dstNdim)
          (checkedTarget src dst srcNdim dstNdim) (max srcNdim dstNdim) := by
        rw [SameItems, hview, hview']
        refine hitems.imp_right ?_
        rintro ⟨i, hi, hzero⟩
        exact ⟨_, by omega, ((broadcastBoth_spec src dst srcNdim dstNdim).2.shape i hi).trans hzero⟩
      have hagree : Agree (checkedSource src dst srcNdim dstNdim)
          (checkedTarget src dst srcNdim dstNdim) (max srcNdim dstNdim)
          (checkedSource src dst srcNdim dstNdim).view.itemsize m := by
        rw [hview]
        rcases hholds haccepts with ⟨i, hi, hzero⟩ | ⟨-, hconsistent⟩
        · -- There are no elements.
          intro idx _ hidx
          have hlt := checkedTarget_inShape.1 hidx i hi
          exact absurd hlt (by omega)
        · exact agree_of_consistent haccepts hconsistent m
      rw [memoryviewCopyContents_of_accepts haccepts]
      rcases @copyVerified_spec _ _ _ m _ _ malloc tmp (checked_matching haccepts hdst) hsame halike
        hagree with hraised | ⟨m', hreturned, hmoved⟩
      · rw [hraised]
        exact hunraised m
      · rw [hreturned]
        rw [hview] at hmoved
        refine ⟨fun h => Outcome.noConfusion h, fun m'' h => ?_, fun e m'' h =>
          Outcome.noConfusion h⟩
        obtain rfl := Outcome.returned.inj h
        exact copied_of_moved haccepts hitems hmoved
    · obtain ⟨e, he⟩ := memoryviewCopyContents_of_not_accepts haccepts malloc tmp m
      rw [he]
      exact ⟨fun h => Outcome.noConfusion h, fun m' h => Outcome.noConfusion h, fun e m' h addr => by
        rw [(Outcome.raised.inj h).2]⟩

end

/-- Two slices of two dimensions in Fortran order, which are transposed. -/
theorem copies_transposed : CopiesContents
    ⟨⟨2, 1⟩, 100, fun _ => 2, fun i => if i = 0 then 1 else 3, fun _ => -1⟩
    ⟨⟨2, 1⟩, 0, fun _ => 2, fun i => if i = 0 then 1 else 4, fun _ => -1⟩ 2 2 := by
  refine (memoryviewCopyContents_copies_iff _ _ 2 2 (by decide) ⟨fun _ _ =>
    ⟨by decide, by decide, by decide⟩, fun h => absurd h (by decide)⟩).2 fun _ => .inr ⟨rfl, ?_⟩
  intro idx idx' hidx hidx' b hb b' hb' heq
  have h₀ := hidx 0 (by decide)
  have h₁ := hidx 1 (by decide)
  have h₀' := hidx' 0 (by decide)
  have h₁' := hidx' 1 (by decide)
  simp [element, broadcastIndex, Finset.sum_range_succ] at *
  omega

/-- A slice of two dimensions is broadcast to one of three, both in Fortran order. The
    first has two of its three dimensions swapped, the other is reversed. -/
theorem copies_broadcast_counterexample : ¬CopiesContents
    ⟨⟨2, 1⟩, 100, fun _ => 2, fun i => if i = 0 then 1 else 2, fun _ => -1⟩
    ⟨⟨3, 1⟩, 0, fun _ => 2, fun i => if i = 0 then 1 else if i = 1 then 2 else 4, fun _ => -1⟩
    2 3 := by
  intro h
  have hcorrect := h (fun _ => some 0) ⟨⟨0, 0⟩, 0, fun _ => 0, fun _ => 0, fun _ => 0⟩
    fun p => UInt8.ofNat p.addr.toNat
  -- The second element of the first dimension gets the byte of another element.
  have hbyte : (memoryviewCopyContents (fun _ => some 0)
      ⟨⟨0, 0⟩, 0, fun _ => 0, fun _ => 0, fun _ => 0⟩
      ⟨⟨2, 1⟩, 100, fun _ => 2, fun i => if i = 0 then 1 else 2, fun _ => -1⟩
      ⟨⟨3, 1⟩, 0, fun _ => 2, fun i => if i = 0 then 1 else if i = 1 then 2 else 4, fun _ => -1⟩
      2 3 fun p => UInt8.ofNat p.addr.toNat).byteAt 1 = some 102 := by decide
  generalize memoryviewCopyContents _ _ _ _ _ _ _ = outcome at hcorrect hbyte
  rcases outcome with m' | ⟨e, m'⟩ | _
  · have hidx : InShape (fun _ => 2) 3 fun i => if i = 0 then 1 else 0 := by
      intro i _
      show (if i = 0 then 1 else 0) < 2
      split <;> decide
    have helement := (hcorrect.returned m' rfl).byte rfl hidx Nat.one_pos
    have hbyte : m' ⟨.heap, 1⟩ = 102 := Option.some.inj hbyte
    have helement : m' ⟨.heap, 1⟩ = 100 := helement
    rw [hbyte] at helement
    exact absurd helement (by decide)
  · exact absurd hbyte (Option.some_ne_none _).symm
  · exact absurd hbyte (Option.some_ne_none _).symm

end AHPy.MemoryView
