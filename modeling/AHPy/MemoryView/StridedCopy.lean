import AHPy.Lib.Overwrites
import AHPy.MemoryView.Slices

/-!
# Strided copies

What `memcpy` and the recursive copy write, if no address is both read and written
(`Sends`).

* `memcpy_writes`: the bytes of a range;
* `copyStrided_writes`: the bytes of all elements of the destination.
-/

namespace AHPy.MemoryView

variable {v m : Memory} {D : Set Pointer} {itemsize : Nat}

@[simp] theorem Pointer.add_zero (p : Pointer) : p.add 0 = p := by
  rw [Pointer.add, Int.add_zero]

@[simp] theorem Pointer.add_add (p : Pointer) (a b : Int) : (p.add a).add b = p.add (a + b) := by
  rw [Pointer.add, Pointer.add, Pointer.add, Int.add_assoc]

theorem Pointer.add_addr (p : Pointer) (a : Int) : (p.add a).addr = p.addr + a := rfl

theorem Pointer.add_right_inj {p : Pointer} {a b : Int} (h : p.add a = p.add b) : a = b :=
  Int.add_left_cancel (congrArg Pointer.addr h)

theorem Pointer.add_sub {p q : Pointer} (h : p.space = q.space) : q.add (p.addr - q.addr) = p := by
  rcases p with ⟨space, addr⟩
  obtain rfl : space = q.space := h
  rw [Pointer.add]
  congr 1
  show q.addr + (addr - q.addr) = addr
  omega

/-! ## Ranges -/

/-- The bytes of a range. -/
def rangeBytes (p : Pointer) (n : Nat) : Set Pointer := {q | ∃ k < n, q = p.add (k : Nat)}

/-- Values are sent from an address that is not written to one that is. -/
structure SendsByte (v m : Memory) (D : Set Pointer) (src dst : Pointer) : Prop where
  mem : dst ∈ D
  not_mem : src ∉ D
  value : m src = v dst

theorem memcpy_writes {dst src : Pointer} {n : Nat}
    (h : ∀ k < n, SendsByte v m D (src.add (k : Nat)) (dst.add (k : Nat))) :
    Writes v D m (rangeBytes dst n) (memcpy dst src n) where
  subset := by
    rintro p ⟨k, hk, rfl⟩
    exact (h k hk).mem
  step := by
    intro W m₁ hW h₁
    -- The ranges do not overlap: their bytes would be read and written.
    have hdisjoint : ¬(dst.space = src.space ∧ src.addr < dst.addr + n ∧
        dst.addr < src.addr + n) := by
      rintro ⟨hspace, hlt, hlt'⟩
      have hmeet : ∃ k < n, ∃ k' < n, dst.addr + (k : Nat) = src.addr + (k' : Nat) := by
        rcases le_total dst.addr src.addr with hle | hle
        · exact ⟨(src.addr - dst.addr).toNat, by omega, 0, by omega, by omega⟩
        · exact ⟨0, by omega, (dst.addr - src.addr).toNat, by omega, by omega⟩
      obtain ⟨k, hk, k', hk', heq⟩ := hmeet
      have hsame : dst.add (k : Nat) = src.add (k' : Nat) := by
        rw [Pointer.add, Pointer.add, heq, ← hspace]
      exact (h k' hk').not_mem (hsame ▸ (h k hk).mem)
    rw [memcpy, if_neg hdisjoint]
    refine ⟨_, rfl, fun p hp => ?_, fun p hp => ?_⟩
    · by_cases hin : p.space = dst.space ∧ dst.addr ≤ p.addr ∧ p.addr < dst.addr + n
      · have hk : (p.addr - dst.addr).toNat < n := by omega
        have hcast : ((p.addr - dst.addr).toNat : Int) = p.addr - dst.addr := by omega
        have hsend := h _ hk
        rw [hcast, Pointer.add_sub hin.1] at hsend
        rw [if_pos hin, h₁.frame _ fun hmem => hsend.not_mem (hW hmem), hsend.value]
      · rw [if_neg hin]
        rcases hp with hp | ⟨k, hk, rfl⟩
        · exact h₁.written p hp
        · refine absurd ⟨rfl, ?_, ?_⟩ hin <;> rw [Pointer.add_addr] <;> omega
    · have hin : ¬(p.space = dst.space ∧ dst.addr ≤ p.addr ∧ p.addr < dst.addr + n) := by
        rintro ⟨hspace, hle, hlt⟩
        refine hp (.inr ⟨(p.addr - dst.addr).toNat, by omega, ?_⟩)
        rw [Int.toNat_of_nonneg (by omega), Pointer.add_sub hspace]
      rw [if_neg hin]
      exact h₁.frame p fun hmem => hp (.inl hmem)

/-! ## Elements -/

/-- The offset of an element. -/
def offset (strides : Nat → Int) (ndim : Nat) (idx : Nat → Nat) : Int :=
  ∑ i ∈ Finset.range ndim, idx i * strides i

theorem offset_succ (strides : Nat → Int) (ndim : Nat) (idx : Nat → Nat) :
    offset strides (ndim + 1) idx =
      idx 0 * strides 0 + offset (fun i => strides (i + 1)) ndim fun i => idx (i + 1) := by
  rw [offset, Finset.sum_range_succ', Int.add_comm]
  rfl

/-- The bytes of the elements at `p`. -/
def elementBytes (itemsize : Nat) (strides : Nat → Int) (shape : Nat → Nat) (ndim : Nat)
    (p : Pointer) : Set Pointer :=
  {q | ∃ idx, InShape shape ndim idx ∧ ∃ b < itemsize, q = p.add (offset strides ndim idx + b)}

/-- The elements at `src` are sent to those at `dst`. -/
def Sends (v m : Memory) (D : Set Pointer) (itemsize : Nat) (srcStrides dstStrides : Nat → Int)
    (shape : Nat → Nat) (ndim : Nat) (src dst : Pointer) : Prop :=
  ∀ idx, InShape shape ndim idx → ∀ b < itemsize,
    SendsByte v m D (src.add (offset srcStrides ndim idx + b))
      (dst.add (offset dstStrides ndim idx + b))

/-- An index with a first component. -/
def consIndex (i : Nat) (idx : Nat → Nat) : Nat → Nat
  | 0 => i
  | j + 1 => idx j

theorem inShape_succ {shape : Nat → Nat} {ndim : Nat} {idx : Nat → Nat} :
    InShape shape (ndim + 1) idx ↔
      idx 0 < shape 0 ∧ InShape (fun i => shape (i + 1)) ndim fun i => idx (i + 1) := by
  constructor
  · intro h
    exact ⟨h 0 (Nat.succ_pos ndim), fun i hi => h (i + 1) (Nat.succ_lt_succ hi)⟩
  · rintro ⟨h₀, h⟩ (_ | i) hi
    · exact h₀
    · exact h i (Nat.lt_of_succ_lt_succ hi)

theorem Sends.tail {srcStrides dstStrides : Nat → Int} {shape : Nat → Nat} {ndim : Nat}
    {src dst : Pointer} (h : Sends v m D itemsize srcStrides dstStrides shape (ndim + 1) src dst)
    {i : Nat} (hi : i < shape 0) :
    Sends v m D itemsize (fun i => srcStrides (i + 1)) (fun i => dstStrides (i + 1))
      (fun i => shape (i + 1)) ndim (src.add (i * srcStrides 0)) (dst.add (i * dstStrides 0)) := by
  intro idx hidx b hb
  have hsend := h (consIndex i idx) (inShape_succ.2 ⟨hi, hidx⟩) b hb
  rw [offset_succ, offset_succ, Int.add_assoc, Int.add_assoc] at hsend
  rw [Pointer.add_add, Pointer.add_add]
  exact hsend

theorem elementBytes_succ (strides : Nat → Int) (shape : Nat → Nat) (ndim : Nat) (p : Pointer) :
    elementBytes itemsize strides shape (ndim + 1) p =
      {q | ∃ i < shape 0, q ∈ elementBytes itemsize (fun i => strides (i + 1))
        (fun i => shape (i + 1)) ndim (p.add (i * strides 0))} := by
  ext q
  constructor
  · rintro ⟨idx, hidx, b, hb, rfl⟩
    obtain ⟨h₀, htail⟩ := inShape_succ.1 hidx
    refine ⟨idx 0, h₀, fun i => idx (i + 1), htail, b, hb, ?_⟩
    rw [offset_succ, Pointer.add_add, Int.add_assoc]
  · rintro ⟨i, hi, idx, hidx, b, hb, rfl⟩
    refine ⟨consIndex i idx, inShape_succ.2 ⟨hi, hidx⟩, b, hb, ?_⟩
    rw [offset_succ, Pointer.add_add, Int.add_assoc]
    rfl

theorem elementBytes_zero (strides : Nat → Int) (shape : Nat → Nat) (p : Pointer) :
    elementBytes itemsize strides shape 0 p = rangeBytes p itemsize := by
  ext q
  constructor
  · rintro ⟨idx, -, b, hb, rfl⟩
    exact ⟨b, hb, by rw [offset, Finset.sum_range_zero, Int.zero_add]⟩
  · rintro ⟨b, hb, rfl⟩
    exact ⟨fun _ => 0, fun i hi => absurd hi (Nat.not_lt_zero i), b, hb, by
      rw [offset, Finset.sum_range_zero, Int.zero_add]⟩

/-! ## Loops -/

theorem strideLoop_eq (body : Pointer → Pointer → Memory → Option Memory)
    (srcStride dstStride : Int) (n : Nat) (src dst : Pointer) :
    strideLoop body srcStride dstStride n src dst =
      iterateSteps (fun i => body (src.add (i * srcStride)) (dst.add (i * dstStride))) n := by
  induction n generalizing src dst with
  | zero => rfl
  | succ n ih =>
    funext m
    have hfirst : body (src.add ((0 : Nat) * srcStride)) (dst.add ((0 : Nat) * dstStride)) =
        body src dst := by
      rw [Nat.cast_zero, Int.zero_mul, Int.zero_mul, Pointer.add_zero, Pointer.add_zero]
    have hrest : (fun i : Nat => body ((src.add srcStride).add (i * srcStride))
        ((dst.add dstStride).add (i * dstStride))) =
        fun i : Nat => body (src.add ((i + 1 : Nat) * srcStride))
          (dst.add ((i + 1 : Nat) * dstStride)) := by
      funext i
      rw [Pointer.add_add, Pointer.add_add, Nat.cast_succ, Int.add_mul, Int.add_mul, Int.one_mul,
        Int.one_mul, Int.add_comm srcStride, Int.add_comm dstStride]
    rw [strideLoop, iterateSteps, ih, hfirst, hrest]

/-- With one dimension, elements that follow each other are a range. -/
theorem Sends.range {srcStrides dstStrides : Nat → Int} {shape : Nat → Nat} {src dst : Pointer}
    (h : Sends v m D itemsize srcStrides dstStrides shape 1 src dst)
    (hsrc : srcStrides 0 = itemsize) (hdst : dstStrides 0 = itemsize) :
    ∀ k < itemsize * shape 0, SendsByte v m D (src.add (k : Nat)) (dst.add (k : Nat)) := by
  intro k hk
  have hpos : 0 < itemsize := Nat.pos_of_mul_pos_right (Nat.zero_lt_of_lt hk)
  have hsend := h (fun _ => k / itemsize)
    (fun i hi => by
      obtain rfl : i = 0 := Nat.lt_one_iff.1 hi
      exact Nat.div_lt_of_lt_mul hk)
    (k % itemsize) (Nat.mod_lt k hpos)
  have hoffset : ((k / itemsize : Nat) : Int) * itemsize + (k % itemsize : Nat) = k := by
    rw [Int.mul_comm]
    exact_mod_cast Nat.div_add_mod k itemsize
  simpa only [offset, Finset.sum_range_one, hsrc, hdst, hoffset] using hsend

theorem elementBytes_one {strides : Nat → Int} {shape : Nat → Nat} {p : Pointer}
    (hstride : strides 0 = itemsize) :
    elementBytes itemsize strides shape 1 p = rangeBytes p (itemsize * shape 0) := by
  ext q
  constructor
  · rintro ⟨idx, hidx, b, hb, rfl⟩
    refine ⟨itemsize * idx 0 + b, ?_, ?_⟩
    · calc itemsize * idx 0 + b < itemsize * (idx 0 + 1) := by rw [Nat.mul_succ]; omega
        _ ≤ itemsize * shape 0 := Nat.mul_le_mul_left itemsize (hidx 0 Nat.one_pos)
    · rw [offset, Finset.sum_range_one, hstride]
      congr 1
      push_cast
      ring
  · rintro ⟨k, hk, rfl⟩
    have hpos : 0 < itemsize := Nat.pos_of_mul_pos_right (Nat.zero_lt_of_lt hk)
    refine ⟨fun _ => k / itemsize, fun i hi => ?_, k % itemsize, Nat.mod_lt k hpos, ?_⟩
    · obtain rfl : i = 0 := Nat.lt_one_iff.1 hi
      exact Nat.div_lt_of_lt_mul hk
    · rw [offset, Finset.sum_range_one, hstride, Int.mul_comm]
      congr 1
      exact_mod_cast (Nat.div_add_mod k itemsize).symm

/-- The recursive copy writes all elements. -/
theorem copyStrided_writes {srcStrides dstStrides : Nat → Int} {shape : Nat → Nat} {ndim : Nat}
    {src dst : Pointer} (hndim : 0 < ndim)
    (h : Sends v m D itemsize srcStrides dstStrides shape ndim src dst) :
    Writes v D m (elementBytes itemsize dstStrides shape ndim dst)
      (copyStrided itemsize srcStrides dstStrides shape ndim src dst) := by
  induction ndim generalizing srcStrides dstStrides shape src dst with
  | zero => exact absurd hndim (Nat.lt_irrefl 0)
  | succ ndim ih =>
    rcases ndim with _ | ndim
    · by_cases hcontig : srcStrides 0 > 0 ∧ dstStrides 0 > 0 ∧ srcStrides 0 = itemsize ∧
          dstStrides 0 = itemsize
      · have heq : copyStrided itemsize srcStrides dstStrides shape (0 + 1) src dst =
            memcpy dst src (itemsize * shape 0) := by
          funext m
          rw [copyStrided, if_pos hcontig]
        rw [heq, elementBytes_one hcontig.2.2.2]
        exact memcpy_writes (h.range hcontig.2.2.1 hcontig.2.2.2)
      · have heq : copyStrided itemsize srcStrides dstStrides shape (0 + 1) src dst =
            strideLoop (fun srcData dstData => memcpy dstData srcData itemsize)
              (srcStrides 0) (dstStrides 0) (shape 0) src dst := by
          funext m
          rw [copyStrided, if_neg hcontig]
        rw [heq, strideLoop_eq, elementBytes_succ]
        refine Writes.iterate fun i hi => ?_
        rw [elementBytes_zero]
        refine memcpy_writes fun k hk => ?_
        have hsend := h.tail hi (fun _ => 0) (fun j hj => absurd hj (Nat.not_lt_zero j)) k hk
        rwa [offset, Finset.sum_range_zero, offset, Finset.sum_range_zero, Int.zero_add] at hsend
    · have heq : copyStrided itemsize srcStrides dstStrides shape (ndim + 1 + 1) src dst =
          strideLoop (copyStrided itemsize (fun i => srcStrides (i + 1))
            (fun i => dstStrides (i + 1)) (fun i => shape (i + 1)) (ndim + 1))
            (srcStrides 0) (dstStrides 0) (shape 0) src dst := by
        funext m
        rw [copyStrided]
      rw [heq, strideLoop_eq, elementBytes_succ]
      exact Writes.iterate fun i hi => ih (Nat.succ_pos ndim) (h.tail hi)

/-!
## Contiguous slices

The strides of a contiguous slice are the sizes of what the dimensions before it take,
in one of the orders (`Layout`), so the bytes of its elements are those of one range,
each of one element.

* `Layout.cover`, `Layout.inj`, `Layout.bound`: the numerals of mixed radix;
* `elementBytes_of_layout`: the bytes of the elements;
* `sends_of_layout`: two slices of the same layout are copied as ranges;
* `element_mem_extents`: the elements are in the range of `getArrayMemoryExtents`.
-/

variable {shape : Nat → Nat} {strides : Nat → Int} {dims : List Nat} {size itemsize ndim : Nat}
  {order : Order}

/-- The strides of the dimensions are the sizes of those before; in a dimension with
    one element the stride does not matter. -/
def Layout (shape : Nat → Nat) (strides : Nat → Int) : Nat → List Nat → Prop
  | _, [] => True
  | size, i :: dims => (shape i = 1 ∨ strides i = size) ∧ Layout shape strides (size * shape i) dims

/-- The offset of an element in some dimensions. -/
def offsetIn (strides : Nat → Int) (dims : List Nat) (idx : Nat → Nat) : Int :=
  (dims.map fun i => (idx i : Int) * strides i).sum

/-- The number of elements in some dimensions. -/
def count (shape : Nat → Nat) (dims : List Nat) : Nat := (dims.map shape).prod

theorem dimsFrom_perm (order : Order) (ndim : Nat) : (dimsFrom order ndim).Perm (List.range ndim) := by
  rw [dimsFrom]
  split
  · exact .refl _
  · exact List.reverse_perm _

theorem mem_dimsFrom {i : Nat} : i ∈ dimsFrom order ndim ↔ i < ndim := by
  rw [(dimsFrom_perm order ndim).mem_iff, List.mem_range]

theorem nodup_dimsFrom (order : Order) (ndim : Nat) : (dimsFrom order ndim).Nodup :=
  (dimsFrom_perm order ndim).nodup_iff.2 List.nodup_range

theorem offsetIn_dimsFrom (strides : Nat → Int) (order : Order) (ndim : Nat) (idx : Nat → Nat) :
    offsetIn strides (dimsFrom order ndim) idx = offset strides ndim idx :=
  ((dimsFrom_perm order ndim).map _).sum_eq

theorem count_dimsFrom (shape : Nat → Nat) (order : Order) (ndim : Nat) :
    count shape (dimsFrom order ndim) = count shape (List.range ndim) :=
  ((dimsFrom_perm order ndim).map _).prod_eq

theorem offsetIn_congr {idx idx' : Nat → Nat} (h : ∀ i ∈ dims, idx i = idx' i) :
    offsetIn strides dims idx = offsetIn strides dims idx' := by
  rw [offsetIn, offsetIn]
  congr 1
  exact List.map_congr_left fun i hi => by rw [h i hi]

/-- The digit of the first dimension, and what is below it, as one digit. -/
theorem Layout.head {i : Nat} {idx : Nat → Nat} {b : Nat}
    (h : Layout shape strides size (i :: dims)) (hidx : idx i < shape i) (hb : b < size) :
    offsetIn strides (i :: dims) idx + b =
        offsetIn strides dims idx + (size * idx i + b : Nat) ∧
      size * idx i + b < size * shape i := by
  constructor
  · have hdigit : (idx i : Int) * strides i = size * idx i := by
      rcases h.1 with hone | hstride
      · have hzero : idx i = 0 := by omega
        rw [hzero, Nat.cast_zero, Int.zero_mul, Int.mul_zero]
      · rw [hstride, Int.mul_comm]
    rw [offsetIn, List.map_cons, List.sum_cons, hdigit, ← offsetIn]
    push_cast
    ring
  · calc size * idx i + b < size * (idx i + 1) := by rw [Nat.mul_succ]; omega
      _ ≤ size * shape i := Nat.mul_le_mul_left size hidx

/-- Every offset below the size is the one of a byte of an element. -/
theorem Layout.cover (h : Layout shape strides size dims) (hdims : dims.Nodup) {k : Nat}
    (hk : k < size * count shape dims) :
    ∃ idx : Nat → Nat, (∀ i ∈ dims, idx i < shape i) ∧ ∃ b < size, (k : Int) =
      offsetIn strides dims idx + b := by
  induction dims generalizing size with
  | nil =>
    exact ⟨fun _ => 0, fun i hi => absurd hi List.not_mem_nil, k, by simpa [count] using hk,
      by simp [offsetIn]⟩
  | cons i dims ih =>
    obtain ⟨hi, hdims⟩ := List.nodup_cons.1 hdims
    obtain ⟨idx, hidx, b, hb, heq⟩ := ih h.2 hdims (by
      rwa [count, List.map_cons, List.prod_cons, ← Nat.mul_assoc] at hk)
    have hpos : 0 < size := Nat.pos_of_mul_pos_right (Nat.zero_lt_of_lt hb)
    -- The digit of the first dimension.
    let idx' := Function.update idx i (b / size)
    have hsame : ∀ j ∈ dims, idx' j = idx j := by
      intro j hj
      exact Function.update_of_ne (ne_of_mem_of_not_mem hj hi) _ _
    have hfirst : idx' i = b / size := Function.update_self _ _ _
    have hlt : idx' i < shape i := hfirst ▸ Nat.div_lt_of_lt_mul hb
    refine ⟨idx', fun j hj => ?_, b % size, Nat.mod_lt b hpos, ?_⟩
    · rcases List.mem_cons.1 hj with rfl | hj
      · exact hlt
      · exact hsame j hj ▸ hidx j hj
    · rw [(h.head hlt (Nat.mod_lt b hpos)).1, hfirst, Nat.div_add_mod, heq, offsetIn_congr hsame]

/-- Different bytes of elements have different offsets. -/
theorem Layout.inj (h : Layout shape strides size dims) {idx idx' : Nat → Nat} {b b' : Nat}
    (hidx : ∀ i ∈ dims, idx i < shape i) (hidx' : ∀ i ∈ dims, idx' i < shape i) (hb : b < size)
    (hb' : b' < size) (heq : offsetIn strides dims idx + b = offsetIn strides dims idx' + b') :
    b = b' ∧ ∀ i ∈ dims, idx i = idx' i := by
  induction dims generalizing size b b' with
  | nil =>
    refine ⟨?_, fun i hi => absurd hi List.not_mem_nil⟩
    simpa [offsetIn] using heq
  | cons i dims ih =>
    obtain ⟨hi, hidx⟩ := List.forall_mem_cons.1 hidx
    obtain ⟨hi', hidx'⟩ := List.forall_mem_cons.1 hidx'
    obtain ⟨hoffset, hlt⟩ := h.head hi hb
    obtain ⟨hoffset', hlt'⟩ := h.head hi' hb'
    obtain ⟨hdigits, hrest⟩ := ih h.2 hidx hidx' hlt hlt' (by rw [← hoffset, heq, hoffset'])
    have hfirst : idx i = idx' i := by
      have hdiv := congrArg (· / size) hdigits
      have hpos : 0 < size := Nat.zero_lt_of_lt hb
      simpa only [Nat.mul_add_div hpos, Nat.div_eq_of_lt hb, Nat.div_eq_of_lt hb',
        Nat.add_zero] using hdiv
    refine ⟨?_, List.forall_mem_cons.2 ⟨hfirst, hrest⟩⟩
    rw [hfirst] at hdigits
    exact Nat.add_left_cancel hdigits

theorem Layout.bound (h : Layout shape strides size dims) {idx : Nat → Nat} {b : Nat}
    (hidx : ∀ i ∈ dims, idx i < shape i) (hb : b < size) :
    ∃ k < size * count shape dims, offsetIn strides dims idx + b = (k : Nat) := by
  induction dims generalizing size b with
  | nil => exact ⟨b, by simpa [count] using hb, by simp [offsetIn]⟩
  | cons i dims ih =>
    obtain ⟨hi, hidx⟩ := List.forall_mem_cons.1 hidx
    obtain ⟨hoffset, hlt⟩ := h.head hi hb
    obtain ⟨k, hk, heq⟩ := ih h.2 hidx hlt
    refine ⟨k, ?_, hoffset.trans heq⟩
    rwa [count, List.map_cons, List.prod_cons, ← Nat.mul_assoc]

theorem inShape_iff {idx : Nat → Nat} (order : Order) :
    InShape shape ndim idx ↔ ∀ i ∈ dimsFrom order ndim, idx i < shape i :=
  ⟨fun h i hi => h i (mem_dimsFrom.1 hi), fun h i hi => h i (mem_dimsFrom.2 hi)⟩

/-- A slice whose strides are those of a contiguous one. -/
def Contiguous (itemsize : Nat) (strides : Nat → Int) (shape : Nat → Nat) (ndim : Nat)
    (order : Order) : Prop :=
  Layout shape strides itemsize (dimsFrom order ndim)

/-- The elements of a contiguous slice are a range. -/
theorem elementBytes_of_contiguous (h : Contiguous itemsize strides shape ndim order) (p : Pointer) :
    elementBytes itemsize strides shape ndim p =
      rangeBytes p (itemsize * count shape (List.range ndim)) := by
  ext q
  constructor
  · rintro ⟨idx, hidx, b, hb, rfl⟩
    obtain ⟨k, hk, heq⟩ := Layout.bound h ((inShape_iff order).1 hidx) hb
    rw [count_dimsFrom] at hk
    rw [offsetIn_dimsFrom] at heq
    exact ⟨k, hk, by rw [heq]⟩
  · rintro ⟨k, hk, rfl⟩
    rw [← count_dimsFrom shape order] at hk
    obtain ⟨idx, hidx, b, hb, heq⟩ := Layout.cover h (nodup_dimsFrom order ndim) hk
    rw [offsetIn_dimsFrom] at heq
    exact ⟨idx, (inShape_iff order).2 hidx, b, hb, by rw [heq]⟩

/-- In contiguous slices of the same order, elements have the same offsets. -/
theorem offset_of_contiguous {strides' : Nat → Int}
    (h : Contiguous itemsize strides shape ndim order)
    (h' : Contiguous itemsize strides' shape ndim order) {idx : Nat → Nat}
    (hidx : InShape shape ndim idx) : offset strides ndim idx = offset strides' ndim idx := by
  rw [Contiguous] at h h'
  rw [← offsetIn_dimsFrom strides order, ← offsetIn_dimsFrom strides' order]
  have hidx := (inShape_iff order).1 hidx
  generalize dimsFrom order ndim = dims at h h' hidx
  generalize itemsize = size at h h'
  induction dims generalizing size with
  | nil => rfl
  | cons i dims ih =>
    obtain ⟨hi, hidx⟩ := List.forall_mem_cons.1 hidx
    have hdigit : (idx i : Int) * strides i = idx i * strides' i := by
      rcases h.1 with hone | hstride
      · have hzero : idx i = 0 := by omega
        rw [hzero, Nat.cast_zero, Int.zero_mul, Int.zero_mul]
      · rcases h'.1 with hone | hstride'
        · have hzero : idx i = 0 := by omega
          rw [hzero, Nat.cast_zero, Int.zero_mul, Int.zero_mul]
        · rw [hstride, hstride']
    have hrest := ih hidx (size * shape i) h.2 h'.2
    rw [offsetIn, List.map_cons, List.sum_cons, hdigit, ← offsetIn, hrest, offsetIn, offsetIn,
      List.map_cons, List.sum_cons]

/-! ## What the code computes -/

theorem layout_of_isContigFrom {slice : MemviewSlice}
    (h : isContigFrom slice size dims = true) : Layout slice.shape slice.strides size dims := by
  induction dims generalizing size with
  | nil => trivial
  | cons i dims ih =>
    rw [isContigFrom] at h
    by_cases hstop : slice.suboffsets i ≥ 0 ∨ slice.strides i ≠ size
    · rw [if_pos hstop] at h
      exact absurd h Bool.false_ne_true
    · rw [if_neg hstop] at h
      exact ⟨.inr (not_not.1 (not_or.1 hstop).2), ih h⟩

theorem contiguous_of_sliceIsContig {slice : MemviewSlice}
    (h : sliceIsContig slice ndim order = true) :
    Contiguous slice.view.itemsize slice.strides slice.shape ndim order :=
  layout_of_isContigFrom h

theorem sliceIsContig_zero (slice : MemviewSlice) (order : Order) :
    sliceIsContig slice 0 order = true := by
  cases order <;> rfl

theorem sliceGetSize_eq (slice : MemviewSlice) (ndim : Nat) :
    sliceGetSize slice ndim = slice.view.itemsize * count slice.shape (List.range ndim) := by
  rw [sliceGetSize, count]
  generalize slice.view.itemsize = size
  generalize List.range ndim = dims
  induction dims generalizing size with
  | nil => simp
  | cons i dims ih => rw [List.foldl_cons, ih, List.map_cons, List.prod_cons, Nat.mul_assoc]

theorem fillContigStrides_of_not_mem {stride : Int} {i : Nat} (hi : i ∉ dims) :
    fillContigStrides shape stride dims strides i = strides i := by
  induction dims generalizing stride strides with
  | nil => rfl
  | cons j dims ih =>
    obtain ⟨hne, hi⟩ := List.ne_and_not_mem_of_not_mem_cons hi
    rw [fillContigStrides, ih hi, Function.update_of_ne hne]

/-- The strides that are filled in are contiguous, also if some are set to 0 where there
    is one element. -/
theorem layout_fillContigStrides (strides : Nat → Int) (hdims : dims.Nodup) {strides' : Nat → Int}
    (h : ∀ i ∈ dims, shape i = 1 ∨ strides' i = fillContigStrides shape size dims strides i) :
    Layout shape strides' size dims := by
  induction dims generalizing size strides with
  | nil => trivial
  | cons i dims ih =>
    obtain ⟨hi, hdims⟩ := List.nodup_cons.1 hdims
    obtain ⟨hfirst, hrest⟩ := List.forall_mem_cons.1 h
    rw [fillContigStrides, fillContigStrides_of_not_mem hi, Function.update_self] at hfirst
    refine ⟨hfirst, ih (Function.update strides i size) hdims fun j hj => ?_⟩
    have hj := hrest j hj
    rw [fillContigStrides] at hj
    rw [Nat.cast_mul]
    exact hj

/-- The temporary copy is contiguous. -/
theorem contiguous_tempSlice (src tmpslice : MemviewSlice) (data : Int) (order : Order)
    (ndim : Nat) :
    Contiguous src.view.itemsize (tempSlice src tmpslice data order ndim).strides
      (tempSlice src tmpslice data order ndim).shape ndim order := by
  refine layout_fillContigStrides tmpslice.strides (nodup_dimsFrom order ndim)
    fun i hi => ?_
  by_cases hone : (tempSlice src tmpslice data order ndim).shape i = 1
  · exact .inl hone
  · exact .inr (if_neg fun h => hone h.2)

/-! ## Memory extents -/

theorem mem_memoryExtentsFrom {slice : MemviewSlice} {idx : Nat → Nat} {start stop x : Int}
    (hidx : ∀ i ∈ dims, idx i < slice.shape i) (hstart : start ≤ x) (hstop : x ≤ stop) :
    (memoryExtentsFrom slice itemsize dims start stop).1 ≤ x + offsetIn slice.strides dims idx ∧
      x + offsetIn slice.strides dims idx + itemsize ≤
        (memoryExtentsFrom slice itemsize dims start stop).2 := by
  induction dims generalizing start stop x with
  | nil =>
    rw [memoryExtentsFrom, offsetIn, List.map_nil, List.sum_nil]
    constructor <;> dsimp only <;> omega
  | cons i dims ih =>
    obtain ⟨hi, hidx⟩ := List.forall_mem_cons.1 hidx
    have hsplit : x + offsetIn slice.strides (i :: dims) idx =
        x + idx i * slice.strides i + offsetIn slice.strides dims idx := by
      rw [offsetIn, List.map_cons, List.sum_cons, ← offsetIn, Int.add_assoc]
    rw [hsplit, memoryExtentsFrom, if_neg (by omega)]
    have hle : (idx i : Int) ≤ slice.shape i - 1 := by omega
    have hnonneg : (0 : Int) ≤ idx i := Int.natCast_nonneg _
    split
    next hpos =>
      refine ih hidx ?_ ?_
      · have := mul_nonneg hnonneg hpos.le
        omega
      · have := mul_le_mul_of_nonneg_left hle hpos.le
        rw [Int.mul_comm] at this
        omega
    next hneg =>
      refine ih hidx ?_ ?_
      · have := mul_le_mul_of_nonpos_left hle (not_lt.1 hneg)
        rw [Int.mul_comm _ (idx i : Int)] at this
        omega
      · have := mul_nonpos_of_nonneg_of_nonpos hnonneg (not_lt.1 hneg)
        omega

/-- The elements of a slice are in its range. -/
theorem element_mem_extents {slice : MemviewSlice} {idx : Nat → Nat}
    (hidx : InShape slice.shape ndim idx) :
    (getArrayMemoryExtents slice ndim itemsize).1 ≤ slice.data + offset slice.strides ndim idx ∧
      slice.data + offset slice.strides ndim idx + itemsize ≤
        (getArrayMemoryExtents slice ndim itemsize).2 := by
  rw [← offsetIn_dimsFrom slice.strides .f]
  exact mem_memoryExtentsFrom (fun i hi => hidx i (List.mem_range.1 hi)) le_rfl le_rfl

end AHPy.MemoryView
