import AHPy.MemoryView.StridedCopy
import AHPy.MemoryView.Validation

/-!
# The addresses of items

Generated code computes the address that the buffer protocol has, dimension by dimension, as the
checks of an axis give what its expression relies on. The item size is compared with the size of
the dtype in 32 bits only: where the two differ, the expression of a contiguous dimension is wrong.

* `lookupDim_eq`: one dimension;
* `lookup_eq_address_iff`: all of them.
-/

namespace AHPy.MemoryView

variable {pointerSize ndim dim : ℕ} {buf : PyBuffer} {spec : AxisSpec} (memory : ℤ → ℤ) (size : ℕ)

/-! ## What the checks tell -/

theorem bind_eq_ok {ε α β : Type*} {x : Except ε α} {f : α → Except ε β} {b : β}
    (h : x.bind f = .ok b) : ∃ v, x = .ok v ∧ f v = .ok b := by
  cases x with
  | error e => cases h
  | ok v => exact ⟨v, rfl, h⟩

/-- The axes are checked one by one. -/
theorem checkAxes_ok {i : ℕ} {axes : List AxisSpec}
    (h : checkAxes pointerSize buf ndim i axes = .ok ()) {k : ℕ} (hk : axes[k]? = some spec) :
    checkStrides pointerSize buf (i + k) ndim spec = .ok () ∧
      checkSuboffsets buf (i + k) spec = .ok () := by
  induction axes generalizing i k with
  | nil => cases hk
  | cons axis axes ih =>
    rw [checkAxes] at h
    obtain ⟨_, hstrides, h⟩ := bind_eq_ok h
    obtain ⟨_, hsuboffsets, h⟩ := bind_eq_ok h
    cases k with
    | zero =>
      cases hk
      exact ⟨hstrides, hsuboffsets⟩
    | succ k =>
      rw [← add_assoc, add_right_comm]
      exact ih h hk

/-- Pointers are in the dimensions that are to have some, and in no direct ones. -/
theorem suboffset_of_checkSuboffsets (h : checkSuboffsets buf dim spec = .ok ()) :
    (spec.access = .direct → buf.suboffsets.getD (fun _ => -1) dim < 0) ∧
      (spec.access = .ptr → 0 ≤ buf.suboffsets.getD (fun _ => -1) dim) := by
  rw [checkSuboffsets] at h
  split at h
  · cases h
  next hdirect =>
    split at h
    · cases h
    next hptr =>
      cases hsub : buf.suboffsets with
      | none =>
        rw [hsub] at hptr
        exact ⟨fun _ => neg_one_lt_zero, fun haccess => absurd ⟨haccess, rfl⟩ hptr⟩
      | some suboffsets =>
        rw [hsub] at hdirect hptr
        refine ⟨fun haccess => ?_, fun haccess => ?_⟩
        · simpa [haccess] using hdirect
        · simpa [haccess] using hptr

/-- The stride of the last dimension of a C array. -/
theorem contiguousStrides_last (h : buf.ndim = ndim) (hdim : dim + 1 = ndim) :
    buf.contiguousStrides dim = buf.itemsize := by
  have hdims : dimsFrom .c buf.ndim = dim :: (List.range dim).reverse := by
    rw [h, ← hdim, dimsFrom, if_neg (by decide), List.range_succ, List.reverse_append]
    rfl
  have hnot : dim ∉ (List.range dim).reverse := by simp
  rw [PyBuffer.contiguousStrides, hdims, fillContigStrides, fillContigStrides_of_not_mem hnot,
    Function.update_self]

/-- A contiguous dimension of more than one element has the stride of an item, or of a pointer. -/
theorem stride_of_checkStrides (h : checkStrides pointerSize buf dim ndim spec = .ok ())
    (hndim : buf.ndim = ndim) (hshape : 1 < buf.shape dim) (hpacking : spec.packing = .contig) :
    (spec.access = .direct → buf.strides.getD buf.contiguousStrides dim = buf.itemsize) ∧
      (spec.access = .ptr → buf.strides.getD buf.contiguousStrides dim = pointerSize) := by
  rw [checkStrides, if_neg (not_le.2 hshape)] at h
  cases hstrides : buf.strides with
  | some strides =>
    rw [hstrides] at h
    dsimp only at h
    split at h
    · cases h
    next hindirect =>
      split at h
      · cases h
      next hdirect =>
        refine ⟨fun haccess => ?_, fun haccess => ?_⟩
        · simpa [hpacking, haccess] using hdirect
        · simpa [hpacking, haccess] using hindirect
  | none =>
    rw [hstrides] at h
    dsimp only at h
    split at h
    · cases h
    next hlast =>
      split at h
      · cases h
      next hptr =>
        refine ⟨fun haccess => ?_, fun haccess => absurd haccess hptr⟩
        exact contiguousStrides_last hndim (not_not.1 fun hne => hlast ⟨hpacking, hne⟩)

/-! ## Dimensions -/

/-- The expression of a dimension computes the address of the buffer protocol. Only the one for a
    direct and contiguous dimension depends on the size of the dtype. -/
theorem lookupDim_eq (hstrides : checkStrides pointerSize buf dim ndim spec = .ok ())
    (hsuboffsets : checkSuboffsets buf dim spec = .ok ()) (hndim : buf.ndim = ndim) {i : ℕ}
    (hi : i < buf.shape dim) (bufp : ℤ) :
    lookupDim memory pointerSize size spec bufp i (buf.strides.getD buf.contiguousStrides dim)
        (buf.suboffsets.getD (fun _ => -1) dim) =
      buf.addressDim memory dim i bufp +
        if spec = ⟨.direct, .contig⟩ then i * ((size : ℤ) - buf.itemsize) else 0 := by
  obtain ⟨hdirect, hptr⟩ := suboffset_of_checkSuboffsets hsuboffsets
  -- The only index in a dimension of one element is 0.
  have hstride (hpacking : spec.packing = .contig) :
      (spec.access = .direct → i * buf.strides.getD buf.contiguousStrides dim =
        (i : ℤ) * buf.itemsize) ∧
      (spec.access = .ptr → i * buf.strides.getD buf.contiguousStrides dim =
        (i : ℤ) * pointerSize) := by
    rcases Nat.lt_or_ge 1 (buf.shape dim) with hshape | hshape
    · have h := stride_of_checkStrides hstrides hndim hshape hpacking
      exact ⟨fun haccess => by rw [h.1 haccess], fun haccess => by rw [h.2 haccess]⟩
    · rw [Nat.lt_one_iff.1 (hi.trans_le hshape), Nat.cast_zero]
      simp
  have hcorrection (h : spec.access ≠ .direct ∨ spec.packing ≠ .contig) :
      (if spec = ⟨.direct, .contig⟩ then i * ((size : ℤ) - buf.itemsize) else 0) = 0 :=
    if_neg (by rintro rfl; simp at h)
  obtain ⟨access, packing⟩ := spec
  rw [PyBuffer.addressDim, mul_comm (buf.strides.getD buf.contiguousStrides dim)]
  cases access with
  | full =>
    rw [hcorrection (.inl Access.noConfusion), add_zero]
    cases packing <;> rfl
  | ptr =>
    rw [hcorrection (.inl Access.noConfusion), add_zero, if_pos (hptr rfl)]
    cases packing with
    | contig =>
      rw [(hstride rfl).2 rfl]
      rfl
    | strided => rfl
    | follow => rfl
  | direct =>
    rw [if_neg (not_le.2 (hdirect rfl))]
    cases packing with
    | contig =>
      rw [(hstride rfl).1 rfl, if_pos rfl, lookupDim]
      ring
    | strided =>
      rw [hcorrection (.inr (by decide)), add_zero]
      rfl
    | follow =>
      rw [hcorrection (.inr (by decide)), add_zero]
      rfl

/-- The axes of dimensions, checked from one on. -/
def Checked (pointerSize : ℕ) (buf : PyBuffer) (i : ℕ) (axes : List AxisSpec) : Prop :=
  ∀ k spec, axes[k]? = some spec →
    checkStrides pointerSize buf (i + k) buf.ndim spec = .ok () ∧
      checkSuboffsets buf (i + k) spec = .ok ()

theorem Checked.tail {i : ℕ} {axes : List AxisSpec} (h : Checked pointerSize buf i (spec :: axes)) :
    Checked pointerSize buf (i + 1) axes := by
  intro k spec' hk
  have hchecked := h (k + 1) spec' hk
  rwa [← add_assoc, add_right_comm] at hchecked

theorem Checked.head {i : ℕ} {axes : List AxisSpec} (h : Checked pointerSize buf i (spec :: axes)) :
    checkStrides pointerSize buf i buf.ndim spec = .ok () ∧ checkSuboffsets buf i spec = .ok () :=
  h 0 spec rfl

/-- The address of the buffer protocol, where the expressions do not depend on the size. -/
theorem lookupFrom_eq {i : ℕ} {axes : List AxisSpec} {idx : ℕ → ℕ}
    (hchecked : Checked pointerSize buf i axes)
    (hidx : ∀ k < axes.length, idx (i + k) < buf.shape (i + k))
    (hsize : ∀ k, axes[k]? = some ⟨.direct, .contig⟩ →
      (idx (i + k) : ℤ) * ((size : ℤ) - buf.itemsize) = 0) (bufp : ℤ) :
    lookupFrom memory pointerSize size (initMemviewslice buf) idx i axes bufp =
      buf.addressFrom memory idx i axes.length bufp := by
  induction axes generalizing i bufp with
  | nil => rfl
  | cons spec axes ih =>
    have hhead := hchecked.head
    have hi : idx i < buf.shape i := hidx 0 (Nat.succ_pos _)
    have hdim := lookupDim_eq memory size hhead.1 hhead.2 rfl hi bufp
    have hzero : (if spec = ⟨.direct, .contig⟩ then
        (idx i : ℤ) * ((size : ℤ) - buf.itemsize) else 0) = 0 := by
      split
      next hspec => exact hsize 0 (by rw [hspec]; rfl)
      next => rfl
    rw [hzero, add_zero] at hdim
    rw [lookupFrom, List.length_cons, PyBuffer.addressFrom]
    have hrest := ih hchecked.tail
      (fun k hk => by rw [add_right_comm]; exact hidx (k + 1) (Nat.succ_lt_succ hk))
      (fun k hk => by rw [add_right_comm]; exact hsize (k + 1) hk)
    rw [← hrest]
    exact congrArg _ hdim

/-! ## Items of another size -/

/-- What the expressions add to the address, where pointers lead to themselves. -/
def excess (size : ℕ) (buf : PyBuffer) (idx : ℕ → ℕ) : ℕ → List AxisSpec → ℤ
  | _, [] => 0
  | i, spec :: axes =>
    (if spec = ⟨.direct, .contig⟩ then idx i * ((size : ℤ) - buf.itemsize) else 0) +
      excess size buf idx (i + 1) axes

theorem addressDim_id_sub (buf : PyBuffer) (dim i : ℕ) (p q : ℤ) :
    buf.addressDim id dim i p - buf.addressDim id dim i q = p - q := by
  rw [PyBuffer.addressDim, PyBuffer.addressDim]
  dsimp only [id]
  split <;> ring

theorem lookupFrom_id_sub {i : ℕ} {axes : List AxisSpec} {idx : ℕ → ℕ}
    (hchecked : Checked pointerSize buf i axes)
    (hidx : ∀ k < axes.length, idx (i + k) < buf.shape (i + k)) (p q : ℤ) :
    lookupFrom id pointerSize size (initMemviewslice buf) idx i axes p -
        buf.addressFrom id idx i axes.length q =
      p - q + excess size buf idx i axes := by
  induction axes generalizing i p q with
  | nil => rw [lookupFrom, List.length_nil, PyBuffer.addressFrom, excess, add_zero]
  | cons spec axes ih =>
    have hhead := hchecked.head
    have hi : idx i < buf.shape i := hidx 0 (Nat.succ_pos _)
    have hdim := lookupDim_eq id size hhead.1 hhead.2 rfl hi p
    have hsub := addressDim_id_sub buf i (idx i) p q
    rw [lookupFrom, List.length_cons, PyBuffer.addressFrom, excess, ih hchecked.tail
      (fun k hk => by rw [add_right_comm]; exact hidx (k + 1) (Nat.succ_lt_succ hk))]
    have hdim' : lookupDim id pointerSize size spec p (idx i) ((initMemviewslice buf).strides i)
        ((initMemviewslice buf).suboffsets i) = _ := hdim
    rw [hdim', ← hsub]
    ring

theorem excess_eq_zero {i : ℕ} {axes : List AxisSpec} {idx : ℕ → ℕ} (h : ∀ j, i ≤ j → idx j = 0) :
    excess size buf idx i axes = 0 := by
  induction axes generalizing i with
  | nil => rfl
  | cons spec axes ih =>
    rw [excess, h i le_rfl, ih fun j hj => h j (Nat.le_of_succ_le hj), Nat.cast_zero, zero_mul,
      ite_self, add_zero]

/-- One step in a direct and contiguous dimension. -/
theorem excess_single (buf : PyBuffer) {i k : ℕ} {axes : List AxisSpec}
    (hk : axes[k]? = some ⟨.direct, .contig⟩) :
    excess size buf (fun j => if j = i + k then 1 else 0) i axes = (size : ℤ) - buf.itemsize := by
  induction axes generalizing i k with
  | nil => cases hk
  | cons spec axes ih =>
    cases k with
    | zero =>
      cases hk
      rw [excess, if_pos rfl, excess_eq_zero size fun j hj => if_neg (by omega), add_zero,
        add_zero, if_pos rfl, Nat.cast_one, one_mul]
    | succ k =>
      have hrest := ih (i := i + 1) (k := k) hk
      rw [add_right_comm, add_assoc] at hrest
      rw [excess, if_neg (show i ≠ i + (k + 1) by omega), hrest, Nat.cast_zero, zero_mul, ite_self,
        zero_add]

/-! ## Accepted buffers -/

theorem pos_of_mod_ne_zero {n m : ℕ} (h : n % m ≠ 0) : 0 < n := by
  rcases Nat.eq_zero_or_pos n with rfl | hn
  · exact absurd (Nat.zero_mod m) h
  · exact hn

/-- What a buffer is like that is accepted. -/
theorem validateAndInit_ok {axes : List AxisSpec} {order : Option Order} {slice : MemviewSlice}
    (h : validateAndInit pointerSize axes order size none buf = .ok slice) :
    buf.ndim = axes.length ∧ buf.itemsize % 2 ^ 32 = size ∧
      (0 < buf.len → Checked pointerSize buf 0 axes) ∧ slice = initMemviewslice buf := by
  rw [validateAndInit] at h
  split at h
  · cases h
  next hndim =>
    split at h
    · cases h
    next hsize =>
      refine ⟨not_not.1 hndim, not_not.1 hsize, ?_⟩
      split at h
      next hlen =>
        obtain ⟨_, haxes, h⟩ := bind_eq_ok h
        obtain ⟨_, -, h⟩ := bind_eq_ok h
        cases h
        refine ⟨fun _ k spec hk => ?_, rfl⟩
        rw [not_not.1 hndim]
        exact checkAxes_ok haxes hk
      next hlen =>
        cases h
        exact ⟨fun hpos => absurd hpos hlen, rfl⟩

/-- For all buffers that are accepted, generated code computes the addresses of the buffer protocol,
    unless the items are of another size than the dtype, and lie in a direct and contiguous
    dimension of more than one. -/
theorem lookup_eq_address_iff {a : Buffer.Abi} {dtype : Buffer.TypeInfo} {axes : List AxisSpec}
    {order : Option Order} {isNew : Bool} {slice : MemviewSlice}
    (h : Acquired a dtype axes order isNew buf slice) :
    (∀ memory idx, InShape buf.shape buf.ndim idx →
        lookup memory (a.sizeof .pointer) dtype.size axes slice idx = buf.address memory idx) ↔
      buf.itemsize = dtype.size ∨ (∃ i < buf.ndim, buf.shape i = 0) ∨
        ∀ i, axes[i]? = some ⟨.direct, .contig⟩ → buf.shape i ≤ 1 := by
  obtain ⟨hndim, hsize, hchecked, rfl⟩ := validateAndInit_ok _ h.slice
  have hitem : 0 < buf.itemsize := pos_of_mod_ne_zero (hsize ▸ dtype.size_pos.ne')
  by_cases hzero : ∃ i < buf.ndim, buf.shape i = 0
  · refine iff_of_true (fun memory idx hidx => ?_) (.inr (.inl hzero))
    obtain ⟨i, hi, hshape⟩ := hzero
    exact absurd (hidx i hi) (by omega)
  have hlen : 0 < buf.len := by
    rw [buf.len_eq]
    refine Nat.mul_pos hitem (Finset.prod_pos fun i hi => Nat.pos_of_ne_zero fun hshape => ?_)
    exact hzero ⟨i, Finset.mem_range.1 hi, hshape⟩
  have hshape (i : ℕ) (hi : i < buf.ndim) : 0 < buf.shape i :=
    Nat.pos_of_ne_zero fun hshape => hzero ⟨i, hi, hshape⟩
  constructor
  · intro heq
    by_contra hne
    rw [not_or, not_or, not_forall] at hne
    obtain ⟨hdiffer, -, k, hk⟩ := hne
    obtain ⟨hspec, hmany⟩ := Classical.not_imp.1 hk
    -- The second item of that dimension, with pointers that lead to themselves.
    obtain ⟨idx, hdef⟩ : ∃ idx : ℕ → ℕ, idx = fun j => if j = k then 1 else 0 := ⟨_, rfl⟩
    have hidx : InShape buf.shape buf.ndim idx := by
      intro i hi
      rw [hdef]
      dsimp only
      split
      next hik =>
        rw [hik]
        exact not_le.1 hmany
      next => exact hshape i hi
    have hexcess := excess_single dtype.size buf (i := 0) hspec
    rw [zero_add, ← hdef] at hexcess
    have hsub := lookupFrom_id_sub dtype.size (hchecked hlen)
      (fun i hi => by rw [zero_add]; exact hidx i (hndim ▸ hi)) buf.buf buf.buf
    have hsame : lookupFrom id (a.sizeof .pointer) dtype.size (initMemviewslice buf) idx 0 axes
        buf.buf = buf.addressFrom id idx 0 buf.ndim buf.buf := heq id idx hidx
    rw [hexcess, hsame, hndim, sub_self, sub_self, zero_add] at hsub
    omega
  · rintro (hsame | hsame | hsame) memory idx hidx
    · rw [PyBuffer.address, hndim]
      exact lookupFrom_eq memory dtype.size (hchecked hlen)
        (fun i hi => by rw [zero_add]; exact hidx i (hndim ▸ hi))
        (fun i _ => by rw [hsame, sub_self, mul_zero]) buf.buf
    · exact absurd hsame hzero
    · rw [PyBuffer.address, hndim]
      refine lookupFrom_eq memory dtype.size (hchecked hlen)
        (fun i hi => by rw [zero_add]; exact hidx i (hndim ▸ hi)) (fun i hi => ?_) buf.buf
      have hlt : i < axes.length := (List.getElem?_eq_some_iff.1 hi).1
      have hone := hsame i hi
      have hin := hidx i (hndim ▸ hlt)
      rw [zero_add, Nat.lt_one_iff.1 (hin.trans_le hone), Nat.cast_zero, zero_mul]

/-- Two items of type `int`, in order. -/
def twoInts : PyBuffer where
  buf := 4096
  len := 4 * ∏ _i ∈ Finset.range 1, 2
  itemsize := 4
  format := ['i']
  ndim := 1
  shape _ := 2
  strides := some fun _ => 4
  suboffsets := none
  len_eq := rfl

theorem acquired_twoInts : Acquired Buffer.abi64 (.simple 4 .int []) [⟨.direct, .contig⟩] (some .c)
    true twoInts (initMemviewslice twoInts) where
  format _ := .of_run (n := 8) rfl rfl
  slice := rfl

/-- The second one. -/
theorem lookup_twoInts :
    lookup id 8 4 [⟨.direct, .contig⟩] (initMemviewslice twoInts) (fun _ => 1) =
      twoInts.address id fun _ => 1 :=
  (lookup_eq_address_iff acquired_twoInts).2 (.inl rfl) id _ fun _ _ => Nat.one_lt_two

/-- Two items of more than 2 ** 32 bytes: an `int`, and padding. -/
def twoPadded : PyBuffer where
  buf := 4096
  len := (2 ^ 32 + 4) * ∏ _i ∈ Finset.range 1, 2
  itemsize := 2 ^ 32 + 4
  format := ['i', '2', '1', '4', '7', '4', '8', '3', '6', '4', '7', 'x',
    '2', '1', '4', '7', '4', '8', '3', '6', '4', '7', 'x', '2', 'x']
  ndim := 1
  shape _ := 2
  strides := some fun _ => 2 ^ 32 + 4
  suboffsets := none
  len_eq := rfl

theorem acquired_twoPadded : Acquired Buffer.abi64 (.simple 4 .int []) [⟨.direct, .contig⟩]
    (some .c) true twoPadded (initMemviewslice twoPadded) where
  format _ := .of_run (n := 20) rfl rfl
  slice := rfl

/-- The second one is looked for four bytes after the first. -/
theorem lookup_twoPadded_ne : Acquired Buffer.abi64 (.simple 4 .int []) [⟨.direct, .contig⟩]
      (some .c) true twoPadded (initMemviewslice twoPadded) ∧
    lookup id 8 4 [⟨.direct, .contig⟩] (initMemviewslice twoPadded) (fun _ => 1) ≠
      twoPadded.address id fun _ => 1 :=
  ⟨acquired_twoPadded, by decide⟩

end AHPy.MemoryView
