import AHPy.PyrexTypes.NumericTypes

/-!
# The widest type of a list

* `widest_spec`: two different enums give `int`; for other types the result has the greater
  rank, and the lesser signedness at that rank;
* `Reduces.inv`: what all results for a list have in common;
* `reductions_agree`: where no enum is listed beside narrower types only, all orders and
  groupings give types of one rank and signedness, and one type if only one ties.
-/

namespace AHPy.PyrexTypes

namespace NumericType

variable {t a b w : NumericType} {l : List NumericType}

/-! ## Attributes of related types -/

/-- The attributes that do not change with typedefs, qualifiers and references. -/
def attributes (t : NumericType) : ℚ × ℕ × Bool × Bool × Bool × NumericType × NumericType :=
  (t.rank, t.signed, t.isInt, t.isEnum, t.isComplex, t.realType, t.base)

theorem attributes_refBaseType (t : NumericType) : t.refBaseType.attributes = t.attributes := by
  induction t with
  | typedef _ _ base ih => exact ih
  | qualified _ base ih => exact ih
  | _ => rfl

theorem attributes_cvBaseType (t : NumericType) : t.cvBaseType.attributes = t.attributes := by
  induction t with
  | typedef _ _ base ih => exact ih
  | reference base ih => exact ih
  | _ => rfl

theorem attributes_strip (t : NumericType) : t.strip.attributes = t.attributes := by
  have href : (if t.isReference then t.refBaseType else t).attributes = t.attributes := by
    split
    next => exact attributes_refBaseType t
    next => rfl
  rw [strip]
  generalize (if t.isReference then t.refBaseType else t) = t' at href ⊢
  split
  next => rw [attributes_cvBaseType, href]
  next => exact href

theorem attributes_resolveKnownType (t : NumericType) :
    t.resolveKnownType.attributes = t.attributes := by
  induction t with
  | typedef _ isExternal base ih =>
    cases isExternal with
    | true => rfl
    | false => exact ih
  | qualified _ base ih =>
    rw [resolveKnownType]
    split
    next => exact ih
    next => rfl
  | reference base ih =>
    rw [resolveKnownType]
    split
    next => exact ih
    next => rfl
  | _ => rfl

theorem attributes_eq_iff : a.attributes = b.attributes ↔ a.rank = b.rank ∧ a.signed = b.signed ∧
    a.isInt = b.isInt ∧ a.isEnum = b.isEnum ∧ a.isComplex = b.isComplex ∧
    a.realType = b.realType ∧ a.base = b.base := by
  simp only [attributes, Prod.mk.injEq]

@[simp] theorem rank_strip (t : NumericType) : t.strip.rank = t.rank :=
  (attributes_eq_iff.1 (attributes_strip t)).1

@[simp] theorem signed_strip (t : NumericType) : t.strip.signed = t.signed :=
  (attributes_eq_iff.1 (attributes_strip t)).2.1

@[simp] theorem isEnum_strip (t : NumericType) : t.strip.isEnum = t.isEnum :=
  (attributes_eq_iff.1 (attributes_strip t)).2.2.2.1

@[simp] theorem isComplex_strip (t : NumericType) : t.strip.isComplex = t.isComplex :=
  (attributes_eq_iff.1 (attributes_strip t)).2.2.2.2.1

@[simp] theorem realType_strip (t : NumericType) : t.strip.realType = t.realType :=
  (attributes_eq_iff.1 (attributes_strip t)).2.2.2.2.2.1

@[simp] theorem base_strip (t : NumericType) : t.strip.base = t.base :=
  (attributes_eq_iff.1 (attributes_strip t)).2.2.2.2.2.2

theorem base_eq_base_realType (h : t.isComplex = true) : t.base = t.realType.base := by
  induction t with
  | typedef _ _ base ih => exact ih h
  | qualified _ base ih => exact ih h
  | reference base ih => exact ih h
  | _ => rfl

theorem base_realOf (t : NumericType) : t.realOf.base = t.base := by
  rw [realOf]
  split
  next h => exact (base_eq_base_realType h).symm
  next => rfl

theorem realOf_of_not_isComplex (h : t.isComplex = false) : t.realOf = t := by
  rw [realOf, h]
  rfl

theorem realOf_of_isComplex (h : t.isComplex = true) : t.realOf = t.realType := by
  rw [realOf, if_pos h]

theorem not_isComplex_of_isEnum (h : t.isEnum = true) : t.isComplex = false := by
  induction t with
  | typedef _ _ base ih => exact ih h
  | qualified _ base ih => exact ih h
  | reference base ih => exact ih h
  | complex => cases h
  | softComplex => cases h
  | _ => rfl

theorem not_isComplex_of_isInt (h : t.isInt = true) : t.isComplex = false := by
  induction t with
  | typedef _ _ base ih => exact ih h
  | qualified _ base ih => exact ih h
  | reference base ih => exact ih h
  | complex => cases h
  | softComplex => cases h
  | _ => rfl

theorem rank_of_isEnum (h : t.isEnum = true) : t.rank = -1 := by
  induction t with
  | typedef _ _ base ih => exact ih h
  | qualified _ base ih => exact ih h
  | reference base ih => exact ih h
  | anonEnum => rfl
  | enum => rfl
  | _ => cases h

/-- Enums rank below all other types. -/
theorem rank_nonneg (h : t.isEnum = false) (hcomplex : t.isComplex = false) : 0 ≤ t.rank := by
  induction t with
  | typedef _ _ base ih => exact ih h hcomplex
  | qualified _ base ih => exact ih h hcomplex
  | reference base ih => exact ih h hcomplex
  | int t => exact t.rank_nonneg
  | float t => exact t.rank_nonneg
  | anonEnum => cases h
  | enum => cases h
  | complex => cases hcomplex
  | softComplex => cases hcomplex

theorem signed_le_one (h : 0 < t.rank) (hcomplex : t.isComplex = false) : t.signed ≤ 1 := by
  induction t with
  | typedef _ _ base ih => exact ih h hcomplex
  | qualified _ base ih => exact ih h hcomplex
  | reference base ih => exact ih h hcomplex
  | int t => exact t.signed_le_one h
  | complex => cases hcomplex
  | softComplex => cases hcomplex
  | _ => exact le_refl 1

/-! ## Ranks and signedness -/

/-- The rank and the signedness of a type, or of its real type; unsigned types are above the
    others of their rank. -/
def key (t : NumericType) : ℚ ×ₗ ℕᵒᵈ := toLex (t.realOf.rank, OrderDual.toDual t.realOf.signed)

theorem key_congr (hrank : a.realOf.rank = b.realOf.rank)
    (hsigned : a.realOf.signed = b.realOf.signed) : a.key = b.key := by
  rw [key, key, hrank, hsigned]

@[simp] theorem key_strip (t : NumericType) : t.strip.key = t.key := by
  by_cases h : t.isComplex = true
  · rw [key, key, realOf_of_isComplex h, realOf_of_isComplex (by rwa [isComplex_strip]),
      realType_strip]
  · rw [Bool.not_eq_true] at h
    rw [key, key, realOf_of_not_isComplex h, realOf_of_not_isComplex (by rwa [isComplex_strip]),
      rank_strip, signed_strip]

theorem key_of_not_isComplex (h : t.isComplex = false) :
    t.key = toLex (t.rank, OrderDual.toDual t.signed) := by
  rw [key, realOf_of_not_isComplex h]

theorem rank_le_of_key_le (h : a.key ≤ b.key) : a.realOf.rank ≤ b.realOf.rank := by
  rcases Prod.Lex.le_iff.1 h with h | h
  · exact h.le
  · exact h.1.le

theorem comparand_attributes (t : NumericType) : t.comparand.rank = t.rank ∧
    t.comparand.signed = t.signed ∧ t.comparand.isEnum = t.isEnum ∧
    t.comparand.isComplex = t.isComplex ∧ t.comparand.base = t.base := by
  induction t with
  | complex real ih =>
    refine ⟨?_, ?_, rfl, rfl, ih.2.2.2.2⟩
    · rw [comparand, rank, rank, ih.1]
    · rw [comparand, signed, signed, ih.1, ih.2.1]
  | softComplex => exact ⟨rfl, ite_self 1, rfl, rfl, rfl⟩
  | _ => exact ⟨rfl, rfl, rfl, rfl, rfl⟩

theorem key_comparand (t : NumericType) : t.comparand.key = t.key := by
  cases t with
  | complex real =>
    obtain ⟨hrank, hsigned, -⟩ := comparand_attributes real
    exact key_congr hrank hsigned
  | _ => rfl

/-- Equal types agree in what matters for others. -/
theorem typeEq_spec (h : a.typeEq b = true) : a.key = b.key ∧ a.isEnum = b.isEnum ∧
    a.isComplex = b.isComplex ∧ a.base = b.base := by
  have h : a.comparand = b.comparand := of_decide_eq_true h
  obtain ⟨-, -, haEnum, haComplex, haBase⟩ := comparand_attributes a
  obtain ⟨-, -, hbEnum, hbComplex, hbBase⟩ := comparand_attributes b
  refine ⟨?_, ?_, ?_, ?_⟩
  · rw [← key_comparand, h, key_comparand]
  · rw [← haEnum, h, hbEnum]
  · rw [← haComplex, h, hbComplex]
  · rw [← haBase, h, hbBase]

theorem eq_of_typeEq (h : a.typeEq b = true) (ha : a.isComplex = false) : a = b := by
  have hb : b.isComplex = false := (typeEq_spec h).2.2.1 ▸ ha
  have h : a.comparand = b.comparand := of_decide_eq_true h
  have hself : ∀ t : NumericType, t.isComplex = false → t.comparand = t := fun t ht => by
    cases t with
    | complex => cases ht
    | softComplex => cases ht
    | _ => rfl
  rwa [hself a ha, hself b hb] at h

/-! ## The widest of two types -/

theorem rank_ranked (h : ¬(a.isEnum = true ∧ b.isEnum = true)) :
    (ranked a b = a ∨ ranked a b = b) ∧
      (toLex ((ranked a b).rank, OrderDual.toDual (ranked a b).signed) : ℚ ×ₗ ℕᵒᵈ) =
        max (toLex (a.rank, OrderDual.toDual a.signed))
          (toLex (b.rank, OrderDual.toDual b.signed)) := by
  have hle : ∀ x y : NumericType, (toLex (x.rank, OrderDual.toDual x.signed) : ℚ ×ₗ ℕᵒᵈ) ≤
      toLex (y.rank, OrderDual.toDual y.signed) ↔
        x.rank < y.rank ∨ x.rank = y.rank ∧ y.signed ≤ x.signed := fun x y =>
    Prod.Lex.le_iff
  rw [ranked, if_neg (by simpa using h)]
  split
  next hlt => exact ⟨.inr rfl, (max_eq_right ((hle a b).2 (.inl hlt))).symm⟩
  next hnlt =>
    split
    next hgt => exact ⟨.inl rfl, (max_eq_left ((hle b a).2 (.inl hgt))).symm⟩
    next hngt =>
      have heq : a.rank = b.rank := le_antisymm (not_lt.1 hngt) (not_lt.1 hnlt)
      split
      next hlt => exact ⟨.inl rfl, (max_eq_left ((hle b a).2 (.inr ⟨heq.symm, hlt.le⟩))).symm⟩
      next hnlt' =>
        have hba : b.signed ≤ a.signed := not_lt.1 hnlt'
        split
        next => exact ⟨.inr rfl, (max_eq_right ((hle a b).2 (.inr ⟨heq, hba⟩))).symm⟩
        next hngt' =>
          have hab : a.signed ≤ b.signed := not_lt.1 hngt'
          split
          next => exact ⟨.inl rfl, (max_eq_left ((hle b a).2 (.inr ⟨heq.symm, hab⟩))).symm⟩
          next => exact ⟨.inr rfl, (max_eq_right ((hle a b).2 (.inr ⟨heq, hba⟩))).symm⟩

/-- One of two types with the greater key. -/
structure Picks (a b w : NumericType) : Prop where
  key_eq : w.key = max a.key b.key
  base_eq : (w.key = a.key ∧ w.base = a.base) ∨ (w.key = b.key ∧ w.base = b.base)

theorem Picks.congr {a' b' w' : NumericType} (h : Picks a b w) (ha : a.key = a'.key)
    (hb : b.key = b'.key) (hw : w.key = w'.key) (ha' : a.base = a'.base) (hb' : b.base = b'.base)
    (hw' : w.base = w'.base) : Picks a' b' w' where
  key_eq := by rw [← ha, ← hb, ← hw, h.key_eq]
  base_eq := by rw [← ha, ← hb, ← hw, ← ha', ← hb', ← hw']; exact h.base_eq

theorem picks_ranked (ha : a.isComplex = false) (hb : b.isComplex = false)
    (h : ¬(a.isEnum = true ∧ b.isEnum = true)) :
    Picks a b (ranked a b) ∧ (ranked a b).isComplex = false ∧ (ranked a b).isEnum = false := by
  obtain ⟨hor, hmax⟩ := rank_ranked h
  have hw : (ranked a b).isComplex = false := by
    rcases hor with hor | hor
    · rw [hor, ha]
    · rw [hor, hb]
  have hkey : (ranked a b).key = max a.key b.key := by
    rw [key_of_not_isComplex hw, key_of_not_isComplex ha, key_of_not_isComplex hb, hmax]
  refine ⟨⟨hkey, ?_⟩, hw, ?_⟩
  · rcases hor with hor | hor
    · exact .inl ⟨by rw [hor], by rw [hor]⟩
    · exact .inr ⟨by rw [hor], by rw [hor]⟩
  · -- The other type, which is no enum, would have a greater rank.
    by_contra henum
    rw [Bool.not_eq_false] at henum
    have hrank := rank_of_isEnum henum
    have hlea : a.rank ≤ (ranked a b).rank := by
      have hle : a.key ≤ (ranked a b).key := hkey ▸ le_max_left _ _
      have := rank_le_of_key_le hle
      rwa [realOf_of_not_isComplex ha, realOf_of_not_isComplex hw] at this
    have hleb : b.rank ≤ (ranked a b).rank := by
      have hle : b.key ≤ (ranked a b).key := hkey ▸ le_max_right _ _
      have := rank_le_of_key_le hle
      rwa [realOf_of_not_isComplex hb, realOf_of_not_isComplex hw] at this
    refine h ⟨?_, ?_⟩ <;> by_contra hne
    · have := rank_nonneg (Bool.not_eq_true _ ▸ hne) ha
      linarith
    · have := rank_nonneg (Bool.not_eq_true _ ▸ hne) hb
      linarith

/-- The real type of a complex type is not complex and not an enum. -/
def RealNumber (t : NumericType) : Prop :=
  t.isComplex = true → t.realType.isComplex = false ∧ t.realType.isEnum = false

theorem Valid.realNumber (h : t.Valid) : t.RealNumber := by
  induction t with
  | complex real => exact fun _ => ⟨h.1, h.2.1⟩
  | softComplex => exact fun _ => ⟨rfl, rfl⟩
  | typedef _ _ base ih => exact ih h.2
  | qualified _ base ih => exact ih h
  | reference base ih => exact ih h
  | int => exact fun h => by cases h
  | anonEnum => exact fun h => by cases h
  | enum => exact fun h => by cases h
  | float => exact fun h => by cases h

theorem RealNumber.strip (h : t.RealNumber) : t.strip.RealNumber := by
  intro hcomplex
  rw [isComplex_strip] at hcomplex
  rw [realType_strip]
  exact h hcomplex

theorem RealNumber.realOf (h : t.RealNumber) : t.realOf.isComplex = false := by
  by_cases hcomplex : t.isComplex = true
  · rw [realOf_of_isComplex hcomplex]
    exact (h hcomplex).1
  · rw [realOf_of_not_isComplex (Bool.not_eq_true _ ▸ hcomplex)]
    exact Bool.not_eq_true _ ▸ hcomplex

theorem key_realOf (h : t.RealNumber) : t.realOf.key = t.key := by
  rw [key_of_not_isComplex h.realOf, key]

theorem mkComplex_spec (h : t.isComplex = false) (henum : t.isEnum = false) :
    (mkComplex t).isComplex = true ∧ (mkComplex t).key = t.key ∧ (mkComplex t).base = t.base ∧
      (mkComplex t).RealNumber := by
  have hattributes : (if t.isTypedef then t.resolveKnownType else t).attributes =
      t.attributes := by
    split
    next => exact attributes_resolveKnownType t
    next => rfl
  obtain ⟨hrank, hsigned, -, henum', hcomplex', -, hbase⟩ := attributes_eq_iff.1 hattributes
  refine ⟨rfl, ?_, hbase, fun _ => ⟨hcomplex'.trans h, henum'.trans henum⟩⟩
  rw [key_of_not_isComplex h, ← hrank, ← hsigned]
  rfl

/-- The real types of types of which one is complex. -/
theorem picks_widestReal (ha : a.isComplex = false) (hb : b.isComplex = false)
    (h : ¬(a.isEnum = true ∧ b.isEnum = true)) :
    Picks a b (widestReal a b) ∧ (widestReal a b).isComplex = false ∧
      (widestReal a b).isEnum = false := by
  rw [widestReal]
  split
  next heq =>
    have hstrip := eq_of_typeEq heq (by rwa [isComplex_strip])
    have hkey : a.key = b.key := by rw [← key_strip a, hstrip, key_strip]
    have henum : a.isEnum = b.isEnum := by rw [← isEnum_strip a, hstrip, isEnum_strip]
    refine ⟨⟨?_, .inl ⟨key_strip a, base_strip a⟩⟩, by rwa [isComplex_strip], ?_⟩
    · rw [key_strip, hkey, max_self]
    · rw [isEnum_strip]
      exact Bool.eq_false_iff.2 fun hea => h ⟨hea, henum ▸ hea⟩
  next =>
    have hpick := picks_ranked (a := a.strip) (b := b.strip) (by rwa [isComplex_strip])
      (by rwa [isComplex_strip]) (by rwa [isEnum_strip, isEnum_strip])
    exact ⟨hpick.1.congr (key_strip a) (key_strip b) rfl (base_strip a) (base_strip b) rfl,
      hpick.2⟩

theorem widestComplex_spec (ha : a.RealNumber) (hb : b.RealNumber)
    (hcomplex : a.isComplex = true ∨ b.isComplex = true) :
    Picks a b (widestComplex a b) ∧ (widestComplex a b).isComplex = true ∧
      (widestComplex a b).RealNumber := by
  have henums : ¬(a.realOf.isEnum = true ∧ b.realOf.isEnum = true) := by
    rintro ⟨hea, heb⟩
    rcases hcomplex with h | h
    · rw [realOf_of_isComplex h, (ha h).2] at hea
      cases hea
    · rw [realOf_of_isComplex h, (hb h).2] at heb
      cases heb
  obtain ⟨hpick, hwComplex, hwEnum⟩ := picks_widestReal ha.realOf hb.realOf henums
  obtain ⟨hC, hkey, hbase, hreal⟩ := mkComplex_spec hwComplex hwEnum
  have hpick := hpick.congr (key_realOf ha) (key_realOf hb) hkey.symm (base_realOf a)
    (base_realOf b) hbase.symm
  rw [widestComplex]
  dsimp only
  generalize mkComplex (widestReal a.realOf b.realOf) = w at hC hpick hreal ⊢
  split
  next hsoft =>
    -- The soft type has the real type that was found.
    have heq : w.realType.typeEq (float cDouble) = true := by
      have := hsoft.2
      rw [Bool.and_eq_true] at this
      exact this.2
    obtain ⟨hkey', -, -, hbase'⟩ := typeEq_spec heq
    refine ⟨hpick.congr rfl rfl ?_ rfl rfl ?_, rfl, fun _ => ⟨rfl, rfl⟩⟩
    · rw [← key_realOf hreal, realOf_of_isComplex hC]
      exact hkey'
    · rw [base_eq_base_realType hC]
      exact hbase'
  next => exact ⟨hpick, hC, hreal⟩

/-- The widest of two types: `int` for two enums that differ; else the type that is picked,
    complex if one of them is. -/
theorem widest_spec (ha : a.RealNumber) (hb : b.RealNumber) :
    (a.isEnum = true ∧ b.isEnum = true ∧ a.strip ≠ b.strip ∧ widest a b = int cInt) ∨
    (Picks a b (widest a b) ∧ (widest a b).isComplex = (a.isComplex || b.isComplex) ∧
      (widest a b).RealNumber ∧ ((widest a b).isEnum = true →
        a.isEnum = true ∧ b.isEnum = true ∧ a.strip = b.strip ∧ widest a b = a.strip)) := by
  rw [widest]
  split
  next heq =>
    obtain ⟨hkey, henum, hcomplex, hbase⟩ := typeEq_spec heq
    rw [key_strip, key_strip] at hkey
    rw [isEnum_strip, isEnum_strip] at henum
    rw [isComplex_strip, isComplex_strip] at hcomplex
    refine .inr ⟨⟨?_, .inl ⟨key_strip a, base_strip a⟩⟩, ?_, ha.strip, fun h => ?_⟩
    · rw [key_strip, hkey, max_self]
    · rw [isComplex_strip, hcomplex, Bool.or_self]
    · have hstrip := eq_of_typeEq heq (not_isComplex_of_isEnum h)
      rw [isEnum_strip] at h
      exact ⟨h, henum ▸ h, hstrip, rfl⟩
  next hne =>
    rw [isComplex_strip, isComplex_strip]
    split
    next hcomplex =>
      rw [Bool.or_eq_true] at hcomplex
      obtain ⟨hpick, hw, hreal⟩ := widestComplex_spec ha.strip hb.strip (by
        rwa [isComplex_strip, isComplex_strip])
      refine .inr ⟨hpick.congr (key_strip a) (key_strip b) rfl (base_strip a) (base_strip b) rfl,
        ?_, hreal, fun h => ?_⟩
      · rw [hw]
        exact ((Bool.or_eq_true _ _).mpr hcomplex).symm
      · rw [not_isComplex_of_isEnum h] at hw
        cases hw
    next hcomplex =>
      rw [Bool.or_eq_true, not_or, Bool.not_eq_true, Bool.not_eq_true] at hcomplex
      by_cases henums : a.isEnum = true ∧ b.isEnum = true
      · refine .inl ⟨henums.1, henums.2, fun hstrip => hne ?_, ?_⟩
        · rw [hstrip, typeEq]
          exact decide_eq_true rfl
        · rw [ranked, isEnum_strip, isEnum_strip, henums.1, henums.2]
          rfl
      · obtain ⟨hpick, hw, hwEnum⟩ := picks_ranked (a := a.strip) (b := b.strip)
          (by rw [isComplex_strip, hcomplex.1]) (by rw [isComplex_strip, hcomplex.2])
          (by rwa [isEnum_strip, isEnum_strip])
        refine .inr ⟨hpick.congr (key_strip a) (key_strip b) rfl (base_strip a) (base_strip b) rfl,
          ?_, fun h => ?_, fun h => ?_⟩
        · rw [hw, hcomplex.1, hcomplex.2, Bool.or_self]
        · rw [hw] at h
          cases h
        · rw [hwEnum] at h
          cases h

/-! ## All orders and groupings -/

/-- At least two of the types are enums. -/
def TwoEnums (l : List NumericType) : Prop := 2 ≤ l.countP isEnum

/-- What a result has of the types of the list: it is complex if one is, has the greatest key, and
    comes from one of them or, as `int`, from enums. -/
structure Result (l : List NumericType) (a : NumericType) : Prop where
  isComplex_iff : a.isComplex = true ↔ ∃ x ∈ l, x.isComplex = true
  key_le : ∀ x ∈ l, x.key ≤ a.key
  origin : (∃ x ∈ l, a.key = x.key ∧ a.base = x.base) ∨
    (TwoEnums l ∧ a.key = (int cInt).key ∧ a.base = int cInt)
  realNumber : a.RealNumber
  isEnum : a.isEnum = true → ∀ x ∈ l, x.isEnum = true

theorem key_enum_le_int (h : a.isEnum = true) : a.key ≤ (int cInt).key := by
  rw [key_of_not_isComplex (not_isComplex_of_isEnum h), rank_of_isEnum h]
  exact Prod.Lex.le_iff.2 (.inl (by
    change (-1 : ℚ) < 2
    norm_num))

theorem result_single (h : a.RealNumber) : Result [a] a where
  isComplex_iff := by simp
  key_le x hx := by rw [List.mem_singleton.1 hx]
  origin := .inl ⟨a, List.mem_singleton_self a, rfl, rfl⟩
  realNumber := h
  isEnum ha x hx := by rwa [List.mem_singleton.1 hx]

/-- Combining two results, one case for enums and one for other types. -/
theorem Result.widest {l l' l'' : List NumericType} (ha : Result l a) (hb : Result l' b)
    (hl : l ≠ []) (hl' : l' ≠ []) (hperm : l''.Perm (l ++ l')) : Result l'' (a.widest b) := by
  have hmem : ∀ x, x ∈ l'' ↔ x ∈ l ∨ x ∈ l' := fun x => hperm.mem_iff.trans List.mem_append
  have hcount : l''.countP NumericType.isEnum =
      l.countP NumericType.isEnum + l'.countP NumericType.isEnum := by
    rw [hperm.countP_eq, List.countP_append]
  rcases widest_spec ha.realNumber hb.realNumber with
    ⟨hea, heb, -, hint⟩ | ⟨hpick, hcomplex, hreal, henum⟩
  · have hall : ∀ x ∈ l'', x.isEnum = true := fun x hx => by
      rcases (hmem x).1 hx with hx | hx
      · exact ha.isEnum hea x hx
      · exact hb.isEnum heb x hx
    have htwo : TwoEnums l'' := by
      obtain ⟨x, hx⟩ := List.exists_mem_of_ne_nil l hl
      obtain ⟨y, hy⟩ := List.exists_mem_of_ne_nil l' hl'
      have hpos := List.countP_pos_iff.2 ⟨x, hx, ha.isEnum hea x hx⟩
      have hpos' := List.countP_pos_iff.2 ⟨y, hy, hb.isEnum heb y hy⟩
      rw [TwoEnums]
      omega
    rw [hint]
    refine ⟨iff_of_false (fun h => (by cases h)) ?_, fun x hx => key_enum_le_int (hall x hx),
      .inr ⟨htwo, rfl, rfl⟩, fun h => (by cases h), fun h => (by cases h)⟩
    rintro ⟨x, hx, hcomplex⟩
    rw [not_isComplex_of_isEnum (hall x hx)] at hcomplex
    cases hcomplex
  · refine ⟨?_, fun x hx => ?_, ?_, hreal, fun h x hx => ?_⟩
    · rw [hcomplex, Bool.or_eq_true, ha.isComplex_iff, hb.isComplex_iff]
      simp only [hmem, or_and_right, exists_or]
    · rw [hpick.key_eq]
      rcases (hmem x).1 hx with hx | hx
      · exact (ha.key_le x hx).trans (le_max_left _ _)
      · exact (hb.key_le x hx).trans (le_max_right _ _)
    · rcases hpick.base_eq with ⟨hkey, hbase⟩ | ⟨hkey, hbase⟩
      · rw [hkey, hbase]
        rcases ha.origin with ⟨x, hx, horigin⟩ | ⟨htwo, horigin⟩
        · exact .inl ⟨x, (hmem x).2 (.inl hx), horigin⟩
        · exact .inr ⟨htwo.trans (by omega), horigin⟩
      · rw [hkey, hbase]
        rcases hb.origin with ⟨x, hx, horigin⟩ | ⟨htwo, horigin⟩
        · exact .inl ⟨x, (hmem x).2 (.inr hx), horigin⟩
        · exact .inr ⟨htwo.trans (by omega), horigin⟩
    · obtain ⟨hea, heb, -⟩ := henum h
      rcases (hmem x).1 hx with hx | hx
      · exact ha.isEnum hea x hx
      · exact hb.isEnum heb x hx

/-- Every result for a list is so. -/
theorem result_of_reduces (hvalid : ∀ x ∈ l, x.Valid) (h : Reduces widest l a) :
    Result l a := by
  induction h with
  | single x => exact result_single (hvalid x (List.mem_singleton_self x)).realNumber
  | node h h' hperm ih ih' =>
    have hmem : ∀ x, x ∈ _ ↔ _ := fun x => hperm.mem_iff.trans List.mem_append
    exact (ih fun x hx => hvalid x ((hmem x).2 (.inl hx))).widest
      (ih' fun x hx => hvalid x ((hmem x).2 (.inr hx))) h.ne_nil h'.ne_nil hperm

/-! ## Enums only -/

theorem widest_of_strip_eq (h : a.strip = b.strip) : widest a b = a.strip := by
  rw [widest, h, typeEq]
  exact if_pos (decide_eq_true rfl)

theorem widest_of_enums (ha : a.isEnum = true) (hb : b.isEnum = true) (h : a.strip ≠ b.strip) :
    widest a b = int cInt := by
  have hrealNumber : ∀ t : NumericType, t.isEnum = true → t.RealNumber := fun t ht hcomplex => by
    rw [not_isComplex_of_isEnum ht] at hcomplex
    cases hcomplex
  rcases widest_spec (hrealNumber a ha) (hrealNumber b hb) with ⟨-, -, -, hint⟩ | ⟨-, -, -, hw⟩
  · exact hint
  · rw [widest, if_neg fun heq =>
      h (eq_of_typeEq heq (by rw [isComplex_strip, not_isComplex_of_isEnum ha]))]
    rw [isComplex_strip, isComplex_strip, not_isComplex_of_isEnum ha, not_isComplex_of_isEnum hb]
    change ranked a.strip b.strip = _
    rw [ranked, isEnum_strip, isEnum_strip, ha, hb]
    rfl

theorem widest_int_enum (h : a.isEnum = true) :
    widest (int cInt) a = int cInt ∧ widest a (int cInt) = int cInt := by
  have hne : ¬(int cInt).typeEq a.strip = true := fun heq => by
    have := (typeEq_spec heq).2.1
    rw [isEnum_strip, h] at this
    cases this
  have hne' : ¬a.strip.typeEq (int cInt) = true := fun heq => by
    have := (typeEq_spec heq).2.1
    rw [isEnum_strip, h] at this
    cases this
  have hcomplex : a.strip.isComplex = false := by rw [isComplex_strip, not_isComplex_of_isEnum h]
  have hrank : a.strip.rank = -1 := by rw [rank_strip, rank_of_isEnum h]
  have hint : (int cInt).rank = 2 := rfl
  have hisEnum : (int cInt).isEnum = false := rfl
  constructor
  · rw [widest, show (int cInt).strip = int cInt from rfl, if_neg hne, hcomplex]
    change ranked (int cInt) a.strip = _
    rw [ranked, hisEnum, hrank, hint]
    norm_num
  · rw [widest, show (int cInt).strip = int cInt from rfl, if_neg hne', hcomplex]
    change ranked a.strip (int cInt) = _
    rw [ranked, hisEnum, hrank, hint, Bool.and_false]
    norm_num

/-- An enum that has no further qualified type below a qualifier. -/
def PlainEnum (t : NumericType) : Prop := t.isEnum = true ∧ t.strip.strip = t.strip

/-- Enums that are all the same give that enum, others give `int`. -/
theorem enums_of_reduces (hl : ∀ x ∈ l, x.PlainEnum) (h : Reduces widest l a) :
    (a.PlainEnum ∧ ∀ x ∈ l, x.strip = a.strip) ∨
      (a = int cInt ∧ ∃ x ∈ l, ∃ y ∈ l, x.strip ≠ y.strip) := by
  induction h with
  | single x =>
    exact .inl ⟨hl x (List.mem_singleton_self x), fun y hy => by rw [List.mem_singleton.1 hy]⟩
  | @node l l' l'' a b h h' hperm ih ih' =>
    have hmem : ∀ x, x ∈ l'' ↔ x ∈ l ∨ x ∈ l' := fun x => hperm.mem_iff.trans List.mem_append
    rcases ih fun x hx => hl x ((hmem x).2 (.inl hx)) with ⟨ha, hsame⟩ | ⟨rfl, x, hx, y, hy, hne⟩
    · rcases ih' fun x hx => hl x ((hmem x).2 (.inr hx)) with
        ⟨hb, hsame'⟩ | ⟨rfl, x, hx, y, hy, hne⟩
      · by_cases hstrip : a.strip = b.strip
        · rw [widest_of_strip_eq hstrip]
          refine .inl ⟨⟨by rw [isEnum_strip, ha.1], by rw [ha.2, ha.2]⟩, fun x hx => ?_⟩
          rw [ha.2]
          rcases (hmem x).1 hx with hx | hx
          · exact hsame x hx
          · rw [hsame' x hx, hstrip]
        · obtain ⟨x, hx⟩ := List.exists_mem_of_ne_nil l h.ne_nil
          obtain ⟨y, hy⟩ := List.exists_mem_of_ne_nil l' h'.ne_nil
          refine .inr ⟨widest_of_enums ha.1 hb.1 hstrip, x, (hmem x).2 (.inl hx), y,
            (hmem y).2 (.inr hy), ?_⟩
          rwa [hsame x hx, hsame' y hy]
      · exact .inr ⟨(widest_int_enum ha.1).2, x, (hmem x).2 (.inr hx), y, (hmem y).2 (.inr hy),
          hne⟩
    · refine .inr ⟨?_, x, (hmem x).2 (.inl hx), y, (hmem y).2 (.inl hy), hne⟩
      rcases ih' fun x hx => hl x ((hmem x).2 (.inr hx)) with ⟨hb, -⟩ | ⟨rfl, -⟩
      · exact (widest_int_enum hb.1).1
      · exact widest_of_strip_eq rfl

/-! ## One type for all orders -/

/-- No enum is listed beside narrower types only: there is none, or a type that is not one and has
    at least the rank of `int`, or nothing else. -/
def EnumsWide (l : List NumericType) : Prop :=
  (∀ x ∈ l, x.isEnum = false) ∨
  (∃ x ∈ l, x.isEnum = false ∧ cInt.rank ≤ x.realOf.rank) ∨
  (∀ x ∈ l, x.PlainEnum)

/-- A type that may be the result: one of the list, or `int` if there are two enums, with the
    greatest rank, and the least signedness at that. -/
def Tied (l : List NumericType) (t : NumericType) : Prop :=
  (t ∈ l ∨ t = int cInt ∧ TwoEnums l) ∧ ∀ x ∈ l, x.key ≤ t.key

theorem Result.exists_tied (h : Result l a) : ∃ t, Tied l t ∧ a.key = t.key ∧ a.base = t.base := by
  rcases h.origin with ⟨x, hx, hkey, hbase⟩ | ⟨htwo, hkey, hbase⟩
  · exact ⟨x, ⟨.inl hx, fun y hy => hkey ▸ h.key_le y hy⟩, hkey, hbase⟩
  · exact ⟨int cInt, ⟨.inr ⟨rfl, htwo⟩, fun y hy => hkey ▸ h.key_le y hy⟩, hkey, hbase⟩

/-- A type of the rank of `int` or above is not below `int`. -/
theorem key_int_le (hreal : t.RealNumber) (h : cInt.rank ≤ t.realOf.rank) :
    (int cInt).key ≤ t.key := by
  have hrank : (2 : ℚ) ≤ t.realOf.rank := h
  rcases h.lt_or_eq with hlt | heq
  · exact Prod.Lex.le_iff.2 (.inl hlt)
  · exact Prod.Lex.le_iff.2 (.inr ⟨heq, signed_le_one (by linarith) hreal.realOf⟩)

theorem key_le_of_enumsWide {b : NumericType} (hvalid : ∀ x ∈ l, x.Valid)
    (hwide : (∀ x ∈ l, x.isEnum = false) ∨
      ∃ x ∈ l, x.isEnum = false ∧ cInt.rank ≤ x.realOf.rank)
    (ha : Result l a) (hb : Result l b) : a.key ≤ b.key := by
  rcases ha.origin with ⟨x, hx, hkey, -⟩ | ⟨htwo, hkey, -⟩
  · rw [hkey]
    exact hb.key_le x hx
  · rcases hwide with hnone | ⟨x, hx, -, hrank⟩
    · have hzero : l.countP isEnum = 0 :=
        List.countP_eq_zero.2 fun x hx => by rw [hnone x hx]; exact Bool.false_ne_true
      rw [TwoEnums] at htwo
      omega
    · rw [hkey]
      exact (key_int_le (hvalid x hx).realNumber hrank).trans (hb.key_le x hx)

/-- A result that is an integer or an enum is as wide as those of the list. -/
theorem width_le (hvalid : ∀ x ∈ l, x.Valid) (hwide : EnumsWide l) (ha : Reduces widest l a)
    (hint : a.isInt = true ∨ a.isEnum = true) {x : NumericType} (hx : x ∈ l)
    (hxint : x.isInt = true ∨ x.isEnum = true) : x.width ≤ a.width := by
  have hresult := result_of_reduces hvalid ha
  have hcomplex : ∀ {t : NumericType}, t.isInt = true ∨ t.isEnum = true → t.isComplex = false :=
    fun h => h.elim not_isComplex_of_isInt not_isComplex_of_isEnum
  rcases hwide with hnone | ⟨y, hy, -, hrank⟩ | hall
  · have henum : a.isEnum = false := Bool.eq_false_iff.2 fun h => by
      obtain ⟨y, hy⟩ := List.exists_mem_of_ne_nil l ha.ne_nil
      have := hresult.isEnum h y hy
      rw [hnone y hy] at this
      cases this
    have hle := rank_le_of_key_le (hresult.key_le x hx)
    rw [realOf_of_not_isComplex (hcomplex hint), realOf_of_not_isComplex (hcomplex hxint)] at hle
    rw [width, width, henum, hnone x hx]
    exact hle
  · have henum : ∀ hle : cInt.rank ≤ a.rank, cInt.rank ≤ a.width := fun hle => by
      rw [width]
      split
      next => exact le_refl _
      next => exact hle
    have hint_le : cInt.rank ≤ a.rank := by
      have hle := rank_le_of_key_le (hresult.key_le y hy)
      rw [realOf_of_not_isComplex (hcomplex hint)] at hle
      exact hrank.trans hle
    rw [width]
    split
    next => exact henum hint_le
    next =>
      have hle := rank_le_of_key_le (hresult.key_le x hx)
      rw [realOf_of_not_isComplex (hcomplex hint), realOf_of_not_isComplex (hcomplex hxint)] at hle
      rw [width, if_neg fun h => ?_]
      · exact hle
      · rw [rank_of_isEnum h] at hint_le
        have hpos : (0 : ℚ) ≤ cInt.rank := cInt.rank_nonneg
        linarith
  · have hxwidth : x.width = cInt.rank := if_pos (hall x hx).1
    rw [hxwidth]
    rcases enums_of_reduces hall ha with ⟨henum, -⟩ | ⟨rfl, -⟩
    · exact (if_pos henum.1 : a.width = cInt.rank).ge
    · exact le_refl _

/-- Where no enum is listed beside narrower types only, the results for all orders and groupings
    are complex or not alike, and of one rank and signedness. They are one type up to typedefs if
    all types that tie are, or all are enums. An integer type or enum among them is as wide as
    those of the list. -/
theorem reductions_agree (hvalid : ∀ x ∈ l, x.Valid) (hwide : EnumsWide l)
    (ha : Reduces widest l a) (hb : Reduces widest l b) :
    (a.isComplex = b.isComplex ∧ a.key = b.key) ∧
    ((∀ x ∈ l, x.isEnum = true) ∨
      (∀ x y, Tied l x → Tied l y → x.base = y.base) → SameType a b) ∧
    (a.isInt = true ∨ a.isEnum = true → ∀ x ∈ l, x.isInt = true ∨ x.isEnum = true →
      x.width ≤ a.width) := by
  have hra := result_of_reduces hvalid ha
  have hrb := result_of_reduces hvalid hb
  have hcomplex : a.isComplex = b.isComplex :=
    Bool.eq_iff_iff.2 (hra.isComplex_iff.trans hrb.isComplex_iff.symm)
  have hkey_base : a.key = b.key ∧ ((∀ x ∈ l, x.isEnum = true) ∨
      (∀ x y, Tied l x → Tied l y → x.base = y.base) → a.base = b.base) := by
    by_cases hall : ∀ x ∈ l, x.PlainEnum
    · rcases enums_of_reduces hall ha with ⟨hea, hsame⟩ | ⟨rfl, x, hx, y, hy, hne⟩
      · rcases enums_of_reduces hall hb with ⟨heb, hsame'⟩ | ⟨rfl, x, hx, y, hy, hne⟩
        · obtain ⟨x, hx⟩ := List.exists_mem_of_ne_nil l ha.ne_nil
          have hstrip : a.strip = b.strip := (hsame x hx).symm.trans (hsame' x hx)
          exact ⟨by rw [← key_strip, hstrip, key_strip], fun _ => by
            rw [← base_strip, hstrip, base_strip]⟩
        · exact absurd ((hsame x hx).trans (hsame y hy).symm) hne
      · rcases enums_of_reduces hall hb with ⟨heb, hsame'⟩ | ⟨rfl, -⟩
        · exact absurd ((hsame' x hx).trans (hsame' y hy).symm) hne
        · exact ⟨rfl, fun _ => rfl⟩
    · have hwide' := or_assoc.2 hwide
      have hwide'' := hwide'.resolve_right hall
      refine ⟨le_antisymm (key_le_of_enumsWide hvalid hwide'' hra hrb)
        (key_le_of_enumsWide hvalid hwide'' hrb hra), fun hties => ?_⟩
      rcases hties with henums | hties
      · obtain ⟨x, hx⟩ := List.exists_mem_of_ne_nil l ha.ne_nil
        rcases hwide'' with hnone | ⟨y, hy, hye, -⟩
        · have := henums x hx
          rw [hnone x hx] at this
          cases this
        · rw [henums y hy] at hye
          cases hye
      · obtain ⟨x, hx, -, hbase⟩ := hra.exists_tied
        obtain ⟨y, hy, -, hbase'⟩ := hrb.exists_tied
        rw [hbase, hbase', hties x y hx hy]
  exact ⟨⟨hcomplex, hkey_base.1⟩, fun hties => ⟨hcomplex, hkey_base.2 hties⟩,
    fun hint x hx hxint => width_le hvalid hwide ha hint hx hxint⟩

/-- `c_bint_type`, of the same rank and signedness as `c_int_type`. -/
def cBint : IntType := { cInt with name := "bint" }

theorem rank_char_nonneg : (0 : ℚ) ≤ 0 := le_refl 0

theorem signed_char_le (_ : (0 : ℚ) < 0) : 1 ≤ 1 := le_refl 1

/-- `c_char_type`. -/
def cChar : IntType := ⟨"char", 0, 1, rank_char_nonneg, unspecified_le, signed_char_le⟩

/-- An enum beside an `int` gives `int`. -/
theorem reductions_agree_enum_int :
    SameType (widest (enum "E") (int cInt)) (widest (int cInt) (enum "E")) := by
  have hvalid : ∀ x ∈ [enum "E", int cInt], x.Valid := by
    intro x hx
    rcases List.mem_cons.1 hx with rfl | hx
    · exact trivial
    · rw [List.mem_singleton.1 hx]
      exact trivial
  have hties : ∀ x y, Tied [enum "E", int cInt] x → Tied [enum "E", int cInt] y →
      x.base = y.base := by
    have hint : ∀ x, Tied [enum "E", int cInt] x → x = int cInt := by
      rintro x ⟨hx | ⟨rfl, -⟩, hle⟩
      · rcases List.mem_cons.1 hx with rfl | hx
        · have hrank := rank_le_of_key_le (hle (int cInt) (by decide))
          change (2 : ℚ) ≤ -1 at hrank
          norm_num at hrank
        · exact List.mem_singleton.1 hx
      · rfl
    intro x y hx hy
    rw [hint x hx, hint y hy]
  exact (reductions_agree hvalid (.inr (.inl ⟨int cInt, by decide, rfl, le_refl _⟩))
    ((Reduces.single (enum "E")).node (.single (int cInt)) (by rfl))
    ((Reduces.single (int cInt)).node (.single (enum "E")) (.swap _ _ _))).2.1 (.inr hties)

/-- The order decides between `int` and `bint`; an enum beside a `char` gives `char`, and two of
    them `char` or `int`. -/
theorem reductions_differ :
    (Reduces widest [int cInt, int cBint] (int cBint) ∧
      Reduces widest [int cInt, int cBint] (int cInt) ∧ ¬SameType (int cBint) (int cInt)) ∧
    (Reduces widest [enum "E", int cChar] (int cChar) ∧ (int cChar).width < (enum "E").width) ∧
    (Reduces widest [enum "E", enum "F", int cChar] (int cChar) ∧
      Reduces widest [enum "E", enum "F", int cChar] (int cInt)) := by
  refine ⟨⟨reduces_foldl _ _, ?_, by decide⟩, ⟨reduces_foldl _ _, by decide⟩, ?_,
    reduces_foldl _ _⟩
  · exact (Reduces.single (int cBint)).node (.single (int cInt)) (.swap _ _ _)
  · exact (Reduces.single (enum "E")).node (reduces_foldl (enum "F") [int cChar]) (by rfl)

end NumericType

end AHPy.PyrexTypes
