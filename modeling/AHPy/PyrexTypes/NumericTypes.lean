import AHPy.Lib.Runs

/-!
# Numeric types of C

The types of the compiler for C numbers: integers, enums, floats, complex numbers, typedefs, and
qualified and reference forms. A typedef, a qualified type and a reference type have the
attributes of the type that they are made from.

* `NumericType.widest`: `widest_numeric_type`.
-/

namespace AHPy.PyrexTypes

/-- An object of class `CIntType` or a subclass: `signed` is 0 for unsigned, 1 if unspecified, 2
    for explicitly signed types, which are kept apart only at rank 0. -/
structure IntType where
  name : String
  rank : ℚ
  signed : ℕ
  rank_nonneg : 0 ≤ rank
  signed_le : signed ≤ 2
  signed_le_one : 0 < rank → signed ≤ 1
  deriving DecidableEq

structure FloatType where
  name : String
  rank : ℚ
  rank_nonneg : 0 ≤ rank
  deriving DecidableEq

structure Qualifiers where
  isConst : Bool
  isVolatile : Bool
  isRestrict : Bool
  deriving DecidableEq

inductive NumericType
  | int (t : IntType)
  | anonEnum
  | enum (name : String)
  | float (t : FloatType)
  | complex (real : NumericType)
  | softComplex
  | typedef (name : String) (isExternal : Bool) (base : NumericType)
  | qualified (q : Qualifiers) (base : NumericType)
  | reference (base : NumericType)
  deriving DecidableEq

theorem rank_int_nonneg : (0 : ℚ) ≤ 2 := by norm_num

theorem rank_double_nonneg : (0 : ℚ) ≤ 6 := by norm_num

theorem unspecified_le : 1 ≤ 2 := by decide

theorem signed_int_le (_ : (0 : ℚ) < 2) : 1 ≤ 1 := le_refl 1

/-- `c_int_type`. -/
def cInt : IntType := ⟨"int", 2, 1, rank_int_nonneg, unspecified_le, signed_int_le⟩

/-- `c_double_type`. -/
def cDouble : FloatType := ⟨"double", 6, rank_double_nonneg⟩

namespace NumericType

/-! ## Attributes -/

def rank : NumericType → ℚ
  | int t => t.rank
  | anonEnum | enum _ => -1
  | float t => t.rank
  | complex real => real.rank + 1 / 2
  | softComplex => cDouble.rank + 1 / 2
  | typedef _ _ base | qualified _ base | reference base => base.rank

def signed : NumericType → ℕ
  | int t => t.signed
  | anonEnum | enum _ | float _ | softComplex => 1
  | complex real => if real.rank + 1 / 2 > 0 ∧ real.signed = 2 then 1 else real.signed
  | typedef _ _ base | qualified _ base | reference base => base.signed

def isInt : NumericType → Bool
  | int _ | anonEnum => true
  | enum _ | float _ | complex _ | softComplex => false
  | typedef _ _ base | qualified _ base | reference base => base.isInt

def isEnum : NumericType → Bool
  | anonEnum | enum _ => true
  | int _ | float _ | complex _ | softComplex => false
  | typedef _ _ base | qualified _ base | reference base => base.isEnum

def isComplex : NumericType → Bool
  | complex _ | softComplex => true
  | int _ | anonEnum | enum _ | float _ => false
  | typedef _ _ base | qualified _ base | reference base => base.isComplex

/-- `real_type`, of complex types. -/
def realType : NumericType → NumericType
  | complex real => real
  | softComplex => float cDouble
  | typedef _ _ base | qualified _ base | reference base => base.realType
  | t => t

def isTypedef : NumericType → Bool
  | typedef _ _ _ => true
  | qualified _ base | reference base => base.isTypedef
  | _ => false

def typedefIsExternal : NumericType → Bool
  | typedef _ isExternal _ => isExternal
  | qualified _ base | reference base => base.typedefIsExternal
  | _ => false

def isReference : NumericType → Bool
  | reference _ => true
  | typedef _ _ base | qualified _ base => base.isReference
  | _ => false

def refBaseType : NumericType → NumericType
  | reference base => base
  | typedef _ _ base | qualified _ base => base.refBaseType
  | t => t

def isCvQualified : NumericType → Bool
  | qualified _ _ => true
  | typedef _ _ base | reference base => base.isCvQualified
  | _ => false

def cvBaseType : NumericType → NumericType
  | qualified _ base => base
  | typedef _ _ base | reference base => base.cvBaseType
  | t => t

/-- `resolve_known_type`, of a typedef: the typedefs around an external one, or around another
    type, are removed. -/
def resolveKnownType : NumericType → NumericType
  | typedef name true base => typedef name true base
  | typedef _ false base => base.resolveKnownType
  | qualified q base =>
    if base.isTypedef && !base.typedefIsExternal then base.resolveKnownType else qualified q base
  | reference base =>
    if base.isTypedef && !base.typedefIsExternal then base.resolveKnownType else reference base
  | t => t

/-- `CComplexType(real_type)`. -/
def mkComplex (real : NumericType) : NumericType :=
  complex (if real.isTypedef then real.resolveKnownType else real)

/-- What `==` compares: complex types are equal if their real types are, others if they are the
    same object. -/
def comparand : NumericType → NumericType
  | complex real => complex real.comparand
  | softComplex => complex (float cDouble)
  | t => t

/-- `type1 == type2`. -/
def typeEq (type1 type2 : NumericType) : Bool := type1.comparand = type2.comparand

/-! ## The widest type -/

/-- A reference type or a qualified type is replaced by the type that it is made from. -/
def strip (t : NumericType) : NumericType :=
  let t := if t.isReference then t.refBaseType else t
  if t.isCvQualified then t.cvBaseType else t

/-- The cases of `widest_numeric_type` for two types that are neither equal nor complex. -/
def ranked (type1 type2 : NumericType) : NumericType :=
  if type1.isEnum && type2.isEnum then int cInt
  else if type1.rank < type2.rank then type2
  else if type1.rank > type2.rank then type1
  else if type1.signed < type2.signed then type1
  else if type1.signed > type2.signed then type2
  else if type1.isTypedef && !type2.isTypedef then type1
  else type2

/-- `widest_numeric_type`, for types that are not complex. -/
def widestReal (type1 type2 : NumericType) : NumericType :=
  if type1.strip.typeEq type2.strip then type1.strip else ranked type1.strip type2.strip

/-- The real type of a complex type, or the type. -/
def realOf (t : NumericType) : NumericType := if t.isComplex then t.realType else t

/-- The case of `widest_numeric_type` with a complex type: the call for the real types, which
    are not complex, and the soft complex type if no other complex type takes part. -/
def widestComplex (type1 type2 : NumericType) : NumericType :=
  let widest := mkComplex (widestReal type1.realOf type2.realOf)
  let isOther (t : NumericType) : Bool := t ≠ softComplex && t.isComplex
  if (type1 = softComplex ∨ type2 = softComplex) ∧
      (!isOther type1 && !isOther type2 && widest.realType.typeEq (float cDouble)) then
    softComplex
  else widest

/-- `widest_numeric_type`. -/
def widest (type1 type2 : NumericType) : NumericType :=
  let type1 := type1.strip
  let type2 := type2.strip
  if type1.typeEq type2 then type1
  else if type1.isComplex || type2.isComplex then widestComplex type1 type2
  else ranked type1 type2

/-! ## Types that the compiler makes -/

/-- The type that is left without typedefs, qualifiers and references, of the real type if it is
    complex. -/
def base : NumericType → NumericType
  | complex real => real.base
  | softComplex => float cDouble
  | typedef _ _ b | qualified _ b | reference b => b.base
  | t => t

/-- Two types are the same up to typedefs. -/
def SameType (type1 type2 : NumericType) : Prop :=
  type1.isComplex = type2.isComplex ∧ type1.base = type2.base

instance (type1 type2 : NumericType) : Decidable (SameType type1 type2) :=
  inferInstanceAs (Decidable (_ ∧ _))

/-- No typedef of a complex type is made; the real type of a complex type is a numeric type that
    is not complex and not an enum, and no typedef unless that is external. -/
def Valid : NumericType → Prop
  | complex real => real.isComplex = false ∧ real.isEnum = false ∧
      (real.isTypedef = true → real.typedefIsExternal = true) ∧ real.Valid
  | typedef _ _ base => base.isComplex = false ∧ base.Valid
  | qualified _ base | reference base => base.Valid
  | int _ | anonEnum | enum _ | float _ | softComplex => True

/-- The rank, an enum counting as an `int`. -/
def width (t : NumericType) : ℚ := if t.isEnum then cInt.rank else t.rank

end NumericType

end AHPy.PyrexTypes
