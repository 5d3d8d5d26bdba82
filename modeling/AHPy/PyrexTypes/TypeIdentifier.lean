import AHPy.Lib.Substitutions
import AHPy.ModuleWriter.SymbolNames

/-!
# Identifiers of C types

The compiler names converters and structures after C types. The identifier of a
type is its declaration, after the prefix of its scope, without the spaces around
punctuation, with the other characters that identifiers cannot have escaped, and
cut off after 63 characters.

* `CType.declarationCode`: the declaration of a type around an entity;
* `CType.identifier`: `type_identifier`;
* `cTupleName`: the name of the structure for a list of components.

The digest of the cut off identifiers is a parameter.
-/

namespace AHPy.TypeIdentifier

open ModuleWriter (isWordChar)

abbrev Text := List Char

/-! ## Escaping -/

/-- The keys of `_special_type_characters`. -/
inductive Special
  | dunder
  | const
  | space
  | ptr
  | ref
  | fwref
  | lArr
  | rArr
  | lAng
  | rAng
  | lParen
  | rParen
  | comma
  | ellipsis
  | namespaceSep
  | colon
  deriving DecidableEq

namespace Special

def key : Special → Text
  | dunder => "__".toList
  | const => "const ".toList
  | space => " ".toList
  | ptr => "*".toList
  | ref => "&".toList
  | fwref => "&&".toList
  | lArr => "[".toList
  | rArr => "]".toList
  | lAng => "<".toList
  | rAng => ">".toList
  | lParen => "(".toList
  | rParen => ")".toList
  | comma => ",".toList
  | ellipsis => "...".toList
  | namespaceSep => "::".toList
  | colon => ":".toList

/-- The values of `_special_type_characters`. -/
def escaped : Special → Text
  | dunder => "__dunder".toList
  | const => "__const_".toList
  | space => "__space_".toList
  | ptr => "__ptr".toList
  | ref => "__ref".toList
  | fwref => "__fwref".toList
  | lArr => "__lArr".toList
  | rArr => "__rArr".toList
  | lAng => "__lAng".toList
  | rAng => "__rAng".toList
  | lParen => "__lParen".toList
  | rParen => "__rParen".toList
  | comma => "__comma_".toList
  | ellipsis => "__EL".toList
  | namespaceSep => "__in_".toList
  | colon => "__D".toList

/-- `sorted(_special_type_characters, reverse=True)` -/
def alternatives : List Special :=
  [const, dunder, rArr, lArr, rAng, lAng, namespaceSep, colon, ellipsis, comma, ptr, rParen,
    lParen, fwref, ref, space]

example : (alternatives.map key).Pairwise fun s t => t < s := by decide

theorem key_ne_nil (k : Special) : k.key ≠ [] := by
  cases k <;> decide

/-- The first alternative at the beginning of a text. -/
def pattern : Pattern Char Special where
  find s := (alternatives.find? fun k => k.key.isPrefixOf s).map fun k => (k, k.key.length)
  pos h := by
    obtain ⟨k, -, heq⟩ := Option.map_eq_some_iff.1 h
    rw [← (Prod.mk.inj heq).2]
    exact List.length_pos_of_ne_nil k.key_ne_nil

end Special

/-- `[^a-zA-Z0-9_]` -/
def nonWord : Pattern Char Char where
  find
    | [] => none
    | c :: _ => if isWordChar c then none else some (c, 1)
  pos {s k n} h := by
    cases s with
    | nil => cases h
    | cons c s =>
      simp only at h
      split at h
      next => cases h
      next =>
        rw [← (Prod.mk.inj (Option.some_inj.1 h)).2]
        exact Nat.one_pos

/-- ` +` -/
def spaces : Pattern Char Unit where
  find s := if s.head? = some ' ' then some ((), (s.takeWhile (· == ' ')).length) else none
  pos {s k n} h := by
    split at h
    next hspace =>
      rw [← (Prod.mk.inj (Option.some_inj.1 h)).2]
      cases s with
      | nil => cases hspace
      | cons c s =>
        obtain rfl := Option.some_inj.1 hspace
        exact Nat.succ_pos _
    next => cases h

/-- The space that ` ?` takes. -/
def optionalSpace (s : Text) : ℕ := if s.head? = some ' ' then 1 else 0

/-- A match of a pattern and an optional space after it, after some spaces. -/
def trailed {κ : Type} (P : Pattern Char κ) (lead : ℕ) (s : Text) : Option (κ × ℕ) :=
  (P.find s).map fun m => (m.1, lead + m.2 + optionalSpace (s.drop m.2))

/-- A pattern between optional spaces. The space before it is taken if the pattern
    matches after it. -/
def spaced {κ : Type} (P : Pattern Char κ) : Pattern Char κ where
  find s := (if s.head? = some ' ' then trailed P 1 s.tail else none).or (trailed P 0 s)
  pos {s k n} h := by
    rcases Option.or_eq_some_iff.1 h with h | ⟨-, h⟩
    · split at h
      next =>
        obtain ⟨m, -, heq⟩ := Option.map_eq_some_iff.1 h
        rw [← (Prod.mk.inj heq).2]
        omega
      next => cases h
    · obtain ⟨m, hm, heq⟩ := Option.map_eq_some_iff.1 h
      have hpos := P.pos (k := m.1) (n := m.2) hm
      rw [← (Prod.mk.inj heq).2]
      omega

/-- `%X` -/
def upperHex (n : ℕ) : Text := (Nat.toDigits 16 n).map Char.toUpper

/-- `re.sub(' +', ' ', safe)` -/
def collapseSpaces (s : Text) : Text := spaces.sub (fun _ => [' ']) s

/-- `re.sub(' ?([^a-zA-Z0-9_]) ?', r'\1', safe)` -/
def dropSpaces (s : Text) : Text := (spaced nonWord).sub (fun c => [c]) s

/-- `_escape_special_type_characters` -/
def escapeSpecialTypeCharacters (s : Text) : Text := (spaced Special.pattern).sub Special.escaped s

/-- `re.sub('[^a-zA-Z0-9_]', lambda x: '__%X' % ord(x.group(0)), safe)` -/
def escapeCodes (s : Text) : Text := nonWord.sub (fun c => "__".toList ++ upperHex c.toNat) s

/-- An identifier that is not cut off. -/
def uncapped (safe : Text) : Text :=
  escapeCodes (escapeSpecialTypeCharacters (dropSpaces (collapseSpaces safe)))

/-- `hashlib.sha256(…).hexdigest()` -/
structure Digest where
  hexdigest : Text → Text
  length : ∀ s, (hexdigest s).length = 64
  digits : ∀ s, ∀ c ∈ hexdigest s, c ∈ "0123456789abcdef".toList

def maxLen : ℕ := 63

/-- `cap_length` -/
def capLength (H : Digest) (s : Text) : Text :=
  if s.length ≤ maxLen then s
  else (H.hexdigest s).take 6 ++ "__".toList ++ s.take (maxLen - 17) ++ "__etc".toList

/-- `'__and_'.join(…)` -/
def joined (identifiers : List Text) : Text := "__and_".toList.intercalate identifiers

/-! ## Scopes -/

/-- `name.replace('.', '_dot_')` -/
def replaceDots (n : Text) : Text := n.flatMap fun c => if c = '.' then "_dot_".toList else [c]

/-- The name of a module or a class. The names of modules can have dots. -/
structure ScopeName where
  text : Text
  word : ∀ c ∈ text, isWordChar c = true ∨ c = '.'
  noDigit : ∀ c ∈ text.head?, c.isDigit = false

/-- The names of a scope and of those around it, from the outermost one. -/
abbrev Scope := List ScopeName

/-- `scope_prefix` -/
def scopePrefix (s : Scope) : Text :=
  s.flatMap fun name => ModuleWriter.decimal name.text.length ++ replaceDots name.text ++ ['_']

/-- What `scope.mangle(prefix="", name=safe)` puts before an ASCII name. -/
def manglingPrefix (scope : Option Scope) : Text := scope.elim [] scopePrefix

/-- `scope.mangle(prefix="", name=safe)`, if there is a scope -/
def mangle (scope : Option Scope) (decl : Text) : Text := manglingPrefix scope ++ decl

/-- `type_identifier_from_declaration` -/
def identifierFromDeclaration (H : Digest) (decl : Text) (scope : Option Scope) : Text :=
  capLength H (uncapped (mangle scope decl))

/-! ## Types -/

/-- A character of C source text. -/
def isPrintable (c : Char) : Bool := decide (' ' ≤ c) && decide (c ≤ '~')

/-- The name of a type in C. -/
structure CName where
  text : Text
  printable : ∀ c ∈ text, isPrintable c = true
  starts : ∃ c ∈ text.head?, c.isDigit = false ∧ c ≠ ' '

/-- `CStructOrUnionType.kind` -/
inductive StructKind
  | struct
  | union

def StructKind.text : StructKind → Text
  | .struct => "struct".toList
  | .union => "union".toList

/-- The C types. Those with an entry have the scope of the entry. -/
inductive CType
  /-- numeric types, `void`, `Py_tss_t`, memoryview slices, template parameters -/
  | basic (name : CName)
  /-- Python objects: builtin types and extension types -/
  | object (structTag : Bool) (name : CName) (scope : Option Scope)
  | typedef (cname : CName) (within : Option CType) (scope : Option Scope)
  | structOrUnion (kind : StructKind) (typedefFlag : Bool) (cname : CName) (scope : Option Scope)
  | enum (typedefFlag : Bool) (cname : CName) (within : Option CType) (scope : Option Scope)
  | scopedEnum (cname : CName) (within : Option CType) (scope : Option Scope)
  | cppClass (cname : CName) (isTemplate : Bool) (templates : List CType)
      (within : Option CType) (scope : Option Scope)
  | qualified (base : CType) (isConst isVolatile isRestrict : Bool)
  | ptr (base : CType)
  | array (base : CType) (size : Option ℕ)
  | reference (base : CType)
  | rvalueReference (base : CType)
  | fakeReference (base : CType)
  | function (returnType : CType) (args : List CType) (callingConvention : Option CName)
      (isOverridable : Bool) (opArgStruct : Option CType) (hasVarargs isConstMethod : Bool)
  | ctuple (components : List CType) (scope : Option Scope)
  /-- Pythran expressions, locks -/
  | spacedName (cname : CName)

namespace CType

/-- `type.entry.scope` -/
def scope : CType → Option Scope
  | object _ _ s => s
  | typedef _ _ s => s
  | structOrUnion _ _ _ s => s
  | enum _ _ _ s => s
  | scopedEnum _ _ s => s
  | cppClass _ _ _ _ s => s
  | ctuple _ s => s
  | _ => none

/-- `base_declaration_code` -/
def baseDeclarationCode (baseCode entityCode : Text) : Text :=
  if entityCode = [] then baseCode else baseCode ++ ' ' :: entityCode

/-- `cv_string` -/
def cvString (isConst isVolatile isRestrict : Bool) : Text :=
  (if isRestrict then "CYTHON_RESTRICT ".toList else []) ++
    (if isVolatile then "volatile ".toList else []) ++ (if isConst then "const ".toList else [])

/-- `"(%s)" % entity_code`, where it begins with a pointer -/
def parenthesized (entityCode : Text) : Text :=
  if entityCode.head? = some '*' then '(' :: entityCode ++ [')'] else entityCode

/-- The argument list of a function, `void` if it is empty. -/
def argDeclCode (args : List Text) : Text :=
  let code := ", ".toList.intercalate args
  if code = [] then "void".toList else code

/-- The declarator of a function, with the calling convention inside parentheses before
    a pointer, or where there is no name. -/
def functionDeclarator (cc entityCode argCode trailer : Text) : Text :=
  if (entityCode = [] ∧ cc ≠ []) ∨ entityCode.head? = some '*' then
    '(' :: cc ++ entityCode ++ ")(".toList ++ argCode ++ ')' :: trailer
  else cc ++ entityCode ++ '(' :: argCode ++ ')' :: trailer

/-- The declaration of a fake reference to a type. -/
def fakeReferenceCode (baseCode entityCode : Text) : Text :=
  "__Pyx_FakeReference<".toList ++ baseCode ++ "> ".toList ++ entityCode

/-- `Naming.ctuple_type_prefix` before an identifier -/
def ctupleCode (identifier : Text) : Text := "__pyx_ctuple_".toList ++ identifier

/-- `calling_convention_prefix` -/
def callingConventionPrefix : Option CName → Text
  | none => []
  | some cc => cc.text ++ [' ']

variable (H : Digest)

mutual

/-- `declaration_code` -/
def declarationCode : CType → Text → Text
  | basic name, entity => baseDeclarationCode name.text entity
  | object structTag name _, entity =>
    baseDeclarationCode ((if structTag then "struct ".toList else []) ++ name.text)
      ('*' :: entity)
  | typedef cname within _, entity =>
    baseDeclarationCode (namespaceCode within ++ cname.text) entity
  | structOrUnion kind typedefFlag cname _, entity =>
    baseDeclarationCode (if typedefFlag then cname.text else kind.text ++ ' ' :: cname.text) entity
  | enum typedefFlag cname within _, entity =>
    baseDeclarationCode
      (if within.isNone && !typedefFlag then "enum ".toList ++ cname.text
        else namespaceCode within ++ cname.text) entity
  | scopedEnum cname within _, entity =>
    baseDeclarationCode
      (if within.isNone then "__PYX_ENUM_CLASS_DECL ".toList ++ cname.text
        else namespaceCode within ++ cname.text) entity
  | cppClass cname isTemplate templates within _, entity =>
    baseDeclarationCode (namespaceCode within ++ cname.text ++
      if isTemplate then
        '<' :: [','].intercalate (declarationCodes templates) ++ "> ".toList
      else []) entity
  | qualified base isConst isVolatile isRestrict, entity =>
    declarationCode base (cvString isConst isVolatile isRestrict ++ entity)
  | ptr base, entity => declarationCode base ('*' :: entity)
  | array base size, entity =>
    declarationCode base (parenthesized entity ++ '[' :: size.elim [] ModuleWriter.decimal ++ [']'])
  | reference base, entity => declarationCode base ('&' :: entity)
  | rvalueReference base, entity => declarationCode base ("&&".toList ++ entity)
  | fakeReference base, entity =>
    fakeReferenceCode (declarationCode base []) entity
  | function returnType args callingConvention isOverridable opArgStruct hasVarargs
      isConstMethod, entity =>
    declarationCode returnType
      (functionDeclarator (callingConventionPrefix callingConvention) entity
        (argDeclCode (declarationCodes args ++
          (if isOverridable then ["int __pyx_skip_dispatch".toList] else []) ++
          optionalArgCode opArgStruct ++ (if hasVarargs then ["...".toList] else [])))
        (if isConstMethod then " const".toList else []))
  | ctuple components _, entity =>
    baseDeclarationCode
      (ctupleCode (capLength H (joined (List.zipWith
        (identifierFromDeclaration H) (declarationCodes components) (components.map scope)))))
      entity
  | spacedName cname, entity => cname.text ++ ' ' :: entity

/-- The namespace before a name. -/
def namespaceCode : Option CType → Text
  | none => []
  | some t => declarationCode t [] ++ "::".toList

def declarationCodes : List CType → List Text
  | [] => []
  | t :: ts => declarationCode t [] :: declarationCodes ts

/-- The declaration of the structure of the optional arguments. -/
def optionalArgCode : Option CType → List Text
  | none => []
  | some t => [declarationCode t "__pyx_optional_args".toList]

end

/-- `empty_declaration_code` -/
def emptyDeclarationCode (t : CType) : Text := t.declarationCode H []

/-- The declaration after the prefix of the scope. -/
def mangledDeclaration (t : CType) : Text := mangle t.scope (t.emptyDeclarationCode H)

/-- `type_identifier` -/
def identifier (t : CType) : Text := identifierFromDeclaration H (t.emptyDeclarationCode H) t.scope

end CType

/-- `type_list_identifier` -/
def typeListIdentifier (H : Digest) (types : List CType) : Text :=
  capLength H (joined (types.map (CType.identifier H)))

/-- The name of `c_tuple_type`, for types that are not fused. -/
def cTupleName (H : Digest) (components : List CType) : Text :=
  CType.ctupleCode (typeListIdentifier H components)

end AHPy.TypeIdentifier
