import AHPy.Lib.Runs
import AHPy.Buffer.TypeInfo

/-!
# The check of format strings

`__Pyx_BufFmt_CheckString` as a machine: a step is one turn of its loop, up to or from a call of
`__Pyx_BufFmt_ProcessTypeChunk`, or a turn of the loop over the extents of an array. The bytes of
a format string are those in front of the one that terminates it. What is undefined in C ends the
machine with `undefined`.

* `processTypeChunk`: the fields that an item of the format stands for;
* `checkStep`: a step of the check;
* `checkStart`: its start.
-/

namespace AHPy.Buffer

/-! ## Items -/

/-- The field after the current one: up to the next struct that has one, and into a struct. The
    stack is empty after the dtype itself. -/
def advance : List Frame → List Frame
  | [] => []
  | [_] => []
  | head :: below :: rest =>
    match head.fields with
    | .last _ _ => advance (below :: rest)
    | .cons _ _ fields =>
      match fields.type with
      | .struct _ _ inner =>
        ⟨inner, head.parentOffset + fields.offset⟩ :: ⟨fields, head.parentOffset⟩ :: below :: rest
      | _ => ⟨fields, head.parentOffset⟩ :: below :: rest

/-- The check of the extents of an array, which is an item of its own; and its length. -/
def processArray (a : Abi) (ctx : Context) (t : TypeChar) (type : TypeInfo) :
    Except FormatError (Context × ℕ) :=
  if type.arraysize.headD 0 ≠ 0 then
    let isString := t = .s ∨ t = .p
    if isString ∧ ctx.encCount ≠ type.arraysize.headD 0 then
      .error (.dimension (type.arraysize.headD 0) ctx.encCount)
    else if ¬(if isString then type.ndim = 1 else ctx.isValidArray) then
      .error (.dimensions type.ndim (if isString then 1 else 0))
    else .ok ({ ctx with isValidArray := false, encCount := 1 }, a.sizeT type.arraysize.prod)
  else .ok (ctx, 1)

/-- The alignment of an item, and of the struct that begins with it. -/
def alignItem (a : Abi) (ctx : Context) (t : TypeChar) : Context :=
  if ctx.encPackmode = .native then
    let alignAt := a.charAlignment t
    let alignModOffset := ctx.fmtOffset % alignAt
    { ctx with
      fmtOffset :=
        if alignModOffset > 0 then a.sizeT (ctx.fmtOffset + (alignAt - alignModOffset))
        else ctx.fmtOffset
      structAlignment :=
        if ctx.structAlignment = 0 then a.charPadding t else ctx.structAlignment }
  else ctx

/-- The size of an item. -/
def itemSize (a : Abi) (ctx : Context) (t : TypeChar) : ℕ :=
  if ctx.encPackmode = .native ∨ ctx.encPackmode = .unaligned then a.nativeSize ctx.isComplex t
  else a.standardSize ctx.isComplex t

/-- An item that fits the current field is consumed. -/
def consumeItem (a : Abi) (size arraysize : ℕ) (head : Frame) (below : List Frame) (ctx : Context) :
    Except FormatError Context :=
  let offset := a.sizeT (head.parentOffset + head.fields.offset)
  if ctx.fmtOffset ≠ offset then .error (.fieldOffset ctx.fmtOffset offset)
  else
    let ctx := { ctx with
      fmtOffset := a.sizeT (ctx.fmtOffset + size +
        if arraysize ≠ 0 then (arraysize - 1) * size else 0)
      encCount := a.sizeT (ctx.encCount + (2 ^ a.sizeBits - 1))
      stack := advance (head :: below) }
    if ctx.stack = [] ∧ ctx.encCount ≠ 0 then .error ctx.raiseExpected else .ok ctx

/-- A turn of the loop over the items of a chunk. -/
def processItem (a : Abi) (t : TypeChar) (group : Group) (arraysize : ℕ) (head : Frame)
    (below : List Frame) (ctx : Context) : Except FormatError Context :=
  let type := head.fields.type
  let size := itemSize a ctx t
  let ctx := alignItem a ctx t
  if type.size ≠ size ∨ type.typegroup ≠ some group then
    match type with
    | .complexStruct _ _ fields =>
      -- The parts of the number are fields.
      .ok { ctx with
        stack := ⟨fields, head.parentOffset + head.fields.offset⟩ :: head :: below }
    | type =>
      if (type.typegroup = some .char ∨ group = .char) ∧ type.size = size then
        consumeItem a size arraysize head below ctx
      else .error ctx.raiseExpected
  else consumeItem a size arraysize head below ctx

/-- The loop over the items of a chunk, for so many turns. `none`: there is no field. -/
def processItems (a : Abi) (t : TypeChar) (group : Group) (arraysize : ℕ) :
    ℕ → Context → Option (Except FormatError Context)
  | 0, _ => none
  | n + 1, ctx =>
    match ctx.stack with
    | [] => none
    | head :: below =>
      match processItem a t group arraysize head below ctx with
      | .error e => some (.error e)
      | .ok ctx =>
        if ctx.encCount ≠ 0 then processItems a t group arraysize n ctx else some (.ok ctx)

mutual

/-- The number of types in a type. -/
def TypeInfo.weight : TypeInfo → ℕ
  | .simple _ _ _ => 1
  | .complexStruct _ _ fields => 1 + fields.weight
  | .struct _ _ fields => 1 + fields.weight

def Fields.weight : Fields → ℕ
  | .last _ type => type.weight
  | .cons _ type rest => type.weight + rest.weight

end

/-- The number of types after the current field. -/
def Fields.restWeight : Fields → ℕ
  | .last _ _ => 0
  | .cons _ _ rest => rest.weight

/-- The number of types that are left: a chunk takes no more turns. -/
def stackWeight : List Frame → ℕ
  | [] => 0
  | head :: below => head.fields.weight + (below.map fun f => f.fields.restWeight).sum

/-- `__Pyx_BufFmt_ProcessTypeChunk`. `none`: there is no field. -/
def processTypeChunk (a : Abi) (ctx : Context) : Option (Except FormatError Context) :=
  match ctx.encType, ctx.stack with
  | none, _ => some (.ok ctx)
  | some _, [] => none
  | some t, head :: below =>
    match processArray a ctx t head.fields.type with
    | .error e => some (.error e)
    | .ok (ctx, arraysize) =>
      (processItems a t (t.group ctx.isComplex) arraysize (stackWeight (head :: below)) ctx).map
        fun result => result.map fun ctx => { ctx with encType := none, isComplex := false }

/-! ## Scanning -/

/-- A call for a struct in the format: its start, how often it is scanned again, and the alignment
    of the struct around it. -/
structure StructCall where
  start : List Char
  left : ℕ
  alignment : ℕ

/-- What follows a call of `__Pyx_BufFmt_ProcessTypeChunk`. -/
inductive Action
  | stop
  | struct (count alignment : ℕ)
  | endStruct (alignment : ℕ)
  | pad
  | item (t : TypeChar) (isComplex : Bool)
  | array

/-- Where the check is: in its loop, before an item is processed, before or in the extents of an
    array of some sizes, of which it has read some, or at the end of a call. -/
inductive Mode
  | scan
  | process (action : Action)
  | arrayStart
  | array (sizes : List ℕ) (i : ℕ)
  | leave

/-- The state of the check: the cursor stands before the bytes of `ts`. -/
structure Check where
  mode : Mode
  ctx : Context
  ts : List Char
  calls : List StructCall

/-- What is undefined. -/
inductive Undefined
  | readsPastEnd
  | noField
  | overflow

/-- How the check ends. -/
inductive CheckResult
  | accepted
  | raised (e : FormatError)
  | undefined (u : Undefined)

/-- It ends as a function of C does. -/
def CheckResult.IsDefined : CheckResult → Prop
  | .undefined _ => False
  | _ => True

abbrev CheckStatus := Status Check CheckResult

def raise (e : FormatError) : CheckStatus := .ended (.raised e)

/-- The value of digits, from a value on, and what follows them. -/
def digitsValue (count : ℕ) : List Char → ℕ × List Char
  | [] => (count, [])
  | c :: ts =>
    if '0' ≤ c ∧ c ≤ '9' then digitsValue (count * 10 + (c.toNat - '0'.toNat)) ts
    else (count, c :: ts)

/-- `__Pyx_BufFmt_ParseNumber`: none if there is no digit. -/
def parseNumber : List Char → Option (ℕ × List Char)
  | [] => none
  | c :: ts =>
    if '0' ≤ c ∧ c ≤ '9' then some (digitsValue (c.toNat - '0'.toNat) ts) else none

/-- `__Pyx_BufFmt_ExpectNumber`. The value is of type `int`. -/
def expectNumber (ts : List Char) (next : ℕ → List Char → CheckStatus) : CheckStatus :=
  match parseNumber ts with
  | none => raise (.notUnderstood ts.head?)
  | some (number, ts) => if number < 2 ^ 31 then next number ts else .ended (.undefined .overflow)

/-- `while(*ts != ':') ++ts; ++ts;`. The loop does not stop at the end. -/
def skipName : List Char → Option (List Char)
  | [] => none
  | c :: ts => if c = ':' then some ts else skipName ts

/-- The alignment of the struct around one that ends. -/
def Context.restoreAlignment (ctx : Context) (alignment : ℕ) : Context :=
  if alignment ≠ 0 then { ctx with structAlignment := alignment } else ctx

namespace Check

variable (a : Abi)

/-- Characters that stand for a type: pooled with the ones before, or of a new item. -/
def scanItem (s : Check) (t : TypeChar) (isComplex : Bool) (ts : List Char) : CheckStatus :=
  let ctx := s.ctx
  if t ≠ .s ∧ ctx.encType = some t ∧ isComplex = ctx.isComplex ∧
      ctx.encPackmode = ctx.newPackmode ∧ ¬ctx.isValidArray then
    .running { s with
      ctx := { ctx with encCount := a.sizeT (ctx.encCount + ctx.newCount), newCount := 1 }
      ts := ts }
  else .running { s with mode := .process (.item t isComplex), ts := ts }

/-- A turn of the loop. -/
def scan (s : Check) : CheckStatus :=
  let ctx := s.ctx
  match s.ts with
  | [] =>
    if ctx.encType ≠ none ∧ ctx.stack = [] then raise ctx.raiseExpected
    else .running { s with mode := .process .stop }
  | c :: ts =>
    match c with
    | ' ' | '\r' | '\n' => .running { s with ts := ts }
    | '<' =>
      if ¬a.littleEndian then raise .littleEndian
      else .running { s with ctx := { ctx with newPackmode := .standard }, ts := ts }
    | '>' | '!' =>
      if a.littleEndian then raise .bigEndian
      else .running { s with ctx := { ctx with newPackmode := .standard }, ts := ts }
    | '=' => .running { s with ctx := { ctx with newPackmode := .standard }, ts := ts }
    | '@' => .running { s with ctx := { ctx with newPackmode := .native }, ts := ts }
    | '^' => .running { s with ctx := { ctx with newPackmode := .unaligned }, ts := ts }
    | 'T' =>
      match ts with
      | [] => raise .openingBrace
      | brace :: ts =>
        if brace = '\x7b' then
          .running { s with
            mode := .process (.struct ctx.newCount ctx.structAlignment)
            ctx := { ctx with newCount := 1 }
            ts := ts }
        else raise .openingBrace
    | '\x7d' => .running { s with mode := .process (.endStruct ctx.structAlignment), ts := ts }
    | 'x' => .running { s with mode := .process .pad, ts := ts }
    | 'Z' =>
      match ts with
      | 'f' :: ts => scanItem a s .f true ts
      | 'd' :: ts => scanItem a s .d true ts
      | 'g' :: ts => scanItem a s .g true ts
      | _ => raise (.unexpectedChar 'Z')
    | ':' =>
      match skipName ts with
      | none => .ended (.undefined .readsPastEnd)
      | some ts => .running { s with ts := ts }
    | '(' =>
      if ctx.newCount ≠ 1 then raise .repeatedArray
      else .running { s with mode := .process .array, ts := ts }
    | c =>
      match TypeChar.ofChar c with
      | some t => scanItem a s t false ts
      | none =>
        expectNumber (c :: ts) fun number ts =>
          .running { s with ctx := { ctx with newCount := number }, ts := ts }

/-- What follows an item that is processed. -/
def perform (s : Check) : Action → CheckStatus
  | .stop =>
    if s.ctx.stack ≠ [] then raise s.ctx.raiseExpected else .running { s with mode := .leave }
  | .struct count alignment =>
    let ctx := { s.ctx with encType := none, encCount := 0, structAlignment := 0 }
    if count = 0 then
      .running { s with mode := .scan, ctx := ctx.restoreAlignment alignment }
    else
      .running { s with
        mode := .scan
        ctx := ctx
        calls := ⟨s.ts, count - 1, alignment⟩ :: s.calls }
  | .endStruct alignment =>
    let ctx := { s.ctx with encType := none }
    let ctx :=
      if alignment ≠ 0 ∧ ctx.fmtOffset % alignment ≠ 0 then
        { ctx with
          fmtOffset := a.sizeT (ctx.fmtOffset + (alignment - ctx.fmtOffset % alignment)) }
      else ctx
    .running { s with mode := .leave, ctx := ctx }
  | .pad =>
    .running { s with
      mode := .scan
      ctx := { s.ctx with
        fmtOffset := a.sizeT (s.ctx.fmtOffset + s.ctx.newCount)
        newCount := 1
        encCount := 0
        encType := none
        encPackmode := s.ctx.newPackmode } }
  | .item t isComplex =>
    .running { s with
      mode := .scan
      ctx := { s.ctx with
        encCount := s.ctx.newCount
        encPackmode := s.ctx.newPackmode
        encType := some t
        isComplex := isComplex
        newCount := 1 } }
  | .array => .running { s with mode := .arrayStart }

/-- White space, which the loop over extents does not skip. -/
def isSpace (c : Char) : Bool :=
  c = ' ' ∨ c = '\x0c' ∨ c = '\r' ∨ c = '\n' ∨ c = '\t' ∨ c = '\x0b'

/-- A turn of the loop over the extents of an array, or its end. -/
def scanArray (s : Check) (sizes : List ℕ) (i : ℕ) : CheckStatus :=
  match s.ts with
  | [] => raise (if i ≠ sizes.length then .dimensions sizes.length i else .openArray)
  | c :: ts =>
    if c = ')' then
      if i ≠ sizes.length then raise (.dimensions sizes.length i)
      else
        .running { s with
          mode := .scan
          ctx := { s.ctx with isValidArray := true, newCount := 1 }
          ts := ts }
    else if isSpace c then .running s
    else
      expectNumber (c :: ts) fun number ts =>
        if i < sizes.length ∧ number ≠ sizes.getD i 0 then
          raise (.dimension (sizes.getD i 0) number)
        else
          match ts with
          | ',' :: ts => .running { s with mode := .array sizes (i + 1), ts := ts }
          | ')' :: _ => .running { s with mode := .array sizes (i + 1), ts := ts }
          | _ => raise (.comma ts.head?)

/-- The end of a call: of the check, or of a struct that is scanned again or not. -/
def leave (s : Check) : CheckStatus :=
  match s.calls with
  | [] => .ended .accepted
  | call :: calls =>
    if call.left ≠ 0 then
      .running { s with
        mode := .scan
        ts := call.start
        calls := { call with left := call.left - 1 } :: calls }
    else
      .running { s with
        mode := .scan
        ctx := s.ctx.restoreAlignment call.alignment
        calls := calls }

end Check

/-- A step of the check. -/
def checkStep (a : Abi) (s : Check) : CheckStatus :=
  match s.mode with
  | .scan => s.scan a
  | .process action =>
    match processTypeChunk a s.ctx with
    | none => .ended (.undefined .noField)
    | some (.error e) => raise e
    | some (.ok ctx) => Check.perform a { s with ctx := ctx } action
  | .arrayStart =>
    match s.ctx.stack with
    | [] => .ended (.undefined .noField)
    | head :: _ => .running { s with mode := .array head.fields.type.arraysize 0 }
  | .array sizes i => s.scanArray sizes i
  | .leave => s.leave

/-- `__Pyx_BufFmt_CheckString`, after `__Pyx_BufFmt_Init`. -/
def checkStart (type : TypeInfo) (format : List Char) : Check :=
  ⟨.scan, .init type, format, []⟩

end AHPy.Buffer
