import AHPy.Buffer.FormatCheck

/-!
# The check of format strings ends

The check of every format string ends, with acceptance or a `ValueError`, unless it comes to a
state in which the code goes wrong (`Defective`): it looks for the end of a field's name that has
none; it meets white space between the extents of an array, and stays there; it reads a number
beyond `int`; or it goes on to process an item, or to an array, when the dtype is exhausted.

* `processTypeChunk_ne_none`: the loops over the items and fields of a chunk end;
* `scan_leads`: a call ends behind where it starts, and those for structs in it, too;
* `checkString_ends_iff`: the check ends if and only if it comes to no such state.
-/

namespace AHPy.Buffer

variable {a : Abi}

/-! ## Chunks -/

theorem TypeInfo.weight_pos (type : TypeInfo) : 0 < type.weight := by
  cases type with
  | simple size typegroup arraysize => exact Nat.one_pos
  | complexStruct size arraysize fields => exact Nat.pos_of_ne_zero (by rw [weight]; omega)
  | struct size arraysize fields => exact Nat.pos_of_ne_zero (by rw [weight]; omega)

theorem Fields.weight_eq (fields : Fields) :
    fields.weight = fields.type.weight + fields.restWeight := by
  cases fields <;> rfl

/-- The number of types after the current fields of some elements of the stack. -/
def belowWeight (below : List Frame) : ℕ := (below.map fun f => f.fields.restWeight).sum

theorem stackWeight_cons (head : Frame) (below : List Frame) :
    stackWeight (head :: below) = head.fields.weight + belowWeight below := rfl

/-- The current field is left behind. -/
theorem stackWeight_advance_le (head : Frame) (below : List Frame) :
    stackWeight (advance (head :: below)) ≤ head.fields.restWeight + belowWeight below := by
  induction below generalizing head with
  | nil => exact Nat.zero_le _
  | cons next rest ih =>
    rw [advance]
    split
    next hfields =>
      rw [hfields]
      refine (ih next).trans ?_
      simp [belowWeight, Fields.restWeight]
    next fields hfields =>
      rw [hfields, Fields.restWeight, fields.weight_eq]
      split
      next inner htype =>
        rw [htype, TypeInfo.weight, stackWeight_cons]
        simp [belowWeight]
        omega
      next =>
        rw [stackWeight_cons, Frame.fields, fields.weight_eq]

theorem stackWeight_advance_lt (head : Frame) (below : List Frame) :
    stackWeight (advance (head :: below)) < stackWeight (head :: below) := by
  have hle := stackWeight_advance_le head below
  have hpos := head.fields.type.weight_pos
  rw [stackWeight_cons, head.fields.weight_eq]
  omega

/-- Fields are left after an item that is not the last one of its chunk, but fewer. -/
theorem consumeItem_stack {size arraysize : ℕ} {head : Frame} {below : List Frame}
    {ctx ctx' : Context} (h : consumeItem a size arraysize head below ctx = .ok ctx')
    (hcount : ctx'.encCount ≠ 0) :
    ctx'.stack ≠ [] ∧ stackWeight ctx'.stack < stackWeight (head :: below) := by
  rw [consumeItem] at h
  split at h
  · cases h
  · dsimp only at h
    split at h
    · cases h
    next hend =>
      cases h
      exact ⟨fun hstack => hend ⟨hstack, hcount⟩, stackWeight_advance_lt head below⟩

theorem processItem_stack {t : TypeChar} {group : Group} {arraysize : ℕ} {head : Frame}
    {below : List Frame} {ctx ctx' : Context}
    (h : processItem a t group arraysize head below ctx = .ok ctx') (hcount : ctx'.encCount ≠ 0) :
    ctx'.stack ≠ [] ∧ stackWeight ctx'.stack < stackWeight (head :: below) := by
  rw [processItem] at h
  split at h
  · split at h
    next fields htype =>
      cases h
      refine ⟨List.cons_ne_nil _ _, ?_⟩
      rw [stackWeight_cons, stackWeight_cons, head.fields.weight_eq, htype, TypeInfo.weight]
      simp only [belowWeight, List.map_cons, List.sum_cons]
      omega
    next =>
      split at h
      · exact consumeItem_stack h hcount
      · cases h
  · exact consumeItem_stack h hcount

/-- The loop over the items ends, as the fields do. -/
theorem processItems_ne_none {t : TypeChar} {group : Group} {arraysize n : ℕ} {ctx : Context}
    (hne : ctx.stack ≠ []) (hn : stackWeight ctx.stack ≤ n) :
    processItems a t group arraysize n ctx ≠ none := by
  induction n generalizing ctx with
  | zero =>
    cases hstack : ctx.stack with
    | nil => exact absurd hstack hne
    | cons head below =>
      have hpos := head.fields.type.weight_pos
      rw [hstack, stackWeight_cons, head.fields.weight_eq] at hn
      omega
  | succ n ih =>
    cases hstack : ctx.stack with
    | nil => exact absurd hstack hne
    | cons head below =>
      rw [hstack] at hn
      rw [processItems, hstack]
      dsimp only
      split
      next => exact Option.some_ne_none _
      next ctx' hitem =>
        split
        next hcount =>
          obtain ⟨hne', hlt⟩ := processItem_stack hitem hcount
          exact ih hne' (by omega)
        next => exact Option.some_ne_none _

theorem processArray_stack {t : TypeChar} {type : TypeInfo} {ctx ctx' : Context} {arraysize : ℕ}
    (h : processArray a ctx t type = .ok (ctx', arraysize)) : ctx'.stack = ctx.stack := by
  rw [processArray] at h
  dsimp only at h
  split_ifs at h <;> cases h <;> rfl

/-- A chunk is processed if there is a field for it. -/
theorem processTypeChunk_ne_none {ctx : Context} (h : ¬(ctx.encType ≠ none ∧ ctx.stack = [])) :
    processTypeChunk a ctx ≠ none := by
  rw [processTypeChunk]
  split
  next => exact Option.some_ne_none _
  next htype hstack => exact absurd ⟨by rw [htype]; exact Option.some_ne_none _, hstack⟩ h
  next t head below htype hstack =>
    split
    next => exact Option.some_ne_none _
    next ctx' arraysize harray =>
      have hstack' : ctx'.stack = head :: below := by
        rw [← hstack]
        exact processArray_stack harray
      rw [ne_eq, Option.map_eq_none_iff]
      exact processItems_ne_none (by rw [hstack']; exact List.cons_ne_nil _ _) (by rw [hstack'])

/-! ## Where the code goes wrong -/

/-- The states in which the code goes wrong. -/
inductive Defective (s : Check) : Prop
  /-- The name of a field has no end. -/
  | openName {ts : List Char} : s.mode = .scan → s.ts = ':' :: ts → ':' ∉ ts → Defective s
  /-- There is white space between the extents of an array. -/
  | arraySpace {sizes : List ℕ} {i : ℕ} {c : Char} {ts : List Char} :
      s.mode = .array sizes i → s.ts = c :: ts → Check.isSpace c = true → Defective s
  /-- A number is too large for `int`. -/
  | overflow {number : ℕ} {ts : List Char} :
      (s.mode = .scan ∨ ∃ sizes i, s.mode = .array sizes i) →
      parseNumber s.ts = some (number, ts) → 2 ^ 31 ≤ number → Defective s
  /-- An item is to be processed after the last field of the dtype. -/
  | noField {action : Action} : s.mode = .process action → s.ctx.encType ≠ none →
      s.ctx.stack = [] → Defective s
  /-- There is an array after the last field of the dtype. -/
  | noArrayField : s.mode = .arrayStart → s.ctx.stack = [] → Defective s

/-! ## Numbers and names -/

theorem length_digitsValue_le (count : ℕ) (ts : List Char) :
    (digitsValue count ts).2.length ≤ ts.length := by
  induction ts generalizing count with
  | nil => exact le_rfl
  | cons c ts ih =>
    rw [digitsValue]
    split
    · exact (ih _).trans (Nat.le_succ _)
    · exact le_rfl

theorem length_of_parseNumber {ts ts' : List Char} {number : ℕ}
    (h : parseNumber ts = some (number, ts')) : ts'.length < ts.length := by
  cases ts with
  | nil => cases h
  | cons c ts =>
    rw [parseNumber] at h
    split at h
    · have hle := length_digitsValue_le (c.toNat - '0'.toNat) ts
      rw [Option.some.inj h] at hle
      exact Nat.lt_succ_of_le hle
    · cases h

theorem skipName_eq_none_iff {ts : List Char} : skipName ts = none ↔ ':' ∉ ts := by
  induction ts with
  | nil => exact iff_of_true rfl List.not_mem_nil
  | cons c ts ih =>
    rw [skipName, List.mem_cons]
    split
    next h => exact iff_of_false (Option.some_ne_none _) (not_not.2 (.inl h.symm))
    next h => rw [ih, or_iff_right (Ne.symm h)]

theorem length_of_skipName {ts ts' : List Char} (h : skipName ts = some ts') :
    ts'.length < ts.length := by
  induction ts with
  | nil => cases h
  | cons c ts ih =>
    rw [skipName] at h
    split at h
    · cases h
      exact Nat.lt_succ_self _
    · exact (ih h).trans (Nat.lt_succ_self _)

/-! ## Turns of the loops -/

/-- A turn raises an exception, or consumes characters of the same call and goes on in one of
    some modes. -/
inductive Onward (modes : Mode → Prop) (s : Check) : CheckStatus → Prop
  | raise (e : FormatError) : Onward modes s (raise e)
  | running {s' : Check} : modes s'.mode → s'.calls = s.calls → s'.ts.length < s.ts.length →
      Onward modes s (.running s')

/-- The modes after a turn of the check. -/
def ScanModes (mode : Mode) : Prop := mode = .scan ∨ ∃ action, mode = .process action

/-- The modes after a turn of the loop over extents. -/
def ArrayModes (mode : Mode) : Prop := mode = .scan ∨ ∃ sizes i, mode = .array sizes i

variable {modes : Mode → Prop}

theorem expectNumber_onward {s : Check} {next : ℕ → List Char → CheckStatus}
    (hlt : ∀ number ts, parseNumber s.ts = some (number, ts) → number < 2 ^ 31)
    (hnext : ∀ number ts, ts.length < s.ts.length → Onward modes s (next number ts)) :
    Onward modes s (expectNumber s.ts next) := by
  rw [expectNumber]
  split
  next => exact .raise _
  next number ts h =>
    rw [if_pos (hlt number ts h)]
    exact hnext number ts (length_of_parseNumber h)

theorem scanItem_onward {s : Check} (hmode : s.mode = .scan) (t : TypeChar) (isComplex : Bool)
    {ts : List Char} (hts : ts.length < s.ts.length) :
    Onward ScanModes s (s.scanItem a t isComplex ts) := by
  rw [Check.scanItem]
  split
  · exact .running (.inl hmode) rfl hts
  · exact .running (.inr ⟨_, rfl⟩) rfl hts

theorem scan_onward {s : Check} (hmode : s.mode = .scan) (hs : ¬Defective s) (hts : s.ts ≠ []) :
    Onward ScanModes s (s.scan a) := by
  obtain ⟨c, ts, hcons⟩ := List.exists_cons_of_ne_nil hts
  have hlt : ts.length < s.ts.length := by
    rw [hcons]
    exact Nat.lt_succ_self _
  rw [Check.scan, hcons]
  dsimp only
  split
  -- White space.
  iterate 3
    next => exact .running (.inl hmode) rfl hlt
  -- The order of bytes, and the way of packing.
  iterate 3
    next =>
      split
      · exact .raise _
      · exact .running (.inl hmode) rfl hlt
  iterate 3
    next => exact .running (.inl hmode) rfl hlt
  next =>
    -- A struct.
    split
    next => exact .raise _
    next brace ts =>
      split
      · exact .running (.inr ⟨_, rfl⟩) rfl ((Nat.lt_succ_self _).trans hlt)
      · exact .raise _
  iterate 2
    next => exact .running (.inr ⟨_, rfl⟩) rfl hlt
  next =>
    -- A complex number.
    split
    iterate 3
      next => exact scanItem_onward hmode _ _ ((Nat.lt_succ_self _).trans hlt)
    next => exact .raise _
  next =>
    -- The name of a field.
    split
    next hname =>
      exact absurd (Defective.openName hmode hcons (skipName_eq_none_iff.1 hname)) hs
    next ts' hname => exact .running (.inl hmode) rfl ((length_of_skipName hname).trans hlt)
  next =>
    split
    · exact .raise _
    · exact .running (.inr ⟨_, rfl⟩) rfl hlt
  next =>
    split
    next => exact scanItem_onward hmode _ _ hlt
    next =>
      rw [← hcons]
      exact expectNumber_onward
        (fun number ts h => not_le.1 fun hle => hs (.overflow (.inl hmode) h hle))
        fun number ts h => .running (.inl hmode) rfl h

theorem scanArray_onward {s : Check} {sizes : List ℕ} {i : ℕ} (hmode : s.mode = .array sizes i)
    (hs : ¬Defective s) : Onward ArrayModes s (s.scanArray sizes i) := by
  cases hcons : s.ts with
  | nil =>
    rw [Check.scanArray, hcons]
    exact .raise _
  | cons c ts =>
    have hlt : ts.length < s.ts.length := by
      rw [hcons]
      exact Nat.lt_succ_self _
    rw [Check.scanArray, hcons]
    dsimp only
    split
    · split
      · exact .raise _
      · exact .running (.inl rfl) rfl hlt
    · split
      next hspace => exact absurd (Defective.arraySpace hmode hcons hspace) hs
      next =>
        rw [← hcons]
        refine expectNumber_onward
          (fun number ts h => not_le.1 fun hle => hs (.overflow (.inr ⟨sizes, i, hmode⟩) h hle))
          fun number ts' hlt' => ?_
        split
        · exact .raise _
        · split
          · exact .running (.inr ⟨_, _, rfl⟩) rfl ((Nat.lt_succ_self _).trans hlt')
          · exact .running (.inr ⟨_, _, rfl⟩) rfl hlt'
          · exact .raise _

/-! ## Runs -/

/-- No state of the run is one in which the code goes wrong. -/
def Sound (a : Abi) (s : Check) : Prop := ∀ s', Visits (checkStep a) s s' → ¬Defective s'

/-- The end of a call: those around it are the same, and it is not behind so many characters of
    the end. -/
def Left (calls : List StructCall) (n : ℕ) (s : Check) : Prop :=
  s.mode = .leave ∧ s.calls = calls ∧ s.ts.length ≤ n

/-- The call ends, or the check. -/
abbrev CallEnds (a : Abi) (s : Check) : Prop :=
  Leads (checkStep a) CheckResult.IsDefined (Left s.calls s.ts.length) s

theorem Sound.not_defective {s : Check} (h : Sound a s) : ¬Defective s := h s (.refl s)

theorem Sound.visits {s s' : Check} (h : Sound a s) (hv : Visits (checkStep a) s s') : Sound a s' :=
  fun _ hv' => h _ (hv.trans hv')

theorem Sound.step {s s' : Check} (h : Sound a s) (hstep : checkStep a s = .running s') :
    Sound a s' := h.visits (.of_step hstep)

/-- A call that ends for less text ends for more. -/
theorem CallEnds.of_step {s s' : Check} (hstep : checkStep a s = .running s')
    (hcalls : s'.calls = s.calls) (hle : s'.ts.length ≤ s.ts.length) (h : CallEnds a s') :
    CallEnds a s := by
  refine .next hstep (h.mono ?_)
  rintro s'' ⟨hmode, hcalls', hle'⟩
  exact ⟨hmode, hcalls'.trans hcalls, hle'.trans hle⟩

theorem CallEnds.of_raise {s : Check} {e : FormatError} (hstep : checkStep a s = raise e) :
    CallEnds a s := .ended hstep trivial

section

variable {n : ℕ} (H : ∀ s : Check, s.mode = .scan → s.ts.length < n → Sound a s → CallEnds a s)

include H

/-- A struct in the format is scanned as often as its count tells. -/
theorem struct_callEnds {start : List Char} {calls : List StructCall} {left alignment : ℕ}
    {ctx : Context} (hn : start.length < n)
    (hs : Sound a ⟨.scan, ctx, start, ⟨start, left, alignment⟩ :: calls⟩) :
    Leads (checkStep a) CheckResult.IsDefined (Left calls start.length)
      ⟨.scan, ctx, start, ⟨start, left, alignment⟩ :: calls⟩ := by
  induction left generalizing ctx with
  | zero =>
    refine (H ⟨.scan, ctx, start, ⟨start, 0, alignment⟩ :: calls⟩ rfl hn hs).bind ?_
    rintro s' hvisits ⟨hmode, hcalls, hle⟩
    have hstep : checkStep a s' =
        .running ⟨.scan, s'.ctx.restoreAlignment alignment, s'.ts, calls⟩ := by
      rw [checkStep, hmode, Check.leave, hcalls]
      rfl
    have hs' := (hs.visits hvisits).step hstep
    refine .next hstep ((H ⟨.scan, _, s'.ts, calls⟩ rfl (hle.trans_lt hn) hs').mono ?_)
    rintro s'' ⟨hmode', hcalls', hle'⟩
    exact ⟨hmode', hcalls', hle'.trans hle⟩
  | succ left ih =>
    refine (H ⟨.scan, ctx, start, ⟨start, left + 1, alignment⟩ :: calls⟩ rfl hn hs).bind ?_
    rintro s' hvisits ⟨hmode, hcalls, -⟩
    have hstep : checkStep a s' =
        .running ⟨.scan, s'.ctx, start, ⟨start, left, alignment⟩ :: calls⟩ := by
      rw [checkStep, hmode, Check.leave, hcalls]
      rfl
    exact .next hstep (ih ((hs.visits hvisits).step hstep))

theorem array_callEnds {s : Check} {sizes : List ℕ} {i : ℕ} (hmode : s.mode = .array sizes i)
    (hn : s.ts.length < n) (hs : Sound a s) : CallEnds a s := by
  induction hlength : s.ts.length using Nat.strong_induction_on generalizing s sizes i with
  | _ m ih =>
    have hstep : checkStep a s = s.scanArray sizes i := by rw [checkStep, hmode]
    have honward := scanArray_onward hmode hs.not_defective
    rw [← hstep] at honward
    generalize hstatus : checkStep a s = status at honward
    cases honward with
    | raise e => exact .of_raise hstatus
    | running hmodes hcalls hlt =>
      refine .of_step hstatus hcalls hlt.le ?_
      rcases hmodes with hmode' | ⟨sizes', i', hmode'⟩
      · exact H _ hmode' (hlt.trans hn) (hs.step hstatus)
      · exact ih _ (hlength ▸ hlt) hmode' (hlt.trans hn) (hs.step hstatus) rfl

theorem arrayStart_callEnds {s : Check} (hmode : s.mode = .arrayStart) (hn : s.ts.length < n)
    (hs : Sound a s) : CallEnds a s := by
  cases hstack : s.ctx.stack with
  | nil => exact absurd (Defective.noArrayField hmode hstack) hs.not_defective
  | cons head below =>
    have hstep : checkStep a s =
        .running { s with mode := .array head.fields.type.arraysize 0 } := by
      rw [checkStep, hmode]
      dsimp only
      rw [hstack]
    exact .of_step hstep rfl le_rfl (array_callEnds H rfl hn (hs.step hstep))

/-- What follows an item. -/
theorem perform_callEnds {s : Check} (mode : Mode) (ctx : Context) {ts : List Char}
    {calls : List StructCall} (action : Action) (hs : Sound a s) (hcalls : s.calls = calls) (hts : s.ts = ts)
    (hstep : checkStep a s = Check.perform a ⟨mode, ctx, ts, calls⟩ action)
    (hn : action = .stop ∨ ts.length < n) : CallEnds a s := by
  subst hcalls hts
  cases action with
  | stop =>
    rw [Check.perform] at hstep
    split at hstep
    · exact .of_raise hstep
    · exact .next hstep (.here ⟨rfl, rfl, le_rfl⟩)
  | struct count alignment =>
    have hn' := hn.resolve_left fun h => by cases h
    rw [Check.perform] at hstep
    dsimp only at hstep
    split at hstep
    · exact .of_step hstep rfl le_rfl (H ⟨.scan, _, s.ts, s.calls⟩ rfl hn' (hs.step hstep))
    · exact .next hstep (struct_callEnds H hn' (hs.step hstep))
  | endStruct alignment => exact .next hstep (.here ⟨rfl, rfl, le_rfl⟩)
  | pad =>
    have hn' := hn.resolve_left fun h => by cases h
    exact .of_step hstep rfl le_rfl (H ⟨.scan, _, s.ts, s.calls⟩ rfl hn' (hs.step hstep))
  | item t isComplex =>
    have hn' := hn.resolve_left fun h => by cases h
    exact .of_step hstep rfl le_rfl (H ⟨.scan, _, s.ts, s.calls⟩ rfl hn' (hs.step hstep))
  | array =>
    have hn' := hn.resolve_left fun h => by cases h
    exact .of_step hstep rfl le_rfl
      (arrayStart_callEnds H (s := ⟨.arrayStart, _, s.ts, s.calls⟩) rfl hn' (hs.step hstep))

theorem process_callEnds {s : Check} {action : Action} (hmode : s.mode = .process action)
    (hn : action = .stop ∨ s.ts.length < n) (hs : Sound a s) : CallEnds a s := by
  have hchunk := processTypeChunk_ne_none (a := a) fun h =>
    hs.not_defective (.noField hmode h.1 h.2)
  cases hresult : processTypeChunk a s.ctx with
  | none => exact absurd hresult hchunk
  | some result =>
    cases result with
    | error e =>
      refine .of_raise (e := e) ?_
      rw [checkStep, hmode]
      dsimp only
      rw [hresult]
    | ok ctx =>
      refine perform_callEnds H s.mode ctx action hs rfl rfl ?_ hn
      rw [checkStep, hmode]
      dsimp only
      rw [hresult, ← hmode]

end

/-- A call of the check ends. By induction on the text that is left: what a call for a struct scans
    again is behind its start. -/
theorem scan_callEnds {s : Check} (hmode : s.mode = .scan) (hs : Sound a s) : CallEnds a s := by
  induction hlength : s.ts.length using Nat.strong_induction_on generalizing s with
  | _ n ih =>
    have H (s' : Check) (hmode' : s'.mode = .scan) (hlt : s'.ts.length < n) (hs' : Sound a s') :
        CallEnds a s' := ih _ hlt hmode' hs' rfl
    have hstep : checkStep a s = s.scan a := by rw [checkStep, hmode]
    by_cases hts : s.ts = []
    · rw [Check.scan, hts] at hstep
      dsimp only at hstep
      split at hstep
      · exact .of_raise hstep
      · exact .of_step hstep rfl (by rw [hts])
          (process_callEnds H rfl (.inl rfl) (hs.step hstep))
    · have honward := scan_onward (a := a) hmode hs.not_defective hts
      rw [← hstep] at honward
      generalize hstatus : checkStep a s = status at honward
      cases honward with
      | raise e => exact .of_raise hstatus
      | running hmodes hcalls hlt =>
        refine .of_step hstatus hcalls hlt.le ?_
        rcases hmodes with hmode' | ⟨action, hmode'⟩
        · exact H _ hmode' (hlength ▸ hlt) (hs.step hstatus)
        · exact process_callEnds H hmode' (.inr (hlength ▸ hlt)) (hs.step hstatus)

/-! ## Totality -/

theorem ofChar_of_digit {c : Char} (h : '0' ≤ c ∧ c ≤ '9') : TypeChar.ofChar c = none := by
  unfold TypeChar.ofChar
  split
  all_goals first | rfl | exact absurd h (by decide)

theorem scan_of_digit {s : Check} {c : Char} {ts : List Char} (hts : s.ts = c :: ts)
    (h : '0' ≤ c ∧ c ≤ '9') :
    s.scan a = expectNumber (c :: ts) fun number ts =>
      .running { s with ctx := { s.ctx with newCount := number }, ts := ts } := by
  rw [Check.scan, hts]
  dsimp only
  split
  case h_16 => rw [ofChar_of_digit h]
  all_goals exact absurd h (by decide)

theorem scanArray_of_digit {s : Check} (sizes : List ℕ) (i : ℕ) {c : Char} {ts : List Char}
    (hts : s.ts = c :: ts) (h : '0' ≤ c ∧ c ≤ '9') :
    ∃ next, s.scanArray sizes i = expectNumber (c :: ts) next := by
  have hparen : c ≠ ')' := by
    rintro rfl
    exact absurd h (by decide)
  have hspace : ¬Check.isSpace c = true := by
    rw [Check.isSpace, decide_eq_true_iff]
    rintro (rfl | rfl | rfl | rfl | rfl | rfl)
    all_goals exact absurd h (by decide)
  rw [Check.scanArray, hts]
  dsimp only
  rw [if_neg hparen, if_neg hspace]
  exact ⟨_, rfl⟩

/-- The check does not end from a state in which the code goes wrong. -/
theorem Defective.not_ends {s : Check} (h : Defective s) :
    ¬Ends (checkStep a) CheckResult.IsDefined s := by
  cases h with
  | openName hmode hts hname =>
    refine not_ends_of_step_ended (r := .undefined .readsPastEnd) ?_ id
    rw [checkStep, hmode, Check.scan, hts]
    dsimp only
    rw [skipName_eq_none_iff.2 hname]
    rfl
  | @arraySpace sizes i c ts hmode hts hspace =>
    refine not_ends_of_step_self ?_
    have hparen : c ≠ ')' := by
      rintro rfl
      exact absurd hspace (by decide)
    rw [checkStep, hmode]
    dsimp only
    rw [Check.scanArray, hts]
    dsimp only
    rw [if_neg hparen, if_pos hspace]
  | @overflow number ts hmode hnumber hle =>
    refine not_ends_of_step_ended (r := .undefined .overflow) ?_ id
    have hexpect (next : ℕ → List Char → CheckStatus) :
        expectNumber s.ts next = .ended (.undefined .overflow) := by
      rw [expectNumber, hnumber]
      exact if_neg (not_lt.2 hle)
    cases hts : s.ts with
    | nil =>
      rw [hts] at hnumber
      cases hnumber
    | cons c ts' =>
      have hdigit : '0' ≤ c ∧ c ≤ '9' := by
        rw [hts, parseNumber] at hnumber
        by_contra hdigit
        rw [if_neg hdigit] at hnumber
        cases hnumber
      rcases hmode with hmode | ⟨sizes, i, hmode⟩
      · rw [checkStep, hmode]
        dsimp only
        rw [scan_of_digit hts hdigit, ← hts, hexpect]
      · obtain ⟨next, hnext⟩ := scanArray_of_digit sizes i hts hdigit
        rw [checkStep, hmode]
        dsimp only
        rw [hnext, ← hts, hexpect]
  | noField hmode htype hstack =>
    refine not_ends_of_step_ended (r := .undefined .noField) ?_ id
    obtain ⟨t, ht⟩ := Option.ne_none_iff_exists'.1 htype
    have hchunk : processTypeChunk a s.ctx = none := by
      rw [processTypeChunk, ht, hstack]
    rw [checkStep, hmode]
    dsimp only
    rw [hchunk]
  | noArrayField hmode hstack =>
    refine not_ends_of_step_ended (r := .undefined .noField) ?_ id
    rw [checkStep, hmode]
    dsimp only
    rw [hstack]

/-- The check of a format string ends, with acceptance or a `ValueError`, if and only if the code
    does not go wrong in a state of its run. -/
theorem checkString_ends_iff (a : Abi) (type : TypeInfo) (format : List Char) :
    Ends (checkStep a) CheckResult.IsDefined (checkStart type format) ↔
      ∀ s, Visits (checkStep a) (checkStart type format) s → ¬Defective s := by
  constructor
  · exact fun hends s hvisits hs => hs.not_ends (hends.of_visits hvisits)
  · intro hs
    refine (scan_callEnds rfl hs).bind ?_
    rintro s' - ⟨hmode, hcalls, -⟩
    refine .ended (r := .accepted) ?_ trivial
    rw [checkStep, hmode, Check.leave, hcalls]
    rfl

/-- The name of a field that has no end. -/
theorem not_ends_openName :
    ¬Ends (checkStep abi64) CheckResult.IsDefined (checkStart (.simple 4 .int []) [':']) :=
  not_ends_of_step_ended (r := .undefined .readsPastEnd) rfl id

end AHPy.Buffer
