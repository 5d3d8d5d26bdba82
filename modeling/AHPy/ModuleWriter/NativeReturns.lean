import AHPy.Lib.HandleRuns
import AHPy.ModuleWriter.SlotResults

/-!
# What native slots return

The emitted return of a slot ends as `nativeValue` says: with the number and no
exception, or with an exception; what is open is closed once.

* `returnNative_yields`: the run of the emitted return;
* `returnNative_returns`: what the caller of the slot sees.
-/

namespace AHPy.ModuleWriter

open HandleCode

variable {Obj W : Type} {I : NumberInterpreter Obj W} {intType : CIntType}

/-! ## Resources -/

/-- What ends with the tracker. -/
def trackerVars : Option (List ℕ) → List NativeVar
  | none => []
  | some arguments => .tracker :: arguments.map .argument

namespace OpenHandles

variable (live : OpenHandles)

/-- All that is open. -/
def resources : List NativeVar := live.handles.map .handle ++ trackerVars live.tracker

/-- What the failure exit closes when the handles `owned` are still open. -/
def failureResources (owned : List ℕ) : List NativeVar :=
  match live.scope with
  | none => owned.map .handle ++ trackerVars live.tracker
  | some s =>
    (owned.filter (· ∉ s.handles)).map .handle ++ if s.tracker then [] else trackerVars live.tracker

/-- How the failure exit leaves. -/
def failureExit : HandleCode.Exit NativeVar Obj :=
  match live.scope with
  | none => .ret none
  | some _ => .jump .label

/-- A machine where a method returns the object: what is open is not dead, and there is no
    exception. -/
structure At (m : Machine NativeVar Obj (NativeWorld W)) (o : Obj) : Prop where
  value : m.vars (.handle live.value) = .live o
  handles : ∀ n ∈ live.handles, m.vars (.handle n) ≠ .dead
  tracker : live.tracker ≠ none → m.vars .tracker ≠ .dead
  pending : m.world.pending = none

end OpenHandles

/-- The run returned a number, without an exception and with everything closed. -/
structure ReturnsNumber (live : OpenHandles) (m : Machine NativeVar Obj (NativeWorld W)) (v : ℤ)
    (s : W) (out : HandleCode.Outcome NativeVar Obj (NativeWorld W)) : Prop where
  exit : out.1 = .ret none
  number : out.2.ints .returned = v
  world : out.2.world = ⟨none, s⟩
  closed : out.2.vars = (m.kill live.resources).vars

/-- The run left through the failure exit, with an exception. -/
structure Raises (live : OpenHandles) (m : Machine NativeVar Obj (NativeWorld W)) (e : NativeExc)
    (s : W) (out : HandleCode.Outcome NativeVar Obj (NativeWorld W)) : Prop where
  exit : out.1 = live.failureExit
  number : live.scope = none → out.2.ints .returned = -1
  world : out.2.world = ⟨some e, s⟩
  closed : out.2.vars = (m.kill (live.failureResources live.handles)).vars

/-- How the run of a return ends, for the number of the slot or the exception. -/
def EndsAs (live : OpenHandles) (m : Machine NativeVar Obj (NativeWorld W)) :
    Except NativeExc ℤ × W → HandleCode.Outcome NativeVar Obj (NativeWorld W) → Prop
  | (.ok v, s) => ReturnsNumber live m v s
  | (.error e, s) => Raises live m e s

/-! ## Closing -/

section

variable {rt : Runtime NativeOp Obj (NativeWorld W)} {fuel : ℕ} {live : OpenHandles}
  {m : Machine NativeVar Obj (NativeWorld W)} {owned : List ℕ}
  {Φ : HandleCode.Outcome NativeVar Obj (NativeWorld W) → Prop}

theorem handle_injective : Function.Injective NativeVar.handle := fun _ _ h => by
  injection h

/-- The newest handles are closed first, which makes no difference to what is dead. -/
theorem kill_reverse (ns : List ℕ) :
    m.kill (ns.reverse.map NativeVar.handle) = m.kill (ns.map NativeVar.handle) := by
  rw [Machine.kill, Machine.kill]
  simp

theorem closeHandles_yields (hnodup : owned.Nodup)
    (hlive : ∀ n ∈ owned, m.vars (.handle n) ≠ .dead)
    (h : Φ (.normal, m.kill (owned.map .handle))) :
    Yields rt fuel (closeHandles owned) m Φ := by
  have hcode :
      closeHandles owned = .seqs ((owned.map NativeVar.handle).map fun x => .close x []) := by
    rw [closeHandles, List.map_map]
    rfl
  rw [hcode]
  refine .closes (hnodup.map handle_injective) (fun x hx => ?_) h
  obtain ⟨n, hn, rfl⟩ := List.mem_map.1 hx
  exact hlive n hn

theorem closeTracker_yields {tracker : Option (List ℕ)}
    (hlive : tracker ≠ none → m.vars .tracker ≠ .dead)
    (h : Φ (.normal, m.kill (trackerVars tracker))) :
    Yields rt fuel (closeTracker tracker) m Φ := by
  cases tracker with
  | none =>
    rw [trackerVars, Machine.kill_nil] at h
    exact .skip h
  | some arguments => exact .close (hlive (by simp)) h

theorem returnNumber_yields {r : IntExpr NativeVar} {v : ℤ} (hr : m.int r = v)
    (h : Φ (.ret none, { m with ints := Function.update m.ints .returned v })) :
    Yields rt fuel (returnNumber r) m Φ := by
  subst hr
  exact .seq (.set (.ret h))

theorem tracker_kill_handles (ns : List ℕ) :
    (m.kill (ns.map NativeVar.handle)).vars NativeVar.tracker = m.vars .tracker := by
  simp

/-- The failure exit closes the handles that are still open. -/
theorem emitFailureExit_yields (hnodup : owned.Nodup)
    (hlive : ∀ n ∈ owned, m.vars (.handle n) ≠ .dead)
    (htracker : live.tracker ≠ none → m.vars .tracker ≠ .dead)
    (h : ∀ out : HandleCode.Outcome NativeVar Obj (NativeWorld W), out.1 = live.failureExit →
      (live.scope = none → out.2.ints .returned = -1) → out.2.world = m.world →
      out.2.vars = (m.kill (live.failureResources owned)).vars → Φ out) :
    Yields rt fuel (emitFailureExit live owned) m Φ := by
  rw [emitFailureExit]
  cases hs : live.scope with
  | none =>
    refine .seq (closeHandles_yields (List.nodup_reverse.2 hnodup)
      (fun n hn => hlive n (List.mem_reverse.1 hn)) (.seq (closeTracker_yields ?_
        (returnNumber_yields (v := -1) rfl (h _ ?_ (fun _ => ?_) ?_ ?_)))))
    · rwa [tracker_kill_handles]
    · rw [OpenHandles.failureExit, hs]
    · simp only [Function.update_self]
    · rfl
    · rw [OpenHandles.failureResources, hs, kill_reverse, Machine.kill_kill]
  | some s =>
    have hexit :
        (HandleCode.Exit.jump NativeVar.label : HandleCode.Exit NativeVar Obj) =
          live.failureExit := by
      rw [OpenHandles.failureExit, hs]
    have hscope : live.scope ≠ none := by
      rw [hs]
      simp
    refine .seq (closeHandles_yields ((List.nodup_reverse.2 hnodup).filter _)
      (fun n hn => hlive n (List.mem_reverse.1 (List.mem_of_mem_filter hn))) ?_)
    rw [List.filter_reverse, kill_reverse]
    by_cases ht : s.tracker = true
    · rw [if_pos ht]
      refine .seq (.skip (.jump (h _ hexit (fun h => absurd h hscope) rfl ?_)))
      simp only [OpenHandles.failureResources, hs, ht, ↓reduceIte, List.append_nil]
    · rw [if_neg ht]
      refine .seq (closeTracker_yields ?_ (.jump (h _ hexit (fun h => absurd h hscope) rfl ?_)))
      · rwa [tracker_kill_handles]
      · simp only [OpenHandles.failureResources, hs, ht, Machine.kill_kill, Bool.false_eq_true,
          ↓reduceIte]

/-- The return closes the handles that are still open, and the tracker. -/
theorem closeAndReturn_yields {r : IntExpr NativeVar} {v : ℤ} (hnodup : owned.Nodup)
    (hlive : ∀ n ∈ owned, m.vars (.handle n) ≠ .dead)
    (htracker : live.tracker ≠ none → m.vars .tracker ≠ .dead) (hr : ∀ xs, (m.kill xs).int r = v)
    (h : ∀ out : HandleCode.Outcome NativeVar Obj (NativeWorld W), out.1 = .ret none →
      out.2.ints .returned = v → out.2.world = m.world →
      out.2.vars = (m.kill (owned.map .handle ++ trackerVars live.tracker)).vars → Φ out) :
    Yields rt fuel (closeAndReturn live owned r) m Φ := by
  refine .seq (closeHandles_yields (List.nodup_reverse.2 hnodup)
    (fun n hn => hlive n (List.mem_reverse.1 hn)) (.seq (closeTracker_yields ?_
      (returnNumber_yields (v := v) ?_ (h _ rfl ?_ rfl ?_)))))
  · rwa [tracker_kill_handles]
  · rw [Machine.kill_kill]
    exact hr _
  · simp only [Function.update_self]
  · rw [kill_reverse, Machine.kill_kill]

end

/-! ## Conversions -/

section

variable {fuel : ℕ} {live : OpenHandles} {m : Machine NativeVar Obj (NativeWorld W)} {o : Obj}
  {Φ : HandleCode.Outcome NativeVar Obj (NativeWorld W) → Prop}

theorem eval_conversionFailed (x : NativeVar) :
    (conversionFailed x).eval I.runtime m =
      some (decide (m.ints x = -1 ∧ m.world.pending ≠ none), m) := by
  have hzero : (m.ints x + 1 = 0) ↔ m.ints x = -1 := by omega
  by_cases h : m.ints x = -1
  · cases hp : m.world.pending <;>
      simp [conversionFailed, Test.eval, Machine.int, Machine.readAll, NumberInterpreter.runtime,
        h, hp]
  · simp [conversionFailed, Test.eval, Machine.int, hzero, h]

/-- A conversion is followed by its check: it has an exception, or a number. -/
theorem convert_yields {x : NativeVar} {op : NativeOp} {args : List (Arg NativeVar)}
    {vs : List (Value Obj)} {c c' d : NativeCode} {r : Except NativeExc ℤ × W}
    (hargs : m.readAll args = some vs) (hpending : m.world.pending = none)
    (hop : I.runtime.test op vs m.world = withErrorValue r m.world.pending)
    (herror : ∀ e s, r = (.error e, s) → Yields I.runtime fuel c
      { m with ints := Function.update m.ints x (-1), world := ⟨some e, s⟩ }
      (Onward (fun m' => Yields I.runtime fuel d m' Φ) Φ))
    (hok : ∀ v s, r = (.ok v, s) → Yields I.runtime fuel c'
      { m with ints := Function.update m.ints x v, world := ⟨none, s⟩ }
      (Onward (fun m' => Yields I.runtime fuel d m' Φ) Φ)) :
    Yields I.runtime fuel
      (.seq (.status x op args) (.seq (.ite (conversionFailed x) c c') d)) m Φ := by
  refine .seq (.status hargs (.seq (.ite (eval_conversionFailed x) ?_)))
  rw [hop, withErrorValue, hpending]
  obtain ⟨_ | v, s⟩ := r
  · simpa using herror _ s rfl
  · simpa using hok v s rfl

end

/-! ## Returns -/

/-- A machine on the way out, with the handles `owned` still open. -/
structure OpenHandles.During (live : OpenHandles) (m m' : Machine NativeVar Obj (NativeWorld W))
    (owned : List ℕ) : Prop where
  nodup : owned.Nodup
  handles : ∀ n ∈ owned, m'.vars (.handle n) ≠ .dead
  tracker : live.tracker ≠ none → m'.vars .tracker ≠ .dead
  resources : (m'.kill (owned.map .handle ++ trackerVars live.tracker)).vars =
    (m.kill live.resources).vars
  failure : (m'.kill (live.failureResources owned)).vars =
    (m.kill (live.failureResources live.handles)).vars

section

variable {fuel : ℕ} {live : OpenHandles} {m m' : Machine NativeVar Obj (NativeWorld W)} {o : Obj}
  {owned : List ℕ} {e : NativeExc} {s : W}
  {Ψ : Machine NativeVar Obj (NativeWorld W) → Prop}
  {Φ : HandleCode.Outcome NativeVar Obj (NativeWorld W) → Prop}

theorem OpenHandles.At.during (h : live.At m o) (hvars : m'.vars = m.vars) :
    live.During m m' live.handles where
  nodup := live.nodup
  handles n hn := by
    rw [hvars]
    exact h.handles n hn
  tracker ht := by
    rw [hvars]
    exact h.tracker ht
  resources := by
    funext y
    rw [Machine.kill_vars, Machine.kill_vars, hvars]
    rfl
  failure := by
    funext y
    rw [Machine.kill_vars, Machine.kill_vars, hvars]

theorem OpenHandles.mem_erase (n : ℕ) :
    n ∈ live.handles.erase live.value ↔ n ≠ live.value ∧ n ∈ live.handles :=
  live.nodup.mem_erase_iff

/-- The returned handle is closed first. -/
theorem OpenHandles.At.during_closed (h : live.At m o)
    (hvars : m'.vars = (m.kill [.handle live.value]).vars) :
    live.During m m' (live.handles.erase live.value) where
  nodup := live.nodup.erase _
  handles n hn := by
    obtain ⟨hne, hn⟩ := OpenHandles.mem_erase n |>.1 hn
    rw [hvars, Machine.kill_vars, if_neg (by simpa using hne)]
    exact h.handles n hn
  tracker ht := by
    rw [hvars, Machine.kill_vars, if_neg (by simp)]
    exact h.tracker ht
  resources := by
    have hmem := live.value_mem
    funext y
    rw [Machine.kill_vars, Machine.kill_vars, hvars, Machine.kill_vars, OpenHandles.resources]
    cases y with
    | handle n =>
      by_cases hn : n = live.value <;>
        simp [OpenHandles.mem_erase, hn, hmem]
    | _ => simp
  failure := by
    have hmem := live.value_mem
    funext y
    rw [Machine.kill_vars, Machine.kill_vars, hvars, Machine.kill_vars,
      OpenHandles.failureResources, OpenHandles.failureResources]
    cases hs : live.scope with
    | none =>
      cases y with
      | handle n => by_cases hn : n = live.value <;> simp [OpenHandles.mem_erase, hn, hmem]
      | _ => simp
    | some s =>
      have hscope := live.value_notMem s hs
      cases y with
      | handle n => by_cases hn : n = live.value <;> simp [OpenHandles.mem_erase, hn, hmem, hscope]
      | _ => simp

theorem onward_of_raises {out : HandleCode.Outcome NativeVar Obj (NativeWorld W)}
    (hout : Raises live m e s out) (h : Φ out) : Onward Ψ Φ out := by
  obtain ⟨exit, m''⟩ := out
  have hexit : exit = live.failureExit := hout.exit
  rw [OpenHandles.failureExit] at hexit
  cases hs : live.scope with
  | none =>
    simp only [hs] at hexit
    subst hexit
    exact h
  | some _ =>
    simp only [hs] at hexit
    subst hexit
    exact h

theorem raise_yields (h : live.During m m' owned) (hworld : m'.world = ⟨some e, s⟩)
    (hΦ : ∀ out, Raises live m e s out → Φ out) :
    Yields I.runtime fuel (emitFailureExit live owned) m' (Onward Ψ Φ) := by
  refine emitFailureExit_yields h.nodup h.handles h.tracker fun out hexit hnumber hw hvars => ?_
  have hout : Raises live m e s out := ⟨hexit, hnumber, hw.trans hworld, hvars.trans h.failure⟩
  exact onward_of_raises hout (hΦ out hout)

theorem failWith_yields {message : String} (h : live.During m m' owned)
    (hworld : m'.world.state = s)
    (hΦ : ∀ out, Raises live m e s out → Φ out) :
    Yields I.runtime fuel (failWith live owned e message) m' (Onward Ψ Φ) := by
  subst hworld
  have hargs : m'.readAll [] = some [] := rfl
  exact .seq (.effect hargs (raise_yields (Ψ := fun m'' => Onward Ψ Φ (.normal, m''))
    ⟨h.nodup, h.handles, h.tracker, h.resources, h.failure⟩ rfl hΦ))

theorem return_yields {r : IntExpr NativeVar} {v : ℤ} (h : live.During m m' owned)
    (hworld : m'.world = ⟨none, s⟩) (hr : ∀ xs, (m'.kill xs).int r = v)
    (hΦ : ∀ out, ReturnsNumber live m v s out → Φ out) :
    Yields I.runtime fuel (.seqs [closeAndReturn live owned r]) m' Φ := by
  refine .seq (closeAndReturn_yields h.nodup h.handles h.tracker hr
    fun out hexit hnumber hw hvars => ?_)
  have hout : ReturnsNumber live m v s out :=
    ⟨hexit, hnumber, hw.trans hworld, hvars.trans h.resources⟩
  obtain ⟨exit, m''⟩ := out
  have hexit : exit = .ret none := hexit
  subst hexit
  exact hΦ _ hout

theorem OpenHandles.At.readAll_value (h : live.At m o) :
    m.readAll [.handle (.handle live.value)] = some [.handle (some o)] := by
  simp [Machine.readAll, Machine.read, h.value, Content.object]

theorem OpenHandles.At.value_ne_dead (h : live.At m o) : m.vars (.handle live.value) ≠ .dead := by
  rw [h.value]
  simp

/-- The return of `__len__`. -/
theorem returnNative_ssize (h : live.At m o) :
    Yields I.runtime fuel (returnNative intType live .ssize) m
      (EndsAs live m (nativeValue I intType o m.world.state .ssize)) := by
  refine convert_yields (r := I.asSsize o m.world.state) h.readAll_value h.pending rfl
    (fun e s he => ?_) fun v s hv => ?_
  · simp only [nativeValue, he]
    exact raise_yields (h.during rfl) rfl fun out hout => hout
  · simp only [nativeValue, hv]
    refine .skip (.seq (.close h.value_ne_dead (.seq (.ite Test.eval_negative ?_))))
    by_cases hneg : v < 0
    · simp only [hneg, ↓reduceIte, Machine.kill_ints, Function.update_self, decide_true]
      exact failWith_yields (h.during_closed rfl) rfl fun out hout => hout
    · simp only [hneg, ↓reduceIte, Machine.kill_ints, Function.update_self, decide_false,
        Bool.false_eq_true]
      refine .skip (return_yields (h.during_closed rfl) rfl (fun xs => ?_) fun out hout => hout)
      simp only [Machine.int, Machine.kill_ints, Function.update_self]

theorem eval_outOfRange {x : NativeVar} :
    (Test.or (.rel .lt (.var x) (.lit intType.lo))
        (.rel .gt (.var x) (.lit (intType.lo + 2 ^ intType.width - 1)))).eval I.runtime m =
      some (decide ¬intType.InRange (m.ints x), m) := by
  by_cases hlo : m.ints x < intType.lo
  · have hout : ¬intType.InRange (m.ints x) := fun h => absurd h.1 (by omega)
    simp [Test.eval, HandleCode.Relation.holds, Machine.int, hlo, hout]
  · have hiff : intType.lo + 2 ^ intType.width - 1 < m.ints x ↔ ¬intType.InRange (m.ints x) := by
      rw [CIntType.InRange]
      omega
    simp [Test.eval, HandleCode.Relation.holds, Machine.int, hlo, hiff]

/-- The return of `__bool__`. -/
theorem returnNative_bool (h : live.At m o) :
    Yields I.runtime fuel (returnNative intType live .bool) m
      (EndsAs live m (nativeValue I intType o m.world.state .bool)) := by
  refine convert_yields (r := I.asLong o m.world.state) h.readAll_value h.pending rfl
    (fun e s he => ?_) fun v s hv => ?_
  · simp only [nativeValue, he]
    exact raise_yields (h.during rfl) rfl fun out hout => hout
  · simp only [nativeValue, hv]
    refine .skip (.seq (.ite eval_outOfRange ?_))
    by_cases hin : intType.InRange v
    · simp only [hin, ↓reduceIte, Function.update_self, not_true_eq_false, decide_false,
        Bool.false_eq_true]
      refine .skip (.seq (.close h.value_ne_dead (return_yields (h.during_closed rfl) rfl
        (fun xs => ?_) fun out hout => hout)))
      simp only [Machine.int, Machine.kill_ints, Function.update_self]
    · simp only [hin, ↓reduceIte, Function.update_self, not_false_eq_true, decide_true]
      exact failWith_yields (h.during rfl) rfl fun out hout => hout

/-- The number that `__hash__` returns for a hash. -/
def hashNumber (v : ℤ) : ℤ := if v = -1 then -2 else v

theorem hashNumber_ne (v : ℤ) : hashNumber v ≠ -1 := by
  rw [hashNumber]
  split
  next h => decide
  next h => exact h

/-- The end of the return of `__hash__`: a hash that is `-1` is returned as `-2`. -/
theorem hashReturn_yields {v : ℤ} (h : live.At m o) (hvars : m'.vars = m.vars)
    (hworld : m'.world = ⟨none, s⟩) (hv : m'.ints .hash = v)
    (hΦ : ∀ out, ReturnsNumber live m (hashNumber v) s out → Φ out) :
    Yields I.runtime fuel (.seqs [
      .ite (.zero (.add (.var .hash) (.lit 1))) (.set false .hash (.lit (-2))) .skip,
      .close (.handle live.value) [],
      closeAndReturn live (live.handles.erase live.value) (.var .hash)]) m' Φ := by
  have hzero : v + 1 = 0 ↔ v = -1 := by omega
  have htest : (Test.zero (.add (.var .hash) (.lit 1))).eval I.runtime m' =
      some (decide (v = -1), m') := by
    simp only [Test.eval, Machine.int, hv, hzero]
  have hclose : m'.vars (.handle live.value) ≠ .dead := by
    rw [hvars]
    exact h.value_ne_dead
  have hkill : (m'.kill [.handle live.value]).vars = (m.kill [.handle live.value]).vars := by
    funext y
    rw [Machine.kill_vars, Machine.kill_vars, hvars]
  refine .seq (.ite htest ?_)
  by_cases hneg : v = -1
  · simp only [hneg, decide_true, ↓reduceIte]
    refine .set (.seq (.close hclose (return_yields (v := hashNumber v) (h.during_closed hkill)
      hworld (fun xs => ?_) hΦ)))
    simp [Machine.int, hashNumber, hneg]
  · simp only [hneg, decide_false, Bool.false_eq_true, ↓reduceIte]
    refine .skip (.seq (.close hclose (return_yields (v := hashNumber v) (h.during_closed hkill)
      hworld (fun xs => ?_) hΦ)))
    simp [Machine.int, hashNumber, hneg, hv]

theorem eval_exceptionMatches {exc : NativeExc} (hw : m.world.pending = some e) :
    (Test.call (.exceptionMatches exc) []).eval I.runtime m = some (decide (e = exc), m) := by
  have hargs : m.readAll [] = some [] := rfl
  rw [Test.eval_call hargs]
  by_cases heq : e = exc
  · simp [NumberInterpreter.runtime, hw, heq]
  · simp [NumberInterpreter.runtime, hw, heq]

/-- The return of `__hash__`. -/
theorem returnNative_hash (h : live.At m o) :
    Yields I.runtime fuel (returnNative intType live .hash) m
      (EndsAs live m (nativeValue I intType o m.world.state .hash)) := by
  have hlong : (Test.call .isLong [.handle (.handle live.value)]).eval I.runtime m =
      some (I.isLong o, m) := by
    rw [Test.eval_call h.readAll_value]
    cases hl : I.isLong o <;> simp [NumberInterpreter.runtime, hl]
  refine .seq (.ite hlong ?_)
  cases hl : I.isLong o with
  | false =>
    simp only [nativeValue, hl, Bool.false_eq_true, ↓reduceIte]
    exact failWith_yields (h.during rfl) rfl fun out hout => hout
  | true =>
    simp only [nativeValue, hl, ↓reduceIte]
    refine .skip (convert_yields (r := I.asSsize o m.world.state) h.readAll_value h.pending rfl
      (fun e s he => ?_) fun v s hv => ?_)
    · simp only [he]
      refine .seq (.ite (eval_exceptionMatches rfl) ?_)
      by_cases heq : e = .overflowError
      · -- The integer is too large, and the object is asked for its hash.
        subst heq
        have hargs (m' : Machine NativeVar Obj (NativeWorld W)) : m'.readAll [] = some [] := rfl
        refine .skip (.seq (.effect (hargs _) (convert_yields (r := I.hash o s)
          h.readAll_value rfl rfl (fun e s he => ?_) fun v s hv => ?_)))
        · simp only [he]
          exact raise_yields (h.during rfl) rfl fun out hout => onward_of_raises hout hout
        · simp only [hv]
          refine .skip (.skip (hashReturn_yields h rfl rfl ?_ fun out hout => hout))
          simp only [Function.update_self]
      · simp only [heq, decide_false]
        refine raise_yields (h.during rfl) rfl fun out hout => onward_of_raises hout ?_
        cases e with
        | overflowError => exact absurd rfl heq
        | _ => exact hout
    · simp only [hv]
      refine .set (hashReturn_yields h rfl rfl ?_ fun out hout => hout)
      simp [Machine.int]

/-- The emitted return ends as `nativeValue` says. -/
theorem returnNative_yields (h : live.At m o) (kind : NativeReturnKind) :
    Yields I.runtime fuel (returnNative intType live kind) m
      (EndsAs live m (nativeValue I intType o m.world.state kind)) := by
  cases kind with
  | ssize => exact returnNative_ssize h
  | bool => exact returnNative_bool h
  | hash => exact returnNative_hash h

end

/-! ## The numbers of slots -/

/-- The functions of the interpreter as they are documented; `value` has the values of the
    integers. -/
structure NumberInterpreter.Documented (I : NumberInterpreter Obj W) (ssize long : CIntType)
    (value : Obj → ℤ) : Prop where
  asSsize : ∀ o s, I.asSsize o s = (if I.isLong o then
      if ssize.InRange (value o) then .ok (value o) else .error .overflowError
    else .error .typeError, s)
  asLong : ∀ o s, I.isLong o = true → I.asLong o s =
    (if long.InRange (value o) then .ok (value o) else .error .overflowError, s)
  hash : ∀ o s v s', I.hash o s = (.ok v, s') → v ≠ -1

/-- The numbers that slots have for the object a method returns. -/
inductive NumberInterpreter.SlotNumber (I : NumberInterpreter Obj W)
    (ssize long intType : CIntType) (value : Obj → ℤ) (o : Obj) (s : W) :
    NativeReturnKind → ℤ → W → Prop
  | length (hlong : I.isLong o = true) (hfits : ssize.InRange (value o)) (hnonneg : 0 ≤ value o) :
    SlotNumber I ssize long intType value o s .ssize (value o) s
  /-- The integer itself, which is zero for the false one. -/
  | truth (hlong : I.isLong o = true) (hfits : long.InRange (value o))
    (hint : intType.InRange (value o)) : SlotNumber I ssize long intType value o s .bool (value o) s
  /-- An object with `__index__`. -/
  | index {v : ℤ} {s' : W} (hlong : I.isLong o = false) (hv : I.asLong o s = (.ok v, s'))
    (hint : intType.InRange v) : SlotNumber I ssize long intType value o s .bool v s'
  | hash (hlong : I.isLong o = true) (hfits : ssize.InRange (value o)) :
    SlotNumber I ssize long intType value o s .hash (hashNumber (value o)) s
  /-- The hash of an integer that is too large. -/
  | rehash {v : ℤ} {s' : W} (hlong : I.isLong o = true) (hfits : ¬ssize.InRange (value o))
    (hv : I.hash o s = (.ok v, s')) : SlotNumber I ssize long intType value o s .hash v s'

section

variable {ssize long : CIntType} {value : Obj → ℤ} {o : Obj} {s s' : W} {v : ℤ}

theorem nativeValue_ssize (hI : I.Documented ssize long value) :
    nativeValue I intType o s .ssize = (.ok v, s') ↔
      I.SlotNumber ssize long intType value o s .ssize v s' := by
  constructor
  · intro h
    rw [nativeValue, hI.asSsize] at h
    cases hlong : I.isLong o with
    | false => simp [hlong] at h
    | true =>
      by_cases hfits : ssize.InRange (value o)
      · by_cases hneg : value o < 0
        · simp [hlong, hfits, hneg] at h
        · simp only [hlong, hfits, hneg, ↓reduceIte, Prod.mk.injEq, Except.ok.injEq] at h
          obtain ⟨rfl, rfl⟩ := h
          exact .length hlong hfits (not_lt.1 hneg)
      · simp [hlong, hfits] at h
  · rintro (⟨hlong, hfits, hnonneg⟩)
    simp [nativeValue, hI.asSsize, hlong, hfits, not_lt.2 hnonneg]

theorem nativeValue_bool (hI : I.Documented ssize long value) :
    nativeValue I intType o s .bool = (.ok v, s') ↔
      I.SlotNumber ssize long intType value o s .bool v s' := by
  constructor
  · intro h
    cases hlong : I.isLong o with
    | false =>
      rw [nativeValue] at h
      rcases hr : I.asLong o s with ⟨e | u, s''⟩
      · simp [hr] at h
      · by_cases hint : intType.InRange u
        · simp only [hr, hint, ↓reduceIte, Prod.mk.injEq, Except.ok.injEq] at h
          obtain ⟨rfl, rfl⟩ := h
          exact .index hlong hr hint
        · simp [hr, hint] at h
    | true =>
      rw [nativeValue, hI.asLong o s hlong] at h
      by_cases hfits : long.InRange (value o)
      · by_cases hint : intType.InRange (value o)
        · simp only [hfits, hint, ↓reduceIte, Prod.mk.injEq, Except.ok.injEq] at h
          obtain ⟨rfl, rfl⟩ := h
          exact .truth hlong hfits hint
        · simp [hfits, hint] at h
      · simp [hfits] at h
  · rintro (_ | ⟨hlong, hfits, hint⟩ | ⟨hlong, hv, hint⟩)
    · simp [nativeValue, hI.asLong o s hlong, hfits, hint]
    · simp [nativeValue, hv, hint]

theorem nativeValue_hash (hI : I.Documented ssize long value) :
    nativeValue I intType o s .hash = (.ok v, s') ↔
      I.SlotNumber ssize long intType value o s .hash v s' := by
  constructor
  · intro h
    rw [nativeValue, hI.asSsize] at h
    cases hlong : I.isLong o with
    | false => simp [hlong] at h
    | true =>
      by_cases hfits : ssize.InRange (value o)
      · simp only [hlong, hfits, ↓reduceIte, Prod.mk.injEq, Except.ok.injEq] at h
        obtain ⟨rfl, rfl⟩ := h
        exact .hash hlong hfits
      · rcases hr : I.hash o s with ⟨e | u, s''⟩
        · simp [hlong, hfits, hr] at h
        · have hu := hI.hash o s u s'' hr
          simp only [hlong, hfits, hr, hu, ↓reduceIte, Prod.mk.injEq, Except.ok.injEq] at h
          obtain ⟨rfl, rfl⟩ := h
          exact .rehash hlong hfits hr
  · rintro (_ | _ | _ | ⟨hlong, hfits⟩ | ⟨hlong, hfits, hv⟩)
    · simp [nativeValue, hI.asSsize, hlong, hfits, hashNumber]
    · simp [nativeValue, hI.asSsize, hlong, hfits, hv, hI.hash o s v s' hv]

/-- `nativeValue` is the number that the slot has for the object. -/
theorem nativeValue_eq_ok_iff (hI : I.Documented ssize long value) (kind : NativeReturnKind) :
    nativeValue I intType o s kind = (.ok v, s') ↔
      I.SlotNumber ssize long intType value o s kind v s' := by
  cases kind with
  | ssize => exact nativeValue_ssize hI
  | bool => exact nativeValue_bool hI
  | hash => exact nativeValue_hash hI

/-- Only the truth of an object can be `-1`. -/
theorem NumberInterpreter.SlotNumber.ne_neg_one (hI : I.Documented ssize long value)
    {kind : NativeReturnKind} (h : I.SlotNumber ssize long intType value o s kind v s')
    (hkind : kind ≠ .bool) : v ≠ -1 := by
  cases h with
  | length _ _ hnonneg => exact fun h => absurd (h ▸ hnonneg) (by decide)
  | truth | index => exact absurd rfl hkind
  | hash => exact hashNumber_ne _
  | rehash _ _ hv => exact hI.hash o s v s' hv

/-- The emitted return of a slot gives the number that the slot has for the object, without an
    exception, and leaves by the failure exit with an exception when it has none. What is open is
    closed once, except what a failure scope preserves. -/
theorem returnNative_returns {fuel : ℕ} {live : OpenHandles}
    {m : Machine NativeVar Obj (NativeWorld W)} (hI : I.Documented ssize long value)
    (h : live.At m o) (kind : NativeReturnKind) :
    ∃ out, (returnNative intType live kind).exec I.runtime fuel m = some out ∧
      ((∃ v s, I.SlotNumber ssize long intType value o m.world.state kind v s ∧
          ReturnsNumber live m v s out) ∨
        ∃ e s, Raises live m e s out ∧
          ∀ v s, ¬I.SlotNumber ssize long intType value o m.world.state kind v s) ∧
      (kind ≠ .bool → out.1 = .ret none → out.2.ints .returned = -1 →
        out.2.world.pending ≠ none) := by
  obtain ⟨out, hout, hends⟩ := returnNative_yields h kind
  refine ⟨out, hout, ?_⟩
  rcases hn : nativeValue I intType o m.world.state kind with ⟨e | v, s⟩
  · rw [hn] at hends
    have hraises : Raises live m e s out := hends
    refine ⟨.inr ⟨e, s, hraises, fun v s' hv => ?_⟩, fun _ _ _ => ?_⟩
    · rw [← nativeValue_eq_ok_iff hI, hn] at hv
      cases hv
    · rw [hraises.world]
      exact Option.some_ne_none e
  · rw [hn] at hends
    have hreturns : ReturnsNumber live m v s out := hends
    have hnumber := (nativeValue_eq_ok_iff hI kind).1 hn
    refine ⟨.inl ⟨v, s, hnumber, hreturns⟩, fun hkind _ hneg => ?_⟩
    exact absurd (hreturns.number.symm.trans hneg) (hnumber.ne_neg_one hI hkind)

end

/-! ## Integers -/

/-- The type `long` with 64 bits, and the type `HPy_ssize_t`. -/
def long64 : CIntType := ⟨64, true, Nat.le_of_ble_eq_true rfl⟩

/-- The hash of an integer, with the modulus `2 ** 61 - 1`. -/
def integerHash (v : ℤ) : ℤ := hashNumber (v.tmod (2 ^ 61 - 1))

/-- The conversions of integers. -/
def integers : NumberInterpreter ℤ Unit where
  asSsize v s := (if long64.InRange v then .ok v else .error .overflowError, s)
  asLong v s := (if long64.InRange v then .ok v else .error .overflowError, s)
  isLong _ := true
  hash v s := (.ok (integerHash v), s)

theorem integers_documented : integers.Documented long64 long64 id where
  asSsize _ _ := rfl
  asLong _ _ _ := rfl
  hash o s v s' h := by
    have hv : integerHash o = v := by
      injection h with h _
      injection h
    rw [← hv]
    exact hashNumber_ne _

/-- Nothing but the returned object is open. -/
def onlyValue : OpenHandles where
  handles := [0]
  value := 0
  tracker := none
  scope := none
  nodup := List.nodup_singleton 0
  value_mem := List.mem_singleton_self 0
  value_notMem _ h := absurd h (Option.not_mem_none _)

/-- A machine where a method returns the integer. -/
def returning (v : ℤ) : Machine NativeVar ℤ (NativeWorld Unit) :=
  ⟨fun _ => .live v, fun _ => 0, ⟨none, ()⟩⟩

theorem returning_at (v : ℤ) : onlyValue.At (returning v) v where
  value := rfl
  handles _ _ h := by cases h
  tracker h := absurd rfl h
  pending := rfl

/-- A length that is negative, and an integer that is too large for `HPy_ssize_t`. -/
theorem returnNative_returns_integers :
    (∃ out,
      (returnNative .int onlyValue .ssize).exec integers.runtime 0 (returning (-1)) = some out ∧
      ((∃ v s, integers.SlotNumber long64 long64 .int id (-1) () .ssize v s ∧
          ReturnsNumber onlyValue (returning (-1)) v s out) ∨
        ∃ e s, Raises onlyValue (returning (-1)) e s out ∧
          ∀ v s, ¬integers.SlotNumber long64 long64 .int id (-1) () .ssize v s) ∧
      (NativeReturnKind.ssize ≠ .bool → out.1 = .ret none → out.2.ints .returned = -1 →
        out.2.world.pending ≠ none)) ∧
    ∃ out,
      (returnNative .int onlyValue .hash).exec integers.runtime 0 (returning (2 ^ 64)) = some out ∧
      ((∃ v s, integers.SlotNumber long64 long64 .int id (2 ^ 64) () .hash v s ∧
          ReturnsNumber onlyValue (returning (2 ^ 64)) v s out) ∨
        ∃ e s, Raises onlyValue (returning (2 ^ 64)) e s out ∧
          ∀ v s, ¬integers.SlotNumber long64 long64 .int id (2 ^ 64) () .hash v s) ∧
      (NativeReturnKind.hash ≠ .bool → out.1 = .ret none → out.2.ints .returned = -1 →
        out.2.world.pending ≠ none) :=
  ⟨returnNative_returns integers_documented (returning_at (-1)) .ssize,
    returnNative_returns integers_documented (returning_at (2 ^ 64)) .hash⟩

/-- `__bool__` returns `2` for `2`, and `__hash__` returns the modulus for the modulus, whose hash
    is zero. -/
theorem returnNative_notCanonical :
    (∃ out, (returnNative .int onlyValue .bool).exec integers.runtime 0 (returning 2) = some out ∧
      out.1 = .ret none ∧ out.2.world.pending = none ∧ out.2.ints .returned = 2) ∧
    (∃ out, (returnNative .int onlyValue .hash).exec integers.runtime 0
        (returning (2 ^ 61 - 1)) = some out ∧
      out.1 = .ret none ∧ out.2.world.pending = none ∧ out.2.ints .returned = 2 ^ 61 - 1) ∧
    integerHash (2 ^ 61 - 1) = 0 := by
  have htwo : nativeValue integers .int 2 (returning 2).world.state .bool = (.ok 2, ()) :=
    (nativeValue_eq_ok_iff integers_documented .bool).2
      (.truth rfl (by norm_num [CIntType.InRange, CIntType.lo, long64])
        (by norm_num [CIntType.InRange, CIntType.lo, CIntType.int]))
  have hfits : long64.InRange (2 ^ 61 - 1) := by
    norm_num [CIntType.InRange, CIntType.lo, long64]
  have hhash : nativeValue integers .int (2 ^ 61 - 1) (returning (2 ^ 61 - 1)).world.state .hash =
      (.ok (hashNumber (2 ^ 61 - 1)), ()) :=
    (nativeValue_eq_ok_iff integers_documented .hash).2 (.hash rfl hfits)
  refine ⟨?_, ?_, ?_⟩
  · obtain ⟨out, hout, hends⟩ := returnNative_yields (returning_at 2) .bool
    rw [htwo] at hends
    have hreturns : ReturnsNumber onlyValue (returning 2) 2 () out := hends
    exact ⟨out, hout, hreturns.exit, by rw [hreturns.world], hreturns.number⟩
  · obtain ⟨out, hout, hends⟩ := returnNative_yields (returning_at (2 ^ 61 - 1)) .hash
    rw [hhash] at hends
    have hreturns : ReturnsNumber onlyValue (returning (2 ^ 61 - 1)) _ () out := hends
    refine ⟨out, hout, hreturns.exit, by rw [hreturns.world], ?_⟩
    rw [hreturns.number, hashNumber, if_neg (by norm_num)]
  · norm_num [integerHash, hashNumber]

end AHPy.ModuleWriter
