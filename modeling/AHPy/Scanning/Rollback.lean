import AHPy.Scanning.Scanner

/-!
# Rollback

A block is undone by its log if the log has each token once that was taken from the scanner:
tokens that are looked at are logged twice, tokens that are put back stay in the log. Errors of
the lexer are reported again if it did not move when it raised them.

* `Undoable`, `Meets`: the steps of such blocks, and the runs whose blocks with errors are such;
* `deliver_eq`: what is put back is delivered again, and then what the lexer has not read yet;
* `blocksUndone_of_meets`: in such a run, each block that ends with errors is undone.
-/

namespace AHPy.Scanning

variable {L Pos : Type} {x : Lexer L Pos} {ctx : Context}

/-! ## Keywords -/

/-- What a token is delivered as. -/
def resolve (ctx : Context) (keywords : Keywords) (token : Token) : Token :=
  (convert ctx keywords token).1

theorem resolve_of_ne {keywords : Keywords} {token : Token} (h : token.sy ≠ ident) :
    resolve ctx keywords token = token := by
  rw [resolve, convert, if_neg fun hc => h hc.1]

theorem resolve_cases (keywords : Keywords) (token : Token) :
    resolve ctx keywords token = token ∨
      (resolve ctx keywords token).sy ∈ keywords.1 := by
  rw [resolve, convert]
  split_ifs with h
  · exact .inl rfl
  · exact .inl rfl
  · exact .inr h.2
  · exact .inl rfl

/-- A token that is delivered again is delivered as the first time. -/
theorem resolve_resolve (keywords : Keywords) (token : Token) :
    resolve ctx keywords (resolve ctx keywords token) = resolve ctx keywords token := by
  rcases @resolve_cases ctx keywords token with h | h
  · rw [h, h]
  · exact resolve_of_ne fun hsy => keywords.2 (by rwa [hsy] at h)

/-- The keywords that are forgotten are not delivered as keywords. -/
theorem resolve_pop {keywords : Keywords} {name : String}
    (hname : ∀ token : Token, token.systring = name → resolve ctx keywords token = token)
    (token : Token) : resolve ctx (keywords.pop name) token = resolve ctx keywords token := by
  by_cases h : token.systring = name
  · rw [hname token h, resolve, convert, if_neg]
    rintro ⟨-, hmem⟩
    have hne := List.of_mem_filter hmem
    simp [h] at hne
  · have hmem : token.systring ∈ (keywords.pop name).1 ↔ token.systring ∈ keywords.1 := by
      rw [Keywords.pop, List.mem_filter]
      simp [h]
    simp only [resolve, convert, hmem]
    split_ifs <;> rfl

theorem resolve_convert (keywords : Keywords) (token token' : Token) :
    resolve ctx (convert ctx keywords token).2 token' = resolve ctx keywords token' := by
  rw [convert]
  split_ifs with h hprint hexec
  · refine resolve_pop (fun t ht => ?_) token'
    simp only [resolve, convert, ht, hprint, true_and, if_true]
    split_ifs <;> rfl
  · refine resolve_pop (fun t ht => ?_) token'
    have hne : ¬ ("exec" = "print" ∧ ctx.printFunction = true) := fun hc => absurd hc.1 (by decide)
    simp only [resolve, convert, ht, if_neg hne, hexec.2, true_and, if_true]
    split_ifs <;> rfl
  · rfl
  · rfl

/-! ## Lexing -/

/-- The scan of the next token raises an error, and does not move. -/
structure Stuck (x : Lexer L Pos) (l : L) : Prop where
  raised : (x.scan l).raised ≠ none
  produced : (x.scan l).produced = []
  next : (x.scan l).next = l

/-- The lexer produces some tokens without an error. -/
inductive Advances (x : Lexer L Pos) : L → List (Item Pos) → L → Prop
  | refl (l : L) : Advances x l [] l
  | step {l l' : L} {items : List (Item Pos)} (hreports : (x.scan l).reports = [])
      (hraised : (x.scan l).raised = none) (h : Advances x (x.scan l).next items l') :
      Advances x l ((x.scan l).produced ++ items) l'

theorem Advances.trans {l l' l'' : L} {items items' : List (Item Pos)} (h : Advances x l items l')
    (h' : Advances x l' items' l'') : Advances x l (items ++ items') l'' := by
  induction h with
  | refl => exact h'
  | step hreports hraised _ ih =>
    rw [List.append_assoc]
    exact .step hreports hraised (ih h')

/-- What `next` does with what is read. -/
def Scanner.took (ctx : Context) (s : Scanner L Pos) (item : Item Pos) : Scanner L Pos :=
  { s with
    current := resolve ctx s.keywords item.token
    position := item.pos
    keywords := (convert ctx s.keywords item.token).2
    putBackOnFailure :=
      s.putBackOnFailure.map (· ++ [⟨resolve ctx s.keywords item.token, item.pos⟩]) }

theorem read_cons {s : Scanner L Pos} {item : Item Pos} {queue : List (Item Pos)}
    (h : s.queue = item :: queue) :
    s.read x = (some item.token, [], { s with queue := queue, position := item.pos }) := by
  rw [Scanner.read]
  split
  next item' queue' heq =>
    obtain ⟨rfl, rfl⟩ := List.cons.inj (heq.symm.trans h)
    rfl
  next heq =>
    rw [h] at heq
    cases heq

/-- A scan that raises an error where it is. -/
theorem read_stuck {s : Scanner L Pos} (h : s.queue = []) (hstuck : Stuck x s.lexer) :
    ∃ errors, s.read x = (none, errors, s) := by
  obtain ⟨e, hraised⟩ := Option.ne_none_iff_exists'.1 hstuck.raised
  refine ⟨(x.scan s.lexer).reports.flatMap (errorsOf s.current) ++ errorsOf s.current e, ?_⟩
  rw [Scanner.read]
  split
  next heq =>
    rw [h] at heq
    cases heq
  next =>
    dsimp only
    split
    next e' heq =>
      obtain rfl := Option.some.inj (heq.symm.trans hraised)
      rw [hstuck.produced, hstuck.next, ← h]
    next heq =>
      rw [hraised] at heq
      cases heq

/-- A scan that produces some tokens. -/
theorem read_produced {s : Scanner L Pos} (h : s.queue = [])
    (hraised : (x.scan s.lexer).raised = none) (hreports : (x.scan s.lexer).reports = [])
    {item : Item Pos} {queue : List (Item Pos)}
    (hproduced : (x.scan s.lexer).produced = item :: queue) :
    s.read x = (some item.token, [],
      { s with lexer := (x.scan s.lexer).next, queue := queue, position := item.pos }) := by
  rw [Scanner.read]
  split
  next heq =>
    rw [h] at heq
    cases heq
  next =>
    dsimp only
    split
    next e heq =>
      rw [hraised] at heq
      cases heq
    next =>
      split
      next item' queue' heq =>
        obtain ⟨rfl, rfl⟩ := List.cons.inj (heq.symm.trans hproduced)
        rw [hreports]
        rfl
      next heq =>
        rw [hproduced] at heq
        cases heq

/-- A scan that produces none. -/
theorem read_silent {s : Scanner L Pos} (h : s.queue = [])
    (hraised : (x.scan s.lexer).raised = none) (hreports : (x.scan s.lexer).reports = [])
    (hproduced : (x.scan s.lexer).produced = []) :
    s.read x = Scanner.read x { s with lexer := (x.scan s.lexer).next } := by
  rw [Scanner.read]
  split
  next heq =>
    rw [h] at heq
    cases heq
  next =>
    dsimp only
    split
    next e heq =>
      rw [hraised] at heq
      cases heq
    next =>
      split
      next item' queue' heq =>
        rw [hproduced] at heq
        cases heq
      next =>
        rw [hreports]
        rfl

/-! ## What is delivered after the lexer got on -/

/-- A silent lexer changes nothing. -/
theorem Advances.read_nil {s : Scanner L Pos} {l : L} (h : Advances x s.lexer [] l)
    (hqueue : s.queue = []) : s.read x = Scanner.read x { s with lexer := l } := by
  generalize hitems : ([] : List (Item Pos)) = items at h
  generalize hlexer : s.lexer = l₀ at h
  induction h generalizing s with
  | refl l => rw [← hlexer]
  | step hreports hraised _ ih =>
    obtain ⟨hproduced, hrest⟩ := List.append_eq_nil_iff.1 hitems.symm
    subst hlexer
    rw [read_silent hqueue hraised hreports hproduced]
    exact @ih { s with lexer := (x.scan s.lexer).next } hqueue hrest.symm rfl

/-- The first token that a lexer produces is read. -/
theorem Advances.read_cons {s : Scanner L Pos} {l : L} {item : Item Pos}
    {items : List (Item Pos)} (h : Advances x s.lexer (item :: items) l) (hqueue : s.queue = []) :
    ∃ l₁ queue rest, s.read x = (some item.token, [],
        { s with lexer := l₁, queue := queue, position := item.pos }) ∧
      queue ++ rest = items ∧ Advances x s.lexer (item :: queue) l₁ ∧ Advances x l₁ rest l := by
  generalize hitems : item :: items = all at h
  generalize hlexer : s.lexer = l₀ at h
  induction h generalizing s with
  | refl => cases hitems
  | @step l₀ l' rest hreports hraised hrest ih =>
    subst hlexer
    cases hproduced : (x.scan s.lexer).produced with
    | nil =>
      rw [hproduced, List.nil_append] at hitems
      obtain ⟨l₁, queue, rest, hread, happend, hfirst, hafter⟩ :=
        @ih { s with lexer := (x.scan s.lexer).next } hqueue hitems rfl
      rw [read_silent hqueue hraised hreports hproduced]
      have hsteps := Advances.step hreports hraised hfirst
      rw [hproduced] at hsteps
      exact ⟨l₁, queue, rest, hread, happend, hsteps, hafter⟩
    | cons first queue =>
      rw [hproduced, List.cons_append] at hitems
      obtain ⟨rfl, rfl⟩ := List.cons.inj hitems
      have hstep := Advances.step hreports hraised (.refl _)
      rw [hproduced, List.append_nil] at hstep
      exact ⟨_, queue, rest, read_produced hqueue hraised hreports hproduced, rfl, hstep, hrest⟩

/-- Reading does not depend on the keywords and the log. -/
theorem read_with (s : Scanner L Pos) (keywords : Keywords) (log : Option (List (Item Pos))) :
    Scanner.read x { s with keywords := keywords, putBackOnFailure := log } =
      ((s.read x).1, (s.read x).2.1,
        { (s.read x).2.2 with keywords := keywords, putBackOnFailure := log }) := by
  induction hn : x.remaining s.lexer using Nat.strong_induction_on generalizing s with
  | _ n ih =>
    rw [Scanner.read, Scanner.read]
    dsimp only
    split
    next => rfl
    next hqueue =>
      split
      next => rfl
      next hraised =>
        split
        next => rfl
        next hproduced =>
          have hlt : x.remaining (x.scan s.lexer).next < n := hn ▸ x.progress _ hproduced hraised
          have := ih _ hlt { s with lexer := (x.scan s.lexer).next } rfl
          rw [this]

/-- `next` with a token that is read. -/
theorem next_of_read {s s' : Scanner L Pos} (item : Item Pos) {errors : List (Err Pos)}
    (h : s.read x = (some item.token, errors, s')) (hpos : s'.position = item.pos) :
    s.next x ctx = ⟨s'.took ctx item, errors, false⟩ := by
  rw [Scanner.next, h, Scanner.took, ← hpos]
  rfl

/-- `next` if an error is raised. -/
theorem next_of_raised {s s' : Scanner L Pos} {errors : List (Err Pos)}
    (h : s.read x = (none, errors, s')) : s.next x ctx = ⟨s', errors, true⟩ := by
  rw [Scanner.next, h]

/-- The tokens as they are delivered. -/
def delivered (ctx : Context) (keywords : Keywords) (items : List (Item Pos)) :
    List (Item Pos) :=
  items.map fun item => ⟨resolve ctx keywords item.token, item.pos⟩

@[simp] theorem delivered_cons (keywords : Keywords) (item : Item Pos)
    (items : List (Item Pos)) :
    delivered ctx keywords (item :: items) =
      ⟨resolve ctx keywords item.token, item.pos⟩ :: delivered ctx keywords items := rfl

@[simp] theorem delivered_append (keywords : Keywords) (items items' : List (Item Pos)) :
    delivered ctx keywords (items ++ items') =
      delivered ctx keywords items ++ delivered ctx keywords items' :=
  List.map_append

theorem delivered_congr {keywords keywords' : Keywords}
    (h : ∀ token, resolve ctx keywords' token = resolve ctx keywords token)
    (items : List (Item Pos)) :
    delivered ctx keywords' items = delivered ctx keywords items := by
  simp [delivered, h]

/-- The scanner `s'` has queued what `s` will read, or some of it. -/
structure Ahead (x : Lexer L Pos) (ctx : Context) (s s' : Scanner L Pos) : Prop where
  current : s'.current = s.current
  position : s'.position = s.position
  keywords : ∀ token, resolve ctx s'.keywords token = resolve ctx s.keywords token
  queue : ∃ items, Advances x s.lexer items s'.lexer ∧
    delivered ctx s.keywords s'.queue = delivered ctx s.keywords (s.queue ++ items)

/-- What `next` delivers. -/
def event (o : Outcome L Pos) : Event Pos :=
  ⟨if o.raised then none else some ⟨o.scanner.current, o.scanner.position⟩, o.errors⟩

theorem deliver_succ (n : ℕ) (s : Scanner L Pos) :
    deliver x ctx (n + 1) s =
      event (s.next x ctx) :: deliver x ctx n (s.next x ctx).scanner := rfl

/-- Both scanners take a token. -/
theorem Ahead.took {s s' : Scanner L Pos} {item item' : Item Pos} (h : Ahead x ctx s s')
    (hpos : item'.pos = item.pos)
    (htoken : resolve ctx s.keywords item'.token = resolve ctx s.keywords item.token) :
    Ahead x ctx (s.took ctx item) (s'.took ctx item') where
  current := by simp only [Scanner.took, h.keywords, htoken]
  position := hpos
  keywords token := by simp only [Scanner.took, resolve_convert, h.keywords]
  queue := by
    obtain ⟨items, hitems, hqueue⟩ := h.queue
    refine ⟨items, hitems, ?_⟩
    simp only [Scanner.took, delivered_congr (resolve_convert _ _), hqueue]

theorem Ahead.event_eq {s s' : Scanner L Pos} (h : Ahead x ctx s s') (errors : List (Err Pos))
    (raised : Bool) : event ⟨s', errors, raised⟩ = event ⟨s, errors, raised⟩ := by
  simp only [event, h.current, h.position]

theorem read_keywords (s : Scanner L Pos) : (s.read x).2.2.keywords = s.keywords :=
  congrArg (fun r => r.2.2.keywords) (read_with (x := x) s s.keywords s.putBackOnFailure)

/-- The same text is read. -/
theorem Ahead.next_read {s s' : Scanner L Pos} (h : Ahead x ctx s s')
    (hread : s'.read x = ((s.read x).1, (s.read x).2.1,
      { (s.read x).2.2 with keywords := s'.keywords, putBackOnFailure := s'.putBackOnFailure })) :
    event (s'.next x ctx) = event (s.next x ctx) ∧
      Ahead x ctx (s.next x ctx).scanner (s'.next x ctx).scanner := by
  have hkeywords := read_keywords (x := x) s
  have ha : Ahead x ctx (s.read x).2.2 (s'.read x).2.2 := by
    rw [hread]
    refine ⟨rfl, rfl, fun token => ?_, [], .refl _, by rw [List.append_nil]⟩
    rw [hkeywords]
    exact h.keywords token
  rcases hs : s.read x with ⟨token, errors, t⟩
  cases token with
  | none =>
    rw [hs] at hread ha
    rw [next_of_raised hs, next_of_raised hread]
    rw [hread] at ha
    exact ⟨ha.event_eq errors true, ha⟩
  | some token =>
    rw [hs] at hread ha
    rw [hread] at ha
    have ht := @Ahead.took _ _ x ctx _ _ ⟨token, t.position⟩ ⟨token, t.position⟩ ha rfl rfl
    rw [next_of_read ⟨token, t.position⟩ hs rfl, next_of_read ⟨token, t.position⟩ hread rfl]
    exact ⟨ht.event_eq errors false, ht⟩

/-- The next token is the same. -/
theorem Ahead.next {s s' : Scanner L Pos} (h : Ahead x ctx s s') :
    event (s'.next x ctx) = event (s.next x ctx) ∧
      Ahead x ctx (s.next x ctx).scanner (s'.next x ctx).scanner := by
  obtain ⟨items, hitems, hqueue⟩ := h.queue
  cases hs : s.queue with
  | cons item queue =>
    -- both read from their queues
    rw [hs, List.cons_append, delivered_cons] at hqueue
    obtain ⟨item', queue', hs', hitem, hrest⟩ := List.map_eq_cons_iff.1 hqueue
    obtain ⟨htoken, hpos⟩ := Item.mk.injEq .. ▸ hitem
    have ha : Ahead x ctx { s with queue := queue, position := item.pos }
        { s' with queue := queue', position := item'.pos } :=
      ⟨h.current, hpos, h.keywords, items, hitems, hrest⟩
    rw [next_of_read item (read_cons hs) rfl, next_of_read item' (read_cons hs') rfl]
    exact ⟨(ha.took hpos htoken).event_eq [] false, ha.took hpos htoken⟩
  | nil =>
    rw [hs, List.nil_append] at hqueue
    cases items with
    | cons item items =>
      -- `s` reads what `s'` has in its queue
      rw [delivered_cons] at hqueue
      obtain ⟨item', queue', hs', hitem, hrest⟩ := List.map_eq_cons_iff.1 hqueue
      obtain ⟨htoken, hpos⟩ := Item.mk.injEq .. ▸ hitem
      obtain ⟨l, queue, rest, hread, rfl, -, hadvances⟩ := hitems.read_cons hs
      have ha : Ahead x ctx { s with lexer := l, queue := queue, position := item.pos }
          { s' with queue := queue', position := item'.pos } :=
        ⟨h.current, hpos, h.keywords, rest, hadvances, hrest⟩
      rw [next_of_read item hread rfl, next_of_read item' (read_cons hs') rfl]
      exact ⟨(ha.took hpos htoken).event_eq [] false, ha.took hpos htoken⟩
    | nil =>
      -- both read the text, from the same place
      have hs' : s'.queue = [] := List.map_eq_nil_iff.1 hqueue
      have hsame : s' = { s with
          lexer := s'.lexer
          keywords := s'.keywords
          putBackOnFailure := s'.putBackOnFailure } := by
        obtain ⟨lexer, queue, current, position, keywords, log⟩ := s'
        obtain rfl := h.current
        obtain rfl := h.position
        obtain rfl := hs'
        rw [← hs]
      refine h.next_read ?_
      have hread := read_with (x := x) { s with lexer := s'.lexer } s'.keywords s'.putBackOnFailure
      rw [← hitems.read_nil hs, ← hsame] at hread
      exact hread

/-- A scanner that is ahead delivers the same. -/
theorem deliver_eq {s s' : Scanner L Pos} (h : Ahead x ctx s s') (n : ℕ) :
    deliver x ctx n s' = deliver x ctx n s := by
  induction n generalizing s s' with
  | zero => rfl
  | succ n ih => rw [deliver_succ, deliver_succ, h.next.1, ih h.next.2]

theorem Ahead.restored {s s' : Scanner L Pos} (h : Ahead x ctx s s') : Restored x ctx s s' :=
  ⟨h.current, h.position, deliver_eq h⟩

/-! ## One token -/

/-- The next token is queued, or the lexer produces it without an error, or the lexer raises an
    error from where it stays. -/
def Repeatable (x : Lexer L Pos) (s : Scanner L Pos) : Prop :=
  s.queue = [] → (∃ item items l, Advances x s.lexer (item :: items) l) ∨
    ∃ l, Advances x s.lexer [] l ∧ Stuck x l

/-- The error of a lexer that is stuck is raised. -/
theorem next_stuck {s : Scanner L Pos} (hqueue : s.queue = []) {l : L}
    (hsilent : Advances x s.lexer [] l) (hstuck : Stuck x l) :
    ∃ errors, s.next x ctx = ⟨{ s with lexer := l }, errors, true⟩ := by
  obtain ⟨errors, hread⟩ := @read_stuck _ _ x { s with lexer := l } hqueue hstuck
  rw [← hsilent.read_nil hqueue] at hread
  exact ⟨errors, next_of_raised hread⟩

/-- A token is taken from the queue and what the lexer produces, or the lexer is silent and an
    error is raised. -/
theorem next_cases {s : Scanner L Pos} (h : Repeatable x s) :
    (∃ item l queue items, s.next x ctx =
        ⟨Scanner.took ctx { s with lexer := l, queue := queue, position := item.pos } item, [],
          false⟩ ∧
      Advances x s.lexer items l ∧ s.queue ++ items = item :: queue) ∨
    ∃ l errors, s.next x ctx = ⟨{ s with lexer := l }, errors, true⟩ ∧
      Advances x s.lexer [] l := by
  by_cases hs : s.queue = []
  · rcases h hs with ⟨item, items, l, hproduces⟩ | ⟨l, hsilent, hstuck⟩
    · obtain ⟨l₁, queue, rest, hread, -, hfirst, -⟩ := hproduces.read_cons hs
      refine .inl ⟨item, l₁, queue, item :: queue, next_of_read item hread rfl, hfirst, ?_⟩
      rw [hs, List.nil_append]
    · obtain ⟨errors, hnext⟩ := @next_stuck _ _ x ctx s hs l hsilent hstuck
      exact .inr ⟨l, errors, hnext, hsilent⟩
  · obtain ⟨item, queue, hs⟩ := List.exists_cons_of_ne_nil hs
    refine .inl ⟨item, s.lexer, queue, [], next_of_read item (read_cons hs) rfl, .refl _, ?_⟩
    rw [List.append_nil, hs]

/-! ## The log of a block -/

/-- What was taken from a scanner on the way from `s` to `s'`. -/
structure Logged (x : Lexer L Pos) (ctx : Context) (s : Scanner L Pos) (log : List (Item Pos))
    (s' : Scanner L Pos) : Prop where
  current : ⟨s'.current, s'.position⟩ = log.getLastD ⟨s.current, s.position⟩
  keywords : ∀ token, resolve ctx s'.keywords token = resolve ctx s.keywords token
  queue : ∃ items, Advances x s.lexer items s'.lexer ∧
    delivered ctx s.keywords (log ++ s'.queue) = delivered ctx s.keywords (s.queue ++ items)
  putBackOnFailure : s'.putBackOnFailure = s.putBackOnFailure.map (· ++ log)

theorem Logged.refl (s : Scanner L Pos) : Logged x ctx s [] s where
  current := rfl
  keywords _ := rfl
  queue := ⟨[], .refl _, by rw [List.append_nil, List.nil_append]⟩
  putBackOnFailure := by simp

theorem Logged.trans {s s' s'' : Scanner L Pos} {log log' : List (Item Pos)}
    (h : Logged x ctx s log s') (h' : Logged x ctx s' log' s'') :
    Logged x ctx s (log ++ log') s'' where
  current := by
    rw [h'.current, h.current]
    cases log' using List.reverseRecOn with
    | nil => simp
    | append_singleton => simp [← List.append_assoc]
  keywords token := (h'.keywords token).trans (h.keywords token)
  queue := by
    obtain ⟨items, hitems, hqueue⟩ := h.queue
    obtain ⟨items', hitems', hqueue'⟩ := h'.queue
    refine ⟨items ++ items', hitems.trans hitems', ?_⟩
    rw [delivered_congr h.keywords, delivered_congr h.keywords] at hqueue'
    calc delivered ctx s.keywords (log ++ log' ++ s''.queue)
        = delivered ctx s.keywords (log ++ s'.queue) ++ delivered ctx s.keywords items' := by
          rw [List.append_assoc, delivered_append, hqueue', delivered_append, delivered_append,
            List.append_assoc]
      _ = delivered ctx s.keywords (s.queue ++ (items ++ items')) := by
          rw [hqueue, ← delivered_append, List.append_assoc]
  putBackOnFailure := by
    rw [h'.putBackOnFailure, h.putBackOnFailure]
    simp [Function.comp_def]

/-- A token that is taken. -/
theorem logged_took {s : Scanner L Pos} {item : Item Pos} {l : L} {queue items : List (Item Pos)}
    (hitems : Advances x s.lexer items l) (hqueue : s.queue ++ items = item :: queue) :
    Logged x ctx s [⟨resolve ctx s.keywords item.token, item.pos⟩]
      (Scanner.took ctx { s with lexer := l, queue := queue, position := item.pos } item) where
  current := rfl
  keywords := resolve_convert s.keywords item.token
  queue := ⟨items, hitems, by simp [hqueue, Scanner.took, resolve_resolve]⟩
  putBackOnFailure := rfl

/-- The lexer gets on silently. -/
theorem logged_silent {s : Scanner L Pos} {l : L} (h : Advances x s.lexer [] l) :
    Logged x ctx s [] { s with lexer := l } where
  current := rfl
  keywords _ := rfl
  queue := ⟨[], h, by rw [List.append_nil, List.nil_append]⟩
  putBackOnFailure := by simp

/-! ## The end of a block -/

/-- The tokens that are put back are queued, and the current one after them. -/
theorem putBacks_eq (s : Scanner L Pos) (items : List (Item Pos)) (item : Item Pos) :
    (items.reverse.foldl Scanner.putBack s).putBack item =
      { s with
        queue := items ++ ⟨s.current, s.position⟩ :: s.queue
        current := item.token
        position := item.pos } := by
  rw [List.foldl_reverse]
  induction items generalizing item with
  | nil => rfl
  | cons first items ih =>
    rw [List.foldr_cons, ih]
    rfl

/-- The block is undone. -/
theorem Logged.rollback {s s' : Scanner L Pos} {log : List (Item Pos)}
    (h : Logged x ctx s log s') :
    Ahead x ctx s (s'.rollback log ⟨s.current, s.position⟩) := by
  rw [Scanner.rollback]
  cases log using List.reverseRecOn with
  | nil =>
    rw [if_pos rfl]
    obtain ⟨hcurrent, hposition⟩ := Item.mk.inj h.current
    exact ⟨hcurrent, hposition, h.keywords, h.queue⟩
  | append_singleton log last =>
    have hcurrent : ⟨s'.current, s'.position⟩ = last := by simpa using h.current
    rw [if_neg (List.append_ne_nil_of_right_ne_nil _ (List.cons_ne_nil _ _)),
      List.dropLast_concat, putBacks_eq, hcurrent]
    obtain ⟨items, hitems, hqueue⟩ := h.queue
    refine ⟨rfl, rfl, h.keywords, items, hitems, ?_⟩
    rw [← hqueue, List.append_assoc]
    rfl

/-- What a block leaves: with errors it is undone, else its log is that of the enclosing block. -/
theorem Logged.leave {s : Scanner L Pos} {o : Outcome L Pos} {log : List (Item Pos)}
    (h : Logged x ctx s.enter log o.scanner) :
    Logged x ctx s (if o.errors ≠ [] then [] else log) (s.leave o) := by
  have hlog : o.scanner.putBackOnFailure.getD [] = log := by
    rw [h.putBackOnFailure]
    rfl
  rw [Scanner.leave, hlog]
  split
  next =>
    have ha := h.rollback
    obtain ⟨items, hitems, hqueue⟩ := ha.queue
    refine ⟨?_, ha.keywords, ⟨items, hitems, hqueue⟩, by simp⟩
    exact congrArg₂ Item.mk ha.current ha.position
  next => exact ⟨h.current, h.keywords, h.queue, rfl⟩

/-! ## Runs -/

/-- What the log undoes: the next tokens are taken, errors of the lexer are raised where it
    stays, and no token is put back or looked at. -/
def Undoable (x : Lexer L Pos) (ctx : Context) : Body Pos → Scanner L Pos → Prop
  | .done, _ => True
  | .next rest, s =>
    Repeatable x s ∧ ((s.next x ctx).raised = false → Undoable x ctx rest (s.next x ctx).scanner)
  | .peek _, s => s.queue = [] ∧ ∃ l, Advances x s.lexer [] l ∧ Stuck x l
  | .putBack _ _, _ => False
  | .error _ fatal rest, s => fatal = false → Undoable x ctx rest s
  | .block inner rest, s =>
    Undoable x ctx inner s.enter ∧ Undoable x ctx rest (tentativelyScan x ctx inner s)

/-- The blocks that end with errors did only what the log undoes. -/
def Meets (x : Lexer L Pos) (ctx : Context) : Body Pos → Scanner L Pos → Prop
  | .done, _ => True
  | .next rest, s => (s.next x ctx).raised = false → Meets x ctx rest (s.next x ctx).scanner
  | .peek rest, s => (s.peek x ctx).raised = false → Meets x ctx rest (s.peek x ctx).scanner
  | .putBack item rest, s => Meets x ctx rest (s.putBack item)
  | .error _ fatal rest, s => fatal = false → Meets x ctx rest s
  | .block inner rest, s =>
    Meets x ctx inner s.enter ∧
      ((run x ctx inner s.enter).errors ≠ [] → Undoable x ctx inner s.enter) ∧
      Meets x ctx rest (tentativelyScan x ctx inner s)

theorem scanner_andThen_of_raised {o : Outcome L Pos} (h : o.raised = true)
    (rest : Scanner L Pos → Outcome L Pos) : o.andThen rest = o := by
  rw [Outcome.andThen, if_pos h]

theorem scanner_andThen {o : Outcome L Pos} (h : o.raised = false)
    (rest : Scanner L Pos → Outcome L Pos) :
    (o.andThen rest).scanner = (rest o.scanner).scanner := by
  rw [Outcome.andThen, if_neg (by rw [h]; exact Bool.false_ne_true)]

/-- The log of what can be undone. -/
theorem Undoable.logged {body : Body Pos} {s : Scanner L Pos} (h : Undoable x ctx body s) :
    ∃ log, Logged x ctx s log (run x ctx body s).scanner := by
  induction body generalizing s with
  | done => exact ⟨[], .refl s⟩
  | next rest ih =>
    rw [run]
    obtain ⟨hrepeatable, hrest⟩ := h
    rcases @next_cases _ _ x ctx s hrepeatable with
      ⟨item, l, queue, items, hnext, hitems, hqueue⟩ | ⟨l, errors, hnext, hsilent⟩
    · have htook : Logged x ctx s _ _ := logged_took hitems hqueue
      rw [hnext] at hrest ⊢
      rw [scanner_andThen rfl]
      obtain ⟨log, hlog⟩ := ih (hrest rfl)
      exact ⟨_, htook.trans hlog⟩
    · rw [hnext, scanner_andThen_of_raised rfl]
      exact ⟨[], logged_silent hsilent⟩
  | peek rest =>
    obtain ⟨hqueue, l, hsilent, hstuck⟩ := h
    obtain ⟨errors, hnext⟩ := @next_stuck _ _ x ctx s hqueue l hsilent hstuck
    rw [run, Scanner.peek, hnext, if_pos rfl, scanner_andThen_of_raised rfl]
    exact ⟨[], logged_silent hsilent⟩
  | putBack => exact h.elim
  | error e fatal rest ih =>
    rw [run]
    cases fatal with
    | true =>
      rw [scanner_andThen_of_raised rfl]
      exact ⟨[], .refl s⟩
    | false =>
      rw [scanner_andThen rfl]
      exact ih (h rfl)
  | block inner rest ihinner ihrest =>
    obtain ⟨log, hlog⟩ := ihinner h.1
    obtain ⟨log', hlog'⟩ := ihrest h.2
    exact ⟨_, hlog.leave.trans hlog'⟩

/-- A block that does only what the log undoes is undone if it ends with errors. -/
theorem Undoable.restored {body : Body Pos} {s : Scanner L Pos} (h : Undoable x ctx body s.enter)
    (herrors : (run x ctx body s.enter).errors ≠ []) :
    Restored x ctx s (tentativelyScan x ctx body s) := by
  obtain ⟨log, hlog⟩ := h.logged
  have hleave := hlog.leave
  rw [if_pos herrors] at hleave
  obtain ⟨hcurrent, hposition⟩ := Item.mk.inj hleave.current
  exact Ahead.restored ⟨hcurrent, hposition, hleave.keywords, hleave.queue⟩

/-- What is undone has no block that is not. -/
theorem Undoable.meets {body : Body Pos} {s : Scanner L Pos} (h : Undoable x ctx body s) :
    Meets x ctx body s := by
  induction body generalizing s with
  | done => trivial
  | next rest ih => exact fun hraised => ih (h.2 hraised)
  | peek rest =>
    obtain ⟨hqueue, l, hsilent, hstuck⟩ := h
    obtain ⟨errors, hnext⟩ := @next_stuck _ _ x ctx s hqueue l hsilent hstuck
    intro hraised
    rw [Scanner.peek, hnext, if_pos rfl] at hraised
    cases hraised
  | putBack => exact h.elim
  | error e fatal rest ih => exact fun hfatal => ih (h hfatal)
  | block inner rest ihinner ihrest => exact ⟨ihinner h.1, fun _ => h.1, ihrest h.2⟩

/-- In a run whose blocks with errors do only what the log undoes, they are undone. -/
theorem blocksUndone_of_meets (x : Lexer L Pos) (ctx : Context) (body : Body Pos)
    (s : Scanner L Pos) (h : Meets x ctx body s) : BlocksUndone x ctx body s := by
  induction body generalizing s with
  | done => trivial
  | next rest ih => exact fun hraised => ih _ (h hraised)
  | peek rest ih => exact fun hraised => ih _ (h hraised)
  | putBack item rest ih => exact ih _ h
  | error e fatal rest ih => exact fun hfatal => ih _ (h hfatal)
  | block inner rest ihinner ihrest =>
    obtain ⟨hinner, hundoable, hrest⟩ := h
    exact ⟨ihinner _ hinner, fun herrors => (hundoable herrors).restored herrors, ihrest _ hrest⟩

/-! ## A lexer without errors -/

/-- What is produced at the end. -/
def endItem : Item ℕ := ⟨⟨"EOF", ""⟩, 0⟩

/-- A token is produced, then the next ones. -/
def scanTokens : List (Item ℕ) → Scan (List (Item ℕ)) ℕ
  | [] => ⟨[endItem], [], none, []⟩
  | item :: items => ⟨[item], [], none, items⟩

theorem scanTokens_produced (l : List (Item ℕ)) : (scanTokens l).produced ≠ [] := by
  cases l <;> exact List.cons_ne_nil _ _

theorem scanTokens_progress (l : List (Item ℕ)) (h : (scanTokens l).produced = [])
    (_ : (scanTokens l).raised = none) :
    (scanTokens l).next.length < l.length :=
  absurd h (scanTokens_produced l)

/-- The lexer of a list of tokens. -/
def tokens : Lexer (List (Item ℕ)) ℕ := ⟨scanTokens, List.length, scanTokens_progress⟩

theorem tokens_repeatable (s : Scanner (List (Item ℕ)) ℕ) : Repeatable tokens s := by
  rintro -
  rcases s.lexer with - | ⟨item, items⟩
  · exact .inl ⟨endItem, [], [], .step rfl rfl (.refl _)⟩
  · exact .inl ⟨item, [], items, .step rfl rfl (.refl _)⟩

/-- An error of the parser after some tokens. -/
def nextsThenError (e : Err ℕ) : ℕ → Body ℕ
  | 0 => .error e true .done
  | n + 1 => .next (nextsThenError e n)

theorem nextsThenError_undoable (e : Err ℕ) (n : ℕ) (s : Scanner (List (Item ℕ)) ℕ) :
    Undoable tokens ctx (nextsThenError e n) s := by
  induction n generalizing s with
  | zero => exact fun hfatal => absurd hfatal (by decide)
  | succ n ih => exact ⟨tokens_repeatable s, fun _ => ih _⟩

/-- The scanner at `match`, before some tokens. -/
def atMatch (l : List (Item ℕ)) : Scanner (List (Item ℕ)) ℕ :=
  ⟨l, [], ⟨ident, "match"⟩, 0, ⟨[], List.not_mem_nil⟩, none⟩

/-- `match (x)` -/
def callTokens : List (Item ℕ) :=
  [⟨⟨"(", "("⟩, 6⟩, ⟨⟨ident, "x"⟩, 7⟩, ⟨⟨")", ")"⟩, 8⟩, ⟨⟨"NEWLINE", ""⟩, 9⟩]

/-- `match (new, 1)` -/
def newTokens : List (Item ℕ) :=
  [⟨⟨"(", "("⟩, 6⟩, ⟨⟨ident, "new"⟩, 7⟩, ⟨⟨",", ","⟩, 10⟩, ⟨⟨"INT", "1"⟩, 12⟩, ⟨⟨")", ")"⟩, 13⟩,
    ⟨⟨"NEWLINE", ""⟩, 14⟩]

/-- `expected(":")` at the end of the line. -/
def colonExpected (pos : ℕ) : Err ℕ := ⟨pos, "Expected ':', found 'NEWLINE'"⟩

/-- `match (x)` is no statement. -/
theorem blocksUndone_call : BlocksUndone tokens ⟨false, true⟩
    (.block (nextsThenError (colonExpected 9) 4) .done) (atMatch callTokens) :=
  blocksUndone_of_meets _ _ _ _ ⟨(nextsThenError_undoable _ 4 _).meets,
    fun _ => nextsThenError_undoable _ 4 _, trivial⟩

theorem convert_nil (token : Token) :
    convert ctx ⟨[], List.not_mem_nil⟩ token = (token, ⟨[], List.not_mem_nil⟩) := by
  rw [convert, if_neg fun h => List.not_mem_nil h.2]

theorem next_tokens (item : Item ℕ) (l : List (Item ℕ)) (current : Token) (position : ℕ)
    (log : Option (List (Item ℕ))) :
    Scanner.next tokens ctx ⟨item :: l, [], current, position, ⟨[], List.not_mem_nil⟩, log⟩ =
      ⟨⟨l, [], item.token, item.pos, ⟨[], List.not_mem_nil⟩, log.map (· ++ [item])⟩, [],
        false⟩ := by
  rw [next_of_read item (read_produced rfl rfl rfl rfl) rfl, Scanner.took, resolve, convert_nil]
  rfl

theorem next_queue (item : Item ℕ) (l queue : List (Item ℕ)) (current : Token) (position : ℕ)
    (log : Option (List (Item ℕ))) :
    Scanner.next tokens ctx ⟨l, item :: queue, current, position, ⟨[], List.not_mem_nil⟩, log⟩ =
      ⟨⟨l, queue, item.token, item.pos, ⟨[], List.not_mem_nil⟩, log.map (· ++ [item])⟩, [],
        false⟩ := by
  rw [next_of_read item (read_cons rfl) rfl, Scanner.took, resolve, convert_nil]

/-- The token that follows `new` is looked at, and logged twice. -/
def peekAfterNew : Body ℕ := .next (.next (.peek (nextsThenError (colonExpected 14) 4)))

theorem run_peekAfterNew : run tokens ⟨false, true⟩ peekAfterNew (atMatch newTokens).enter =
    ⟨⟨[], [], ⟨"NEWLINE", ""⟩, 14, ⟨[], List.not_mem_nil⟩,
      some [⟨⟨"(", "("⟩, 6⟩, ⟨⟨ident, "new"⟩, 7⟩, ⟨⟨",", ","⟩, 10⟩, ⟨⟨",", ","⟩, 10⟩,
        ⟨⟨"INT", "1"⟩, 12⟩, ⟨⟨")", ")"⟩, 13⟩, ⟨⟨"NEWLINE", ""⟩, 14⟩]⟩,
      [colonExpected 14], true⟩ := by
  simp [run, peekAfterNew, atMatch, newTokens, Scanner.enter, Scanner.peek, next_tokens,
    next_queue, Scanner.unread, Outcome.andThen, nextsThenError, errorsOf]

/-- After `match (new, 1)` was no statement, it is read as `match (new,, 1)`. -/
theorem not_blocksUndone_peek : ¬ BlocksUndone tokens ⟨false, true⟩
    (.block peekAfterNew .done) (atMatch newTokens) := by
  intro h
  have hrestored := h.2.1 (by rw [run_peekAfterNew]; exact List.cons_ne_nil _ _)
  have hdelivers := hrestored.delivers 4
  rw [tentativelyScan, run_peekAfterNew] at hdelivers
  simp [deliver, atMatch, newTokens, next_tokens, next_queue, Scanner.leave, Scanner.rollback,
    Scanner.putBack, Scanner.unread] at hdelivers

end AHPy.Scanning
