import PPBase.Hook

/-!
# The hook chain

`run_hook_chain` starts the handlers of an event one after the other : each one started makes
`event.next()` go on to the next one. The continuation and whether it was called are two slots of
the event that all handlers share. A handler may call `next()` as often as it likes, at once or
concurrently, and may go on after its calls, so the handlers run interleaved; what happens is a
sequence of calls and returns (`Move`) in any order.

The handlers are started in order, each at most once, whatever they do (`started_in_order`).

`chain_disciplined` : as long as a handler calls `next()` or returns only while no handler
started after it is still running, the default handler runs exactly once if and only if every
handler gets through `next()` exactly once.

A second call while the first is under way is taken for one of the handler after it
(`concurrent_calls_skip`).
-/

namespace PPBase

/-- The slots of the event, and what has happened. Handlers go by their place in the chain; the
default handler comes after the last place. -/
structure Chain where
  /-- The place that the continuation dispatches. -/
  nextHandler : Option ℕ := none
  nextCalled : Bool := false
  /-- The handlers in the order in which they were started. -/
  started : List ℕ := []
  running : List ℕ := []
  /-- Who got through `next()`, once for every time. -/
  passed : List ℕ := []
  deriving DecidableEq

namespace Chain

/-- What a handler does to the chain. A handler that raises has returned as well. -/
inductive Move
  | next (who : ℕ)
  | finish (who : ℕ)

def setNextHandler (place : ℕ) (s : Chain) : Chain :=
  { s with nextHandler := some place, nextCalled := false }

def clearNextHandler (s : Chain) : Chain := { s with nextHandler := none, nextCalled := false }

def start (place : ℕ) (s : Chain) : Chain :=
  { s with started := s.started ++ [place], running := s.running ++ [place] }

variable {ε η : Type*} (bindings : List (HookBinding ε η)) (defaultHandler : Option η)

/-- `dispatch(index)`, up to the point where the handler is running. -/
def dispatch (index : ℕ) (s : Chain) : Chain :=
  match bindings[index]? with
  | none =>
    match defaultHandler with
    | none => s
    | some _ => s.start bindings.length
  | some _ => (s.setNextHandler (index + 1)).start index

/-- `event.next()`, called by a handler. -/
def next (who : ℕ) (s : Chain) : Except Text Chain :=
  match s.nextHandler with
  | none => .error "next() is not available in the current hook context."
  | some place =>
    if s.nextCalled then .error "next() can be called only once per hook handler."
    else .ok (dispatch bindings defaultHandler place
      { s with nextCalled := true, passed := s.passed ++ [who] })

/-- A handler returns or raises. Only the bound handlers clear the continuation. -/
def finish (who : ℕ) (s : Chain) : Chain :=
  let s := { s with running := s.running.erase who }
  if who < bindings.length then s.clearNextHandler else s

/-- A call that is refused raises in the handler and changes nothing. -/
def move (s : Chain) : Move → Option Chain
  | .next who =>
    if who ∈ s.started then
      match next bindings defaultHandler who s with
      | .ok s' => some s'
      | .error _ => some s
    else none
  | .finish who => if who ∈ s.running then some (finish bindings who s) else none

/-- `run_hook_chain(event, bindings, default_handler)` of a new event. -/
def runHookChain : Chain := dispatch bindings defaultHandler 0 {}

/-- The states of one run in which every move is of a kind. -/
inductive Run (P : Chain → Move → Prop) : Chain → Prop
  | start : Run P (runHookChain bindings defaultHandler)
  | move {s s' : Chain} {m : Move} (h : Run P s) (hm : P s m)
      (hs : move bindings defaultHandler s m = some s') : Run P s'

/-- The continuation refuses every call. -/
def Closed (s : Chain) : Prop := s.nextHandler = none ∨ s.nextCalled = true

/-- The handler that moves is running, and none that was started after it is. -/
def Innermost (s : Chain) (m : Move) : Prop :=
  let who := match m with | .next who => who | .finish who => who
  who ∈ s.running ∧ ∀ j ∈ s.running, j ≤ who

/-- The handlers were started in the order of the chain, each once and none skipped. -/
structure InOrder (s : Chain) : Prop where
  precedes : (s.started.filterMap fun i => bindings[i]?).Pairwise HookBinding.Precedes
  once : s.started.Nodup
  unskipped : ∀ j ∈ s.started, ∀ i < j, i ∈ s.started

/-- The chain as it should be. -/
structure Disciplined (s : Chain) : Prop extends InOrder bindings s where
  completes : bindings.length ∈ s.started ↔
    defaultHandler.isSome ∧ ∀ i < bindings.length, s.passed.count i = 1

/-! ## What every run keeps -/

variable {bindings defaultHandler}

/-- As many are started as places are done, and an open continuation dispatches the next one. -/
structure Counted (bindings : List (HookBinding ε η)) (s : Chain) : Prop where
  started : s.started = List.range s.started.length
  opened : ∀ place, s.nextHandler = some place → s.nextCalled = false →
    place = s.started.length ∧ place ≤ bindings.length

variable {s : Chain} {p k r : ℕ}

theorem Closed.not_open (h : s.Closed) {place : ℕ} (hp : s.nextHandler = some place)
    (hc : s.nextCalled = false) : False := by
  rcases h with h | h
  · exact nomatch hp.symm.trans h
  · exact Bool.false_ne_true (hc.symm.trans h)

theorem Counted.dispatch (h : s.started = List.range s.started.length) (hs : s.Closed)
    (hle : s.started.length ≤ bindings.length) :
    Counted bindings (dispatch bindings defaultHandler s.started.length s) := by
  have hstart : s.started ++ [s.started.length] = List.range (s.started.length + 1) := by
    rw [List.range_succ, ← h]
  unfold Chain.dispatch
  split
  case h_1 hnone =>
    have hlen : bindings.length = s.started.length :=
      le_antisymm (List.getElem?_eq_none_iff.1 hnone) hle
    cases defaultHandler with
    | none => exact ⟨h, fun place hp hc => (hs.not_open hp hc).elim⟩
    | some _ =>
      refine ⟨?_, fun place hp hc => (hs.not_open (show s.nextHandler = some place from hp)
        hc).elim⟩
      simpa [start, hlen] using hstart
  case h_2 b hb =>
    refine ⟨by simpa [start, setNextHandler] using hstart, fun place hp _ => ?_⟩
    obtain ⟨hlt, -⟩ := List.getElem?_eq_some_iff.1 hb
    obtain rfl : s.started.length + 1 = place := Option.some.inj hp
    exact ⟨by simp [start, setNextHandler], hlt⟩

/-- A call is refused or goes on, and a return only ends the handler. -/
theorem move_cases {s' : Chain} {m : Move} (hs : move bindings defaultHandler s m = some s') :
    (∃ who, m = .next who ∧ s.Closed ∧ s' = s) ∨
    (∃ who place, m = .next who ∧ s.nextHandler = some place ∧ s.nextCalled = false ∧
      s' = dispatch bindings defaultHandler place
        { s with nextCalled := true, passed := s.passed ++ [who] }) ∨
    ∃ who, m = .finish who ∧ s' = finish bindings who s := by
  cases m with
  | next who =>
    simp only [Chain.move, Chain.next] at hs
    split_ifs at hs with _ hcalled
    · refine .inl ⟨who, rfl, .inr hcalled, ?_⟩
      cases hplace : s.nextHandler <;> rw [hplace] at hs <;> exact (Option.some.inj hs).symm
    · cases hplace : s.nextHandler with
      | none =>
        rw [hplace] at hs
        exact .inl ⟨who, rfl, .inl hplace, (Option.some.inj hs).symm⟩
      | some place =>
        rw [hplace] at hs
        exact .inr (.inl ⟨who, place, rfl, rfl, Bool.eq_false_iff.2 hcalled,
          (Option.some.inj hs).symm⟩)
  | finish who =>
    simp only [Chain.move] at hs
    split_ifs at hs
    exact .inr (.inr ⟨who, rfl, (Option.some.inj hs).symm⟩)

theorem Counted.move {s' : Chain} {m : Move} (h : Counted bindings s)
    (hs : move bindings defaultHandler s m = some s') : Counted bindings s' := by
  obtain ⟨who, -, -, rfl⟩ | ⟨who, place, -, hplace, hcalled, rfl⟩ | ⟨who, -, rfl⟩ := move_cases hs
  · exact h
  · obtain ⟨rfl, hle⟩ := h.opened place hplace hcalled
    exact Counted.dispatch (s := { s with nextCalled := true, passed := s.passed ++ [who] })
      h.started (.inr rfl) hle
  · unfold finish
    split_ifs
    · exact ⟨h.started, fun place hp => nomatch hp⟩
    · exact ⟨h.started, h.opened⟩

variable {P : Chain → Move → Prop}

theorem Run.counted (h : Run bindings defaultHandler P s) : Counted bindings s := by
  induction h with
  | start => exact Counted.dispatch (s := {}) rfl (.inl rfl) (Nat.zero_le _)
  | move _ _ hs ih => exact ih.move hs

theorem filterMap_range_getElem? {α : Type*} (xs : List α) :
    ∀ n, (List.range n).filterMap (fun i => xs[i]?) = xs.take n
  | 0 => by simp
  | n + 1 => by
    rw [List.range_succ, List.filterMap_append, filterMap_range_getElem? xs n, List.take_add_one]
    cases hx : xs[n]? <;> simp [hx]

/-- Whatever the handlers do, they are started in order. -/
theorem started_in_order (hb : bindings.Pairwise HookBinding.Precedes)
    (h : Run bindings defaultHandler P s) : InOrder bindings s := by
  obtain ⟨hrange, -⟩ := h.counted
  constructor
  · rw [hrange, filterMap_range_getElem?]
    exact hb.sublist (List.take_sublist _ _)
  · rw [hrange]
    exact List.nodup_range
  · rw [hrange]
    exact fun j hj i hi => List.mem_range.2 (hi.trans (List.mem_range.1 hj))

/-! ## Handlers that wait for those they start -/

/-- `k` handlers were started, the first `r` of them are running and the first `p` got through
`next()`. Either the chain is done, or the handler at place `p` is the last one and has not
called yet; it still can while it is running. -/
structure Nested (bindings : List (HookBinding ε η)) (defaultHandler : Option η) (s : Chain)
    (k r p : ℕ) : Prop where
  started : s.started = List.range k
  running : s.running = List.range r
  passed : s.passed = List.range p
  stage : (p = bindings.length ∧ k = p + (if defaultHandler.isSome then 1 else 0) ∧ s.Closed) ∨
    (p < bindings.length ∧ k = p + 1 ∧
      (s.Closed ∨ r = k ∧ s.nextHandler = some k ∧ s.nextCalled = false))

theorem Nested.dispatch (defaultHandler : Option η) (hstarted : s.started = List.range p)
    (hrunning : s.running = List.range p) (hpassed : s.passed = List.range p) (hs : s.Closed)
    (hle : p ≤ bindings.length) :
    ∃ k r, Nested bindings defaultHandler (dispatch bindings defaultHandler p s) k r p := by
  have hgrow : ∀ {l : List ℕ}, l = List.range p → l ++ [p] = List.range (p + 1) := by
    rintro _ rfl
    exact List.range_succ.symm
  unfold Chain.dispatch
  split
  case h_1 hnone =>
    obtain rfl : p = bindings.length := le_antisymm hle (List.getElem?_eq_none_iff.1 hnone)
    cases defaultHandler with
    | none => exact ⟨_, _, hstarted, hrunning, hpassed, .inl ⟨rfl, rfl, hs⟩⟩
    | some _ => exact ⟨_, _, hgrow hstarted, hgrow hrunning, hpassed, .inl ⟨rfl, rfl, hs⟩⟩
  case h_2 b hb =>
    obtain ⟨hlt, -⟩ := List.getElem?_eq_some_iff.1 hb
    exact ⟨_, _, hgrow hstarted, hgrow hrunning, hpassed, .inr ⟨hlt, rfl, .inr ⟨rfl, rfl, rfl⟩⟩⟩

/-- The last of those that are running. -/
theorem Nested.last {who : ℕ} (h : Nested bindings defaultHandler s k r p)
    (hwho : who ∈ s.running ∧ ∀ j ∈ s.running, j ≤ who) : r = who + 1 := by
  rw [h.running] at hwho
  obtain ⟨hmem, hmax⟩ := hwho
  have hlt := List.mem_range.1 hmem
  have hle := hmax (r - 1) (List.mem_range.2 (by omega))
  omega

theorem erase_range_succ (n : ℕ) : (List.range (n + 1)).erase n = List.range n := by
  have hnot : n ∉ List.range n := fun h => lt_irrefl n (List.mem_range.1 h)
  rw [List.range_succ, List.erase_append_right _ hnot, List.erase_cons_head, List.append_nil]

theorem Nested.finish {who : ℕ} (h : Nested bindings defaultHandler s k r p)
    (hwho : who ∈ s.running ∧ ∀ j ∈ s.running, j ≤ who) :
    Nested bindings defaultHandler (finish bindings who s) k who p := by
  obtain rfl := h.last hwho
  have hrunning : s.running.erase who = List.range who := by
    rw [h.running, erase_range_succ]
  unfold Chain.finish
  split_ifs with hlt
  · refine ⟨h.started, hrunning, h.passed, ?_⟩
    exact h.stage.imp (fun hdone => ⟨hdone.1, hdone.2.1, .inl rfl⟩)
      fun hlast => ⟨hlast.1, hlast.2.1, .inl (.inl rfl)⟩
  · refine ⟨h.started, hrunning, h.passed, ?_⟩
    rcases h.stage with hdone | ⟨hp, hk, hclosed | ⟨hr, -⟩⟩
    · exact .inl hdone
    · exact .inr ⟨hp, hk, .inl hclosed⟩
    · omega

theorem Nested.move {s' : Chain} {m : Move} (h : Nested bindings defaultHandler s k r p)
    (hm : Innermost s m) (hs : move bindings defaultHandler s m = some s') :
    ∃ k r p, Nested bindings defaultHandler s' k r p := by
  obtain ⟨who, -, -, rfl⟩ | ⟨who, place, rfl, hplace, hcalled, rfl⟩ | ⟨who, rfl, rfl⟩ :=
    move_cases hs
  · exact ⟨k, r, p, h⟩
  · have hlast := h.last hm
    rcases h.stage with ⟨-, -, hclosed⟩ | ⟨hp, rfl, hclosed | ⟨rfl, hnext, -⟩⟩
    · exact (hclosed.not_open hplace hcalled).elim
    · exact (hclosed.not_open hplace hcalled).elim
    · obtain rfl : place = p + 1 := Option.some.inj (hplace.symm.trans hnext)
      obtain rfl : p = who := Nat.succ.inj hlast
      have hpassed : s.passed ++ [p] = List.range (p + 1) := by rw [h.passed, List.range_succ]
      obtain ⟨k, r, hnested⟩ := Nested.dispatch defaultHandler
        (s := { s with nextCalled := true, passed := s.passed ++ [p] })
        h.started h.running hpassed (.inr rfl) hp
      exact ⟨k, r, p + 1, hnested⟩
  · exact ⟨k, who, p, h.finish hm⟩

theorem Run.nested (h : Run bindings defaultHandler Innermost s) :
    ∃ k r p, Nested bindings defaultHandler s k r p := by
  induction h with
  | start =>
    obtain ⟨k, r, hnested⟩ := Nested.dispatch defaultHandler (s := {}) rfl rfl rfl (.inl rfl)
      bindings.length.zero_le
    exact ⟨k, r, 0, hnested⟩
  | move _ hm hs ih =>
    obtain ⟨k, r, p, hnested⟩ := ih
    exact hnested.move hm hs

theorem count_range (n i : ℕ) : (List.range n).count i = if i < n then 1 else 0 := by
  split_ifs with hi
  · exact List.count_eq_one_of_mem List.nodup_range (List.mem_range.2 hi)
  · exact List.count_eq_zero_of_not_mem fun hmem => hi (List.mem_range.1 hmem)

theorem Nested.completes (h : Nested bindings defaultHandler s k r p) :
    bindings.length ∈ s.started ↔
      defaultHandler.isSome ∧ ∀ i < bindings.length, s.passed.count i = 1 := by
  rw [h.started, h.passed, List.mem_range]
  rcases h.stage with ⟨rfl, hk, -⟩ | ⟨hp, hk, -⟩
  · have hall : ∀ i < bindings.length, (List.range bindings.length).count i = 1 :=
      fun i hi => by rw [count_range, if_pos hi]
    cases defaultHandler with
    | none => simp at hk ⊢; omega
    | some _ => exact iff_of_true (by simp [hk]) ⟨rfl, hall⟩
  · refine iff_of_false (by omega) fun hpassed => ?_
    have hcount := hpassed.2 p hp
    rw [count_range, if_neg (lt_irrefl p)] at hcount
    exact Nat.zero_ne_one hcount

/-- One run of the handlers of an event, in which a handler calls `next()` or returns only while
no handler started after it is still running. -/
theorem chain_disciplined (h : Hook ε η) (event : ε) (defaultHandler : Option η)
    (hrun : Run (h.orderedBindings event) defaultHandler Innermost s) :
    Disciplined (h.orderedBindings event) defaultHandler s := by
  have horder := started_in_order (h.pairwise_orderedBindings event) hrun
  obtain ⟨k, r, p, hnested⟩ := hrun.nested
  exact ⟨horder, hnested.completes⟩

/-! ## Two handlers -/

/-- Two handlers, the second one before the first. -/
def twoHandlers : Hook Unit String :=
  ((Hook.new "record_view_request").bind "log" none 0 none).bind "check" none 10 none

theorem exists_twoHandlers : ∃ a b, twoHandlers.orderedBindings () = [a, b] := by
  refine List.length_eq_two.1 ?_
  rw [Hook.orderedBindings, List.length_mergeSort]
  rfl

/-- Both handlers call `next()`, and the default handler runs. -/
theorem two_calls_complete : ∃ s, s.started = [0, 1, 2] ∧ s.passed = [0, 1] ∧
    Disciplined (twoHandlers.orderedBindings ()) (some "view") s := by
  obtain ⟨a, b, hab⟩ := exists_twoHandlers
  have hfirst : Run [a, b] (some "view") Innermost ⟨some 1, false, [0], [0], []⟩ := .start
  have hsecond : Run [a, b] (some "view") Innermost ⟨some 2, false, [0, 1], [0, 1], [0]⟩ :=
    hfirst.move (m := .next 0) ⟨by simp, by simp⟩ rfl
  have hthird : Run [a, b] (some "view") Innermost
      ⟨some 2, true, [0, 1, 2], [0, 1, 2], [0, 1]⟩ :=
    hsecond.move (m := .next 1) ⟨by simp, by simp⟩ rfl
  exact ⟨_, rfl, rfl, chain_disciplined twoHandlers () (some "view") (hab ▸ hthird)⟩

/-- The first handler calls `next()` twice at once. The second handler has not called it when the
default handler runs. -/
theorem concurrent_calls_skip : ∃ s,
    Run (twoHandlers.orderedBindings ()) (some "view") (fun _ _ => True) s ∧
      s.started = [0, 1, 2] ∧ s.passed = [0, 0] ∧
        ¬Disciplined (twoHandlers.orderedBindings ()) (some "view") s := by
  obtain ⟨a, b, hab⟩ := exists_twoHandlers
  have hfirst : Run [a, b] (some "view") (fun _ _ => True) ⟨some 1, false, [0], [0], []⟩ := .start
  have hsecond : Run [a, b] (some "view") (fun _ _ => True)
      ⟨some 2, false, [0, 1], [0, 1], [0]⟩ := hfirst.move (m := .next 0) trivial rfl
  have hthird : Run [a, b] (some "view") (fun _ _ => True)
      ⟨some 2, true, [0, 1, 2], [0, 1, 2], [0, 0]⟩ := hsecond.move (m := .next 0) trivial rfl
  refine ⟨_, hab ▸ hthird, rfl, rfl, fun h => ?_⟩
  have hcount := (h.completes.1 (by simp [hab])).2 1 (by simp [hab])
  exact absurd hcount (by decide)

end Chain

end PPBase
