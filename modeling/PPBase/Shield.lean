import Mathlib.Algebra.BigOperators.Group.Finset.Basic
import Mathlib.Algebra.Order.BigOperators.Group.Finset
import Mathlib.Data.Prod.Lex
import Mathlib.Data.Set.Insert
import Mathlib.Logic.Relation

/-!
# Tasks that await threads

A task starts threads and awaits each behind a shield : it may be cancelled wherever it waits, any
number of times, and the thread goes on. `Tracks` names the threads that may still run at each
place of the task; a task whose last place has none of them has no thread left when it stops
(`Tracks.settled`). `Ranked` bounds a run : every step but a cancellation that leads nowhere makes
the rank smaller, so that the task can still stop wherever a run has come (`Ranked.exists_stop`).
-/

universe u v w

namespace PPBase

namespace Shield

/-- The threads of a task, by their names : the places of each in its work, and how it may end. -/
structure Threads (σ : Type u) (W : Type v) where
  Place : W → Type u
  Outcome : W → Type u
  work : (w : W) → Place w → σ → Place w → σ → Prop
  outcome : (w : W) → Place w → Option (Outcome w)

variable {σ P : Type u} {W : Type v} {ι : Type w} {T : Threads σ W}

/-- What a task does at a place. -/
inductive Act (T : Threads σ W) (P : Type u)
  | spawn (w : W) (t : T.Place w) (next : P)
  /-- `await asyncio.shield(w)` -/
  | await (w : W) (resume : T.Outcome w → P) (cancelled : P)
  | stop

structure Config (T : Threads σ W) (P : Type u) where
  pc : P
  threads : (w : W) → Option (T.Place w)
  world : σ

variable [DecidableEq W]

/-- A step of the task or of one of its threads. -/
inductive Step (act : P → Act T P) : Config T P → Config T P → Prop
  | spawn {c : Config T P} {w : W} {t : T.Place w} {next : P} (h : act c.pc = .spawn w t next) :
    Step act c { c with pc := next, threads := Function.update c.threads w (some t) }
  | resume {c : Config T P} {w : W} {resume : T.Outcome w → P} {cancelled : P} {t : T.Place w}
      {o : T.Outcome w} (h : act c.pc = .await w resume cancelled) (ht : c.threads w = some t)
      (ho : T.outcome w t = some o) :
    Step act c { c with pc := resume o }
  | cancel {c : Config T P} {w : W} {resume : T.Outcome w → P} {cancelled : P}
      (h : act c.pc = .await w resume cancelled) :
    Step act c { c with pc := cancelled }
  | work {c : Config T P} (w : W) {t : T.Place w} (t' : T.Place w) {s' : σ} (ht : c.threads w = some t)
      (ho : T.outcome w t = none) (h : T.work w t c.world t' s') :
    Step act c { c with threads := Function.update c.threads w (some t'), world := s' }

/-- Every order of steps. -/
abbrev Run (act : P → Act T P) : Config T P → Config T P → Prop := Relation.ReflTransGen (Step act)

variable {act : P → Act T P} {c c' : Config T P}

/-- What every step keeps holds after every run. -/
theorem Run.invariant {I : Config T P → Prop} (h : Run act c c')
    (hstep : ∀ {c c'}, I c → Step act c c' → I c') (hc : I c) : I c' := by
  induction h with
  | refl => exact hc
  | tail _ hlast ih => exact hstep ih hlast

variable {w w' : W}

/-- A thread that works was there. -/
theorem update_eq_none {t t' : T.Place w} (ht : c.threads w = some t) (h : c.threads w' = none) :
    Function.update c.threads w (some t') w' = none := by
  rw [Function.update_of_ne, h]
  rintro rfl
  exact absurd (ht.symm.trans h) nofun

theorem update_ne_none {t' : T.Place w} (h : c.threads w' ≠ none) :
    Function.update c.threads w (some t') w' ≠ none := by
  rcases eq_or_ne w' w with rfl | hne
  · rw [Function.update_self]
    exact nofun
  · rw [Function.update_of_ne hne]
    exact h

/-- A thread has ended, and how. -/
def Ended (c : Config T P) (w : W) (o : T.Outcome w) : Prop :=
  ∃ t, c.threads w = some t ∧ T.outcome w t = some o

/-- A thread that has ended stays so while another works. -/
theorem Ended.work {o : T.Outcome w} (h : Ended c w o) {t t' : T.Place w'} (s' : σ)
    (ht : c.threads w' = some t) (ho : T.outcome w' t = none) :
    Ended { c with threads := Function.update c.threads w' (some t'), world := s' } w o := by
  obtain ⟨u, hu, hou⟩ := h
  refine ⟨u, (Function.update_of_ne ?_ _ _).trans hu, hou⟩
  rintro rfl
  obtain rfl := Option.some.inj (hu.symm.trans ht)
  exact absurd (hou.symm.trans ho) nofun

theorem Ended.spawn {o : T.Outcome w} (h : Ended c w o) (t : T.Place w') (next : P) (hne : w ≠ w') :
    Ended { c with pc := next, threads := Function.update c.threads w' (some t) } w o := by
  obtain ⟨u, hu, hou⟩ := h
  exact ⟨u, (Function.update_of_ne hne _ _).trans hu, hou⟩

/-! ## The threads that may still run -/

/-- `live` has the threads that may still run at a place of the task. -/
structure Tracks (act : P → Act T P) (live : P → Set W) : Prop where
  spawn : ∀ {p w t next}, act p = .spawn w t next → w ∉ live p ∧ insert w (live p) ⊆ live next
  resume : ∀ {p w resume cancelled}, act p = .await w resume cancelled →
    ∀ o, live p \ {w} ⊆ live (resume o)
  cancel : ∀ {p w resume cancelled}, act p = .await w resume cancelled → live p ⊆ live cancelled
  stop : ∀ {p}, act p = .stop → live p = ∅

/-- All other threads have ended. -/
def Settled (live : P → Set W) (c : Config T P) : Prop :=
  ∀ w t, c.threads w = some t → T.outcome w t = none → w ∈ live c.pc

variable {live : P → Set W}

theorem Tracks.step (h : Tracks act live) (hc : Settled live c) (hstep : Step act c c') :
    Settled live c' := by
  cases hstep with
  | @spawn w t next hact =>
    intro w' t' ht' ho
    rcases eq_or_ne w' w with rfl | hne
    · exact (h.spawn hact).2 (Set.mem_insert _ _)
    · have ht : c.threads w' = some t' := (Function.update_of_ne hne _ _).symm.trans ht'
      exact (h.spawn hact).2 (Set.mem_insert_of_mem _ (hc w' t' ht ho))
  | @resume w resume cancelled t o hact ht ho =>
    intro w' t' ht' ho'
    refine h.resume hact o ⟨hc w' t' ht' ho', ?_⟩
    -- The thread that is awaited has ended.
    rintro rfl
    obtain rfl := Option.some.inj (ht.symm.trans ht')
    exact absurd (ho.symm.trans ho') nofun
  | cancel hact =>
    intro w t ht ho
    exact h.cancel hact (hc w t ht ho)
  | @work w t t' s' ht ho hwork =>
    intro w' u hu ho'
    rcases eq_or_ne w' w with rfl | hne
    · exact hc w' t ht ho
    · exact hc w' u ((Function.update_of_ne hne _ _).symm.trans hu) ho'

/-- A task that stops leaves no thread running. -/
theorem Tracks.settled (h : Tracks act live) (hc : Settled live c) (hrun : Run act c c')
    (hstop : act c'.pc = .stop) :
    ∀ w t, c'.threads w = some t → ∃ o, T.outcome w t = some o := by
  intro w t ht
  have hsettled : Settled live c' := hrun.invariant (fun hc hstep => h.step hc hstep) hc
  cases ho : T.outcome w t with
  | some o => exact ⟨o, rfl⟩
  | none =>
    have hmem := hsettled w t ht ho
    rw [h.stop hstop] at hmem
    exact hmem.elim

/-! ## Runs end -/

/-- Every step leads to a smaller rank or nowhere, and before the task stops there is one that
leads on. `inv` is what the argument needs of the configurations. -/
structure Ranked [LT ι] (act : P → Act T P) (inv : Config T P → Prop) (rank : Config T P → ι) :
    Prop where
  step : ∀ {c c'}, inv c → Step act c c' → inv c' ∧ (c' = c ∨ rank c' < rank c)
  next : ∀ {c}, inv c → act c.pc ≠ .stop → ∃ c', Step act c c' ∧ rank c' < rank c

variable [LT ι] {inv : Config T P → Prop} {rank : Config T P → ι}

variable [WellFoundedLT ι]

/-- Wherever a run has come, the task can still stop. -/
theorem Ranked.exists_stop (h : Ranked act inv rank) {c : Config T P} (hc : inv c) :
    ∃ c', Run act c c' ∧ act c'.pc = .stop := by
  induction hn : rank c using WellFoundedLT.induction generalizing c with
  | _ n ih =>
    by_cases hstop : act c.pc = .stop
    · exact ⟨c, .refl, hstop⟩
    · obtain ⟨c₁, hstep, hlt⟩ := h.next hc hstop
      obtain ⟨c', hrun, hend⟩ := ih (rank c₁) (hn ▸ hlt) (h.step hc hstep).1 rfl
      exact ⟨c', .head hstep hrun, hend⟩

/-- The task goes forward from place to place. A cancellation may lead back to where it is. -/
structure Forward (act : P → Act T P) (rank : P → ℕ) : Prop where
  spawn : ∀ {p w t next}, act p = .spawn w t next → rank next < rank p
  resume : ∀ {p w resume cancelled}, act p = .await w resume cancelled → ∀ o, rank (resume o) < rank p
  cancel : ∀ {p w resume cancelled}, act p = .await w resume cancelled →
    cancelled = p ∨ rank cancelled < rank p

/-- Some thread that has not ended can take a step. -/
def CanWork (c : Config T P) : Prop :=
  ∃ w t t' s', c.threads w = some t ∧ T.outcome w t = none ∧ T.work w t c.world t' s'

variable [Fintype W]

/-- The places of the task first, the work of its threads after them. -/
def ranking (rank : P → ℕ) (place : (w : W) → T.Place w → ℕ) (c : Config T P) : ℕ ×ₗ ℕ :=
  toLex (rank c.pc, ∑ w, (c.threads w).elim 0 (place w))

omit [DecidableEq W] in
theorem ranking_lt_of_pc {rank : P → ℕ} (place : (w : W) → T.Place w → ℕ)
    (h : rank c'.pc < rank c.pc) : ranking rank place c' < ranking rank place c :=
  Prod.Lex.toLex_lt_toLex.2 (.inl h)

theorem ranking_work (rank : P → ℕ) {place : (w : W) → T.Place w → ℕ} {t t' : T.Place w} (s' : σ)
    (ht : c.threads w = some t) (h : place w t' < place w t) :
    ranking rank place { c with threads := Function.update c.threads w (some t'), world := s' } <
      ranking rank place c := by
  refine Prod.Lex.toLex_lt_toLex.2 (.inr ⟨rfl, Finset.sum_lt_sum ?_ ⟨w, Finset.mem_univ w, ?_⟩⟩)
  · intro w' _
    dsimp only
    rcases eq_or_ne w' w with rfl | hne
    · rw [Function.update_self, ht]
      exact h.le
    · rw [Function.update_of_ne hne]
  · dsimp only
    rw [Function.update_self, ht]
    exact h

/-- A task that goes forward, with threads that do so too, ends if an awaited thread is there and
something can go on while it has not ended. -/
theorem Forward.ranked {rank : P → ℕ} (hp : Forward act rank) (place : (w : W) → T.Place w → ℕ)
    (hplace : ∀ w t s t' s', T.work w t s t' s' → place w t' < place w t)
    (hinv : ∀ {c c'}, inv c → Step act c c' → inv c')
    (hnext : ∀ {c w resume cancelled}, inv c → act c.pc = .await w resume cancelled →
      ∃ t, c.threads w = some t ∧ (T.outcome w t = none → CanWork c)) :
    Ranked act inv (ranking rank place) where
  step := by
    intro c c' hc hstep
    refine ⟨hinv hc hstep, ?_⟩
    cases hstep with
    | spawn hact => exact .inr (ranking_lt_of_pc place (hp.spawn hact))
    | @resume w resume cancelled t o hact ht ho =>
      exact .inr (ranking_lt_of_pc place (hp.resume hact o))
    | @cancel w resume cancelled hact =>
      rcases hp.cancel hact with heq | hlt
      · refine .inl ?_
        rw [heq]
      · exact .inr (ranking_lt_of_pc place hlt)
    | @work w t t' s' ht ho hwork =>
      exact .inr (ranking_work rank s' ht (hplace w t _ t' s' hwork))
  next := by
    intro c hc hstop
    cases hact : act c.pc with
    | spawn w t next => exact ⟨_, .spawn hact, ranking_lt_of_pc place (hp.spawn hact)⟩
    | await w resume cancelled =>
      obtain ⟨t, ht, hwork⟩ := hnext hc hact
      cases ho : T.outcome w t with
      | some o => exact ⟨_, .resume hact ht ho, ranking_lt_of_pc place (hp.resume hact o)⟩
      | none =>
        obtain ⟨w', u, u', s', hu, ho', h⟩ := hwork ho
        exact ⟨_, .work w' u' hu ho' h, ranking_work rank s' hu (hplace w' u _ u' s' h)⟩
    | stop => exact absurd hact hstop

end Shield

end PPBase
