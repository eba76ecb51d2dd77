import PPBase.OperationLeases

/-!
# What leases keep

`Checks` reads a list of instructions for the leases that they need, and for what is known of the
archive of the task where they report. It holds of the scripts of all operations and of what is left
after a failure. A task that was checked keeps what is known to it, because nobody else has a lease
to change that (`Inv`). So in every reachable state

* no two tasks may change archives of one directory, and locks are the leases of the tasks that are
  there (`leases_exclusive`)
* while a task has the lease on `data_dir` nobody else changes the archives (`frozen_while_leased`)
* an archive that was published and is being read is there (`pinned_kept`)
* what an operation reports is the case (`report_holds`)
-/

namespace PPBase

namespace OperationLeases

open Leases

variable {ι κ β : Type}

/-! ## Instructions that are checked -/

/-- What a task knows of the archive at its key. -/
inductive Known (β : Type)
  | nothing | absent | present
  /-- The task has linked it, and did not publish it. -/
  | linked (content : β)
  | stored (content : β)

/-- What is there when an instruction is to be done. -/
structure Ctx (β : Type) where
  leases : List (Target × Mode)
  known : Known β
  pinned : Bool

def Ctx.Mutates (Γ : Ctx β) : Prop := (Target.data, Mode.exclusive) ∈ Γ.leases

instance (Γ : Ctx β) : Decidable Γ.Mutates := inferInstanceAs (Decidable (_ ∈ _))

/-- What has to be known for a report. -/
def Outcome.Follows (Γ : Ctx β) : Outcome β → Prop
  | .stored content => Γ.known = .stored content
  | .deleted => Γ.known = .absent
  | .resolved => Γ.known = .present
  | .served => Γ.pinned = true

def Instr.Allowed (Γ : Ctx β) : Instr β → Prop
  | .acquire target _ => target ∉ Γ.leases.map Prod.fst
  | .verify | .require | .refuse | .unpin => True
  | .link _ => Γ.Mutates
  | .publish => ∃ content, Γ.known = .linked content
  | .unlink => Γ.Mutates ∧ (Target.backups, Mode.exclusive) ∈ Γ.leases ∧ Γ.pinned = false
  | .pin => ∃ mode, (Target.backups, mode) ∈ Γ.leases
  | .report o => o.Follows Γ
  | .release => Γ.leases ≠ [] ∧ Γ.pinned = false

/-- What is there after it. -/
def Instr.next (Γ : Ctx β) : Instr β → Ctx β
  | .acquire target mode => { Γ with leases := (target, mode) :: Γ.leases }
  | .require => { Γ with known := if Γ.Mutates then .present else .nothing }
  | .refuse => { Γ with known := if Γ.Mutates then .absent else .nothing }
  | .link content => { Γ with known := .linked content }
  | .publish =>
    match Γ.known with
    | .linked content => { Γ with known := .stored content }
    | _ => Γ
  | .unlink => { Γ with known := .absent }
  | .pin => { Γ with pinned := true }
  | .unpin => { Γ with pinned := false }
  | .release => { Γ with leases := Γ.leases.tail, known := .nothing }
  | .verify | .report _ => Γ

/-- Every instruction has the leases it needs, and in the end all are released. -/
def Checks : Ctx β → List (Instr β) → Prop
  | Γ, [] => Γ.leases = [] ∧ Γ.pinned = false
  | Γ, x :: xs => x.Allowed Γ ∧ Checks (x.next Γ) xs

theorem checks_script (job : Job β) : Checks ⟨[], .nothing, false⟩ job.script := by
  cases job with
  | create named content =>
    cases named <;>
      simp [Job.script, Checks, Instr.Allowed, Instr.next, Ctx.Mutates, Outcome.Follows]
  | _ => simp [Job.script, Checks, Instr.Allowed, Instr.next, Ctx.Mutates, Outcome.Follows]

theorem checks_releases (leases : List (Target × Mode)) (known : Known β) :
    Checks ⟨leases, known, false⟩ (leases.map fun _ => .release) := by
  induction leases generalizing known with
  | nil => exact ⟨rfl, rfl⟩
  | cons l leases ih => exact ⟨⟨List.cons_ne_nil _ _, rfl⟩, ih _⟩

theorem Task.checks_unwind (t : Task κ β) (known : Known β) :
    Checks ⟨t.leases, known, t.pinned.isSome⟩ t.unwind := by
  unfold Task.unwind
  cases t.pinned.isSome with
  | true => exact ⟨trivial, checks_releases _ _⟩
  | false => exact checks_releases _ _

/-! ## The invariant -/

/-- What is known to a task is the case. -/
def Known.Holds (σ : Store κ β) (t : Task κ β) : Known β → Prop
  | .nothing => True
  | .absent => σ.archives t.root t.key = none
  | .present => ∃ e, σ.archives t.root t.key = some e
  | .linked content =>
    ∃ e, σ.archives t.root t.key = some e ∧ e.content = content ∧ e.inode ∉ σ.published
  | .stored content => ∃ e, σ.archives t.root t.key = some e ∧ e.content = content

/-- A file that was removed again before it was published. -/
structure Withdrawn (σ : Store κ β) (e : Entry β) : Prop where
  old : e.inode < σ.next
  unpublished : e.inode ∉ σ.published
  gone : ∀ {r k e'}, σ.archives r k = some e' → e'.inode ≠ e.inode

/-- What a task reads is in the directory, unless it was never published. -/
def Kept (σ : Store κ β) (t : Task κ β) (e : Entry β) : Prop :=
  σ.archives t.root t.key = some e ∨ Withdrawn σ e

structure Task.Sound (σ : Store κ β) (t : Task κ β) : Prop where
  checks : ∃ known : Known β, known.Holds σ t ∧ (known = .nothing ∨ t.Mutates) ∧
    Checks ⟨t.leases, known, t.pinned.isSome⟩ t.rest
  pinned : ∀ e, t.pinned = some e → (∃ mode, (Target.backups, mode) ∈ t.leases) ∧ Kept σ t e

/-- The leases of a task, by their directories. -/
def Task.held (t : Task κ β) : List (Dir × Mode) := t.leases.map fun l => (t.root.dir l.1, l.2)

def State.leases (s : State ι κ β) (i : ι) : List (Dir × Mode) := (s.tasks i).elim [] Task.held

/-- Inodes are not used again. -/
structure Store.Fresh (σ : Store κ β) : Prop where
  archives : ∀ {r k e}, σ.archives r k = some e → e.inode < σ.next
  published : ∀ x ∈ σ.published, x < σ.next
  unique : ∀ {r k e r' k' e'}, σ.archives r k = some e → σ.archives r' k' = some e' →
    e.inode = e'.inode → r = r' ∧ k = k'

structure Inv (s : State ι κ β) : Prop where
  agrees : Agrees s.locks s.leases
  sound : ∀ {i t}, s.tasks i = some t → t.Sound s.toStore
  fresh : s.Fresh

variable {s s' : State ι κ β} {i j : ι} {t t' u u' v : Task κ β} {e : Entry β}

theorem Initial.inv (h : Initial s) : Inv s := by
  refine ⟨?_, fun {i _} hi => absurd (hi.symm.trans (h.tasks i)) nofun, ?_, h.fresh, h.unique⟩
  · have hleases : s.leases = fun _ => [] := funext fun i => by rw [State.leases, h.tasks i]; rfl
    rw [hleases, h.locks]
    exact .nil
  · exact fun he => h.fresh _ (h.published _ _ _ he)

theorem leases_of_task (hi : s.tasks i = some t) : s.leases i = t.held := by
  rw [State.leases, hi]
  rfl

/-- No two tasks may change the archives of one directory. -/
theorem Inv.eq_of_mutates (h : Inv s) (hi : s.tasks i = some t) (hj : s.tasks j = some v)
    (ht : t.Mutates) (hv : v.Mutates) (hroot : t.root.data = v.root.data) : i = j := by
  refine h.agrees.exclusive (d := .data t.root.data) (m := .exclusive) ?_ ?_
  · rw [leases_of_task hi]
    exact List.mem_map.2 ⟨_, ht, rfl⟩
  · rw [leases_of_task hj, hroot]
    exact List.mem_map.2 ⟨_, hv, rfl⟩

theorem Inv.root_ne (h : Inv s) (hi : s.tasks i = some t) (hj : s.tasks j = some v) (hne : j ≠ i)
    (ht : t.Mutates) (hv : v.Mutates) : v.root ≠ t.root :=
  fun hroot => hne (h.eq_of_mutates hj hi hv ht (congrArg Root.data hroot))

/-- A directory in exclusive use is in no other. -/
theorem Inv.root_ne_of_use (h : Inv s) (hi : s.tasks i = some t) (hj : s.tasks j = some v)
    (hne : j ≠ i) (ht : (Target.backups, Mode.exclusive) ∈ t.leases) {mode : Mode}
    (hv : (Target.backups, mode) ∈ v.leases) : v.root ≠ t.root := by
  intro hroot
  refine hne (h.agrees.exclusive (d := .backups t.root) (m := mode) ?_ ?_).symm
  · rw [leases_of_task hi]
    exact List.mem_map.2 ⟨_, ht, rfl⟩
  · rw [leases_of_task hj]
    exact List.mem_map.2 ⟨_, hv, by rw [hroot]; rfl⟩

theorem Inv.exit (h : Inv s) (process : ℕ) :
    Inv { s with
      tasks := fun i => (s.tasks i).filter (·.process ≠ process)
      locks := s.locks.drop fun i => (s.tasks i).any (·.process = process) } := by
  refine ⟨?_, fun hi => h.sound (Option.filter_eq_some_iff.1 hi).1, h.fresh⟩
  have hagrees := h.agrees.drop fun i => (s.tasks i).any (·.process = process)
  refine (congrArg (Agrees _) (funext fun i => ?_)).mp hagrees
  cases hi : s.tasks i with
  | none => simp [State.leases, hi]
  | some t =>
    by_cases hp : t.process = process
    · simp [State.leases, Option.filter, hi, hp]
    · simp [State.leases, Option.filter, hi, hp]

/-- Instructions that change the archives. -/
def Instr.Writes : Instr β → Prop
  | .link _ | .publish | .unlink => True
  | _ => False

variable {xs : List (Instr β)}

/-- Who changes the archives has the lease. -/
theorem Inv.mutates (h : Inv s) (hj : s.tasks j = some u) {x : Instr β} (hu : u.rest = x :: xs)
    (hx : x.Writes) : u.Mutates := by
  obtain ⟨known, -, hmutates, hcheck⟩ := (h.sound hj).checks
  rw [hu] at hcheck
  cases x with
  | link content => exact hcheck.1
  | publish =>
    obtain ⟨content, rfl⟩ := hcheck.1
    exact hmutates.resolve_left nofun
  | unlink => exact hcheck.1.1
  | _ => exact hx.elim

variable [DecidableEq ι]

theorem tasks_setTask_self (s : State ι κ β) (i : ι) (t : Task κ β) :
    (s.setTask i t).tasks i = some t := by simp [State.setTask]

theorem tasks_setTask_of_ne (s : State ι κ β) (t : Task κ β) (h : j ≠ i) :
    (s.setTask i t).tasks j = s.tasks j := by simp [State.setTask, h]

theorem leases_setTask (s : State ι κ β) (i : ι) (t : Task κ β) :
    (s.setTask i t).leases = Function.update s.leases i t.held := by
  funext j
  by_cases hj : j = i
  · subst hj
    simp [State.leases, State.setTask]
  · simp [State.leases, State.setTask, hj]

/-! ## Changes of the archives -/

variable {σ : Store κ β} {r : Root} {k : κ}

theorem Store.Fresh.publish (h : σ.Fresh) (he : σ.archives r k = some e) : (σ.publish e).Fresh := by
  refine ⟨h.archives, fun x hx => ?_, h.unique⟩
  rcases List.mem_cons.1 hx with rfl | hx
  · exact h.archives he
  · exact h.published x hx

theorem Kept.publish (h : Kept σ v e) {e' : Entry β} (he' : σ.archives r k = some e') :
    Kept (σ.publish e') v e := by
  refine h.imp id fun hw => ⟨hw.old, fun hmem => ?_, hw.gone⟩
  rcases List.mem_cons.1 hmem with heq | hmem
  · exact hw.gone he' heq.symm
  · exact hw.unpublished hmem

/-- What a task knows of its directory is not changed with others. -/
theorem Known.Holds.frame {known : Known β} (h : known.Holds σ v) {σ' : Store κ β}
    (harchives : σ'.archives v.root = σ.archives v.root)
    (hpublished : ∀ e, σ.archives v.root v.key = some e → e.inode ∈ σ'.published →
      e.inode ∈ σ.published) : known.Holds σ' v := by
  cases known with
  | nothing => trivial
  | linked content =>
    obtain ⟨e, he, hcontent, hunpublished⟩ := h
    exact ⟨e, harchives ▸ he, hcontent, fun hmem => hunpublished (hpublished e he hmem)⟩
  | _ =>
    simp only [Known.Holds] at h ⊢
    rw [harchives]
    exact h

/-- What a task relies on is kept where another changes the archives. -/
theorem Task.Sound.frame (h : v.Sound σ) {σ' : Store κ β}
    (hkept : ∀ {e m}, (Target.backups, m) ∈ v.leases → Kept σ v e → Kept σ' v e)
    (harchives : v.Mutates → σ'.archives v.root = σ.archives v.root)
    (hpublished : v.Mutates → ∀ e, σ.archives v.root v.key = some e → e.inode ∈ σ'.published →
      e.inode ∈ σ.published) : v.Sound σ' := by
  obtain ⟨known, hknown, hmutates, hcheck⟩ := h.checks
  refine ⟨⟨known, ?_, hmutates, hcheck⟩, fun e he => ?_⟩
  · rcases hmutates with rfl | hmutates
    · trivial
    · exact hknown.frame (harchives hmutates) (hpublished hmutates)
  · obtain ⟨⟨m, hm⟩, he⟩ := h.pinned e he
    exact ⟨⟨m, hm⟩, hkept hm he⟩

/-- A task does something, and what the others rely on is kept. -/
theorem Inv.advance (h : Inv s) (htasks : s'.tasks = s.tasks)
    (hlocks : Agrees s'.locks (Function.update s.leases i u.held)) (hfresh : s'.Fresh)
    (hu : u.Sound s'.toStore)
    (hothers : ∀ {j v}, j ≠ i → s.tasks j = some v → v.Sound s.toStore → v.Sound s'.toStore) :
    Inv (s'.setTask i u) := by
  refine ⟨?_, fun {j v} hj => ?_, hfresh⟩
  · have hleases : s'.leases = s.leases := by
      funext j
      rw [State.leases, State.leases, htasks]
    rw [leases_setTask, hleases]
    exact hlocks
  · by_cases hji : j = i
    · subst hji
      obtain rfl : u = v := Option.some.inj ((tasks_setTask_self s' j u).symm.trans hj)
      exact hu
    · rw [tasks_setTask_of_ne s' u hji, htasks] at hj
      exact hothers hji hj (h.sound hj)

theorem Inv.held_eq (h : Inv s) (hi : s.tasks i = some t) (hu : u.held = t.held) :
    Agrees s.locks (Function.update s.leases i u.held) := by
  rw [hu, ← leases_of_task hi, Function.update_eq_self]
  exact h.agrees

theorem reads_unwind (t : Task κ β) : ∀ x ∈ t.unwind, ¬x.Writes := by
  intro x hx
  rcases List.mem_append.1 hx with hx | hx
  · split_ifs at hx
    · obtain rfl := List.mem_singleton.1 hx
      exact id
    · exact absurd hx List.not_mem_nil
  · obtain ⟨-, -, rfl⟩ := List.mem_map.1 hx
    exact id

/-- A task goes on with what closes all that it has. -/
theorem Task.Sound.unwind (h : t.Sound σ) : Task.Sound σ { t with rest := t.unwind } :=
  ⟨⟨.nothing, trivial, .inl rfl, t.checks_unwind _⟩, h.pinned⟩

variable [DecidableEq κ]

theorem archives_setEntry_ne {r' : Root} (e : Option (Entry β)) (h : r' ≠ r) :
    (σ.setEntry r k e).archives r' = σ.archives r' := Function.update_of_ne h _ _

theorem archives_setEntry_self (e : Option (Entry β)) : (σ.setEntry r k e).archives r k = e := by
  simp [Store.setEntry]

/-- An entry of before, or the new one. -/
theorem archives_setEntry_cases {o : Option (Entry β)} {r' : Root} {k' : κ}
    (h : (σ.setEntry r k o).archives r' k' = some e) :
    (r' = r ∧ k' = k ∧ o = some e) ∨ ((r' ≠ r ∨ k' ≠ k) ∧ σ.archives r' k' = some e) := by
  by_cases hr : r' = r
  · subst hr
    by_cases hk : k' = k
    · subst hk
      rw [archives_setEntry_self] at h
      exact .inl ⟨rfl, rfl, h⟩
    · simp only [Store.setEntry, Function.update_self, Function.update_of_ne hk] at h
      exact .inr ⟨.inr hk, h⟩
  · rw [archives_setEntry_ne _ hr] at h
    exact .inr ⟨.inl hr, h⟩

theorem archives_setEntry_of_some {o : Option (Entry β)} {r' : Root} {k' : κ}
    (h : σ.archives r' k' = some e) (hne : r' ≠ r ∨ k' ≠ k) :
    (σ.setEntry r k o).archives r' k' = some e := by
  by_cases hr : r' = r
  · subst hr
    simp only [Store.setEntry, Function.update_self,
      Function.update_of_ne (hne.resolve_left (not_not_intro rfl)), h]
  · rw [archives_setEntry_ne _ hr, h]

theorem Store.Fresh.remove (h : σ.Fresh) : (σ.setEntry r k none).Fresh := by
  have hold : ∀ {r' k' e}, (σ.setEntry r k none).archives r' k' = some e →
      σ.archives r' k' = some e := fun he => by
    rcases archives_setEntry_cases he with ⟨-, -, hnone⟩ | ⟨-, he⟩
    · cases hnone
    · exact he
  exact ⟨fun he => h.archives (hold he), h.published, fun he he' => h.unique (hold he) (hold he')⟩

theorem Store.Fresh.link (h : σ.Fresh) (content : β) : (σ.link r k content).Fresh := by
  have hlt : ∀ {r' k' e}, σ.archives r' k' = some e → e.inode ≠ σ.next :=
    fun he => Nat.ne_of_lt (h.archives he)
  refine ⟨fun he => ?_, fun x hx => Nat.lt_succ_of_lt (h.published x hx), fun he he' hinode => ?_⟩
  · rcases archives_setEntry_cases he with ⟨-, -, heq⟩ | ⟨-, hold⟩
    · obtain rfl := Option.some.inj heq
      exact Nat.lt_succ_self _
    · exact Nat.lt_succ_of_lt (h.archives hold)
  · rcases archives_setEntry_cases he with ⟨rfl, rfl, heq⟩ | ⟨-, hold⟩
    · obtain rfl := Option.some.inj heq
      rcases archives_setEntry_cases he' with ⟨rfl, rfl, -⟩ | ⟨-, hold'⟩
      · exact ⟨rfl, rfl⟩
      · exact absurd hinode.symm (hlt hold')
    · rcases archives_setEntry_cases he' with ⟨-, -, heq⟩ | ⟨-, hold'⟩
      · obtain rfl := Option.some.inj heq
        exact absurd hinode (hlt hold)
      · exact h.unique hold hold' hinode

theorem Withdrawn.remove (h : Withdrawn σ e) : Withdrawn (σ.setEntry r k none) e := by
  refine ⟨h.old, h.unpublished, fun he => ?_⟩
  rcases archives_setEntry_cases he with ⟨-, -, hnone⟩ | ⟨-, he⟩
  · cases hnone
  · exact h.gone he

theorem Kept.remove (h : Kept σ v e) (hne : v.root ≠ r) : Kept (σ.setEntry r k none) v e :=
  h.imp (fun he => archives_setEntry_of_some he (.inl hne)) Withdrawn.remove

/-- A file that was not published is removed. -/
theorem Kept.withdraw (h : Kept σ v e) (hfresh : σ.Fresh) {e' : Entry β}
    (he' : σ.archives r k = some e') (hunpublished : e'.inode ∉ σ.published) :
    Kept (σ.setEntry r k none) v e := by
  rcases h with he | hwithdrawn
  · by_cases hne : v.root ≠ r ∨ v.key ≠ k
    · exact .inl (archives_setEntry_of_some he hne)
    · simp only [not_or, not_not] at hne
      obtain ⟨rfl, rfl⟩ := hne
      obtain rfl := Option.some.inj (he.symm.trans he')
      refine .inr ⟨hfresh.archives he, hunpublished, fun hother hinode => ?_⟩
      rcases archives_setEntry_cases hother with ⟨-, -, hnone⟩ | ⟨hne, hother⟩
      · cases hnone
      · obtain ⟨rfl, rfl⟩ := hfresh.unique hother he hinode
        exact hne.elim (absurd rfl) (absurd rfl)
  · exact .inr hwithdrawn.remove

theorem Kept.link (h : Kept σ v e) (hnone : σ.archives r k = none) (content : β) :
    Kept (σ.link r k content) v e := by
  refine h.imp (fun he => archives_setEntry_of_some he ?_) fun hw =>
    ⟨Nat.lt_succ_of_lt hw.old, hw.unpublished, fun he => ?_⟩
  · by_contra hne
    simp only [not_or, not_not] at hne
    obtain ⟨rfl, rfl⟩ := hne
    cases he.symm.trans hnone
  · rcases archives_setEntry_cases he with ⟨-, -, heq⟩ | ⟨-, hold⟩
    · obtain rfl := Option.some.inj heq
      exact Nat.ne_of_gt hw.old
    · exact hw.gone hold

/-! ## The invariant is kept -/

theorem Root.dir_injective (r : Root) : Function.Injective r.dir := by
  intro a b h
  cases a <;> cases b <;> first | rfl | cases h

theorem Inv.perform (h : Inv s) (hi : s.tasks i = some t) {x : Instr β} (ht : t.rest = x :: xs)
    (hx : x.perform s i t = some (t', s')) : Inv (s'.setTask i { t' with rest := xs }) := by
  obtain ⟨known, hknown, hmutates, hcheck⟩ := (h.sound hi).checks
  have hpinned := (h.sound hi).pinned
  rw [ht] at hcheck
  obtain ⟨hallowed, hnext⟩ := hcheck
  cases x with
  | acquire target mode =>
    obtain ⟨locks, hlocks, heq⟩ := Option.bind_eq_some_iff.1 hx
    obtain ⟨rfl, rfl⟩ := Prod.mk.inj (Option.some.inj heq)
    refine h.advance rfl ?_ h.fresh ⟨⟨known, hknown, hmutates.imp_right (List.mem_cons_of_mem _), hnext⟩,
      fun e he => ?_⟩ fun _ _ hv => hv
    · have hagrees := h.agrees.acquire hlocks
      rw [leases_of_task hi] at hagrees
      refine hagrees fun hmem => hallowed ?_
      obtain ⟨_, hmem, hdir⟩ := List.mem_map.1 hmem
      obtain ⟨l, hl, rfl⟩ := List.mem_map.1 hmem
      rw [← t.root.dir_injective hdir]
      exact List.mem_map_of_mem hl
    · obtain ⟨⟨m, hm⟩, hkept⟩ := hpinned e he
      exact ⟨⟨m, List.mem_cons_of_mem _ hm⟩, hkept⟩
  | verify | report o =>
    simp only [Instr.perform] at hx
    split_ifs at hx
    obtain ⟨rfl, rfl⟩ := Prod.mk.inj (Option.some.inj hx)
    exact h.advance rfl (h.held_eq hi rfl) h.fresh ⟨⟨known, hknown, hmutates, hnext⟩, hpinned⟩
      fun _ _ hv => hv
  | require =>
    simp only [Instr.perform] at hx
    split_ifs at hx with hsome
    obtain ⟨rfl, rfl⟩ := Prod.mk.inj (Option.some.inj hx)
    refine h.advance rfl (h.held_eq hi rfl) h.fresh ⟨⟨_, ?_, ?_, hnext⟩, hpinned⟩ fun _ _ hv => hv
    · split_ifs
      · exact Option.isSome_iff_exists.1 hsome
      · trivial
    · split_ifs with hlease
      · exact .inr hlease
      · exact .inl rfl
  | refuse =>
    simp only [Instr.perform] at hx
    split_ifs at hx with hsome
    obtain ⟨rfl, rfl⟩ := Prod.mk.inj (Option.some.inj hx)
    refine h.advance rfl (h.held_eq hi rfl) h.fresh ⟨⟨_, ?_, ?_, hnext⟩, hpinned⟩ fun _ _ hv => hv
    · split_ifs
      · exact Option.not_isSome_iff_eq_none.1 hsome
      · trivial
    · split_ifs with hlease
      · exact .inr hlease
      · exact .inl rfl
  | link content =>
    simp only [Instr.perform] at hx
    split_ifs at hx with hsome
    obtain ⟨rfl, rfl⟩ := Prod.mk.inj (Option.some.inj hx)
    have hnone := Option.not_isSome_iff_eq_none.1 hsome
    refine h.advance rfl (h.held_eq hi rfl) (h.fresh.link content) ⟨⟨_, ?_, .inr hallowed, hnext⟩,
      fun e he => (hpinned e he).imp_right fun hkept => hkept.link hnone content⟩ fun hne hj hv => ?_
    · exact ⟨_, archives_setEntry_self _, rfl, fun hmem => Nat.lt_irrefl _ (h.fresh.published _ hmem)⟩
    · exact hv.frame (fun _ hkept => hkept.link hnone content)
        (fun hlease => archives_setEntry_ne _ (h.root_ne hi hj hne hallowed hlease))
        fun _ _ _ hmem => hmem
  | publish =>
    obtain ⟨e', he', heq⟩ := Option.map_eq_some_iff.1 hx
    obtain ⟨rfl, rfl⟩ := Prod.mk.inj heq
    obtain ⟨content, rfl⟩ := hallowed
    have hlease := hmutates.resolve_left nofun
    obtain ⟨e, he, hcontent, -⟩ := hknown
    refine h.advance rfl (h.held_eq hi rfl) (h.fresh.publish he')
      ⟨⟨.stored content, ⟨e, he, hcontent⟩, .inr hlease, hnext⟩,
        fun e he => (hpinned e he).imp_right fun hkept => hkept.publish he'⟩ fun hne hj hv => ?_
    refine hv.frame (fun _ hkept => hkept.publish he') (fun _ => rfl) fun hother e he hmem =>
      (List.mem_cons.1 hmem).resolve_left fun hinode => ?_
    exact h.root_ne hi hj hne hlease hother (h.fresh.unique he he' hinode).1
  | unlink =>
    simp only [Instr.perform] at hx
    split_ifs at hx with hsome
    obtain ⟨rfl, rfl⟩ := Prod.mk.inj (Option.some.inj hx)
    obtain ⟨hlease, huse, hunpinned⟩ := hallowed
    refine h.advance rfl (h.held_eq hi rfl) h.fresh.remove
      ⟨⟨.absent, archives_setEntry_self _, .inr hlease, hnext⟩, fun e he => ?_⟩ fun hne hj hv => ?_
    · have hnone : t.pinned = none := by simpa using hunpinned
      exact absurd (hnone.symm.trans he) nofun
    · exact hv.frame (fun hm hkept => hkept.remove (h.root_ne_of_use hi hj hne huse hm))
        (fun hother => archives_setEntry_ne _ (h.root_ne hi hj hne hlease hother))
        fun _ _ _ hmem => hmem
  | pin =>
    obtain ⟨e, he, heq⟩ := Option.map_eq_some_iff.1 hx
    obtain ⟨rfl, rfl⟩ := Prod.mk.inj heq
    refine h.advance rfl (h.held_eq hi rfl) h.fresh
      ⟨⟨known, hknown, hmutates, hnext⟩, fun e' he' => ⟨hallowed, .inl ?_⟩⟩ fun _ _ hv => hv
    obtain rfl := Option.some.inj he'
    exact he
  | unpin =>
    obtain ⟨rfl, rfl⟩ := Prod.mk.inj (Option.some.inj hx)
    exact h.advance rfl (h.held_eq hi rfl) h.fresh ⟨⟨known, hknown, hmutates, hnext⟩, nofun⟩
      fun _ _ hv => hv
  | release =>
    obtain ⟨hleases, hunpinned⟩ := hallowed
    cases hls : t.leases with
    | nil => exact absurd hls hleases
    | cons l leases =>
      rw [Instr.perform, hls] at hx
      obtain ⟨rfl, rfl⟩ := Prod.mk.inj (Option.some.inj hx)
      refine h.advance rfl ?_ h.fresh ⟨⟨.nothing, trivial, .inl rfl, ?_⟩, fun e he => ?_⟩
        fun _ _ hv => hv
      · refine h.agrees.release (m := l.2) ?_
        rw [leases_of_task hi, Task.held, hls]
        rfl
      · simpa only [Instr.next, hls, List.tail_cons] using hnext
      · have hnone : t.pinned = none := by simpa using hunpinned
        exact absurd (hnone.symm.trans he) nofun

theorem Inv.rollback (h : Inv s) (hi : s.tasks i = some t) (ht : t.rest = .publish :: xs) :
    Inv (State.setTask { s with toStore := s.setEntry t.root t.key none } i
      { t with rest := t.unwind }) := by
  obtain ⟨known, hknown, hmutates, hcheck⟩ := (h.sound hi).checks
  rw [ht] at hcheck
  obtain ⟨content, rfl⟩ := hcheck.1
  obtain ⟨e', he', -, hunpublished⟩ := hknown
  have hkept : ∀ {v e}, Kept s.toStore v e → Kept (s.setEntry t.root t.key none) v e :=
    fun hkept => hkept.withdraw h.fresh he' hunpublished
  refine h.advance rfl (h.held_eq hi rfl) h.fresh.remove ⟨⟨.nothing, trivial, .inl rfl, t.checks_unwind _⟩,
    fun e he => ((h.sound hi).pinned e he).imp_right hkept⟩ fun hne hj hv => ?_
  exact hv.frame (fun _ => hkept)
    (fun hother => archives_setEntry_ne _ (h.root_ne hi hj hne (hmutates.resolve_left nofun) hother))
    fun _ _ _ hmem => hmem

theorem Inv.step (h : Inv s) (hstep : Step s s') : Inv s' := by
  cases hstep with
  | start i process root key job hi =>
    have hleases : s.leases i = [] := by rw [State.leases, hi]; rfl
    refine h.advance rfl ?_ h.fresh ⟨⟨.nothing, trivial, .inl rfl, checks_script job⟩, nofun⟩
      fun _ _ hv => hv
    rw [Task.held, List.map_nil, ← hleases, Function.update_eq_self]
    exact h.agrees
  | run hi ht hx => exact h.perform hi ht hx
  | fail hi ht hx =>
    exact h.advance rfl (h.held_eq hi rfl) h.fresh (h.sound hi).unwind fun _ _ hv => hv
  | rollback hi ht => exact h.rollback hi ht
  | exit process => exact h.exit process
  | replace root => exact ⟨h.agrees, h.sound, h.fresh⟩

theorem Reachable.inv (h : Reachable s) : Inv s := by
  obtain ⟨s₀, hinitial, hrun⟩ := h
  induction hrun with
  | refl => exact hinitial.inv
  | tail _ hstep ih => exact ih.step hstep

/-! ## Some runs -/

theorem step_turn (h : s.turn i = some s') : Step s s' := by
  obtain ⟨t, hi, h⟩ := Option.bind_eq_some_iff.1 h
  obtain ⟨x, hx, h⟩ := Option.bind_eq_some_iff.1 h
  obtain ⟨⟨t', s₁⟩, hperform, h⟩ := Option.bind_eq_some_iff.1 h
  obtain rfl := Option.some.inj h
  exact .run hi (List.eq_cons_of_mem_head? hx) hperform

theorem run_turns {is : List ι} (h : is.foldlM State.turn s = some s') :
    Relation.ReflTransGen Step s s' := by
  induction is generalizing s with
  | nil =>
    obtain rfl := Option.some.inj h
    exact .refl
  | cons i is ih =>
    obtain ⟨s₁, hturn, hrest⟩ := Option.bind_eq_some_iff.1 h
    exact .head (step_turn hturn) (ih hrest)

/-- The directory has one archive. -/
def stored : State ℕ ℕ ℕ where
  path := ⟨0, 0⟩
  archives r k := if r = ⟨0, 0⟩ ∧ k = 7 then some ⟨0, 5⟩ else none
  next := 1
  published := [0]
  locks := []
  tasks _ := none

theorem stored_entry {r : Root} {k : ℕ} {e : Entry ℕ} (h : stored.archives r k = some e) :
    r = ⟨0, 0⟩ ∧ k = 7 ∧ e = ⟨0, 5⟩ := by
  simp only [stored] at h
  split_ifs at h with heq
  exact ⟨heq.1, heq.2, (Option.some.inj h).symm⟩

theorem stored_initial : Initial stored := by
  refine ⟨fun _ => rfl, rfl, fun r k e he => ?_, by decide, fun he he' _ => ?_⟩
  · obtain ⟨-, -, rfl⟩ := stored_entry he
    decide
  · obtain ⟨rfl, rfl, -⟩ := stored_entry he
    obtain ⟨rfl, rfl, -⟩ := stored_entry he'
    exact ⟨rfl, rfl⟩

/-- A restore has resolved its archive, and a process wants to delete it. -/
def resolved : State ℕ ℕ ℕ :=
  let begun := stored.start 0 0 ⟨0, 0⟩ 7 .restore
  (([0, 0, 0, 0, 0].foldlM State.turn begun).getD begun).start 1 1 ⟨0, 0⟩ 7 .delete

theorem resolved_reachable : Reachable resolved := by
  refine ⟨stored, stored_initial, .head (.start 0 0 ⟨0, 0⟩ 7 .restore rfl)
    (.tail ?_ (.start 1 1 ⟨0, 0⟩ 7 .delete rfl))⟩
  exact run_turns (show [0, 0, 0, 0, 0].foldlM State.turn _ = some _ from rfl)

/-- The archive after some instructions of a job. -/
def alone (job : Job ℕ) (n : ℕ) : State ℕ ℕ ℕ :=
  let begun := stored.start 0 0 ⟨0, 0⟩ 7 job
  ((List.replicate n 0).foldlM State.turn begun).getD begun

theorem alone_reachable {job : Job ℕ} {n : ℕ}
    (h : ((List.replicate n 0).foldlM State.turn (stored.start 0 0 ⟨0, 0⟩ 7 job)).isSome) :
    Reachable (alone job n) := by
  obtain ⟨s, hs⟩ := Option.isSome_iff_exists.1 h
  refine ⟨stored, stored_initial, .head (.start 0 0 ⟨0, 0⟩ 7 job rfl) ?_⟩
  rw [alone, hs]
  exact run_turns hs

/-! ## What holds in every reachable state -/

/-- At most one task of all processes may change the archives of a directory, an archive is deleted
where no other is used, and the locks are the leases of the tasks that are there : a task that has
ended has none. -/
theorem leases_exclusive (hs : Reachable s) :
    (∀ i j t u, s.tasks i = some t → s.tasks j = some u → t.Mutates → u.Mutates →
      t.root.data = u.root.data → i = j) ∧
    (∀ i j t u mode, s.tasks i = some t → s.tasks j = some u →
      (Target.backups, Mode.exclusive) ∈ t.leases → (Target.backups, mode) ∈ u.leases →
      t.root = u.root → i = j) ∧
    (∀ l, l ∈ s.locks ↔ ∃ t, s.tasks l.owner = some t ∧
      ∃ target, (target, l.mode) ∈ t.leases ∧ l.target = t.root.dir target) ∧
    ∀ i t, s.tasks i = some t → t.rest = [] → t.leases = [] ∧ t.pinned = none := by
  have h := hs.inv
  refine ⟨fun i j t u hi hj ht hu hroot => h.eq_of_mutates hi hj ht hu hroot,
    fun i j t u mode hi hj ht hu hroot => ?_, fun l => ?_, fun i t hi hrest => ?_⟩
  · by_contra hne
    exact h.root_ne_of_use hi hj (Ne.symm hne) ht hu hroot.symm
  · rw [h.agrees.mem, State.leases]
    cases s.tasks l.owner with
    | none => simp
    | some t => simp [Task.held, Prod.ext_iff, eq_comm, and_comm]
  · obtain ⟨known, -, -, hcheck⟩ := (h.sound hi).checks
    rw [hrest] at hcheck
    exact ⟨hcheck.1, by simpa using hcheck.2⟩

theorem resolved_alone :
    ¬∃ j u, resolved.tasks j = some u ∧ u.Mutates ∧ u.root.data = 0 ∧ j ≠ 0 := by
  rintro ⟨j, u, hj, hu, hroot, hne⟩
  exact hne ((leases_exclusive resolved_reachable).1 0 j _ u rfl hj List.mem_cons_self hu
    hroot.symm).symm

/-- An archive that is being read is where it was, unless it was never published. -/
theorem pinned_kept (hs : Reachable s) (hi : s.tasks i = some t) (he : t.pinned = some e)
    (hpublished : e.inode ∈ s.published) : s.archives t.root t.key = some e :=
  (((hs.inv.sound hi).pinned e he).2).resolve_right fun hw => hw.unpublished hpublished

theorem downloaded_kept : (alone .download 4).archives ⟨0, 0⟩ 7 = some ⟨0, 5⟩ := by
  have hs : Reachable (alone .download 4) := alone_reachable rfl
  have hpublished : 0 ∈ (alone .download 4).published := by decide
  exact pinned_kept (i := 0) (e := ⟨0, 5⟩) hs rfl rfl hpublished

/-- What an answer says of the archives at the path. -/
def Outcome.Holds (s : State ι κ β) (t : Task κ β) : Outcome β → Prop
  | .stored content => ∃ e, s.archives s.path t.key = some e ∧ e.content = content
  | .deleted => s.archives s.path t.key = none
  | .resolved => ∃ e, s.archives s.path t.key = some e
  | .served => ∃ e, t.pinned = some e ∧
    (e.inode ∈ s.published → s.archives s.path t.key = some e)

/-- What an operation answers is the case : the last guard has found its directories at the paths,
and nobody else has changed what it did there. -/
theorem report_holds (hs : Reachable s) (hi : s.tasks i = some t) {o : Outcome β}
    (ht : t.rest = .report o :: xs) (hpath : s.path = t.root) : o.Holds s t := by
  obtain ⟨known, hknown, -, hcheck⟩ := (hs.inv.sound hi).checks
  rw [ht] at hcheck
  have hfollows : o.Follows _ := hcheck.1
  cases o with
  | stored | deleted | resolved =>
    obtain rfl : known = _ := hfollows
    rw [Outcome.Holds, hpath]
    exact hknown
  | served =>
    obtain ⟨e, he⟩ := Option.isSome_iff_exists.1 hfollows
    refine ⟨e, he, fun hpublished => ?_⟩
    rw [hpath]
    exact pinned_kept hs hi he hpublished

theorem deleted_gone : (alone .delete 7).archives ⟨0, 0⟩ 7 = none := by
  have hs : Reachable (alone .delete 7) := alone_reachable rfl
  have hi : (alone .delete 7).tasks 0 = some
      { process := 0, root := ⟨0, 0⟩, key := 7, rest := [.report .deleted, .release, .release]
        leases := [(.backups, .exclusive), (.data, .exclusive)] } := rfl
  exact report_holds hs hi rfl rfl

/-! ## While a task has its lease -/

def State.Leased (s : State ι κ β) (i : ι) : Prop := ∃ t, s.tasks i = some t ∧ t.Mutates

/-- What an instruction leaves as it is. -/
theorem perform_frame {x : Instr β} (hx : x.perform s j u = some (u', s')) :
    s'.tasks = s.tasks ∧ u'.root = u.root ∧ (¬x.Writes → s'.archives = s.archives) ∧
      ∀ r ≠ u.root, s'.archives r = s.archives r := by
  cases x with
  | acquire target mode =>
    obtain ⟨locks, -, heq⟩ := Option.bind_eq_some_iff.1 hx
    obtain ⟨rfl, rfl⟩ := Prod.mk.inj (Option.some.inj heq)
    exact ⟨rfl, rfl, fun _ => rfl, fun _ _ => rfl⟩
  | link content | unlink =>
    simp only [Instr.perform] at hx
    split_ifs at hx
    obtain ⟨rfl, rfl⟩ := Prod.mk.inj (Option.some.inj hx)
    exact ⟨rfl, rfl, (absurd trivial ·), fun r hr => archives_setEntry_ne _ hr⟩
  | publish | pin =>
    obtain ⟨e, -, heq⟩ := Option.map_eq_some_iff.1 hx
    obtain ⟨rfl, rfl⟩ := Prod.mk.inj heq
    exact ⟨rfl, rfl, fun _ => rfl, fun _ _ => rfl⟩
  | unpin =>
    obtain ⟨rfl, rfl⟩ := Prod.mk.inj (Option.some.inj hx)
    exact ⟨rfl, rfl, fun _ => rfl, fun _ _ => rfl⟩
  | release =>
    rw [Instr.perform] at hx
    cases hls : u.leases with
    | nil =>
      rw [hls] at hx
      cases hx
    | cons l leases =>
      rw [hls] at hx
      obtain ⟨rfl, rfl⟩ := Prod.mk.inj (Option.some.inj hx)
      exact ⟨rfl, rfl, fun _ => rfl, fun _ _ => rfl⟩
  | _ =>
    simp only [Instr.perform] at hx
    split_ifs at hx
    obtain ⟨rfl, rfl⟩ := Prod.mk.inj (Option.some.inj hx)
    exact ⟨rfl, rfl, fun _ => rfl, fun _ _ => rfl⟩

/-- A task with the lease on `data_dir` that changes nothing from now on. -/
structure Reader (s : State ι κ β) (i : ι) (r : Root) (t : Task κ β) : Prop where
  task : s.tasks i = some t
  lease : t.Mutates
  root : t.root = r
  reads : ∀ x ∈ t.rest, ¬x.Writes

theorem Reader.step (h : Inv s) (hi : Reader s i r t) (hstep : Step s s') (hleased : s'.Leased i) :
    (∃ t', Reader s' i r t') ∧ s'.archives r = s.archives r := by
  obtain ⟨t', ht', hlease⟩ := hleased
  have hother : ∀ {j u}, s.tasks j = some u → u.Mutates → j ≠ i → r ≠ u.root := fun hj hu hji =>
    hi.root ▸ h.root_ne hj hi.task hji.symm hu hi.lease
  have hstays : ∀ {s' : State ι κ β}, s'.tasks i = s.tasks i → ∃ t', Reader s' i r t' :=
    fun htasks => ⟨t, htasks.trans hi.task, hi.lease, hi.root, hi.reads⟩
  cases hstep with
  | start j process root key job hj =>
    refine ⟨hstays (tasks_setTask_of_ne _ _ ?_), rfl⟩
    rintro rfl
    cases hi.task.symm.trans hj
  | @run s₁ j u u' x xs hj hu hx =>
    obtain ⟨htasks, hroot, hreads, hframe⟩ := perform_frame hx
    by_cases hji : j = i
    · subst hji
      obtain rfl := Option.some.inj (hi.task.symm.trans hj)
      have hrest := hi.reads
      rw [hu, List.forall_mem_cons] at hrest
      obtain rfl := Option.some.inj ((tasks_setTask_self _ _ _).symm.trans ht')
      exact ⟨⟨_, tasks_setTask_self _ _ _, hlease, hroot.trans hi.root, hrest.2⟩,
        congrFun (hreads hrest.1) r⟩
    · refine ⟨hstays ((tasks_setTask_of_ne _ _ (Ne.symm hji)).trans (congrFun htasks i)), ?_⟩
      by_cases hwrites : x.Writes
      · exact hframe r (hother hj (h.mutates hj hu hwrites) hji)
      · exact congrFun (hreads hwrites) r
  | @fail j u x xs hj hu hx =>
    by_cases hji : j = i
    · subst hji
      obtain rfl := Option.some.inj (hi.task.symm.trans hj)
      exact ⟨⟨_, tasks_setTask_self _ _ _, hi.lease, hi.root, reads_unwind t⟩, rfl⟩
    · exact ⟨hstays (tasks_setTask_of_ne _ _ (Ne.symm hji)), rfl⟩
  | @rollback j u xs hj hu =>
    have hji : j ≠ i := by
      rintro rfl
      obtain rfl := Option.some.inj (hi.task.symm.trans hj)
      exact hi.reads .publish (hu ▸ List.mem_cons_self) trivial
    exact ⟨hstays (tasks_setTask_of_ne _ _ (Ne.symm hji)),
      archives_setEntry_ne _ (hother hj (h.mutates hj hu trivial) hji)⟩
  | exit process =>
    obtain ⟨hi', -⟩ := Option.filter_eq_some_iff.1 ht'
    exact ⟨hstays (ht'.trans hi'.symm), rfl⟩
  | replace root => exact ⟨hstays rfl, rfl⟩

/-- While a task keeps its lease on `data_dir` and only reads, nobody changes the archives : the
backup that a restore has resolved cannot be deleted before the restore uses it. -/
theorem frozen_while_leased (hs : Reachable s) (hi : s.tasks i = some t) (hlease : t.Mutates)
    (hreads : ∀ x ∈ t.rest, ¬x.Writes)
    (hrun : Relation.ReflTransGen (fun a b => Step a b ∧ b.Leased i) s s') :
    s'.archives t.root = s.archives t.root := by
  have hreader : Reader s i t.root t := ⟨hi, hlease, rfl, hreads⟩
  suffices h : Inv s' ∧ (∃ t', Reader s' i t.root t') ∧ s'.archives t.root = s.archives t.root from h.2.2
  induction hrun with
  | refl => exact ⟨hs.inv, ⟨t, hreader⟩, rfl⟩
  | tail _ hstep ih =>
    obtain ⟨hinv, ⟨t', ht'⟩, harchives⟩ := ih
    obtain ⟨hnext, hsame⟩ := ht'.step hinv hstep.1 hstep.2
    exact ⟨hinv.step hstep.1, hnext, hsame.trans harchives⟩

/-- The other process cannot have the lease, and its operation fails. -/
theorem resolved_kept :
    (resolved.setTask 1 { process := 1, root := ⟨0, 0⟩, key := 7, rest := [] }).archives ⟨0, 0⟩ =
      resolved.archives ⟨0, 0⟩ := by
  have hi : resolved.tasks 0 = some
      { process := 0, root := ⟨0, 0⟩, key := 7, rest := (Job.restore.script).drop 5
        leases := [(.data, .exclusive)] } := rfl
  have hj : resolved.tasks 1 = some
      { process := 1, root := ⟨0, 0⟩, key := 7, rest := Job.delete.script } := rfl
  refine frozen_while_leased resolved_reachable hi List.mem_cons_self ?_
    (.single ⟨.fail hj rfl id, _, hi, List.mem_cons_self⟩)
  simp [Job.script, Instr.Writes]

end OperationLeases

end PPBase
