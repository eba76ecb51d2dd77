import Mathlib.Data.List.Perm.Basic
import Mathlib.Logic.Relation

/-!
# Interleaved processes over a shared state

Processes arrive at any time and take turns. `Unshared` says what makes a resource of the
shared state last for one process of a kind : whoever finishes found it unspent and leaves it
spent, and what a finished process has spent stays spent. Then no two processes of one kind
finish (`finished_unique`), in any order of steps.
-/

namespace PPBase

/-- A shared state and the processes over it. -/
structure Pool (σ π : Type*) where
  shared : σ
  procs : List π

namespace Pool

variable {σ π κ : Type*}

/-- A process arrives, or one takes its next step. What it does may depend on the others. -/
inductive Step (start : π → Prop) (move : Pool σ π → ℕ → π → σ → π → Prop) :
    Pool σ π → Pool σ π → Prop
  | arrive {P : Pool σ π} {p : π} (h : start p) : Step start move P ⟨P.shared, P.procs ++ [p]⟩
  | move {P : Pool σ π} {i : ℕ} {p p' : π} {s' : σ} (hp : P.procs[i]? = some p)
      (h : move P i p s' p') : Step start move P ⟨s', P.procs.set i p'⟩

/-- Every order of arrivals and steps. -/
abbrev Run (start : π → Prop) (move : Pool σ π → ℕ → π → σ → π → Prop) :
    Pool σ π → Pool σ π → Prop := Relation.ReflTransGen (Step start move)

variable {start : π → Prop} {move : Pool σ π → ℕ → π → σ → π → Prop}

variable {P : Pool σ π} {p : π} {i : ℕ}

/-- What every step keeps holds after every run. -/
theorem Run.invariant {I : Pool σ π → Prop} {Q : Pool σ π} (h : Run start move P Q)
    (hstep : ∀ {P Q}, I P → Step start move P Q → I Q) (hP : I P) : I Q := by
  induction h with
  | refl => exact hP
  | tail _ hlast ih => exact hstep ih hlast

theorem mem_of_getElem?_append {q : π} (h : (P.procs ++ [p])[i]? = some q) :
    P.procs[i]? = some q ∨ q = p := by
  rw [List.getElem?_append] at h
  split_ifs at h with hi
  · exact Or.inl h
  · exact Or.inr (List.mem_singleton.1 (List.mem_of_getElem? h))

/-- The process at a place after another has moved. -/
theorem of_getElem?_set {p' q : π} {j : ℕ} (h : (P.procs.set i p')[j]? = some q) :
    i = j ∧ q = p' ∨ i ≠ j ∧ P.procs[j]? = some q := by
  rw [List.getElem?_set] at h
  split_ifs at h with hij hlt
  · exact Or.inl ⟨hij, (Option.some.inj h).symm⟩
  · exact Or.inr ⟨hij, h⟩

/-- The moving process and the others. -/
theorem procs_perm (h : P.procs[i]? = some p) : P.procs.Perm (p :: P.procs.eraseIdx i) := by
  obtain ⟨hi, rfl⟩ := List.getElem?_eq_some_iff.1 h
  exact (List.getElem_cons_eraseIdx_perm hi).symm

theorem set_perm (p' : π) (h : P.procs[i]? = some p) :
    (P.procs.set i p').Perm (p' :: P.procs.eraseIdx i) :=
  List.set_perm_cons_eraseIdx (List.getElem?_eq_some_iff.1 h).1 p'

/-- What holds of every process, seen from one that moves. -/
theorem forall_procs {I : π → Prop} (h : P.procs[i]? = some p) :
    (∀ q ∈ P.procs, I q) ↔ I p ∧ ∀ q ∈ P.procs.eraseIdx i, I q := by
  rw [← List.forall_mem_cons]
  exact forall_congr' fun q => imp_congr_left (procs_perm h).mem_iff

theorem forall_set {I : π → Prop} (p' : π) (h : P.procs[i]? = some p) :
    (∀ q ∈ P.procs.set i p', I q) ↔ I p' ∧ ∀ q ∈ P.procs.eraseIdx i, I q := by
  rw [← List.forall_mem_cons]
  exact forall_congr' fun q => imp_congr_left (set_perm p' h).mem_iff

/-- What holds between any two processes. -/
theorem pairwise_procs {R : π → π → Prop} (hsymm : ∀ {p q}, R p q → R q p)
    (h : P.procs[i]? = some p) :
    P.procs.Pairwise R ↔ (∀ q ∈ P.procs.eraseIdx i, R p q) ∧ (P.procs.eraseIdx i).Pairwise R := by
  rw [← List.pairwise_cons]
  exact (procs_perm h).pairwise_iff hsymm

theorem pairwise_set {R : π → π → Prop} (hsymm : ∀ {p q}, R p q → R q p) (p' : π)
    (h : P.procs[i]? = some p) :
    (P.procs.set i p').Pairwise R ↔
      (∀ q ∈ P.procs.eraseIdx i, R p' q) ∧ (P.procs.eraseIdx i).Pairwise R := by
  rw [← List.pairwise_cons]
  exact (set_perm p' h).pairwise_iff hsymm

/-- A resource for one process of a kind. `inv` is what the argument needs of the shared
state. -/
structure Unshared (start : π → Prop) (move : Pool σ π → ℕ → π → σ → π → Prop) (inv : σ → Prop)
    (kind : π → κ) (finished : π → Prop) (spent : σ → κ → Prop) : Prop where
  start_not_finished : ∀ p, start p → ¬finished p
  move_inv : ∀ P i p s' p', inv P.shared → P.procs[i]? = some p → move P i p s' p' → inv s'
  move_kind : ∀ P i p s' p', move P i p s' p' → kind p' = kind p
  move_finishes : ∀ P i p s' p', inv P.shared → move P i p s' p' → finished p' →
    ¬spent P.shared (kind p) ∧ spent s' (kind p)
  move_keeps : ∀ P i p s' p', inv P.shared → move P i p s' p' → ∀ q ∈ P.procs, finished q →
    spent P.shared (kind q) → spent s' (kind q)

/-- The shared state is in order, what finished processes took is spent, and no two of a kind
have finished. -/
structure AtMostOne (inv : σ → Prop) (kind : π → κ) (finished : π → Prop) (spent : σ → κ → Prop)
    (P : Pool σ π) : Prop where
  inv : inv P.shared
  spent : ∀ p ∈ P.procs, finished p → spent P.shared (kind p)
  unique : ∀ (i j : ℕ) p q, P.procs[i]? = some p → P.procs[j]? = some q → finished p → finished q →
    kind p = kind q → i = j

variable {inv : σ → Prop} {kind : π → κ} {finished : π → Prop} {spent : σ → κ → Prop}

theorem Unshared.atMostOne_step (u : Unshared start move inv kind finished spent) {Q : Pool σ π}
    (hP : AtMostOne inv kind finished spent P) (h : Step start move P Q) :
    AtMostOne inv kind finished spent Q := by
  cases h with
  | @arrive p hstart =>
    have hnew := u.start_not_finished p hstart
    refine ⟨hP.inv, ?_, ?_⟩
    · intro q hq hfin
      rcases List.mem_append.1 hq with hq | hq
      · exact hP.spent q hq hfin
      · rw [List.mem_singleton.1 hq] at hfin
        exact absurd hfin hnew
    · intro i j q r hq hr hfq hfr hkind
      rcases mem_of_getElem?_append hq with hq | rfl
      · rcases mem_of_getElem?_append hr with hr | rfl
        · exact hP.unique i j q r hq hr hfq hfr hkind
        · exact absurd hfr hnew
      · exact absurd hfq hnew
  | @move i p p' s' hp hmove =>
    have hkeeps := u.move_keeps P i p s' p' hP.inv hmove
    have hfinishes := u.move_finishes P i p s' p' hP.inv hmove
    -- Another finished process of the kind of one that finishes now would have spent it.
    have hother : ∀ (j : ℕ) q, finished p' → P.procs[j]? = some q → finished q → kind q = kind p' →
        False := by
      intro j q hfin hq hfq hkind
      refine (hfinishes hfin).1 ?_
      rw [← u.move_kind P i p s' p' hmove, ← hkind]
      exact hP.spent q (List.mem_of_getElem? hq) hfq
    refine ⟨u.move_inv P i p s' p' hP.inv hp hmove, ?_, ?_⟩
    · intro q hq hfin
      obtain ⟨j, hj⟩ := List.mem_iff_getElem?.1 hq
      rcases of_getElem?_set hj with ⟨-, rfl⟩ | ⟨-, hj⟩
      · rw [u.move_kind P i p s' q hmove]
        exact (hfinishes hfin).2
      · have hmem := List.mem_of_getElem? hj
        exact hkeeps q hmem hfin (hP.spent q hmem hfin)
    · intro j k q r hq hr hfq hfr hkind
      rcases of_getElem?_set hq with ⟨hij, rfl⟩ | ⟨-, hq₀⟩
      · rcases of_getElem?_set hr with ⟨hik, rfl⟩ | ⟨-, hr₀⟩
        · exact hij.symm.trans hik
        · exact (hother k r hfq hr₀ hfr hkind.symm).elim
      · rcases of_getElem?_set hr with ⟨-, rfl⟩ | ⟨-, hr₀⟩
        · exact (hother j q hfr hq₀ hfq hkind).elim
        · exact hP.unique j k q r hq₀ hr₀ hfq hfr hkind

/-- No two processes of a kind finish. -/
theorem Unshared.finished_unique (u : Unshared start move inv kind finished spent) {Q : Pool σ π}
    (h : Run start move P Q) (hinv : inv P.shared) (hempty : P.procs = []) :
    AtMostOne inv kind finished spent Q := by
  refine h.invariant (fun hP hstep => u.atMostOne_step hP hstep) ⟨hinv, ?_, ?_⟩
  · intro p hp
    rw [hempty] at hp
    cases hp
  · intro i j p q hp
    rw [hempty] at hp
    cases hp

end Pool

end PPBase
