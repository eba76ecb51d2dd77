import Mathlib.Data.List.Basic
import Mathlib.Logic.Function.Basic

/-!
# Deferred clean-up of a store

A transaction writes its objects at once. At its end it clears away, among what it wrote or was
asked to remove, all that nothing refers to. The same work can run as one transaction or as
several, one after another (`Tracks`). Then what is referred to at the end is kept by the one
transaction if the several keep it (`Tracks.kept_of_refers`), and what is not referred to is kept
by the several if the one keeps it (`Tracks.kept_of_not_refers`).
-/

namespace PPBase

namespace Cleanup

variable {L B : Type*} [DecidableEq L]

/-- What is stored at each location. -/
abbrev Store (L B : Type*) := L → Option B

/-- What the work of a transaction does to the store. -/
structure Effects (L B : Type*) where
  written : List (L × B) := []
  removed : List L := []

namespace Effects

/-- First one work, then the other. -/
def append (e e' : Effects L B) : Effects L B := ⟨e.written ++ e'.written, e.removed ++ e'.removed⟩

/-- The location is written or to be removed. -/
def touches (e : Effects L B) (l : L) : Bool := e.written.any (fun x => x.1 = l) || l ∈ e.removed

theorem touches_append (e e' : Effects L B) (l : L) :
    (e.append e').touches l = (e.touches l || e'.touches l) := by
  simp only [append, touches, List.any_append, List.mem_append, Bool.decide_or]
  ac_rfl

end Effects

/-- The objects are written, later ones over earlier ones. -/
def write (s : Store L B) (xs : List (L × B)) : Store L B :=
  xs.foldl (fun s x => Function.update s x.1 (some x.2)) s

def clear (s : Store L B) (p : L → Bool) : Store L B := fun l => if p l then none else s l

/-- The end of a transaction. -/
def commit (refers : L → Bool) (s : Store L B) (e : Effects L B) : Store L B :=
  clear (write s e.written) fun l => e.touches l && !refers l

/-- The end of a transaction that failed. -/
def rollback (s : Store L B) (written : List (L × B)) : Store L B :=
  clear (write s written) fun l => written.any fun x => x.1 = l

section

variable {s each : Store L B} {e e' : Effects L B} {refers : L → Bool} {l : L} {b : B}

theorem write_append (s : Store L B) (xs ys : List (L × B)) :
    write s (xs ++ ys) = write (write s xs) ys := List.foldl_append

/-- A location that is not written stays as it is. -/
theorem write_of_notMem {xs : List (L × B)} (h : (xs.any fun x => x.1 = l) = false) :
    write s xs l = s l := by
  induction xs generalizing s with
  | nil => rfl
  | cons x xs ih =>
    rw [List.any_cons, Bool.or_eq_false_iff] at h
    have hne : l ≠ x.1 := fun heq => of_decide_eq_false h.1 heq.symm
    show write (Function.update s x.1 (some x.2)) xs l = s l
    rw [ih h.2, Function.update_of_ne hne]

/-- A location that is written holds something. -/
theorem isSome_write {xs : List (L × B)} (h : (xs.any fun x => x.1 = l) = true ∨ (s l).isSome = true) :
    (write s xs l).isSome = true := by
  induction xs generalizing s with
  | nil => exact h.resolve_left Bool.false_ne_true
  | cons x xs ih =>
    show (write (Function.update s x.1 (some x.2)) xs l).isSome = true
    refine ih ?_
    by_cases hx : x.1 = l
    · subst hx
      exact Or.inr (by rw [Function.update_self]; rfl)
    · rw [List.any_cons, decide_eq_false hx, Bool.false_or] at h
      rwa [Function.update_of_ne (Ne.symm hx)]

/-- What two stores agree on, they agree on after the same writes. -/
theorem write_mono {s s' : Store L B} (h : ∀ l b, s l = some b → s' l = some b) :
    ∀ (xs : List (L × B)) {l : L} {b : B}, write s xs l = some b → write s' xs l = some b
  | [], l, b, hl => h l b hl
  | x :: xs, l, b, hl => by
    refine write_mono ?_ xs hl
    intro l' b' hl'
    dsimp only at hl' ⊢
    by_cases hx : l' = x.1
    · subst hx
      rw [Function.update_self] at hl' ⊢
      exact hl'
    · rw [Function.update_of_ne hx] at hl' ⊢
      exact h l' b' hl'

omit [DecidableEq L] in
theorem clear_eq_some {p : L → Bool} : clear s p l = some b ↔ p l = false ∧ s l = some b := by
  unfold clear
  split_ifs with h
  · exact ⟨nofun, fun h' => absurd h (Bool.eq_false_iff.1 h'.1)⟩
  · exact ⟨fun h' => ⟨Bool.eq_false_iff.2 h, h'⟩, And.right⟩

theorem commit_eq_some : commit refers s e l = some b ↔
    (e.touches l = true → refers l = true) ∧ write s e.written l = some b := by
  unfold commit
  rw [clear_eq_some]
  refine and_congr_left fun _ => ?_
  rw [Bool.and_eq_false_imp]
  simp

theorem commit_of_not_touches (h : e.touches l = false) : commit refers s e l = s l := by
  have hwritten : (e.written.any fun x => x.1 = l) = false := (Bool.or_eq_false_iff.1 h).1
  have hclear : ¬(e.touches l && !refers l) = true := by rw [h]; exact Bool.false_ne_true
  show (if (e.touches l && !refers l) = true then none else write s e.written l) = s l
  rw [if_neg hclear, write_of_notMem hwritten]

/-- Writing at free locations only leaves nothing behind. -/
theorem rollback_eq {xs : List (L × B)} (h : ∀ x ∈ xs, s x.1 = none) : rollback s xs = s := by
  funext l
  unfold rollback clear
  split_ifs with hl
  · obtain ⟨x, hx, hxl⟩ := List.any_eq_true.1 hl
    rw [← of_decide_eq_true hxl, h x hx]
  · exact write_of_notMem (Bool.eq_false_iff.2 hl)

/-- Work with these effects on the first store, run as several transactions, has led to the
second. -/
structure Tracks (s : Store L B) (e : Effects L B) (each : Store L B) : Prop where
  kept : ∀ l b, each l = some b → write s e.written l = some b
  untouched : ∀ l, e.touches l = false → each l = s l

theorem Tracks.refl (s : Store L B) : Tracks s {} s := ⟨fun _ _ h => h, fun _ _ => rfl⟩

/-- One more transaction. -/
theorem Tracks.commit (h : Tracks s e each) : Tracks s (e.append e') (commit refers each e') where
  kept := by
    intro l b hl
    rw [show (e.append e').written = e.written ++ e'.written from rfl, write_append]
    exact write_mono h.kept e'.written (commit_eq_some.1 hl).2
  untouched := by
    intro l hl
    rw [Effects.touches_append, Bool.or_eq_false_iff] at hl
    rw [commit_of_not_touches hl.2, h.untouched l hl.1]

theorem Tracks.kept_of_refers (h : Tracks s e each) (hl : refers l = true) (hb : each l = some b) :
    Cleanup.commit refers s e l = some b :=
  commit_eq_some.2 ⟨fun _ => hl, h.kept l b hb⟩

theorem Tracks.kept_of_not_refers (h : Tracks s e each) (hl : refers l = false)
    (hb : Cleanup.commit refers s e l = some b) : each l = some b := by
  obtain ⟨htouches, hwrite⟩ := commit_eq_some.1 hb
  have hnot : e.touches l = false := by
    by_contra hne
    rw [htouches (Bool.not_eq_false _ ▸ hne)] at hl
    cases hl
  have hwritten : write s e.written l = s l := write_of_notMem (Bool.or_eq_false_iff.1 hnot).1
  rw [h.untouched l hnot, ← hwritten, hwrite]

end

end Cleanup

end PPBase
