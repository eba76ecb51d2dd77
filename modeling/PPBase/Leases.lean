import Mathlib.Data.List.Pairwise
import Mathlib.Data.List.Nodup
import Mathlib.Logic.Function.Basic

/-!
# Leases of shared and exclusive locks

A table of locks, as a kernel keeps it : a lock is granted if it is compatible with every other, and
goes with what it was taken for. `Agrees` relates the table to the leases its owners believe they
have. Where they agree, an exclusive lease is the only one of its target (`Agrees.exclusive`).
-/

namespace PPBase

namespace Leases

inductive Mode
  | shared | exclusive
  deriving DecidableEq

@[ext] structure Lock (ι δ : Type*) where
  owner : ι
  target : δ
  mode : Mode
  deriving DecidableEq

variable {ι δ : Type*}

/-- Two locks that can be held at a time. -/
def Lock.Compatible (l l' : Lock ι δ) : Prop :=
  l.target = l'.target → l.mode = .shared ∧ l'.mode = .shared

instance : Std.Symm (Lock.Compatible (ι := ι) (δ := δ)) := ⟨fun _ _ h heq => (h heq.symm).symm⟩

abbrev Table (ι δ : Type*) := List (Lock ι δ)

namespace Table

variable [DecidableEq ι] [DecidableEq δ]

instance (l l' : Lock ι δ) : Decidable (l.Compatible l') := by
  unfold Lock.Compatible
  infer_instance

/-- A lock that is granted now or not at all. -/
def acquire (L : Table ι δ) (l : Lock ι δ) : Option (Table ι δ) :=
  if ∀ l' ∈ L, l.Compatible l' then some (l :: L) else none

def release (L : Table ι δ) (i : ι) (d : δ) : Table ι δ :=
  L.filter fun l => ¬(l.owner = i ∧ l.target = d)

/-- What is left when some owners are gone. -/
def drop (L : Table ι δ) (gone : ι → Bool) : Table ι δ := L.filter fun l => !gone l.owner

end Table

/-- The table has the leases of all owners and no others, and these are compatible. -/
structure Agrees (L : Table ι δ) (leases : ι → List (δ × Mode)) : Prop where
  mem : ∀ l, l ∈ L ↔ (l.target, l.mode) ∈ leases l.owner
  nodup : ∀ i, ((leases i).map Prod.fst).Nodup
  compatible : L.Pairwise Lock.Compatible

namespace Agrees

variable {L : Table ι δ} {leases : ι → List (δ × Mode)} {i j : ι} {d : δ} {m : Mode}

theorem nil : Agrees ([] : Table ι δ) fun _ => [] :=
  ⟨fun _ => by simp, fun _ => List.nodup_nil, List.Pairwise.nil⟩

/-- An exclusive lease is the only one of its target. -/
theorem exclusive (h : Agrees L leases) (hi : (d, .exclusive) ∈ leases i) (hj : (d, m) ∈ leases j) :
    i = j := by
  by_contra hne
  have hi' := (h.mem ⟨i, d, .exclusive⟩).2 hi
  have hj' := (h.mem ⟨j, d, m⟩).2 hj
  have hpair : (⟨i, d, .exclusive⟩ : Lock ι δ).Compatible ⟨j, d, m⟩ :=
    h.compatible.forall hi' hj' fun heq => hne (Lock.mk.inj heq).1
  cases (hpair rfl).1

variable [DecidableEq ι] [DecidableEq δ]

theorem acquire (h : Agrees L leases) {L' : Table ι δ} (hL : L.acquire ⟨i, d, m⟩ = some L')
    (hd : d ∉ (leases i).map Prod.fst) :
    Agrees L' (Function.update leases i ((d, m) :: leases i)) := by
  rw [Table.acquire] at hL
  split_ifs at hL with hgrant
  obtain rfl := Option.some.inj hL
  refine ⟨fun l => ?_, fun j => ?_, List.pairwise_cons.2 ⟨hgrant, h.compatible⟩⟩
  · by_cases hl : l.owner = i
    · subst hl
      rw [Function.update_self, List.mem_cons, List.mem_cons, h.mem]
      simp [Lock.ext_iff]
    · rw [Function.update_of_ne hl, List.mem_cons, h.mem]
      simp [Lock.ext_iff, hl]
  · by_cases hj : j = i
    · subst hj
      rw [Function.update_self]
      exact List.nodup_cons.2 ⟨hd, h.nodup j⟩
    · rw [Function.update_of_ne hj]
      exact h.nodup j

theorem release (h : Agrees L leases) {ls : List (δ × Mode)} (hi : leases i = (d, m) :: ls) :
    Agrees (L.release i d) (Function.update leases i ls) := by
  have hnodup := h.nodup i
  rw [hi, List.map_cons, List.nodup_cons] at hnodup
  refine ⟨fun l => ?_, fun j => ?_, h.compatible.filter _⟩
  · rw [Table.release, List.mem_filter, h.mem, decide_eq_true_iff]
    by_cases hl : l.owner = i
    · subst hl
      rw [Function.update_self, hi, List.mem_cons]
      constructor
      · rintro ⟨heq | hmem, htarget⟩
        · exact absurd ⟨rfl, (Prod.mk.inj heq).1⟩ htarget
        · exact hmem
      · refine fun hmem => ⟨.inr hmem, fun htarget => hnodup.1 ?_⟩
        rw [← htarget.2]
        exact List.mem_map.2 ⟨_, hmem, rfl⟩
    · rw [Function.update_of_ne hl]
      exact and_iff_left fun heq => hl heq.1
  · by_cases hj : j = i
    · subst hj
      rw [Function.update_self]
      exact hnodup.2
    · rw [Function.update_of_ne hj]
      exact h.nodup j

omit [DecidableEq ι] [DecidableEq δ] in
theorem drop (h : Agrees L leases) (gone : ι → Bool) :
    Agrees (L.drop gone) fun i => if gone i then [] else leases i := by
  refine ⟨fun l => ?_, fun j => ?_, h.compatible.filter _⟩
  · rw [Table.drop, List.mem_filter, h.mem]
    cases gone l.owner <;> simp
  · cases gone j
    · exact h.nodup j
    · exact List.nodup_nil

end Agrees

end Leases

end PPBase
