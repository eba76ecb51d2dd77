import Mathlib.Data.List.Sort
import Mathlib.Data.List.Nodup

/-!
# Stable sorting

A list sorted by decreasing keys, where elements with one key stay in their order. In a list
without duplicates this is the list of the order `Before` (`pairwise_sortDesc`), in which the first
`k` are those with fewer than `k` elements before them (`mem_take_iff`).
-/

namespace PPBase

namespace StableSort

variable {α : Type*} {a b : α} {l s : List α}

/-! ## Pairs of a list -/

theorem pair_of_ne (ha : a ∈ l) (hb : b ∈ l) (hne : a ≠ b) :
    [a, b].Sublist l ∨ [b, a].Sublist l := by
  induction l with
  | nil => exact absurd ha List.not_mem_nil
  | cons c l ih =>
    rcases List.mem_cons.1 ha with rfl | ha'
    · have hb' : b ∈ l := (List.mem_cons.1 hb).resolve_left hne.symm
      exact .inl ((List.singleton_sublist.2 hb').cons_cons a)
    · rcases List.mem_cons.1 hb with rfl | hb'
      · exact .inr ((List.singleton_sublist.2 ha').cons_cons b)
      · exact (ih ha' hb').imp (·.cons c) (·.cons c)

theorem not_pair_swap (hl : l.Nodup) (h : [a, b].Sublist l) : ¬[b, a].Sublist l := by
  induction l with
  | nil => exact nomatch h
  | cons c l ih =>
    obtain ⟨hc, hl⟩ := List.nodup_cons.1 hl
    intro h'
    cases h with
    | cons _ h =>
      cases h' with
      | cons _ h' => exact ih hl h h'
      | cons_cons _ h' => exact hc (h.subset (by simp))
    | cons_cons _ h =>
      cases h' with
      | cons _ h' => exact hc (h'.subset (by simp))
      | cons_cons _ h' => exact hc (List.singleton_sublist.1 h)

/-! ## The order of a stable sort -/

variable {τ : Type*} [LinearOrder τ] (key : α → τ)

/-- `sorted(l, key=key, reverse=True)` -/
def sortDesc (l : List α) : List α := l.insertionSort fun a b => key b ≤ key a

/-- The first of the two has the greater key, or it comes first in the list. -/
def Before (l : List α) (a b : α) : Prop := key b < key a ∨ key b = key a ∧ [a, b].Sublist l

instance [DecidableEq α] (l : List α) (a b : α) : Decidable (Before key l a b) :=
  inferInstanceAs (Decidable (_ ∨ _))

variable {key}

theorem perm_sortDesc (l : List α) : (sortDesc key l).Perm l := List.perm_insertionSort _ l

theorem Before.mono {l' : List α} (hsub : l.Sublist l') (h : Before key l a b) :
    Before key l' a b :=
  h.imp_right fun h => ⟨h.1, h.2.trans hsub⟩

theorem Before.le (h : Before key l a b) : key b ≤ key a := h.elim le_of_lt fun h => h.1.le

theorem Before.asymm (hl : l.Nodup) (h : Before key l a b) : ¬Before key l b a := by
  rintro (hlt | ⟨heq, hba⟩)
  · exact absurd h.le (not_le.2 hlt)
  · rcases h with hlt | ⟨-, hab⟩
    · exact absurd heq.le (not_le.2 hlt)
    · exact not_pair_swap hl hab hba

theorem Before.irrefl (hl : l.Nodup) (a : α) : ¬Before key l a a := fun h => h.asymm hl h

theorem pairwise_sortDesc (hl : l.Nodup) : (sortDesc key l).Pairwise (Before key l) := by
  have htrans : IsTrans α fun a b => key b ≤ key a := ⟨fun _ _ _ hab hbc => hbc.trans hab⟩
  have htotal : Std.Total fun a b : α => key b ≤ key a := ⟨fun a b => le_total (key b) (key a)⟩
  have hperm : (sortDesc key l).Perm l := perm_sortDesc l
  have hnodup : (sortDesc key l).Nodup := hperm.nodup_iff.2 hl
  rw [List.pairwise_iff_forall_sublist]
  intro a b hab
  have hle : key b ≤ key a :=
    List.pairwise_iff_forall_sublist.1 (List.pairwise_insertionSort _ l) hab
  refine hle.lt_or_eq.imp_right fun heq => ⟨heq, ?_⟩
  have hne : a ≠ b := by
    have hpair := hnodup.sublist hab
    simpa using hpair
  have hmem : ∀ c ∈ [a, b], c ∈ l := fun c hc => hperm.mem_iff.1 (hab.subset hc)
  rcases pair_of_ne (hmem a (by simp)) (hmem b (by simp)) hne with h | h
  · exact h
  · have hstable := List.pair_sublist_insertionSort (r := fun a b => key b ≤ key a) heq.ge h
    exact absurd hstable (not_pair_swap hnodup hab)

/-- A list that is in the order is sorted. -/
theorem sortDesc_of_pairwise {l : List α} (hs : s.Pairwise (Before key l)) : sortDesc key s = s :=
  (hs.imp fun h => h.le).insertionSort_eq

/-! ## Ranks -/

/-- In a list that is in an order, the elements among the first `k` are those with fewer than `k`
others before them. -/
theorem mem_take_iff {R : α → α → Prop} [DecidableRel R] (hirrefl : ∀ a, ¬R a a)
    (hasymm : ∀ a b, R a b → ¬R b a) (hs : s.Pairwise R) (ha : a ∈ s) {k : ℕ} :
    a ∈ s.take k ↔ s.countP (fun b => R b a) < k := by
  obtain ⟨u, v, rfl⟩ := List.append_of_mem ha
  obtain ⟨-, hv, huv⟩ := List.pairwise_append.1 hs
  have hu : ∀ b ∈ u, R b a := fun b hb => huv b hb a List.mem_cons_self
  have hav : ∀ b ∈ v, R a b := (List.pairwise_cons.1 hv).1
  have hcount : (u ++ a :: v).countP (fun b => R b a) = u.length := by
    rw [List.countP_append, List.countP_cons,
      List.countP_eq_length.2 fun b hb => by simpa using hu b hb,
      List.countP_eq_zero.2 fun b hb => by simpa using hasymm a b (hav b hb)]
    simp [hirrefl a]
  rw [hcount]
  constructor
  · intro hmem
    by_contra hle
    rw [List.take_append, List.mem_append] at hmem
    rcases hmem with hmem | hmem
    · exact hirrefl a (hu a (List.mem_of_mem_take hmem))
    · rw [Nat.sub_eq_zero_of_le (Nat.not_lt.1 hle)] at hmem
      exact absurd hmem List.not_mem_nil
  · intro hlt
    rw [List.take_append, List.mem_append]
    refine .inr ?_
    obtain ⟨n, hn⟩ : ∃ n, k - u.length = n + 1 := ⟨k - u.length - 1, by omega⟩
    rw [hn]
    exact List.mem_cons_self

end StableSort

end PPBase
