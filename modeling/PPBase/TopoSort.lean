import Mathlib.Data.List.Nodup
import Mathlib.Data.Fintype.Card
import Mathlib.Data.Fintype.EquivFin
import Mathlib.Data.Fintype.Sets
import Mathlib.Logic.Relation
import Mathlib.Order.WellFounded
import PPBase.Dict

/-!
# Sorting by dependencies

`layers` takes from a table of dependencies, again and again, the keys that depend on nothing any
more, in an order of their own (`Arrangement`). Over a table that depends on its own keys only, it
lists each key after those it depends on (`layers_ok`), or is left with keys that each depend on one
of them (`layers_error`), so it fails exactly if a key depends on itself in some steps
(`layers_ok_iff`).
-/

namespace PPBase

namespace TopoSort

/-- A way to put a list in order. -/
structure Arrangement (α : Type*) where
  arrange : List α → List α
  perm : ∀ l, (arrange l).Perm l

variable {α : Type*} [DecidableEq α] (A : Arrangement α)

/-- The keys without dependencies. -/
def ready (remaining : Dict α (List α)) : List α :=
  A.arrange ((remaining.filter fun e => e.2 = []).map Prod.fst)

/-- The table without the keys that are done. -/
def strip (done : List α) (remaining : Dict α (List α)) : Dict α (List α) :=
  (remaining.filter fun e => e.1 ∉ done).map fun e => (e.1, e.2.filter (· ∉ done))

variable {A}

variable {remaining : Dict α (List α)}

omit [DecidableEq α] in
theorem mem_ready {a : α} : a ∈ ready A remaining ↔ (a, []) ∈ remaining := by
  rw [ready, (A.perm _).mem_iff, List.mem_map]
  constructor
  · rintro ⟨e, he, rfl⟩
    obtain ⟨hmem, hnil⟩ := List.mem_filter.1 he
    rw [← of_decide_eq_true hnil]
    exact hmem
  · exact fun h => ⟨_, List.mem_filter.2 ⟨h, decide_eq_true rfl⟩, rfl⟩

theorem mem_strip {done : List α} {e : α × List α} :
    e ∈ strip done remaining ↔ ∃ f ∈ remaining, f.1 ∉ done ∧ (f.1, f.2.filter (· ∉ done)) = e := by
  simp only [strip, List.mem_map, List.mem_filter, decide_eq_true_iff, and_assoc]

theorem length_strip_lt (h : ready A remaining ≠ []) :
    (strip (ready A remaining) remaining).length < remaining.length := by
  obtain ⟨a, ha⟩ := List.exists_mem_of_ne_nil _ h
  rw [strip, List.length_map, List.length_filter_lt_length_iff_exists]
  exact ⟨_, mem_ready.1 ha, by simpa using ha⟩

variable (A)

/-- The keys in layers, or those that are left when none is ready. -/
def layers (remaining : Dict α (List α)) : Except (List α) (List α) :=
  if remaining = [] then .ok []
  else if _h : ready A remaining = [] then .error remaining.keys
  else (layers (strip (ready A remaining) remaining)).map (ready A remaining ++ ·)
termination_by remaining.length
decreasing_by exact length_strip_lt _h

variable {A}

/-- A table that depends on its own keys. -/
structure Closed (remaining : Dict α (List α)) : Prop where
  nodup : remaining.keys.Nodup
  inside : ∀ e ∈ remaining, ∀ d ∈ e.2, d ∈ remaining.keys

theorem keys_strip (done : List α) (remaining : Dict α (List α)) :
    (strip done remaining).keys = remaining.keys.filter (· ∉ done) := by
  rw [strip, Dict.keys, Dict.keys, List.map_map, List.filter_map]
  rfl

theorem Closed.strip (h : Closed remaining) (done : List α) : Closed (strip done remaining) where
  nodup := by
    rw [keys_strip]
    exact h.nodup.filter _
  inside := by
    rintro e he d hd
    obtain ⟨f, hf, -, rfl⟩ := mem_strip.1 he
    obtain ⟨hmem, hnot⟩ := List.mem_filter.1 hd
    rw [keys_strip]
    exact List.mem_filter.2 ⟨h.inside f hf d hmem, hnot⟩

omit [DecidableEq α] in
theorem nodup_ready (h : remaining.keys.Nodup) : (ready A remaining).Nodup := by
  rw [ready, (A.perm _).nodup_iff]
  exact h.sublist (List.filter_sublist.map Prod.fst)

/-- A key with dependencies is not ready. -/
theorem notMem_ready (h : remaining.keys.Nodup) {e : α × List α} (he : e ∈ remaining)
    (hne : e.2 ≠ []) : e.1 ∉ ready A remaining := by
  intro hready
  have hget := Dict.get?_of_mem h (mem_ready.1 hready)
  rw [Dict.get?_of_mem h he] at hget
  exact hne (Option.some.inj hget)

/-- What is listed : every key once, after those it depends on. -/
theorem layers_ok (h : Closed remaining) {l : List α} (hl : layers A remaining = .ok l) :
    l.Nodup ∧ (∀ a, a ∈ l ↔ a ∈ remaining.keys) ∧
      ∀ e ∈ remaining, ∀ d ∈ e.2, l.idxOf d < l.idxOf e.1 := by
  induction remaining using layers.induct (A := A) generalizing l with
  | case1 =>
    rw [layers, if_pos rfl] at hl
    obtain rfl := Except.ok.inj hl
    exact ⟨List.nodup_nil, fun a => Iff.rfl, nofun⟩
  | case2 remaining hne hready =>
    rw [layers, if_neg hne, dif_pos hready] at hl
    cases hl
  | case3 remaining hne hready ih =>
    rw [layers, if_neg hne, dif_neg hready] at hl
    cases hrest : layers A (strip (ready A remaining) remaining) with
    | error ks =>
      rw [hrest] at hl
      cases hl
    | ok rest =>
      rw [hrest] at hl
      obtain rfl := Except.ok.inj hl
      obtain ⟨hnodup, hmem, hbefore⟩ := ih (h.strip _) hrest
      have hmem' : ∀ a, a ∈ rest ↔ a ∈ remaining.keys ∧ a ∉ ready A remaining := by
        intro a
        rw [hmem, keys_strip, List.mem_filter, decide_eq_true_iff]
      refine ⟨(nodup_ready h.nodup).append hnodup fun a ha har => ((hmem' a).1 har).2 ha, ?_, ?_⟩
      · intro a
        rw [List.mem_append, hmem']
        have hkeys : a ∈ ready A remaining → a ∈ remaining.keys := fun ha =>
          List.mem_map_of_mem (mem_ready.1 ha)
        tauto
      · intro e he d hd
        have hnot := notMem_ready (A := A) h.nodup he (List.ne_nil_of_mem hd)
        rw [List.idxOf_append_of_notMem hnot]
        by_cases hdone : d ∈ ready A remaining
        · rw [List.idxOf_append_of_mem hdone]
          exact Nat.lt_add_right _ (List.idxOf_lt_length_of_mem hdone)
        · rw [List.idxOf_append_of_notMem hdone]
          have hlt : rest.idxOf d < rest.idxOf e.1 :=
            hbefore _ (mem_strip.2 ⟨e, he, hnot, rfl⟩) d
              (List.mem_filter.2 ⟨hd, decide_eq_true hdone⟩)
          omega

/-- What is left : keys that each depend on one of them. -/
theorem layers_error (h : Closed remaining) {ks : List α} (hks : layers A remaining = .error ks) :
    ks ≠ [] ∧ ∀ a ∈ ks, ∃ b ∈ ks, ∃ e ∈ remaining, e.1 = a ∧ b ∈ e.2 := by
  induction remaining using layers.induct (A := A) with
  | case1 =>
    rw [layers, if_pos rfl] at hks
    cases hks
  | case2 remaining hne hready =>
    rw [layers, if_neg hne, dif_pos hready] at hks
    obtain rfl := Except.error.inj hks
    refine ⟨fun hnil => hne (List.map_eq_nil_iff.1 hnil), fun a ha => ?_⟩
    obtain ⟨e, he, rfl⟩ := List.mem_map.1 ha
    obtain ⟨d, hd⟩ : ∃ d, d ∈ e.2 := by
      refine List.exists_mem_of_ne_nil _ fun hnil => ?_
      have hmem : e.1 ∈ ready A remaining := mem_ready.2 (hnil ▸ he)
      rw [hready] at hmem
      cases hmem
    exact ⟨d, h.inside e he d hd, e, he, rfl, hd⟩
  | case3 remaining hne hready ih =>
    rw [layers, if_neg hne, dif_neg hready] at hks
    cases hrest : layers A (strip (ready A remaining) remaining) with
    | ok rest =>
      rw [hrest] at hks
      cases hks
    | error ks' =>
      rw [hrest] at hks
      obtain rfl := Except.error.inj hks
      obtain ⟨hne, hdep⟩ := ih (h.strip _) hrest
      refine ⟨hne, fun a ha => ?_⟩
      obtain ⟨b, hb, e, he, rfl, hbe⟩ := hdep a ha
      obtain ⟨f, hf, -, rfl⟩ := mem_strip.1 he
      exact ⟨b, hb, f, hf, rfl, (List.mem_filter.1 hbe).1⟩

omit [DecidableEq α] in
/-- Finitely many, each with a successor among them : one comes back to itself. -/
theorem exists_cycle {r : α → α → Prop} {s : List α} (hne : s ≠ [])
    (h : ∀ a ∈ s, ∃ b ∈ s, r a b) : ∃ a, Relation.TransGen r a a := by
  by_contra hnone
  push Not at hnone
  let q : {a // a ∈ s} → {a // a ∈ s} → Prop := fun x y => Relation.TransGen r y.1 x.1
  have hfinite : Finite {a // a ∈ s} := by
    classical
    infer_instance
  have htrans : IsTrans _ q := ⟨fun _ _ _ hxy hyz => hyz.trans hxy⟩
  have hirrefl : Std.Irrefl q := ⟨fun x => hnone x.1⟩
  have hwf : WellFounded q := Finite.wellFounded_of_trans_of_irrefl q
  obtain ⟨a, ha⟩ := List.exists_mem_of_ne_nil s hne
  obtain ⟨m, -, hmin⟩ := hwf.has_min Set.univ ⟨⟨a, ha⟩, trivial⟩
  obtain ⟨b, hb, hr⟩ := h m.1 m.2
  exact hmin ⟨b, hb⟩ trivial (.single hr)

/-- A key depends on another. -/
def DependsOn (remaining : Dict α (List α)) (a b : α) : Prop := ∃ e ∈ remaining, e.1 = a ∧ b ∈ e.2

theorem layers_ok_iff (h : Closed remaining) :
    (∃ l, layers A remaining = .ok l) ↔ ∀ a, ¬Relation.TransGen (DependsOn remaining) a a := by
  constructor
  · rintro ⟨l, hl⟩ a ha
    obtain ⟨-, -, hbefore⟩ := layers_ok h hl
    have hlt : ∀ b, Relation.TransGen (DependsOn remaining) a b → l.idxOf b < l.idxOf a := by
      intro b hb
      induction hb with
      | single hab =>
        obtain ⟨e, he, rfl, hd⟩ := hab
        exact hbefore e he _ hd
      | tail _ hbc ih =>
        obtain ⟨e, he, rfl, hd⟩ := hbc
        exact (hbefore e he _ hd).trans ih
    exact absurd (hlt a ha) (lt_irrefl _)
  · intro hnone
    cases hl : layers A remaining with
    | ok l => exact ⟨l, rfl⟩
    | error ks =>
      obtain ⟨hne, hdep⟩ := layers_error h hl
      obtain ⟨a, ha⟩ := exists_cycle hne hdep
      exact absurd ha (hnone a)

end TopoSort

end PPBase
