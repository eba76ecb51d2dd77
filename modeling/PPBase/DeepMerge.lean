import Mathlib.Data.Option.Basic
import Mathlib.Logic.Basic

/-!
# Merging nested records

A `Tree` is a value with lists and with records, whose members have no order. `merge` puts a value
over another : records are joined key by key, everything else is replaced. A value that has all
keys of another is what comes of putting it over that (`merge_eq_right_iff`), and whatever is put over
another has its keys (`covers_merge`).

`prune` takes the members with hidden keys away, at every depth. It leaves nothing of them
(`clean_prune`) and values without them alone (`prune_eq_self_iff`). What a value becomes under a
pruned one is that one before it was pruned exactly if the value has the hidden members, and not
more, wherever only records lie between (`merge_prune_eq_iff`, `Restored`) : what a list hides is
lost.
-/

namespace PPBase

/-- A value of leaves, lists and records. -/
inductive Tree (σ α : Type)
  | leaf (a : α)
  | arr (xs : List (Tree σ α))
  | obj (members : σ → Option (Tree σ α))

namespace Tree

variable {σ α : Type}

/-- Induction over a tree, with the hypothesis for every element of a list and every member of a
record. -/
@[elab_as_elim, induction_eliminator]
theorem induct {P : Tree σ α → Prop} (leaf : ∀ a, P (.leaf a))
    (arr : ∀ xs, (∀ x ∈ xs, P x) → P (.arr xs))
    (obj : ∀ f, (∀ k v, f k = some v → P v) → P (.obj f)) (t : Tree σ α) : P t :=
  @Tree.rec σ α P (fun xs => ∀ x ∈ xs, P x) (fun o => ∀ v, o = some v → P v)
    leaf arr obj (fun _ h => absurd h List.not_mem_nil)
    (fun _ _ hx hxs => List.forall_mem_cons.2 ⟨hx, hxs⟩)
    (fun _ h => nomatch h) (fun _ hv _ hw => Option.some.inj hw ▸ hv) t

/-- The members of a record. -/
def members? : Tree σ α → Option (σ → Option (Tree σ α))
  | .obj f => some f
  | _ => none

/-! ## Merging -/

mutual

/-- `v` put over what is there. -/
def merge : Option (Tree σ α) → Tree σ α → Tree σ α
  | some (.obj b), .obj f => .obj fun k => mergeMember (b k) (f k)
  | _, v => v

def mergeMember : Option (Tree σ α) → Option (Tree σ α) → Option (Tree σ α)
  | b, none => b
  | b, some v => some (merge b v)

end

@[simp] theorem mergeMember_none (b : Option (Tree σ α)) : mergeMember b none = b := by
  rw [mergeMember]

@[simp] theorem mergeMember_some (b : Option (Tree σ α)) (v : Tree σ α) :
    mergeMember b (some v) = some (merge b v) := by
  rw [mergeMember]

@[simp] theorem merge_obj (b f : σ → Option (Tree σ α)) :
    merge (some (.obj b)) (.obj f) = .obj fun k => mergeMember (b k) (f k) := by
  rw [merge]

/-- All but a record over a record replaces what is there. -/
theorem merge_eq_of_members? {c : Option (Tree σ α)} {v : Tree σ α}
    (h : c.bind members? = none ∨ v.members? = none) : merge c v = v := by
  unfold merge
  split
  · rcases h with h | h <;> cases h
  · rfl

/-- `e` has all keys of `d`, also those of the records in it. -/
inductive Covers : Tree σ α → Tree σ α → Prop
  | obj {d e : σ → Option (Tree σ α)} (keys : ∀ k, e k = none → d k = none)
      (values : ∀ k v w, d k = some v → e k = some w → Covers v w) : Covers (.obj d) (.obj e)
  | other {d e : Tree σ α} (h : d.members? = none ∨ e.members? = none) : Covers d e

/-- A value with all keys of another replaces it. -/
theorem merge_eq_right {d e : Tree σ α} (h : Covers d e) : merge (some d) e = e := by
  induction h with
  | other h => exact merge_eq_of_members? h
  | @obj d e keys values ih =>
    rw [merge_obj]
    congr 1
    funext k
    cases he : e k with
    | none => rw [mergeMember_none, keys k he]
    | some w =>
      rw [mergeMember_some]
      cases hd : d k with
      | none => rw [merge_eq_of_members? (.inl rfl)]
      | some v => rw [ih k v w hd he]

theorem covers_of_merge {d : Tree σ α} : ∀ {e : Tree σ α}, merge (some d) e = e → Covers d e := by
  induction d with
  | obj d ih =>
    intro e h
    cases e with
    | obj e =>
      rw [merge_obj] at h
      have hk : ∀ k, mergeMember (d k) (e k) = e k := fun k => congrFun (Tree.obj.inj h) k
      refine .obj (fun k he => ?_) fun k v w hv hw => ?_
      · have := hk k
        rwa [he, mergeMember_none] at this
      · have := hk k
        rw [hv, hw, mergeMember_some] at this
        exact ih k v hv (Option.some.inj this)
    | _ => exact .other (.inr rfl)
  | _ => exact fun _ => .other (.inl rfl)

theorem merge_eq_right_iff {d e : Tree σ α} : merge (some d) e = e ↔ Covers d e :=
  ⟨covers_of_merge, merge_eq_right⟩

theorem covers_obj_iff {d e : σ → Option (Tree σ α)} : Covers (.obj d) (.obj e) ↔
    (∀ k, e k = none → d k = none) ∧ ∀ k v w, d k = some v → e k = some w → Covers v w := by
  constructor
  · intro h
    cases h with
    | obj keys values => exact ⟨keys, values⟩
    | other h => rcases h with h | h <;> cases h
  · exact fun h => .obj h.1 h.2

theorem Covers.refl (v : Tree σ α) : Covers v v := by
  induction v with
  | obj f ih =>
    refine .obj (fun _ h => h) fun k v w hv hw => ?_
    obtain rfl := Option.some.inj (hv.symm.trans hw)
    exact ih k v hv
  | _ => exact .other (.inl rfl)

/-- Without one member, a record replaces another exactly if that has the same member there. -/
theorem merge_erase_iff [DecidableEq σ] {b f : σ → Option (Tree σ α)} {j : σ} :
    (merge (some (.obj b)) (.obj fun k => if k = j then none else f k) = .obj f) ↔
      Covers (.obj b) (.obj f) ∧ b j = f j := by
  rw [merge_obj, Tree.obj.injEq, funext_iff, covers_obj_iff]
  constructor
  · intro h
    have hj : b j = f j := by
      have := h j
      rwa [if_pos rfl, mergeMember_none] at this
    refine ⟨⟨fun k hf => ?_, fun k v w hv hw => ?_⟩, hj⟩
    · by_cases hk : k = j
      · rwa [hk, hj, ← hk]
      · have := h k
        rwa [if_neg hk, hf, mergeMember_none] at this
    · by_cases hk : k = j
      · subst hk
        obtain rfl := Option.some.inj (hv.symm.trans (hj.trans hw))
        exact .refl v
      · have := h k
        rw [if_neg hk, hv, hw, mergeMember_some] at this
        exact covers_of_merge (Option.some.inj this)
  · rintro ⟨⟨keys, values⟩, hj⟩ k
    by_cases hk : k = j
    · rw [if_pos hk, mergeMember_none, hk, hj]
    · rw [if_neg hk]
      cases hf : f k with
      | none => rw [mergeMember_none, keys k hf]
      | some w =>
        rw [mergeMember_some]
        cases hb : b k with
        | none => rw [merge_eq_of_members? (.inl rfl)]
        | some v => rw [merge_eq_right (values k v w hb hf)]

/-- A value put over another has all its keys. -/
theorem covers_merge (d : Tree σ α) : ∀ e, Covers d (merge (some d) e) := by
  induction d with
  | obj d ih =>
    intro e
    cases e with
    | obj e =>
      rw [merge_obj]
      refine .obj (fun k h => ?_) fun k v w hv hw => ?_
      · cases he : e k with
        | none => rwa [he, mergeMember_none] at h
        | some x => rw [he, mergeMember_some] at h; cases h
      · cases he : e k with
        | none =>
          rw [he, mergeMember_none, hv] at hw
          cases hw
          exact .refl v
        | some x =>
          rw [he, mergeMember_some, hv] at hw
          cases hw
          exact ih k v hv x
    | _ => exact .other (.inr rfl)
  | _ => exact fun _ => .other (.inl rfl)

/-! ## Pruning -/

section Prune

variable (hidden : σ → Prop) [DecidablePred hidden]

mutual

/-- A value without the members with hidden keys. -/
def prune : Tree σ α → Tree σ α
  | .leaf a => .leaf a
  | .arr xs => .arr (pruneItems xs)
  | .obj f => .obj fun k => if hidden k then none else pruneMember (f k)

def pruneItems : List (Tree σ α) → List (Tree σ α)
  | [] => []
  | x :: xs => prune x :: pruneItems xs

def pruneMember : Option (Tree σ α) → Option (Tree σ α)
  | none => none
  | some v => some (prune v)

end

theorem prune_arr (xs : List (Tree σ α)) :
    prune hidden (.arr xs) = .arr (xs.map (prune hidden)) := by
  have h : ∀ ys : List (Tree σ α), pruneItems hidden ys = ys.map (prune hidden) := by
    intro ys
    induction ys with
    | nil => rfl
    | cons y ys ih => rw [pruneItems, ih, List.map_cons]
  rw [prune, h]

theorem prune_obj (f : σ → Option (Tree σ α)) :
    prune hidden (.obj f) = .obj fun k => if hidden k then none else (f k).map (prune hidden) := by
  rw [prune]
  congr 1
  funext k
  cases f k <;> rfl

/-- Nothing in a value is hidden. -/
inductive Clean : Tree σ α → Prop
  | leaf (a : α) : Clean (.leaf a)
  | arr {xs : List (Tree σ α)} (items : ∀ x ∈ xs, Clean x) : Clean (.arr xs)
  | obj {f : σ → Option (Tree σ α)} (keys : ∀ k, hidden k → f k = none)
      (values : ∀ k v, f k = some v → Clean v) : Clean (.obj f)

theorem clean_prune (v : Tree σ α) : Clean hidden (prune hidden v) := by
  induction v with
  | leaf a => rw [prune]; exact .leaf a
  | arr xs ih =>
    rw [prune_arr]
    exact .arr (List.forall_mem_map.2 ih)
  | obj f ih =>
    rw [prune_obj]
    refine .obj (fun k hk => if_pos hk) fun k v hv => ?_
    split at hv
    · cases hv
    · obtain ⟨w, hw, rfl⟩ := Option.map_eq_some_iff.1 hv
      exact ih k w hw

variable {hidden}

variable {v : Tree σ α}

theorem Clean.prune (h : Clean hidden v) : prune hidden v = v := by
  induction h with
  | leaf a => rw [Tree.prune]
  | arr items ih => rw [prune_arr, List.map_congr_left ih, List.map_id']
  | @obj f keys values ih =>
    rw [prune_obj]
    congr 1
    funext k
    split
    · rw [keys k ‹_›]
    · cases hf : f k with
      | none => rfl
      | some v => rw [Option.map_some, ih k v hf]

theorem prune_eq_self_iff : prune hidden v = v ↔ Clean hidden v :=
  ⟨fun h => h ▸ clean_prune hidden v, Clean.prune⟩

/-! ## Merging what was pruned -/

variable (hidden)

/-- What is at `c` has the hidden members of `v`, and no others than `v` has, as far as only records
lie between : where something else does, `v` hides nothing. -/
inductive Restored : Option (Tree σ α) → Tree σ α → Prop
  | obj {b f : σ → Option (Tree σ α)} (keys : ∀ k, f k = none → b k = none)
      (kept : ∀ k v, hidden k → f k = some v → b k = some v)
      (values : ∀ k v, ¬hidden k → f k = some v → Restored (b k) v) :
      Restored (some (.obj b)) (.obj f)
  | other {c : Option (Tree σ α)} {v : Tree σ α} (h : c.bind members? = none ∨ v.members? = none)
      (clean : Clean hidden v) : Restored c v

variable {hidden}

theorem members?_prune : (prune hidden v).members? = none ↔ v.members? = none := by
  cases v with
  | leaf a => rw [prune]
  | arr xs => rw [prune_arr]; exact Iff.rfl
  | obj f => rw [prune_obj]; simp [members?]

theorem merge_prune_of_members? {c : Option (Tree σ α)}
    (h : c.bind members? = none ∨ v.members? = none) : merge c (prune hidden v) = prune hidden v :=
  merge_eq_of_members? (h.imp_right members?_prune.2)

theorem Restored.merge_prune {c : Option (Tree σ α)} (h : Restored hidden c v) :
    merge c (prune hidden v) = v := by
  induction h with
  | other h clean => rw [merge_prune_of_members? h, clean.prune]
  | @obj b f keys kept values ih =>
    rw [prune_obj, merge_obj]
    congr 1
    funext k
    cases hf : f k with
    | none => rw [Option.map_none, ite_self, mergeMember_none, keys k hf]
    | some v =>
      split
      · rw [mergeMember_none, kept k v ‹_› hf]
      · rw [Option.map_some, mergeMember_some, ih k v ‹_› hf]

theorem restored_of_merge_prune :
    ∀ {c : Option (Tree σ α)}, merge c (prune hidden v) = v → Restored hidden c v := by
  induction v with
  | leaf a => exact fun _ => .other (.inr rfl) (.leaf a)
  | arr xs ih =>
    intro c h
    rw [merge_prune_of_members? (.inr rfl)] at h
    exact .other (.inr rfl) (prune_eq_self_iff.1 h)
  | obj f ih =>
    intro c h
    cases hc : c.bind members? with
    | none =>
      rw [merge_prune_of_members? (.inl hc)] at h
      exact .other (.inl hc) (prune_eq_self_iff.1 h)
    | some b =>
      obtain ⟨t, rfl, ht⟩ := Option.bind_eq_some_iff.1 hc
      obtain rfl : t = .obj b := by cases t <;> cases ht; rfl
      rw [prune_obj, merge_obj] at h
      have hk : ∀ k, mergeMember (b k) (if hidden k then none else (f k).map (prune hidden)) =
          f k :=
        fun k => congrFun (Tree.obj.inj h) k
      refine .obj (fun k hf => ?_) (fun k v hh hf => ?_) fun k v hh hf => ?_
      · have := hk k
        rwa [hf, Option.map_none, ite_self, mergeMember_none] at this
      · have := hk k
        rwa [if_pos hh, mergeMember_none, hf] at this
      · have := hk k
        rw [if_neg hh, hf, Option.map_some, mergeMember_some] at this
        exact ih k v hf (Option.some.inj this)

/-- A value comes back from a pruned one exactly if it is restored. -/
theorem merge_prune_eq_iff {c : Option (Tree σ α)} :
    merge c (prune hidden v) = v ↔ Restored hidden c v :=
  ⟨restored_of_merge_prune, Restored.merge_prune⟩

end Prune

end Tree

end PPBase
