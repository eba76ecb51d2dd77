import Mathlib.Data.List.Sort
import PPBase.Dict
import PPBase.Json

/-!
# The keys of JSON objects

The members of an object have no order. `same` compares values as such, and `sortKeys` puts the
members of every object in the order of their keys. Values whose objects have no key twice are the
same if and only if they are equal once their keys are sorted (`same_iff_sortKeys_eq`); sorting is
idempotent (`sortKeys_sortKeys`), and keeps what holds of a value and of all values in it
(`all_sortKeys`).
-/

namespace PPBase

namespace Json

variable {σ φ : Type}

/-- No object has a key twice. -/
def DistinctKeys : Json σ φ → Prop
  | .obj ms => (Dict.keys ms).Nodup
  | _ => True

/-! ## Sorting -/

section Sorting

variable [LinearOrder σ]

/-- The members in the order of their keys. -/
def sortMembers {α : Type} (ms : List (σ × α)) : List (σ × α) :=
  ms.insertionSort fun a b => a.1 ≤ b.1

mutual

def sortKeys : Json σ φ → Json σ φ
  | .arr xs => .arr (sortKeysItems xs)
  | .obj ms => .obj (sortMembers (sortKeysMembers ms))
  | v => v

def sortKeysItems : List (Json σ φ) → List (Json σ φ)
  | [] => []
  | x :: xs => sortKeys x :: sortKeysItems xs

def sortKeysMembers : List (σ × Json σ φ) → List (σ × Json σ φ)
  | [] => []
  | (k, x) :: ms => (k, sortKeys x) :: sortKeysMembers ms

end

theorem sortKeys_arr (xs : List (Json σ φ)) : sortKeys (.arr xs) = .arr (xs.map sortKeys) := by
  have h : ∀ ys : List (Json σ φ), sortKeysItems ys = ys.map sortKeys := by
    intro ys
    induction ys with
    | nil => rfl
    | cons y ys ih => rw [sortKeysItems, ih, List.map_cons]
  rw [sortKeys, h]

theorem sortKeys_obj (ms : List (σ × Json σ φ)) :
    sortKeys (.obj ms) = .obj (sortMembers (ms.map fun m => (m.1, sortKeys m.2))) := by
  have h : ∀ ns : List (σ × Json σ φ), sortKeysMembers ns = ns.map fun m => (m.1, sortKeys m.2) := by
    intro ns
    induction ns with
    | nil => rfl
    | cons n ns ih => rw [sortKeysMembers, ih, List.map_cons]
  rw [sortKeys, h]

variable {α : Type}

theorem perm_sortMembers (ms : List (σ × α)) : (sortMembers ms).Perm ms :=
  List.perm_insertionSort _ ms

theorem pairwise_sortMembers (ms : List (σ × α)) :
    (sortMembers ms).Pairwise fun a b => a.1 ≤ b.1 := by
  have : Std.Total fun a b : σ × α => a.1 ≤ b.1 := ⟨fun a b => le_total a.1 b.1⟩
  have : IsTrans (σ × α) fun a b => a.1 ≤ b.1 := ⟨fun _ _ _ h h' => h.trans h'⟩
  exact List.pairwise_insertionSort _ ms

theorem sortMembers_map {β : Type} (f : α → β) (ms : List (σ × α)) :
    (sortMembers ms).map (fun m => (m.1, f m.2)) = sortMembers (ms.map fun m => (m.1, f m.2)) :=
  List.map_insertionSort _ _ _ _ fun _ _ _ _ => Iff.rfl

theorem sortMembers_sortMembers (ms : List (σ × α)) :
    sortMembers (sortMembers ms) = sortMembers ms :=
  (pairwise_sortMembers ms).insertionSort_eq

/-- Members with distinct keys have one order. -/
theorem sortMembers_eq_iff {ms ns : List (σ × α)} (hns : (Dict.keys ns).Nodup) :
    sortMembers ms = sortMembers ns ↔ ms.Perm ns := by
  constructor
  · intro h
    exact (perm_sortMembers ms).symm.trans (h ▸ perm_sortMembers ns)
  · intro h
    have hperm := (perm_sortMembers ms).trans (h.trans (perm_sortMembers ns).symm)
    refine List.Perm.eq_of_pairwise (fun a b ha hb hab hba => ?_) (pairwise_sortMembers ms)
      (pairwise_sortMembers ns) hperm
    have ha' : a ∈ ns := h.subset ((perm_sortMembers ms).subset ha)
    have hb' : b ∈ ns := (perm_sortMembers ns).subset hb
    exact List.inj_on_of_nodup_map hns ha' hb' (le_antisymm hab hba)

/-- Sorting twice is sorting once. -/
theorem sortKeys_sortKeys (v : Json σ φ) : sortKeys (sortKeys v) = sortKeys v := by
  induction v with
  | arr xs ih =>
    rw [sortKeys_arr, sortKeys_arr, List.map_map]
    exact congrArg _ (List.map_congr_left ih)
  | obj ms ih =>
    rw [sortKeys_obj, sortKeys_obj, sortMembers_map, sortMembers_sortMembers, List.map_map]
    exact congrArg _ (congrArg _ (List.map_congr_left fun m hm => congrArg _ (ih m hm)))
  | _ => rfl

/-- What sorting keeps of single values, it keeps of all values in a value. -/
theorem all_sortKeys {P : Json σ φ → Prop} (hP : ∀ v, P v → P (sortKeys v)) {v : Json σ φ}
    (h : All P v) : All P (sortKeys v) := by
  induction v with
  | arr xs ih =>
    obtain ⟨h, hxs⟩ := all_arr.1 h
    have hv := hP _ h
    rw [sortKeys_arr] at hv ⊢
    refine all_arr.2 ⟨hv, fun y hy => ?_⟩
    obtain ⟨x, hx, rfl⟩ := List.mem_map.1 hy
    exact ih x hx (hxs x hx)
  | obj ms ih =>
    obtain ⟨h, hms⟩ := all_obj.1 h
    have hv := hP _ h
    rw [sortKeys_obj] at hv ⊢
    refine all_obj.2 ⟨hv, fun n hn => ?_⟩
    obtain ⟨m, hm, rfl⟩ := List.mem_map.1 ((perm_sortMembers _).subset hn)
    exact ih m hm (hms m hm)
  | _ => exact hP _ h

end Sorting

/-! ## Equality -/

section Same

variable [LinearOrder σ] [DecidableEq φ]

mutual

/-- `v == w` of JSON values, whatever the order of members. -/
def same : Json σ φ → Json σ φ → Bool
  | .null, .null => true
  | .bool a, .bool b => a = b
  | .int i, .int j => i = j
  | .float x, .float y => x = y
  | .str s, .str t => s = t
  | .arr xs, .arr ys => sameItems xs ys
  | .obj ms, .obj ns => decide (ms.length = ns.length) && sameMembers ms ns
  | _, _ => false

def sameItems : List (Json σ φ) → List (Json σ φ) → Bool
  | [], [] => true
  | x :: xs, y :: ys => same x y && sameItems xs ys
  | _, _ => false

/-- Every member has its like among others. -/
def sameMembers : List (σ × Json σ φ) → Dict σ (Json σ φ) → Bool
  | [], _ => true
  | (k, v) :: ms, ns =>
    (match ns.get? k with
    | some w => same v w
    | none => false) && sameMembers ms ns

end

theorem sameItems_iff {xs ys : List (Json σ φ)}
    (h : ∀ x ∈ xs, ∀ y ∈ ys, same x y = true ↔ sortKeys x = sortKeys y) :
    sameItems xs ys = true ↔ xs.map sortKeys = ys.map sortKeys := by
  induction xs generalizing ys with
  | nil => cases ys <;> simp [sameItems]
  | cons x xs ih =>
    cases ys with
    | nil => simp [sameItems]
    | cons y ys =>
      rw [sameItems, Bool.and_eq_true, h x List.mem_cons_self y List.mem_cons_self,
        ih fun x hx y hy => h x (List.mem_cons_of_mem _ hx) y (List.mem_cons_of_mem _ hy),
        List.map_cons, List.map_cons, List.cons.injEq]

theorem sameMembers_iff {ms ns : Dict σ (Json σ φ)} :
    sameMembers ms ns = true ↔ ∀ m ∈ ms, ∃ w, ns.get? m.1 = some w ∧ same m.2 w = true := by
  induction ms with
  | nil => exact iff_of_true rfl fun _ h => absurd h List.not_mem_nil
  | cons m ms ih =>
    rw [sameMembers, Bool.and_eq_true, ih, List.forall_mem_cons]
    refine and_congr ?_ Iff.rfl
    cases ns.get? m.1 with
    | none => simp
    | some w => simp

/-- Objects with the same members are permutations of each other, once those are sorted. -/
theorem sameMembers_iff_perm {ms ns : Dict σ (Json σ φ)} (hms : (Dict.keys ms).Nodup)
    (hns : (Dict.keys ns).Nodup)
    (h : ∀ m ∈ ms, ∀ n ∈ ns, same m.2 n.2 = true ↔ sortKeys m.2 = sortKeys n.2) :
    (decide (ms.length = ns.length) && sameMembers ms ns) = true ↔
      (ms.map fun m => (m.1, sortKeys m.2)).Perm (ns.map fun n => (n.1, sortKeys n.2)) := by
  rw [Bool.and_eq_true, decide_eq_true_eq, sameMembers_iff]
  constructor
  · rintro ⟨hlen, hall⟩
    have hsub : (ms.map fun m => (m.1, sortKeys m.2)) ⊆ ns.map fun n => (n.1, sortKeys n.2) := by
      intro p hp
      obtain ⟨m, hm, rfl⟩ := List.mem_map.1 hp
      obtain ⟨w, hw, hsame⟩ := hall m hm
      have hmem := Dict.mem_of_get? hw
      exact List.mem_map.2 ⟨_, hmem, by rw [(h m hm _ hmem).1 hsame]⟩
    have hnodup : (ms.map fun m => (m.1, sortKeys m.2)).Nodup :=
      List.Nodup.of_map Prod.fst <| by rwa [List.map_map]
    exact (List.subperm_of_subset hnodup hsub).perm_of_length_le <| by
      rw [List.length_map, List.length_map, hlen]
  · intro hperm
    refine ⟨?_, fun m hm => ?_⟩
    · have := hperm.length_eq
      rwa [List.length_map, List.length_map] at this
    · obtain ⟨n, hn, heq⟩ := List.mem_map.1 (hperm.subset (List.mem_map_of_mem hm))
      obtain ⟨hkey, hvalue⟩ := Prod.mk.inj heq
      exact ⟨n.2, hkey ▸ Dict.get?_of_mem hns hn, (h m hm n hn).2 hvalue.symm⟩

/-- Values without a key twice are the same if they are equal once their keys are sorted. -/
theorem same_iff_sortKeys_eq {v w : Json σ φ} (hv : All DistinctKeys v) (hw : All DistinctKeys w) :
    same v w = true ↔ sortKeys v = sortKeys w := by
  induction v generalizing w with
  | arr xs ih =>
    cases w with
    | arr ys =>
      rw [same, sortKeys_arr, sortKeys_arr, Json.arr.injEq]
      exact sameItems_iff fun x hx y hy =>
        ih x hx ((all_arr.1 hv).2 x hx) ((all_arr.1 hw).2 y hy)
    | obj ns => simp [same, sortKeys]
    | _ => simp [same, sortKeys]
  | obj ms ih =>
    cases w with
    | arr ys => simp [same, sortKeys]
    | obj ns =>
      obtain ⟨hms, hms'⟩ := all_obj.1 hv
      obtain ⟨hns, hns'⟩ := all_obj.1 hw
      have hkeys : (Dict.keys (ns.map fun n => (n.1, sortKeys n.2))).Nodup := by
        rwa [Dict.keys, List.map_map]
      rw [same, sortKeys_obj, sortKeys_obj, Json.obj.injEq, sortMembers_eq_iff hkeys]
      exact sameMembers_iff_perm hms hns fun m hm n hn => ih m hm (hms' m hm) (hns' n hn)
    | _ => simp [same, sortKeys]
  | _ => cases w <;> simp [same, sortKeys]

end Same

end Json

end PPBase
