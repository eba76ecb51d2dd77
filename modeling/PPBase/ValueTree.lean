import PPBase.CollectionService
import PPBase.DeepMerge

/-!
# Values without the order of members

Python compares dictionaries without the order of their members. `Value.tree` forgets that order,
and merging one value into another (`mergeValue`, `deepMergeDicts`) is `Tree.merge` then
(`tree_mergeValue`), as long as no object has a key twice (`Value.distinctKeys`).
-/

namespace PPBase

namespace Value

/-- Induction over the elements and the members. -/
@[elab_as_elim, induction_eliminator]
theorem induct {P : Value → Prop} (null : P .null) (bool : ∀ b, P (.bool b))
    (num : ∀ q, P (.num q)) (text : ∀ s, P (.text s)) (time : ∀ t, P (.time t))
    (list : ∀ vs, (∀ v ∈ vs, P v) → P (.list vs))
    (obj : ∀ fs, (∀ f ∈ fs, P f.2) → P (.obj fs)) (v : Value) : P v :=
  @Value.rec P (fun vs => ∀ v ∈ vs, P v) (fun fs => ∀ f ∈ fs, P f.2) (fun f => P f.2)
    null bool num text time list obj (fun _ h => absurd h List.not_mem_nil)
    (fun _ _ hv hvs => List.forall_mem_cons.2 ⟨hv, hvs⟩)
    (fun _ h => absurd h List.not_mem_nil)
    (fun _ _ hf hfs => List.forall_mem_cons.2 ⟨hf, hfs⟩) (fun _ _ h => h) v

mutual

/-- No object in a value has a key twice. -/
def distinctKeys : Value → Bool
  | .list vs => distinctItems vs
  | .obj fs => decide (Dict.keys fs).Nodup && distinctFields fs
  | _ => true

def distinctItems : List Value → Bool
  | [] => true
  | v :: vs => distinctKeys v && distinctItems vs

def distinctFields : List (Text × Value) → Bool
  | [] => true
  | (_, v) :: fs => distinctKeys v && distinctFields fs

end

theorem distinctKeys_list {vs : List Value} :
    distinctKeys (.list vs) = true ↔ ∀ v ∈ vs, distinctKeys v = true := by
  have h : ∀ ws : List Value, distinctItems ws = true ↔ ∀ v ∈ ws, distinctKeys v = true := by
    intro ws
    induction ws with
    | nil => exact iff_of_true rfl fun _ h => absurd h List.not_mem_nil
    | cons w ws ih => rw [distinctItems, Bool.and_eq_true, ih, List.forall_mem_cons]
  rw [distinctKeys, h]

variable {fs : Dict Text Value}

theorem distinctKeys_obj :
    distinctKeys (.obj fs) = true ↔ (Dict.keys fs).Nodup ∧ ∀ f ∈ fs, distinctKeys f.2 = true := by
  have h : ∀ gs : Dict Text Value, distinctFields gs = true ↔
      ∀ f ∈ gs, distinctKeys f.2 = true := by
    intro gs
    induction gs with
    | nil => exact iff_of_true rfl fun _ h => absurd h List.not_mem_nil
    | cons g gs ih => rw [distinctFields, Bool.and_eq_true, ih, List.forall_mem_cons]
  rw [distinctKeys, Bool.and_eq_true, decide_eq_true_eq, h]

theorem distinctKeys_obj_iff : distinctKeys (.obj fs) = true ↔
    (Dict.keys fs).Nodup ∧ ∀ k v, fs.get? k = some v → distinctKeys v = true := by
  rw [distinctKeys_obj]
  refine and_congr_right fun h => ⟨fun hfs k v hv => hfs _ (Dict.mem_of_get? hv),
    fun hfs f hf => ?_⟩
  exact hfs f.1 f.2 (Dict.get?_of_mem h hf)

theorem distinctKeys_get? (h : distinctKeys (.obj fs) = true) {k : Text} {v : Value}
    (hv : fs.get? k = some v) : distinctKeys v = true :=
  (distinctKeys_obj.1 h).2 _ (Dict.mem_of_get? hv)

mutual

/-- A value without the order of the members of its objects. -/
def tree : Value → Tree Text Value
  | .list vs => .arr (treeItems vs)
  | .obj fs => .obj (treeFields fs)
  | v => .leaf v

def treeItems : List Value → List (Tree Text Value)
  | [] => []
  | v :: vs => tree v :: treeItems vs

def treeFields : List (Text × Value) → Text → Option (Tree Text Value)
  | [], _ => none
  | (k', v) :: fs, k => if k' = k then some (tree v) else treeFields fs k

end

theorem tree_list (vs : List Value) : tree (.list vs) = .arr (vs.map tree) := by
  have h : ∀ ws : List Value, treeItems ws = ws.map tree := by
    intro ws
    induction ws with
    | nil => rfl
    | cons w ws ih => rw [treeItems, ih, List.map_cons]
  rw [tree, h]

theorem tree_obj (fs : Dict Text Value) : tree (.obj fs) = .obj fun k => (fs.get? k).map tree := by
  have h : ∀ (gs : Dict Text Value) k, treeFields gs k = (gs.get? k).map tree := by
    intro gs k
    induction gs with
    | nil => rfl
    | cons g gs ih =>
      rw [treeFields, ih, Dict.get?_cons]
      split <;> rfl
  rw [tree]
  exact congrArg _ (funext (h fs))

theorem members?_tree {v : Value} : v.tree.members? = none ↔ ∀ fs, v ≠ .obj fs := by
  cases v <;> simp [tree, Tree.members?]

theorem tree_obj_inj {gs : Dict Text Value} :
    tree (.obj fs) = tree (.obj gs) ↔ ∀ k, (fs.get? k).map tree = (gs.get? k).map tree := by
  rw [tree_obj, tree_obj]
  exact ⟨fun h k => congrFun (Tree.obj.inj h) k, fun h => congrArg _ (funext h)⟩

end Value

/-! ## Merging -/

theorem get?_deepMergeDicts {override : Dict Text Value} (h : override.keys.Nodup) :
    ∀ (base : Dict Text Value) (k : Text), (deepMergeDicts base override).get? k =
      match override.get? k with
      | none => base.get? k
      | some v => some (mergeValue (base.get? k) v) := by
  induction override with
  | nil => exact fun base k => by rw [deepMergeDicts]; rfl
  | cons e override ih =>
    intro base k
    obtain ⟨j, v⟩ := e
    obtain ⟨hj, hrest⟩ := List.nodup_cons.1 h
    rw [deepMergeDicts, ih hrest, Dict.get?_cons, Dict.get?_set]
    by_cases hk : j = k
    · subst hk
      rw [if_pos rfl, Dict.get?_eq_none_iff.2 hj, if_pos rfl]
    · rw [if_neg hk, if_neg hk]

theorem mergeValue_obj (base override : Dict Text Value) :
    mergeValue (some (.obj base)) (.obj override) = .obj (deepMergeDicts base override) := by
  rw [mergeValue]

theorem mergeValue_eq_right {c : Option Value} {v : Value}
    (h : ∀ b o, c = some (.obj b) → v ≠ .obj o) : mergeValue c v = v := by
  unfold mergeValue
  split
  · split
    · exact absurd rfl (h _ _ rfl)
    · rfl
  · rfl

open Value in
/-- Merging is that of values without order. -/
theorem tree_mergeValue {v : Value} : ∀ (c : Option Value), v.distinctKeys = true →
    (mergeValue c v).tree = Tree.merge (c.map tree) v.tree := by
  induction v with
  | obj fs ih =>
    intro c h
    by_cases hc : ∃ b, c = some (.obj b)
    · obtain ⟨b, rfl⟩ := hc
      rw [mergeValue_obj, tree_obj, Option.map_some, tree_obj, tree_obj, Tree.merge_obj]
      congr 1
      funext k
      rw [get?_deepMergeDicts (distinctKeys_obj.1 h).1]
      cases hk : Dict.get? fs k with
      | none => rw [Option.map_none, Tree.mergeMember_none]
      | some v =>
        rw [Option.map_some, Option.map_some, Tree.mergeMember_some,
          ih _ (Dict.mem_of_get? hk) _ (distinctKeys_get? h hk)]
    · rw [mergeValue_eq_right fun b _ h _ => hc ⟨b, h⟩, Tree.merge_eq_of_members? (.inl _)]
      rcases c with _ | c
      · rfl
      · exact members?_tree.2 fun b hb => hc ⟨b, congrArg _ hb⟩
  | _ =>
    intro c _
    rw [mergeValue_eq_right, Tree.merge_eq_of_members? (.inr _)]
    · exact members?_tree.2 fun ms h => by cases h
    · exact fun b o _ h => by cases h

theorem tree_deepMergeDicts (base : Dict Text Value) {override : Dict Text Value}
    (h : (Value.obj override).distinctKeys =
        true) : (Value.obj (deepMergeDicts base override)).tree =
      Tree.merge (some (Value.obj base).tree) (Value.obj override).tree := by
  rw [← mergeValue_obj]
  exact tree_mergeValue _ h

theorem map_tree_get?_deepMergeDicts (base : Dict Text Value) {override : Dict Text Value}
    (h : (Value.obj override).distinctKeys = true) (k : Text) :
    ((deepMergeDicts base override).get? k).map Value.tree =
      Tree.mergeMember ((base.get? k).map Value.tree) ((override.get? k).map Value.tree) := by
  have htree := tree_deepMergeDicts base h
  rw [Value.tree_obj, Value.tree_obj, Value.tree_obj, Tree.merge_obj] at htree
  exact congrFun (Tree.obj.inj htree) k

theorem distinctKeys_set {d : Dict Text Value} (hd : (Value.obj d).distinctKeys = true) {v : Value}
    (hv : v.distinctKeys = true) (k : Text) : (Value.obj (d.set k v)).distinctKeys = true := by
  obtain ⟨hkeys, hvalues⟩ := Value.distinctKeys_obj.1 hd
  refine Value.distinctKeys_obj.2 ⟨Dict.nodup_keys_set hkeys k v, fun f hf => ?_⟩
  rcases Dict.mem_set hf with rfl | hf
  · exact hv
  · exact hvalues f hf

theorem distinctKeys_del {d : Dict Text Value} (hd : (Value.obj d).distinctKeys = true) (k : Text) :
    (Value.obj (d.del k)).distinctKeys = true := by
  obtain ⟨hkeys, hvalues⟩ := Value.distinctKeys_obj.1 hd
  exact Value.distinctKeys_obj.2 ⟨hkeys.sublist (List.filter_sublist.map _),
    fun f hf => hvalues f (List.mem_of_mem_filter hf)⟩

end PPBase
