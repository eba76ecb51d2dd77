import Mathlib.Data.Char
import Mathlib.Data.List.Lex
import Mathlib.Data.List.Sort
import PPBase.Text
import PPBase.TopoSort

/-!
# The order of a snapshot

A snapshot lists its tables first and then its views, in layers of what they depend on
(`orderSnapshotCollections`). What a view has of itself among its dependencies is left out. For
collections with names of their own, `orders_iff` : the result is the given collections, tables
first, each view after the others it depends on, and there is none exactly if views depend on each
other in a circle. A view that depends on itself alone is listed (`order_selfDependent`).
-/

namespace PPBase

namespace SnapshotOrder

open TopoSort

/-- What is read of a collection. -/
structure Definition where
  name : Text
  id : Text
  type : Text
  deriving DecidableEq

namespace Definition

def isView (d : Definition) : Bool := d.type = ("view" : Text)

/-- `sort_key(a) <= sort_key(b)` -/
def keyLe (casefold : Text → Text) (a b : Definition) : Prop :=
  casefold a.name < casefold b.name ∨ casefold a.name = casefold b.name ∧ a.id ≤ b.id

instance (casefold : Text → Text) : DecidableRel (keyLe casefold) :=
  fun _ _ => inferInstanceAs (Decidable (_ ∨ _))

end Definition

/-- `{str(definition["name"]): definition for definition in view_collections}` -/
def viewsByName (views : List Definition) : Dict Text Definition :=
  views.foldl (fun d v => d.set v.name v) []

variable (casefold : Text → Text)

/-- `sort_key(views_by_name[a]) <= sort_key(views_by_name[b])` -/
def nameLe (views : Dict Text Definition) (a b : Text) : Prop :=
  match views.get? a, views.get? b with
  | some v, some w => v.keyLe casefold w
  | _, _ => True

instance (views : Dict Text Definition) : DecidableRel (nameLe casefold views) := fun a b => by
  unfold nameLe
  exact match views.get? a, views.get? b with
  | some v, some w => inferInstanceAs (Decidable (v.keyLe casefold w))
  | some _, none | none, _ => inferInstanceAs (Decidable True)

/-- `sorted(names, key=lambda name: sort_key(views_by_name[name]))` -/
def byKey (views : Dict Text Definition) : Arrangement Text where
  arrange names := names.insertionSort (nameLe casefold views)
  perm _ := List.perm_insertionSort _ _

/-- The views each view is still to wait for. -/
def remainingViews (dependencies : Text → List Text) (views : Dict Text Definition) :
    Dict Text (List Text) :=
  views.map fun e => (e.1, ((dependencies e.1).filter fun d => views.has d && d ≠ e.1).dedup)

/-- The `ValueError` of `_order_snapshot_collections`. -/
def unresolvedError (names : List Text) : Text :=
  ("Snapshot contains cyclic or unresolved view dependencies: " : Text) ++
    (", ".toList.intercalate (names.insertionSort (· ≤ ·))) ++ ['.']

/-- `_order_snapshot_collections`, where `dependencies` is `view_dependencies.get(name, ())`. -/
def orderSnapshotCollections (dependencies : Text → List Text) (definitions : List Definition) :
    Except Text (List Definition) :=
  let tables := (definitions.filter fun d => !d.isView).insertionSort (Definition.keyLe casefold)
  let views := definitions.filter Definition.isView
  if views = [] then .ok tables
  else
    let byName := viewsByName views
    match layers (byKey casefold byName) (remainingViews dependencies byName) with
    | .error names => .error (unresolvedError names)
    | .ok names => .ok (tables ++ names.filterMap byName.get?)

/-! ## Views by name -/

theorem viewsByName_eq {views : List Definition} (h : (views.map Definition.name).Nodup) :
    viewsByName views = views.map fun v => (v.name, v) :=
  Dict.foldl_set_eq Definition.name id views [] h

section Views

variable {views : List Definition} (h : (views.map Definition.name).Nodup)

include h

theorem keys_viewsByName : (viewsByName views).keys = views.map Definition.name := by
  rw [viewsByName_eq h, Dict.keys, List.map_map]
  rfl

theorem get?_viewsByName {v : Definition} (hv : v ∈ views) :
    (viewsByName views).get? v.name = some v := by
  refine Dict.get?_of_mem (e := (v.name, v)) ?_ ?_
  · rw [keys_viewsByName h]
    exact h
  · rw [viewsByName_eq h]
    exact List.mem_map.2 ⟨v, hv, rfl⟩

theorem keys_remainingViews (dependencies : Text → List Text) :
    (remainingViews dependencies (viewsByName views)).keys = views.map Definition.name := by
  rw [← keys_viewsByName h, remainingViews, Dict.keys, Dict.keys, List.map_map]
  rfl

theorem mem_remainingViews {dependencies : Text → List Text} {e : Text × List Text} :
    e ∈ remainingViews dependencies (viewsByName views) ↔ ∃ v ∈ views, (v.name,
      ((dependencies v.name).filter fun d =>
        (viewsByName views).has d && d ≠ v.name).dedup) = e := by
  rw [remainingViews, List.mem_map]
  constructor
  · rintro ⟨f, hf, rfl⟩
    rw [viewsByName_eq h] at hf
    obtain ⟨v, hv, rfl⟩ := List.mem_map.1 hf
    exact ⟨v, hv, rfl⟩
  · rintro ⟨v, hv, rfl⟩
    refine ⟨(v.name, v), ?_, rfl⟩
    rw [viewsByName_eq h]
    exact List.mem_map.2 ⟨v, hv, rfl⟩

theorem closed_remainingViews (dependencies : Text → List Text) :
    Closed (remainingViews dependencies (viewsByName views)) where
  nodup := by
    rw [keys_remainingViews h]
    exact h
  inside := by
    intro e he d hd
    obtain ⟨v, -, rfl⟩ := (mem_remainingViews h).1 he
    rw [List.mem_dedup, List.mem_filter, Bool.and_eq_true, Dict.has_iff_mem_keys,
      keys_viewsByName h] at hd
    rw [keys_remainingViews h]
    exact hd.2.1

/-- A view waits for the other views it depends on. -/
theorem dependsOn_iff {dependencies : Text → List Text} {a b : Text} :
    DependsOn (remainingViews dependencies (viewsByName views)) a b ↔
      a ∈ views.map Definition.name ∧ b ∈ views.map Definition.name ∧ b ∈ dependencies a ∧
        a ≠ b := by
  constructor
  · rintro ⟨e, he, rfl, hb⟩
    obtain ⟨v, hv, rfl⟩ := (mem_remainingViews h).1 he
    rw [List.mem_dedup, List.mem_filter, Bool.and_eq_true, Dict.has_iff_mem_keys,
      keys_viewsByName h, decide_eq_true_iff] at hb
    exact ⟨List.mem_map_of_mem hv, hb.2.1, hb.1, hb.2.2.symm⟩
  · rintro ⟨ha, hb, hdep, hne⟩
    obtain ⟨v, hv, rfl⟩ := List.mem_map.1 ha
    refine ⟨_, (mem_remainingViews h).2 ⟨v, hv, rfl⟩, rfl, ?_⟩
    rw [List.mem_dedup, List.mem_filter, Bool.and_eq_true, Dict.has_iff_mem_keys,
      keys_viewsByName h, decide_eq_true_iff]
    exact ⟨hdep, hb, hne.symm⟩

/-- The views of the names. -/
theorem map_name_filterMap {names : List Text}
    (hnames : ∀ n ∈ names, n ∈ views.map Definition.name) :
    (names.filterMap (viewsByName views).get?).map Definition.name = names := by
  induction names with
  | nil => rfl
  | cons n names ih =>
    obtain ⟨hn, hrest⟩ := List.forall_mem_cons.1 hnames
    obtain ⟨v, hv, rfl⟩ := List.mem_map.1 hn
    rw [List.filterMap_cons_some (get?_viewsByName h hv), List.map_cons, ih hrest]

theorem mem_filterMap {names : List Text} {v : Definition}
    (hnames : ∀ n ∈ names, n ∈ views.map Definition.name) :
    v ∈ names.filterMap (viewsByName views).get? ↔ v ∈ views ∧ v.name ∈ names := by
  rw [List.mem_filterMap]
  constructor
  · rintro ⟨n, hn, hget⟩
    obtain ⟨w, hw, rfl⟩ := List.mem_map.1 (hnames n hn)
    rw [get?_viewsByName h hw] at hget
    obtain rfl := Option.some.inj hget
    exact ⟨hw, hn⟩
  · rintro ⟨hv, hn⟩
    exact ⟨v.name, hn, get?_viewsByName h hv⟩

end Views

/-! ## The order -/

variable (dependencies : Text → List Text) (definitions : List Definition)

/-- A view depends on another view. -/
def WaitsFor (a b : Text) : Prop :=
  (∃ v ∈ definitions, v.isView ∧ v.name = a) ∧ (∃ w ∈ definitions, w.isView ∧ w.name = b) ∧
    b ∈ dependencies a ∧ a ≠ b

/-- Views depend on each other in a circle. -/
def Circular : Prop := ∃ a, Relation.TransGen (WaitsFor dependencies definitions) a a

/-- The collections with the tables first, and each view after the others it depends on. -/
structure Ordered (out : List Definition) : Prop where
  perm : out.Perm definitions
  tablesFirst : ∃ tables views, out = tables ++ views ∧ (∀ t ∈ tables, t.isView = false) ∧
    ∀ v ∈ views, v.isView = true
  after : ∀ a b, WaitsFor dependencies definitions a b →
    (out.map Definition.name).idxOf b < (out.map Definition.name).idxOf a

section

variable {dependencies definitions} (h : (definitions.map Definition.name).Nodup)

include h

theorem nodup_views : ((definitions.filter Definition.isView).map Definition.name).Nodup :=
  h.sublist (List.filter_sublist.map _)

theorem waitsFor_eq : WaitsFor dependencies definitions = DependsOn
    (remainingViews dependencies (viewsByName (definitions.filter Definition.isView))) := by
  have hmem : ∀ a, a ∈ (definitions.filter Definition.isView).map Definition.name ↔
      ∃ v ∈ definitions, v.isView ∧ v.name = a := by
    intro a
    simp only [List.mem_map, List.mem_filter, and_assoc]
  funext a b
  rw [eq_iff_iff, dependsOn_iff (nodup_views h), hmem, hmem]
  rfl

theorem circular_iff : Circular dependencies definitions ↔ ¬∃ l, layers
    (byKey casefold (viewsByName (definitions.filter Definition.isView)))
    (remainingViews dependencies (viewsByName (definitions.filter Definition.isView))) = .ok l := by
  rw [layers_ok_iff (closed_remainingViews (nodup_views h) dependencies), ← waitsFor_eq h]
  unfold Circular
  push Not
  rfl

/-- A table has no view's name. -/
theorem name_notMem_tables {tables : List Definition}
    (htables : tables.Perm (definitions.filter fun d => !d.isView)) {v : Definition}
    (hv : v ∈ definitions) (hview : v.isView = true) : v.name ∉ tables.map Definition.name := by
  intro hmem
  obtain ⟨t, ht, hname⟩ := List.mem_map.1 hmem
  obtain ⟨htmem, htable⟩ := List.mem_filter.1 (htables.mem_iff.1 ht)
  rw [List.inj_on_of_nodup_map h htmem hv hname, hview] at htable
  cases htable

theorem ordered_of_layers {tables : List Definition}
    (htables : tables.Perm (definitions.filter fun d => !d.isView)) {names : List Text}
    (hnames : layers (byKey casefold (viewsByName (definitions.filter Definition.isView)))
      (remainingViews dependencies (viewsByName (definitions.filter Definition.isView))) =
        .ok names) :
    Ordered dependencies definitions
      (tables ++ names.filterMap (viewsByName (definitions.filter Definition.isView)).get?) := by
  have hviews := nodup_views h
  obtain ⟨hnodup, hmem, hbefore⟩ := layers_ok (closed_remainingViews hviews dependencies) hnames
  rw [keys_remainingViews hviews] at hmem
  have hmap := map_name_filterMap hviews fun n hn => (hmem n).1 hn
  have hlisted : (names.filterMap (viewsByName (definitions.filter Definition.isView)).get?).Perm
      (definitions.filter Definition.isView) := by
    refine (List.perm_ext_iff_of_nodup (List.Nodup.of_map Definition.name ?_)
      (List.Nodup.of_map _ hviews)).2 fun v => ?_
    · rw [hmap]
      exact hnodup
    · rw [mem_filterMap hviews fun n hn => (hmem n).1 hn, hmem]
      exact and_iff_left_of_imp List.mem_map_of_mem
  refine ⟨?_, ⟨tables, _, rfl, fun t ht => ?_, fun v hv => ?_⟩, fun a b hab => ?_⟩
  · exact ((htables.append hlisted).trans List.perm_append_comm).trans
      (List.filter_append_perm _ _)
  · simpa using (List.mem_filter.1 (htables.mem_iff.1 ht)).2
  · exact (List.mem_filter.1 (hlisted.mem_iff.1 hv)).2
  · have hdep := hab
    rw [waitsFor_eq h] at hdep
    obtain ⟨⟨v, hv, hvview, rfl⟩, ⟨w, hw, hwview, rfl⟩, -, -⟩ := hab
    obtain ⟨e, he, heq, hd⟩ := hdep
    rw [List.map_append, List.idxOf_append_of_notMem (name_notMem_tables h htables hv hvview),
      List.idxOf_append_of_notMem (name_notMem_tables h htables hw hwview), hmap]
    have hlt := hbefore e he _ hd
    rw [heq] at hlt
    have hbeq : ∀ n : Text, names.idxOf n = @List.idxOf Text instBEqOfDecidableEq n names := by
      intro n
      congr
      exact lawful_beq_subsingleton _ _
    rw [hbeq, hbeq]
    exact Nat.add_lt_add_left hlt _

end

/-- The result is ordered, and there is none exactly if views depend on each other in a circle. -/
theorem orders_iff (h : (definitions.map Definition.name).Nodup) :
    (∀ out, orderSnapshotCollections casefold dependencies definitions = .ok out →
      Ordered dependencies definitions out) ∧
    ((∃ e, orderSnapshotCollections casefold dependencies definitions = .error e) ↔
      Circular dependencies definitions) := by
  have htables := List.perm_insertionSort (Definition.keyLe casefold)
    (definitions.filter fun d => !d.isView)
  rw [circular_iff casefold h]
  unfold orderSnapshotCollections
  dsimp only
  by_cases hnil : definitions.filter Definition.isView = []
  · rw [if_pos hnil]
    have hlayers : layers (byKey casefold (viewsByName (definitions.filter Definition.isView)))
        (remainingViews dependencies (viewsByName (definitions.filter Definition.isView))) =
          .ok [] := by
      rw [hnil, layers]
      rfl
    refine ⟨?_, iff_of_false (by rintro ⟨_, ⟨⟩⟩) (not_not.2 ⟨[], hlayers⟩)⟩
    rintro out hout
    have hordered := ordered_of_layers casefold h htables hlayers
    rw [List.filterMap_nil, List.append_nil] at hordered
    rw [← Except.ok.inj hout]
    exact hordered
  · rw [if_neg hnil]
    cases hlayers : layers (byKey casefold (viewsByName (definitions.filter Definition.isView)))
        (remainingViews dependencies (viewsByName (definitions.filter Definition.isView))) with
    | error names =>
      exact ⟨by rintro _ ⟨⟩, iff_of_true ⟨_, rfl⟩ (by rintro ⟨_, ⟨⟩⟩)⟩
    | ok names =>
      refine ⟨?_, iff_of_false (by rintro ⟨_, ⟨⟩⟩) (not_not.2 ⟨names, rfl⟩)⟩
      rintro out hout
      rw [← Except.ok.inj hout]
      exact ordered_of_layers casefold h htables hlayers

/-- A view with itself among its dependencies, another that it depends on, and a table. -/
def selfDependent : List Definition := [⟨"a", "1", "view"⟩, ⟨"b", "2", "view"⟩, ⟨"t", "3", "base"⟩]

/-- What `view_dependencies` has for them. -/
def onItself (name : Text) : List Text :=
  if name = ['a'] then [['a'], ['b'], ['t']] else [['t']]

theorem order_selfDependent :
    orderSnapshotCollections Text.lower onItself selfDependent = .ok selfDependent.reverse := by
  let views := viewsByName (selfDependent.filter Definition.isView)
  let later : Dict Text (List Text) := [(['a'], [])]
  have hremaining : remainingViews onItself views = [(['a'], [['b']]), (['b'], [])] := by decide
  have hready : ready (byKey Text.lower views) [(['a'], [['b']]), (['b'], [])] = [['b']] := rfl
  have hstrip : strip [['b']] [((['a'] : Text), ([['b']] : List Text)), (['b'], [])] = later := by
    decide
  have hlast : ready (byKey Text.lower views) later = [['a']] := rfl
  have hnone : strip [['a']] later = [] := by decide
  have hlayers : layers (byKey Text.lower views) (remainingViews onItself views) =
      .ok [['b'], ['a']] := by
    rw [hremaining, layers, if_neg (by decide), dif_neg (by rw [hready]; decide), hready, hstrip,
      layers, if_neg (by decide), dif_neg (by rw [hlast]; decide), hlast, hnone, layers]
    rfl
  unfold orderSnapshotCollections
  dsimp only
  rw [if_neg (by decide), show layers _ _ = _ from hlayers]
  rfl

theorem ordered_selfDependent : (selfDependent.map Definition.name).Nodup ∧
    Ordered onItself selfDependent selfDependent.reverse ∧ ¬Circular onItself selfDependent := by
  have hnodup : (selfDependent.map Definition.name).Nodup := by decide
  have horders := orders_iff Text.lower onItself selfDependent hnodup
  refine ⟨hnodup, horders.1 _ order_selfDependent, fun hcircular => ?_⟩
  obtain ⟨e, he⟩ := horders.2.2 hcircular
  rw [order_selfDependent] at he
  cases he

/-- The view depends on itself, and the collections are listed. -/
theorem self_dependency_listed : Relation.TransGen (fun a b => b ∈ onItself a) ['a'] ['a'] ∧
    orderSnapshotCollections Text.lower onItself selfDependent = .ok selfDependent.reverse :=
  ⟨.single List.mem_cons_self, order_selfDependent⟩

end SnapshotOrder

end PPBase
