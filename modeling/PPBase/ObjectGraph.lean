import Mathlib.Data.List.Basic
import Mathlib.Data.List.Induction
import Mathlib.Data.Set.Insert

/-!
# Graphs of objects grown along paths

Objects refer to others under labels, several of them possibly to one. `RefGraph.unfold` is the tree
that is seen from an object, so that sharing is invisible. A `Growth` says what should stand under
a label of an object, given a state that travels with the labels. A graph is `Grown` along a set of
paths from its roots if just these paths are followed, no object is reached by two paths, and each
object refers to what the growth says. `Grown.attach` : following one more label at all objects of
a path, by the references they had or by new objects, keeps this. `Grown.unfold_eq` : what is seen
depends on the set of the paths alone. `ideal_eq_iff` : two states give the same trees exactly if
they say the same along all the paths.
-/

namespace PPBase

namespace ObjectGraph

variable {κ δ σ : Type*}

/-- Objects by their addresses, with the references under each label. A reference is to one object
or to a list of them. -/
structure RefGraph (κ δ : Type*) where
  size : ℕ
  data : ℕ → δ
  refs : ℕ → κ → Option (Bool × List ℕ)

/-- What is seen from an object. -/
inductive ObjectTree (κ δ : Type*)
  | mk (data : δ) (below : κ → Option (Bool × List (ObjectTree κ δ)))

namespace RefGraph

variable (g : RefGraph κ δ)

/-- The objects referred to under a label. -/
def children (k : κ) (a : ℕ) : List ℕ := ((g.refs a k).map Prod.snd).getD []

/-- The objects reached along a path. -/
def reached (roots : List ℕ) (path : List κ) : List ℕ :=
  path.foldl (fun as k => as.flatMap (g.children k)) roots

/-- The data of what is referred to. -/
def refsData (a : ℕ) (k : κ) : Option (Bool × List δ) :=
  (g.refs a k).map fun r => (r.1, r.2.map g.data)

/-- What is seen from an object, down to a depth. -/
def unfold : ℕ → ℕ → ObjectTree κ δ
  | 0, a => .mk (g.data a) fun _ => none
  | n + 1, a => .mk (g.data a) fun k => (g.refs a k).map fun r => (r.1, r.2.map (unfold n))

@[simp] theorem reached_nil (roots : List ℕ) : g.reached roots [] = roots := rfl

theorem reached_append_singleton (roots : List ℕ) (path : List κ) (k : κ) :
    g.reached roots (path ++ [k]) = (g.reached roots path).flatMap (g.children k) := by
  rw [reached, List.foldl_append]
  rfl

theorem reached_append (roots : List ℕ) (path rest : List κ) :
    g.reached roots (path ++ rest) = g.reached (g.reached roots path) rest := by
  rw [reached, List.foldl_append]
  rfl

theorem reached_of_nil (path : List κ) : g.reached [] path = [] := by
  induction path with
  | nil => rfl
  | cons k path ih => exact ih

variable {g}

theorem mem_children {k : κ} {a b : ℕ} :
    b ∈ g.children k a ↔ ∃ r, g.refs a k = some r ∧ b ∈ r.2 := by
  unfold children
  cases g.refs a k with
  | none => simp
  | some r => simp

theorem mem_reached_append_singleton {roots : List ℕ} {path : List κ} {k : κ} {b : ℕ} :
    b ∈ g.reached roots (path ++ [k]) ↔ ∃ a ∈ g.reached roots path, b ∈ g.children k a := by
  rw [reached_append_singleton, List.mem_flatMap]

theorem children_of_refsData_none {k : κ} {a : ℕ} (h : g.refsData a k = none) :
    g.children k a = [] := by
  unfold children
  rw [Option.map_eq_none_iff.1 h]
  rfl

theorem map_data_children (k : κ) (a : ℕ) :
    (g.children k a).map g.data = ((g.refsData a k).map Prod.snd).getD [] := by
  unfold children refsData
  cases g.refs a k <;> rfl

end RefGraph

/-- What should stand under a label of an object, in a state. `batch` is what all objects with this
state hold. -/
structure Growth (κ δ σ : Type*) where
  links : σ → δ → κ → Option (Bool × List δ)
  next : σ → κ → σ
  batch : σ → List δ
  batch_next : ∀ s k, batch (next s k) =
    (batch s).flatMap fun d => ((links s d k).map Prod.snd).getD []

namespace Growth

variable (G : Growth κ δ σ)

/-- The state after a path. -/
def after (s : σ) (path : List κ) : σ := path.foldl G.next s

@[simp] theorem after_append_singleton (s : σ) (path : List κ) (k : κ) :
    G.after s (path ++ [k]) = G.next (G.after s path) k := by
  rw [after, List.foldl_append]
  rfl

open Classical in
/-- The tree that paths give. -/
noncomputable def ideal : ℕ → Set (List κ) → σ → δ → ObjectTree κ δ
  | 0, _, _, d => .mk d fun _ => none
  | n + 1, S, s, d => .mk d fun k =>
    if [k] ∈ S then (G.links s d k).map fun r =>
      (r.1, r.2.map (ideal n {q | k :: q ∈ S} (G.next s k)))
    else none

/-- With each path its beginnings. -/
def Closed (S : Set (List κ)) : Prop := ∀ q q', q <+: q' → q' ∈ S → q ∈ S

theorem Closed.of_append_singleton {S : Set (List κ)} (hS : Closed S) {q : List κ} {k : κ}
    (h : q ++ [k] ∈ S) : q ∈ S :=
  hS q _ (List.prefix_append q [k]) h

/-- The beginnings of a path that goes on from another one. -/
def prefixes (path rest : List κ) : Set (List κ) := {q | ∃ r, r <+: rest ∧ q = path ++ r}

theorem prefixes_nil (path : List κ) : prefixes path [] = {path} := by
  ext q
  simp [prefixes]

theorem prefixes_cons (path rest : List κ) (k : κ) :
    prefixes path (k :: rest) = insert path (prefixes (path ++ [k]) rest) := by
  ext q
  constructor
  · rintro ⟨r, hr, rfl⟩
    rcases List.prefix_cons_iff.1 hr with rfl | ⟨r', rfl, hr'⟩
    · exact Or.inl (by simp)
    · exact Or.inr ⟨r', hr', by simp⟩
  · rintro (rfl | ⟨r, hr, rfl⟩)
    · exact ⟨[], List.nil_prefix, by simp⟩
    · exact ⟨k :: r, List.prefix_cons_iff.2 (Or.inr ⟨r, rfl, hr⟩), by simp⟩

theorem Closed.union_prefixes {S : Set (List κ)} (hS : Closed S) {path : List κ} (hp : path ∈ S)
    (rest : List κ) : Closed (S ∪ prefixes path rest) := by
  rintro q q' hq (h | ⟨r, hr, rfl⟩)
  · exact Or.inl (hS q q' hq h)
  · rcases List.prefix_or_prefix_of_prefix hq (List.prefix_append path r) with h | ⟨r', rfl⟩
    · exact Or.inl (hS q path h hp)
    · exact Or.inr ⟨r', ((List.prefix_append_right_inj path).1 hq).trans hr, rfl⟩

end Growth

open Growth

variable {G : Growth κ δ σ}

/-- The graph is grown along the paths of `S`, from roots in the state `s`. -/
structure Grown (G : Growth κ δ σ) (g : RefGraph κ δ) (roots : List ℕ) (s : σ) (S : Set (List κ)) :
    Prop where
  closed : Closed S
  batch : roots.map g.data = G.batch s
  bounded : ∀ q, ∀ a ∈ g.reached roots q, a < g.size
  disjoint : ∀ q q' a, a ∈ g.reached roots q → a ∈ g.reached roots q' → q = q'
  followed : ∀ q a k, a ∈ g.reached roots q → q ++ [k] ∈ S →
    g.refsData a k = G.links (G.after s q) (g.data a) k
  unfollowed : ∀ q a k, a ∈ g.reached roots q → q ++ [k] ∉ S → g.refs a k = none

namespace Grown

variable {g g' : RefGraph κ δ} {roots : List ℕ} {s : σ} {S : Set (List κ)}

/-- A graph without references. -/
theorem of_no_refs (hbatch : roots.map g.data = G.batch s) (hbounded : ∀ a ∈ roots, a < g.size)
    (hnone : ∀ a k, g.refs a k = none) : Grown G g roots s {[]} := by
  have hreached : ∀ q a, a ∈ g.reached roots q → q = [] := by
    intro q a ha
    induction q using List.reverseRecOn with
    | nil => rfl
    | append_singleton q k =>
      obtain ⟨b, -, hb⟩ := RefGraph.mem_reached_append_singleton.1 ha
      obtain ⟨r, hr, -⟩ := RefGraph.mem_children.1 hb
      rw [hnone] at hr
      cases hr
  refine ⟨?_, hbatch, fun q a ha => ?_, fun q q' a ha ha' => ?_, fun q a k _ hk => ?_,
    fun q a k _ _ => hnone a k⟩
  · rintro q q' hq rfl
    exact List.prefix_nil.1 hq
  · rw [hreached q a ha] at ha
    exact hbounded a ha
  · rw [hreached q a ha, hreached q' a ha']
  · exact absurd hk (by simp)

/-- What the objects reached along a path hold. -/
theorem map_data (h : Grown G g roots s S) {q : List κ} (hq : q ∈ S) :
    (g.reached roots q).map g.data = G.batch (G.after s q) := by
  induction q using List.reverseRecOn with
  | nil => exact h.batch
  | append_singleton q k ih =>
    have hlinks : ∀ a ∈ g.reached roots q, (g.children k a).map g.data =
        ((G.links (G.after s q) (g.data a) k).map Prod.snd).getD [] := by
      intro a ha
      rw [RefGraph.map_data_children, h.followed q a k ha hq]
    rw [RefGraph.reached_append_singleton, after_append_singleton, G.batch_next,
      ← ih (h.closed.of_append_singleton hq), List.map_flatMap, List.flatMap_map]
    exact List.flatMap_congr hlinks

variable {path : List κ} {k : κ}

/-- Where nothing is reached, any further paths are followed. -/
theorem of_unreached (h : Grown G g roots s S) (hp : path ∈ S) (hnone : g.reached roots path = [])
    (rest : List κ) : Grown G g roots s (S ∪ prefixes path rest) := by
  refine ⟨h.closed.union_prefixes hp rest, h.batch, h.bounded, h.disjoint, fun q a k ha hk => ?_,
    fun q a k ha hk => h.unfollowed q a k ha fun hS => hk (Or.inl hS)⟩
  rcases hk with hk | ⟨r, -, hr⟩
  · exact h.followed q a k ha hk
  · rcases List.eq_nil_or_concat' r with rfl | ⟨r, k', rfl⟩
    · rw [List.append_nil] at hr
      exact h.followed q a k ha (hr ▸ hp)
    · rw [← List.append_assoc] at hr
      obtain ⟨rfl, -⟩ := List.append_inj' hr rfl
      rw [RefGraph.reached_append, hnone, RefGraph.reached_of_nil] at ha
      cases ha

/-- What one more label changes in a graph : the references under it at the objects of a path. Each
is one the object had, or to a new object if the label was not followed before. -/
structure Attached (G : Growth κ δ σ) (g g' : RefGraph κ δ) (roots : List ℕ) (s : σ)
    (S : Set (List κ)) (path : List κ) (k : κ) : Prop where
  size : g.size ≤ g'.size
  data : ∀ a < g.size, g'.data a = g.data a
  elsewhere : ∀ a < g.size, ∀ k', (a ∈ g.reached roots path → k' ≠ k) → g'.refs a k' = g.refs a k'
  fresh : ∀ a, g.size ≤ a → a < g'.size → ∀ k', g'.refs a k' = none
  here : ∀ a ∈ g.reached roots path,
    g'.refsData a k = G.links (G.after s path) (g.data a) k
  old_or_fresh : ∀ a ∈ g.reached roots path, ∀ b ∈ g'.children k a,
    b ∈ g.children k a ∨ path ++ [k] ∉ S ∧ g.size ≤ b ∧ b < g'.size

/-- What is reached after a label was followed. -/
theorem mem_reached_of_attached (h : Grown G g roots s S) (hatt : Attached G g g' roots s S path k)
    {q : List κ} {a : ℕ} (ha : a ∈ g'.reached roots q) :
    a ∈ g.reached roots q ∨ q = path ++ [k] ∧ q ∉ S ∧ g.size ≤ a ∧ a < g'.size := by
  induction q using List.reverseRecOn generalizing a with
  | nil => exact Or.inl ha
  | append_singleton q k' ih =>
    obtain ⟨b, hb, hab⟩ := RefGraph.mem_reached_append_singleton.1 ha
    rcases ih hb with hb | ⟨-, -, hle, hlt⟩
    · by_cases hhere : b ∈ g.reached roots path ∧ k' = k
      · obtain ⟨hpath, rfl⟩ := hhere
        obtain rfl := h.disjoint q path b hb hpath
        rcases hatt.old_or_fresh b hb a hab with hold | hfresh
        · exact Or.inl (RefGraph.mem_reached_append_singleton.2 ⟨b, hb, hold⟩)
        · exact Or.inr ⟨rfl, hfresh⟩
      · have hrefs := hatt.elsewhere b (h.bounded q b hb) k' fun hpath hk => hhere ⟨hpath, hk⟩
        refine Or.inl (RefGraph.mem_reached_append_singleton.2 ⟨b, hb, ?_⟩)
        rw [RefGraph.mem_children] at hab ⊢
        rwa [hrefs] at hab
    · obtain ⟨r, hr, -⟩ := RefGraph.mem_children.1 hab
      rw [hatt.fresh b hle hlt] at hr
      cases hr

/-- The path itself reaches what it did. -/
theorem reached_of_attached (h : Grown G g roots s S) (hatt : Attached G g g' roots s S path k) :
    g'.reached roots path = g.reached roots path := by
  have hprefix : ∀ r, r <+: path → g'.reached roots r = g.reached roots r := by
    intro r hr
    induction r using List.reverseRecOn with
    | nil => rfl
    | append_singleton r k' ih =>
      rw [RefGraph.reached_append_singleton, RefGraph.reached_append_singleton,
        ih ((List.prefix_append r [k']).trans hr)]
      refine List.flatMap_congr fun a ha => ?_
      unfold RefGraph.children
      rw [hatt.elsewhere a (h.bounded r a ha) k' fun hpath => ?_]
      obtain rfl := h.disjoint r path a ha hpath
      have hle := hr.length_le
      rw [List.length_append, List.length_singleton] at hle
      omega
  exact hprefix path (List.prefix_refl path)

theorem flatMap_children_of_attached (h : Grown G g roots s S)
    (hatt : Attached G g g' roots s S path k) :
    (g.reached roots path).flatMap (g'.children k) = g'.reached roots (path ++ [k]) := by
  rw [RefGraph.reached_append_singleton, h.reached_of_attached hatt]

theorem refsData_congr {a : ℕ} (hrefs : g'.refs a k = g.refs a k)
    (hdata : ∀ b ∈ g.children k a, g'.data b = g.data b) : g'.refsData a k = g.refsData a k := by
  unfold RefGraph.refsData
  rw [hrefs]
  cases hr : g.refs a k with
  | none => rfl
  | some r =>
    have hmap : r.2.map g'.data = r.2.map g.data :=
      List.map_congr_left fun b hb => hdata b (RefGraph.mem_children.2 ⟨r, hr, hb⟩)
    rw [Option.map_some, Option.map_some, hmap]

/-- One more label at the objects of a path. -/
theorem attach (h : Grown G g roots s S) (hp : path ∈ S) (hatt : Attached G g g' roots s S path k) :
    Grown G g' roots s (insert (path ++ [k]) S) := by
  have hreached : ∀ {q a}, a ∈ g'.reached roots q → a ∈ g.reached roots q ∨
      q = path ++ [k] ∧ q ∉ S ∧ g.size ≤ a ∧ a < g'.size := h.mem_reached_of_attached hatt
  -- an object that was there before refers to the same under every label but the new one
  have hsame : ∀ {q a k'}, a ∈ g.reached roots q → ¬(q = path ∧ k' = k) →
      g'.refs a k' = g.refs a k' := by
    intro q a k' ha hne
    refine hatt.elsewhere a (h.bounded q a ha) k' fun hpath hk => hne ⟨?_, hk⟩
    exact h.disjoint q path a ha hpath
  refine ⟨?_, ?_, fun q a ha => ?_, fun q q' a ha ha' => ?_, fun q a k' ha hk => ?_,
    fun q a k' ha hk => ?_⟩
  · have hunion : insert (path ++ [k]) S = S ∪ prefixes path [k] := by
      rw [prefixes_cons, prefixes_nil]
      ext q
      simp only [Set.mem_insert_iff, Set.mem_union, Set.mem_singleton_iff]
      grind
    rw [hunion]
    exact h.closed.union_prefixes hp [k]
  · rw [← h.batch]
    exact List.map_congr_left fun a ha => hatt.data a (h.bounded [] a ha)
  · rcases hreached ha with ha | ⟨-, -, -, hlt⟩
    · exact (h.bounded q a ha).trans_le hatt.size
    · exact hlt
  · rcases hreached ha with ha | ⟨rfl, -, hle, -⟩ <;>
      rcases hreached ha' with ha' | ⟨rfl, -, hle', -⟩
    · exact h.disjoint q q' a ha ha'
    · exact absurd (h.bounded q a ha) (not_lt.2 hle')
    · exact absurd (h.bounded q' a ha') (not_lt.2 hle)
    · rfl
  · rcases hreached ha with ha | ⟨rfl, hnot, -⟩
    · rw [hatt.data a (h.bounded q a ha)]
      by_cases hhere : q = path ∧ k' = k
      · obtain ⟨rfl, rfl⟩ := hhere
        exact hatt.here a ha
      · have hS : q ++ [k'] ∈ S := by
          refine hk.resolve_left fun heq => hhere ?_
          obtain ⟨hq, hk'⟩ := List.append_inj' heq rfl
          exact ⟨hq, List.singleton_inj.1 hk'⟩
        rw [← h.followed q a k' ha hS]
        refine refsData_congr (hsame ha hhere) fun b hb => hatt.data b ?_
        exact h.bounded (q ++ [k']) b (RefGraph.mem_reached_append_singleton.2 ⟨a, ha, hb⟩)
    · rcases hk with heq | hS
      · have hlen := congrArg List.length heq
        simp at hlen
      · exact absurd (h.closed.of_append_singleton hS) hnot
  · rcases hreached ha with ha | ⟨rfl, -, hle, hlt⟩
    · rw [hsame ha fun hhere => hk (Or.inl (by rw [hhere.1, hhere.2]))]
      exact h.unfollowed q a k' ha fun hS => hk (Or.inr hS)
    · exact hatt.fresh a hle hlt k'

/-- What is seen from an object that a path reaches. -/
theorem unfold_eq (h : Grown G g roots s S) : ∀ (n : ℕ) {q : List κ} {a : ℕ},
    a ∈ g.reached roots q → g.unfold n a = G.ideal n {r | q ++ r ∈ S} (G.after s q) (g.data a)
  | 0, _, _, _ => rfl
  | n + 1, q, a, ha => by
    have hbelow : ∀ k, ∀ b ∈ g.children k a, g.unfold n b =
        G.ideal n {r | k :: r ∈ {r | q ++ r ∈ S}} (G.next (G.after s q) k) (g.data b) := by
      intro k b hb
      have hmem := RefGraph.mem_reached_append_singleton.2 ⟨a, ha, hb⟩
      have hpaths : {r | (q ++ [k]) ++ r ∈ S} = {r | k :: r ∈ {r | q ++ r ∈ S}} := by
        ext r
        show (q ++ [k]) ++ r ∈ S ↔ q ++ (k :: r) ∈ S
        rw [List.append_assoc, List.singleton_append]
      rw [h.unfold_eq n hmem, after_append_singleton, hpaths]
    unfold RefGraph.unfold ideal
    congr 1
    funext k
    split_ifs with hk
    · rw [← h.followed q a k ha hk]
      unfold RefGraph.refsData
      cases hr : g.refs a k with
      | none => rfl
      | some r =>
        have hmap := List.map_congr_left fun b hb =>
          hbelow k b (RefGraph.mem_children.2 ⟨r, hr, hb⟩)
        rw [Option.map_some, Option.map_some, Option.map_some, List.map_map, hmap]
        rfl
    · rw [h.unfollowed q a k ha hk]
      rfl

end Grown

/-! ## When two states give the same trees -/

variable {s : σ}

theorem links_of_ideal_eq {S : Set (List κ)} {t : σ} {d : δ} {n : ℕ} {k : κ} (hk : [k] ∈ S)
    (h : G.ideal (n + 1) S s d = G.ideal (n + 1) S t d) :
    ((G.links s d k).map fun r => (r.1, r.2.map (G.ideal n {q | k :: q ∈ S} (G.next s k)))) =
      (G.links t d k).map fun r => (r.1, r.2.map (G.ideal n {q | k :: q ∈ S} (G.next t k))) := by
  unfold ideal at h
  have hbelow := congrFun (ObjectTree.mk.inj h).2 k
  rwa [if_pos hk, if_pos hk] at hbelow

theorem links_eq_of_ideal_one {S : Set (List κ)} {t : σ} {d : δ} {k : κ} (hk : [k] ∈ S)
    (h : G.ideal 1 S s d = G.ideal 1 S t d) : G.links s d k = G.links t d k := by
  have hmap := links_of_ideal_eq hk h
  have hinj : Function.Injective fun d : δ =>
      (ObjectTree.mk d fun _ : κ => none : ObjectTree κ δ) := fun d d' heq => (ObjectTree.mk.inj heq).1
  refine Option.map_injective ?_ hmap
  rintro ⟨b, ds⟩ ⟨b', ds'⟩ heq
  obtain ⟨hb, hds⟩ := Prod.mk.inj heq
  exact Prod.ext hb (List.map_injective_iff.2 hinj hds)

theorem mem_batch_next {d d' : δ} {k : κ} {r : Bool × List δ} (hd : d ∈ G.batch s)
    (hr : G.links s d k = some r) (hd' : d' ∈ r.2) : d' ∈ G.batch (G.next s k) := by
  rw [G.batch_next, List.mem_flatMap]
  exact ⟨d, hd, by rw [hr]; exact hd'⟩

/-- Two states give what stands under one of them the same trees, exactly if they say the same
along all paths. -/
theorem ideal_eq_iff {S : Set (List κ)} (hS : Closed S) {t : σ} :
    (∀ d ∈ G.batch t, ∀ n, G.ideal n S s d = G.ideal n S t d) ↔
      ∀ q k, q ++ [k] ∈ S → ∀ d ∈ G.batch (G.after t q),
        G.links (G.after s q) d k = G.links (G.after t q) d k := by
  constructor
  · intro h q
    induction q generalizing S s t with
    | nil => exact fun k hk d hd => links_eq_of_ideal_one hk (h d hd 1)
    | cons k₀ q ih =>
      intro k hk d hd
      have hk₀ : [k₀] ∈ S := hS [k₀] _ (List.prefix_append [k₀] (q ++ [k])) hk
      have hclosed : Closed {q | k₀ :: q ∈ S} := fun q q' hq h =>
        hS (k₀ :: q) (k₀ :: q') ((List.prefix_cons_inj k₀).2 hq) h
      refine ih hclosed (fun d' hd' n => ?_) k hk d hd
      rw [G.batch_next, List.mem_flatMap] at hd'
      obtain ⟨d₀, hd₀, hmem⟩ := hd'
      have hlinks := links_eq_of_ideal_one hk₀ (h d₀ hd₀ 1)
      have htrees := links_of_ideal_eq hk₀ (h d₀ hd₀ (n + 1))
      rw [hlinks] at htrees
      cases hr : G.links t d₀ k₀ with
      | none =>
        rw [hr] at hmem
        cases hmem
      | some r =>
        rw [hr] at htrees hmem
        have hlists := (Prod.mk.inj (Option.some.inj htrees)).2
        exact List.map_inj_left.1 hlists d' hmem
  · intro h d hd n
    induction n generalizing S s t d with
    | zero => rfl
    | succ n ih =>
      unfold ideal
      congr 1
      funext k
      split_ifs with hk
      · have hlinks : G.links s d k = G.links t d k := h [] k hk d hd
        rw [hlinks]
        cases hr : G.links t d k with
        | none => rfl
        | some r =>
          have hclosed : Closed {q | k :: q ∈ S} := fun q q' hq h =>
            hS (k :: q) (k :: q') ((List.prefix_cons_inj k).2 hq) h
          have hlists : r.2.map (G.ideal n {q | k :: q ∈ S} (G.next s k)) =
              r.2.map (G.ideal n {q | k :: q ∈ S} (G.next t k)) := by
            refine List.map_congr_left fun d' hd' => ih hclosed ?_ d' (mem_batch_next hd hr hd')
            exact fun q k' hq d'' hd'' => h (k :: q) k' hq d'' hd''
          rw [Option.map_some, Option.map_some, hlists]
      · rfl

end ObjectGraph

end PPBase
