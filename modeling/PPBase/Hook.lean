import Mathlib.Data.List.Sort
import PPBase.Dict
import PPBase.Text

/-!
# Hooks

A hook keeps its bindings by id (`Hook.bind`, `Hook.unbind`). Every binding gets a place in the
order of registration, later than all that the hook has, also where it replaces another. For an
event the matching bindings are put in order, the highest priority first
(`Hook.orderedBindings`).
-/

namespace PPBase

/-- A handler with what it was registered with. -/
structure HookBinding (ε η : Type*) where
  id : Text
  handler : η
  priority : ℤ := 0
  order : ℕ := 0
  predicate : Option (ε → Bool) := none

namespace HookBinding

variable {ε η : Type*}

def «matches» (b : HookBinding ε η) (event : ε) : Bool :=
  match b.predicate with
  | none => true
  | some predicate => predicate event

/-- The keys `(-priority, order)`, compared. -/
def keyLe (a b : HookBinding ε η) : Bool :=
  b.priority < a.priority || (a.priority = b.priority && a.order ≤ b.order)

/-- A higher priority, or the same and an earlier registration. -/
def Precedes (a b : HookBinding ε η) : Prop :=
  b.priority < a.priority ∨ a.priority = b.priority ∧ a.order < b.order

theorem keyLe_iff {a b : HookBinding ε η} :
    keyLe a b = true ↔ b.priority < a.priority ∨ a.priority = b.priority ∧ a.order ≤ b.order := by
  simp [keyLe]

theorem keyLe_trans (a b c : HookBinding ε η) (hab : keyLe a b = true) (hbc : keyLe b c = true) :
    keyLe a c = true := by
  rw [keyLe_iff] at *
  omega

theorem keyLe_total (a b : HookBinding ε η) : (keyLe a b || keyLe b a) = true := by
  rw [Bool.or_eq_true, keyLe_iff, keyLe_iff]
  omega

theorem precedes_of_keyLe {a b : HookBinding ε η} (h : keyLe a b = true) (hne : a.order ≠ b.order) :
    a.Precedes b := by
  rw [keyLe_iff] at h
  unfold Precedes
  omega

end HookBinding

/-- A hook and its bindings, each under its id. No two were registered at once, and none after
the next one. -/
structure Hook (ε η : Type*) where
  name : Text
  bindings : Dict Text (HookBinding ε η)
  nextOrder : ℕ
  nextId : ℕ
  ids : ∀ e ∈ bindings, e.1 = e.2.id
  keys : bindings.keys.Nodup
  orders : (bindings.map fun e => e.2.order).Nodup
  registered : ∀ e ∈ bindings, e.2.order < nextOrder

namespace Hook

variable {ε η : Type*}

def new (name : Text) : Hook ε η where
  name := name
  bindings := []
  nextOrder := 0
  nextId := 0
  ids := fun _ he => absurd he List.not_mem_nil
  keys := List.nodup_nil
  orders := List.nodup_nil
  registered := fun _ he => absurd he List.not_mem_nil

/-- An id of its own for the next binding. -/
def generateId (h : Hook ε η) : Text := h.name ++ ':' :: (toString (h.nextId + 1)).toList

theorem orders_set {d : Dict Text (HookBinding ε η)} {n : ℕ} (k : Text) {b : HookBinding ε η}
    (hb : b.order = n) (hd : (d.map fun e => e.2.order).Nodup) (hn : ∀ e ∈ d, e.2.order < n) :
    ((d.set k b).map fun e => e.2.order).Nodup := by
  induction d with
  | nil => exact List.nodup_singleton _
  | cons e d ih =>
    obtain ⟨he, hd⟩ := List.nodup_cons.1 hd
    obtain ⟨hen, hn⟩ := List.forall_mem_cons.1 hn
    unfold Dict.set
    split_ifs
    · refine List.nodup_cons.2 ⟨fun hmem => ?_, hd⟩
      obtain ⟨e', he', horder⟩ := List.mem_map.1 hmem
      exact (hn e' he').ne (horder.trans hb)
    · refine List.nodup_cons.2 ⟨fun hmem => ?_, ih hd hn⟩
      obtain ⟨e', he', horder⟩ := List.mem_map.1 hmem
      rcases Dict.mem_set he' with rfl | he'
      · exact hen.ne (horder.symm.trans hb)
      · exact he (horder ▸ List.mem_map_of_mem he')

/-- The binding that `bind(handler, id, priority, predicate)` makes of a function. -/
def newBinding (h : Hook ε η) (handler : η) (id : Option Text) (priority : ℤ)
    (predicate : Option (ε → Bool)) : HookBinding ε η where
  id := if id.getD [] = [] then h.generateId else id.getD []
  handler := handler
  priority := priority
  order := h.nextOrder
  predicate := predicate

def bind (h : Hook ε η) (handler : η) (id : Option Text) (priority : ℤ)
    (predicate : Option (ε → Bool)) : Hook ε η where
  name := h.name
  bindings := h.bindings.set (h.newBinding handler id priority predicate).id
    (h.newBinding handler id priority predicate)
  nextOrder := h.nextOrder + 1
  nextId := if id.getD [] = [] then h.nextId + 1 else h.nextId
  ids := fun e he => by
    rcases Dict.mem_set he with rfl | he
    · rfl
    · exact h.ids e he
  keys := Dict.nodup_keys_set h.keys _ _
  orders := orders_set _ rfl h.orders h.registered
  registered := fun e he => by
    rcases Dict.mem_set he with rfl | he
    · exact Nat.lt_succ_self _
    · exact Nat.lt_succ_of_lt (h.registered e he)

def unbind (h : Hook ε η) (id : Text) : Hook ε η where
  name := h.name
  bindings := h.bindings.del id
  nextOrder := h.nextOrder
  nextId := h.nextId
  ids := fun e he => h.ids e (List.mem_of_mem_filter he)
  keys := h.keys.sublist (List.filter_sublist.map _)
  orders := h.orders.sublist (List.filter_sublist.map _)
  registered := fun e he => h.registered e (List.mem_of_mem_filter he)

/-- The bindings that match the event, in the order in which they run. -/
def orderedBindings (h : Hook ε η) (event : ε) : List (HookBinding ε η) :=
  ((h.bindings.map Prod.snd).filter fun b => b.matches event).mergeSort HookBinding.keyLe

theorem pairwise_orderedBindings (h : Hook ε η) (event : ε) :
    (h.orderedBindings event).Pairwise HookBinding.Precedes := by
  have hsorted := List.pairwise_mergeSort HookBinding.keyLe_trans HookBinding.keyLe_total
    ((h.bindings.map Prod.snd).filter fun b => b.matches event)
  have horders : ((h.orderedBindings event).map HookBinding.order).Nodup := by
    refine (((List.mergeSort_perm _ _).map _).nodup_iff).2 ?_
    refine List.Nodup.sublist (List.filter_sublist.map _) ?_
    rw [List.map_map]
    exact h.orders
  refine (hsorted.and (List.pairwise_map.1 horders)).imp fun hab => ?_
  exact HookBinding.precedes_of_keyLe hab.1 hab.2

end Hook

end PPBase
