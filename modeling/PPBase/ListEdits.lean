import Mathlib.Data.List.Basic

/-!
# Edits of a list

A list under edits that replace it, add entries at either end or take entries out. What a run
of edits leaves is told by positions in the run: an entry is there if an edit puts it in and no
later one drops it (`mem_run_iff`), and it is the last one if nothing that stays comes behind it
(`Ends`, `Ends.getLast?_run`, `of_getLast?_run`).
-/

namespace PPBase

inductive ListEdit (α : Type)
  | set (ys : List α)
  | append (ys : List α)
  | prepend (ys : List α)
  | remove (ys : List α)

namespace ListEdit

variable {α : Type} [DecidableEq α]

def apply (xs : List α) : ListEdit α → List α
  | set ys => ys
  | append ys => xs ++ ys
  | prepend ys => ys ++ xs
  | remove ys => xs.filter fun x => x ∉ ys

def run (es : List (ListEdit α)) (xs : List α) : List α := es.foldl apply xs

/-- What the edit puts in. -/
def puts : ListEdit α → List α
  | set ys | append ys | prepend ys => ys
  | remove _ => []

/-- The edit takes the entry out. -/
def drops (x : α) : ListEdit α → Bool
  | set _ => true
  | remove ys => x ∈ ys
  | append _ | prepend _ => false

/-- No edit takes the entry out. -/
def stays (es : List (ListEdit α)) (x : α) : Bool := es.all fun e => !e.drops x

/-- What the edit puts in and the later ones leave there. -/
def kept (e : ListEdit α) (later : List (ListEdit α)) : List α := e.puts.filter (stays later)

def IsPrepend : ListEdit α → Prop
  | prepend _ => True
  | _ => False

instance (e : ListEdit α) : Decidable e.IsPrepend :=
  match e with
  | prepend _ => .isTrue trivial
  | set _ | append _ | remove _ => .isFalse id

/-- What a run of edits puts in front of the entries that are there. -/
def front : List (ListEdit α) → List α
  | [] => []
  | e :: es => front es ++ if e.IsPrepend then e.kept es else []

/-- What a run of edits puts behind the entries that are there. -/
def back : List (ListEdit α) → List α
  | [] => []
  | e :: es => (if e.IsPrepend then [] else e.kept es) ++ back es

/-- One of the edits puts the entry in, and neither a later one nor one of `later` drops it. -/
def Leaves (es later : List (ListEdit α)) (x : α) : Prop :=
  ∃ a e b, es = a ++ e :: b ∧ x ∈ e.puts ∧ stays (b ++ later) x = true

/-- After the edits, which start from `xs`, the entry is there. -/
def Holds (es : List (ListEdit α)) (xs : List α) (x : α) : Prop :=
  (x ∈ xs ∧ stays es x = true) ∨ Leaves es [] x

/-- One of the edits puts the entry in, the entry stays, and nothing that stays comes behind it :
what the edit puts in ends with it, the later edits put nothing behind it, and if the edit puts it
in front, nothing stays of what was there. -/
def Ends (es later : List (ListEdit α)) (xs : List α) (x : α) : Prop :=
  ∃ a e b, es = a ++ e :: b ∧ (e.kept (b ++ later)).getLast? = some x ∧ back (b ++ later) = [] ∧
    (e.IsPrepend → ∀ y, Holds a xs y → stays (b ++ later) y = false)

variable {es later : List (ListEdit α)} {e : ListEdit α} {xs : List α} {x : α}

@[simp] theorem stays_nil : stays [] x = true := rfl

theorem stays_cons : stays (e :: es) x = (!e.drops x && stays es x) := rfl

theorem run_append : run (es ++ later) xs = run later (run es xs) := List.foldl_append

/-- The entries that stay, between what is put in front and what is put behind. -/
theorem run_eq (es : List (ListEdit α)) (xs : List α) :
    run es xs = front es ++ xs.filter (stays es) ++ back es := by
  induction es generalizing xs with
  | nil =>
    show xs = [] ++ xs.filter (fun _ => true) ++ []
    rw [List.filter_true, List.append_nil, List.nil_append]
  | cons e es ih =>
    show run es (apply xs e) = _
    rw [ih]
    cases e with
    | set ys =>
      have hnone : xs.filter (stays (set ys :: es)) = [] :=
        List.filter_eq_nil_iff.2 fun y _ => by simp [stays_cons, drops]
      simp [apply, front, back, kept, puts, IsPrepend, hnone]
    | append ys =>
      have hsame : stays (append ys :: es) = stays es := funext fun y => by simp [stays_cons, drops]
      simp [apply, front, back, kept, puts, IsPrepend, hsame]
    | prepend ys =>
      have hsame : stays (prepend ys :: es) = stays es := funext fun y => by simp [stays_cons, drops]
      simp [apply, front, back, kept, puts, IsPrepend, hsame]
    | remove ys =>
      have hboth : xs.filter (stays (remove ys :: es)) =
          (xs.filter fun y => y ∉ ys).filter (stays es) := by
        rw [List.filter_filter]
        exact List.filter_congr fun y _ => by simp [stays_cons, drops, Bool.and_comm]
      simp [apply, front, back, kept, puts, IsPrepend, hboth]

theorem leaves_nil : ¬Leaves [] later x := by
  rintro ⟨a, e, b, h, -⟩
  simp at h

theorem leaves_cons : Leaves (e :: es) later x ↔
    (x ∈ e.puts ∧ stays (es ++ later) x = true) ∨ Leaves es later x := by
  constructor
  · rintro ⟨a, e', b, h, hputs, hstays⟩
    cases a with
    | nil =>
      obtain ⟨rfl, rfl⟩ := List.cons.inj h
      exact Or.inl ⟨hputs, hstays⟩
    | cons e₁ a =>
      obtain ⟨rfl, rfl⟩ := List.cons.inj h
      exact Or.inr ⟨a, e', b, rfl, hputs, hstays⟩
  · rintro (⟨hputs, hstays⟩ | ⟨a, e', b, rfl, hputs, hstays⟩)
    · exact ⟨[], e, es, rfl, hputs, hstays⟩
    · exact ⟨e :: a, e', b, rfl, hputs, hstays⟩

theorem mem_apply : x ∈ apply xs e ↔ (x ∈ xs ∧ e.drops x = false) ∨ x ∈ e.puts := by
  cases e with
  | set ys => simp [apply, drops, puts]
  | append ys => simp [apply, drops, puts]
  | prepend ys => simp [apply, drops, puts, or_comm]
  | remove ys => simp [apply, drops, puts]

/-- The entries after the edits, seen through edits that follow. -/
theorem mem_run_and_stays : x ∈ run es xs ∧ stays later x = true ↔
    (x ∈ xs ∧ stays (es ++ later) x = true) ∨ Leaves es later x := by
  induction es generalizing xs with
  | nil => simp [run, leaves_nil]
  | cons e es ih =>
    show x ∈ run es (apply xs e) ∧ _ ↔ _
    rw [ih, mem_apply, leaves_cons, List.cons_append, stays_cons, Bool.and_eq_true,
      Bool.not_eq_true']
    tauto

/-- An entry was there and no edit drops it, or an edit puts it in and no later one drops it. -/
theorem mem_run_iff : x ∈ run es xs ↔ Holds es xs x := by
  have h : x ∈ run es xs ∧ stays [] x = true ↔
      (x ∈ xs ∧ stays (es ++ []) x = true) ∨ Leaves es [] x := mem_run_and_stays
  rwa [List.append_nil, stays_nil, and_iff_left rfl] at h

theorem leaves_of_mem_front (h : x ∈ front es) : Leaves es [] x := by
  refine (mem_run_iff.1 (?_ : x ∈ run es [])).resolve_left fun h => List.not_mem_nil h.1
  rw [run_eq]
  exact List.mem_append_left _ (List.mem_append_left _ h)

theorem leaves_of_mem_back (h : x ∈ back es) : Leaves es [] x := by
  refine (mem_run_iff.1 (?_ : x ∈ run es [])).resolve_left fun h => List.not_mem_nil h.1
  rw [run_eq]
  exact List.mem_append_right _ h

theorem Ends.cons (h : Ends es later (apply xs e) x) : Ends (e :: es) later xs x := by
  obtain ⟨a, e', b, rfl, hlast, hback, hfront⟩ := h
  refine ⟨e :: a, e', b, rfl, hlast, hback, fun hp y hy => hfront hp y ?_⟩
  rw [← mem_run_iff] at hy ⊢
  exact hy

/-- The entry that ends the list ends what was there, or an edit puts it at the end. -/
theorem of_getLast?_run (h : (run (es ++ later) xs).getLast? = some x) :
    (back (es ++ later) = [] ∧ (xs.filter (stays (es ++ later))).getLast? = some x) ∨
      Ends es later xs x ∨ Leaves later [] x := by
  induction es generalizing xs with
  | nil =>
    rw [List.nil_append, run_eq, List.getLast?_append] at h
    rw [List.nil_append]
    cases hback : back later with
    | cons y ys =>
      rw [hback, List.getLast?_cons, Option.some_or] at h
      refine Or.inr (Or.inr (leaves_of_mem_back ?_))
      rw [hback]
      exact List.mem_of_getLast? ((List.getLast?_cons ..).trans h)
    | nil =>
      rw [hback, List.getLast?_nil, Option.none_or, List.getLast?_append] at h
      cases hmid : (xs.filter (stays later)).getLast? with
      | some y =>
        rw [hmid, Option.some_or] at h
        exact Or.inl ⟨rfl, h⟩
      | none =>
        rw [hmid, Option.none_or] at h
        exact Or.inr (Or.inr (leaves_of_mem_front (List.mem_of_getLast? h)))
  | cons e es ih =>
    rcases @ih (apply xs e) h with ⟨hback, hlast⟩ | hends | hleaves
    · cases e with
      | set ys => exact Or.inr (Or.inl ⟨[], set ys, es, rfl, hlast, hback, False.elim⟩)
      | append ys =>
        have hsame : stays (append ys :: (es ++ later)) = stays (es ++ later) :=
          funext fun y => by simp [stays_cons, drops]
        rw [apply, List.filter_append, List.getLast?_append] at hlast
        cases hys : (ys.filter (stays (es ++ later))).getLast? with
        | some y =>
          rw [hys, Option.some_or] at hlast
          exact Or.inr (Or.inl ⟨[], append ys, es, rfl, hys.trans hlast, hback, False.elim⟩)
        | none =>
          rw [hys, Option.none_or] at hlast
          refine Or.inl ⟨?_, ?_⟩
          · simpa [back, IsPrepend, kept, puts, hback] using List.getLast?_eq_none_iff.1 hys
          · rw [List.cons_append, hsame]
            exact hlast
      | prepend ys =>
        have hsame : stays (prepend ys :: (es ++ later)) = stays (es ++ later) :=
          funext fun y => by simp [stays_cons, drops]
        rw [apply, List.filter_append, List.getLast?_append] at hlast
        cases hxs : (xs.filter (stays (es ++ later))).getLast? with
        | some y =>
          rw [hxs, Option.some_or] at hlast
          refine Or.inl ⟨?_, ?_⟩
          · simpa [back, IsPrepend] using hback
          · rw [List.cons_append, hsame]
            exact hxs.trans hlast
        | none =>
          rw [hxs, Option.none_or] at hlast
          refine Or.inr (Or.inl ⟨[], prepend ys, es, rfl, hlast, hback, fun _ y hy => ?_⟩)
          rw [← mem_run_iff] at hy
          exact Bool.not_eq_true _ ▸
            List.filter_eq_nil_iff.1 (List.getLast?_eq_none_iff.1 hxs) y hy
      | remove ys =>
        refine Or.inl ⟨by simpa [back, IsPrepend, kept, puts] using hback, ?_⟩
        rw [← hlast, apply, List.filter_filter]
        congr 1
        exact List.filter_congr fun y _ => by simp [stays_cons, drops, Bool.and_comm]
    · exact Or.inr (Or.inl hends.cons)
    · exact Or.inr (Or.inr hleaves)

/-- An entry that an edit puts at the end is the last one. -/
theorem Ends.getLast?_run (h : Ends es later xs x) : (run (es ++ later) xs).getLast? = some x := by
  obtain ⟨a, e, b, rfl, hlast, hback, hfront⟩ := h
  rw [List.append_assoc, run_append]
  show (run (b ++ later) (apply (run a xs) e)).getLast? = some x
  rw [run_eq, hback, List.append_nil, List.getLast?_append]
  have hmid : ((apply (run a xs) e).filter (stays (b ++ later))).getLast? = some x := by
    cases e with
    | set ys => exact hlast
    | append ys =>
      have hys : (ys.filter (stays (b ++ later))).getLast? = some x := hlast
      rw [apply, List.filter_append, List.getLast?_append, hys, Option.some_or]
    | prepend ys =>
      have hnone : (run a xs).filter (stays (b ++ later)) = [] :=
        List.filter_eq_nil_iff.2 fun y hy => by
          rw [hfront trivial y (mem_run_iff.1 hy)]
          exact Bool.false_ne_true
      rw [apply, List.filter_append, hnone, List.append_nil]
      exact hlast
    | remove ys => cases hlast
  rw [hmid, Option.some_or]

end ListEdit

end PPBase
