import Mathlib.Data.List.Basic

/-!
# Backtracking matchers

A matcher reads the beginning of a word in one way or another; the ways are listed in the order
in which a backtracking search tries them, each with what is left of the word. A regular
expression matches in the first way (`First`). Only the first way of each part counts, as long as
the parts after it can go on from there (`First.bind`). What is read in any way at all has the
properties its parts have (`Gives`). What a matcher without `lookahead` reads, it reads whatever
comes after (`Free`).
-/

universe u v w

namespace PPBase

/-- The ways in which the beginning of a word can be read, the preferred one first. -/
def Matcher (χ : Type u) (α : Type v) := List χ → List (α × List χ)

namespace Matcher

variable {χ : Type u} {α : Type v} {β : Type w}

def pure (a : α) : Matcher χ α := fun s => [(a, s)]

def bind (m : Matcher χ α) (f : α → Matcher χ β) : Matcher χ β :=
  fun s => (m s).flatMap fun p => f p.1 p.2

/-- `m|n` -/
def orElse (m n : Matcher χ α) : Matcher χ α := fun s => m s ++ n s

/-- `p*` -/
def many (p : χ → Bool) : Matcher χ (List χ)
  | [] => [([], [])]
  | c :: s => (if p c then (many p s).map fun q => (c :: q.1, q.2) else []) ++ [([], c :: s)]

/-- `p+` -/
def many1 (p : χ → Bool) : Matcher χ (List χ) := fun s => (many p s).filter fun q => !q.1.isEmpty

/-- A word, in which characters of one class count as the same. -/
def literal [DecidableEq χ] (fold : χ → χ) : List χ → Matcher χ (List χ)
  | [], s => [([], s)]
  | _ :: _, [] => []
  | c :: cs, d :: s =>
    if fold c = fold d then (literal fold cs s).map fun q => (d :: q.1, q.2) else []

variable {s : List χ}

theorem mem_many_cons {p : χ → Bool} {c : χ} {q : List χ × List χ} :
    q ∈ many p (c :: s) ↔
      p c = true ∧ (∃ r ∈ many p s, (c :: r.1, r.2) = q) ∨ q = ([], c :: s) := by
  rw [many, List.mem_append, List.mem_singleton]
  split_ifs with hc
  · rw [List.mem_map, and_iff_right hc]
  · simp [hc]

theorem mem_literal_cons [DecidableEq χ] {fold : χ → χ} {c : χ} {cs : List χ} {q : List χ × List χ} :
    q ∈ literal fold (c :: cs) s ↔
      ∃ d t, s = d :: t ∧ fold c = fold d ∧ ∃ r ∈ literal fold cs t, (d :: r.1, r.2) = q := by
  cases s with
  | nil => simp [literal]
  | cons d s =>
    rw [literal]
    split_ifs with hc
    · rw [List.mem_map]
      exact ⟨fun h => ⟨d, s, rfl, hc, h⟩, fun ⟨_, _, heq, _, h⟩ => by cases heq; exact h⟩
    · refine iff_of_false List.not_mem_nil ?_
      rintro ⟨_, _, heq, hcd, _⟩
      cases heq
      exact hc hcd

/-- `m?` -/
def opt (m : Matcher χ (List χ)) : Matcher χ (List χ) := m.orElse (pure [])

/-- One matcher after the other. -/
def seq : List (Matcher χ (List χ)) → Matcher χ (List χ)
  | [] => pure []
  | m :: ms => m.bind fun a => (seq ms).bind fun b => pure (a ++ b)

/-- `(?=...)` -/
def lookahead (p : List χ → Bool) : Matcher χ Unit := fun s => if p s then [((), s)] else []

/-- The first way to read the word. -/
def First (m : Matcher χ α) (s : List χ) (a : α) (r : List χ) : Prop := (m s).head? = some (a, r)

namespace First

variable {m n : Matcher χ α} {f : α → Matcher χ β} {s r r' : List χ} {a : α} {b : β}

theorem pure (a : α) (s : List χ) : First (.pure a) s a s := rfl

theorem bind (h : First m s a r) (hf : First (f a) r b r') : First (m.bind f) s b r' := by
  unfold First Matcher.bind
  cases hm : m s with
  | nil =>
    unfold First at h
    rw [hm] at h
    cases h
  | cons p ps =>
    unfold First at h
    rw [hm] at h
    obtain rfl : p = (a, r) := Option.some.inj h
    rw [List.flatMap_cons, List.head?_append, hf]
    rfl

theorem seq_nil (s : List χ) : First (.seq []) s [] s := rfl

theorem seq_cons {m : Matcher χ (List χ)} {ms : List (Matcher χ (List χ))} {x y : List χ}
    (h : First m s x r) (hs : First (.seq ms) r y r') : First (.seq (m :: ms)) s (x ++ y) r' :=
  h.bind (hs.bind (.pure (x ++ y) r'))

theorem orElse_left (h : First m s a r) : First (m.orElse n) s a r := by
  unfold First Matcher.orElse
  rw [List.head?_append, h]
  rfl

theorem orElse_right (hm : m s = []) (h : First n s a r) : First (m.orElse n) s a r := by
  unfold First Matcher.orElse
  rw [hm]
  exact h

theorem opt {m : Matcher χ (List χ)} {x : List χ} (h : First m s x r) : First m.opt s x r :=
  orElse_left h

theorem opt_skip {m : Matcher χ (List χ)} (hm : m s = []) : First m.opt s [] s :=
  orElse_right hm (.pure [] s)

theorem many {p : χ → Bool} {u v : List χ} (hu : ∀ c ∈ u, p c = true)
    (hv : ∀ c ∈ v.head?, p c = false) : First (.many p) (u ++ v) u v := by
  induction u with
  | nil =>
    cases v with
    | nil => rfl
    | cons c v =>
      unfold First
      rw [List.nil_append, Matcher.many, hv c rfl]
      rfl
  | cons c u ih =>
    have hrest : (Matcher.many p (u ++ v)).head? = some (u, v) :=
      ih fun d hd => hu d (List.mem_cons_of_mem _ hd)
    unfold First
    rw [List.cons_append, Matcher.many, if_pos (hu c List.mem_cons_self), List.head?_append,
      List.head?_map, hrest]
    rfl

theorem many1 {p : χ → Bool} {u v : List χ} (hne : u ≠ []) (hu : ∀ c ∈ u, p c = true)
    (hv : ∀ c ∈ v.head?, p c = false) : First (.many1 p) (u ++ v) u v := by
  have h : (Matcher.many p (u ++ v)).head? = some (u, v) := many hu hv
  unfold First Matcher.many1
  cases hm : Matcher.many p (u ++ v) with
  | nil =>
    rw [hm] at h
    cases h
  | cons q qs =>
    rw [hm] at h
    obtain rfl : q = (u, v) := Option.some.inj h
    rw [List.filter_cons_of_pos (by simpa using hne)]
    rfl

theorem literal [DecidableEq χ] (fold : χ → χ) (w r : List χ) :
    First (.literal fold w) (w ++ r) w r := by
  induction w with
  | nil =>
    unfold First
    rw [List.nil_append, Matcher.literal]
    rfl
  | cons c w ih =>
    unfold First
    rw [List.cons_append, Matcher.literal, if_pos rfl, List.head?_map, ih]
    rfl

theorem isEmpty (h : First m s a r) : (m s).isEmpty = false := by
  unfold First at h
  cases hm : m s with
  | nil =>
    rw [hm] at h
    cases h
  | cons p ps => rfl

theorem lookahead {p : List χ → Bool} (h : p s = true) : First (.lookahead p) s () s := by
  unfold First Matcher.lookahead
  rw [if_pos h]
  rfl

end First

theorem bind_eq_nil {m : Matcher χ α} {f : α → Matcher χ β} (h : m s = []) : m.bind f s = [] := by
  rw [bind, h]
  rfl

theorem seq_eq_nil {m : Matcher χ (List χ)} {ms : List (Matcher χ (List χ))} (h : m s = []) :
    seq (m :: ms) s = [] :=
  bind_eq_nil h

theorem literal_eq_nil [DecidableEq χ] {fold : χ → χ} {c d : χ} {w : List χ} (h : fold c ≠ fold d) :
    literal fold (c :: w) (d :: s) = [] :=
  if_neg h

/-! ## What is read -/

/-- Whatever is read has a property. -/
def Gives (m : Matcher χ α) (P : α → Prop) : Prop := ∀ s, ∀ p ∈ m s, P p.1

namespace Gives

variable {m n : Matcher χ α} {f : α → Matcher χ β} {P : α → Prop} {Q : β → Prop}

theorem pure {a : α} (h : P a) : Gives (.pure a : Matcher χ α) P := by
  intro s p hp
  rw [List.mem_singleton.1 hp]
  exact h

theorem bind (h : Gives m P) (hf : ∀ a, P a → Gives (f a) Q) : Gives (m.bind f) Q := by
  intro s q hq
  obtain ⟨p, hp, hq⟩ := List.mem_flatMap.1 hq
  exact hf p.1 (h s p hp) p.2 q hq

theorem orElse (hm : Gives m P) (hn : Gives n P) : Gives (m.orElse n) P := by
  intro s p hp
  rcases List.mem_append.1 hp with h | h
  · exact hm s p h
  · exact hn s p h

theorem mono {P' : α → Prop} (h : Gives m P) (hP : ∀ a, P a → P' a) : Gives m P' :=
  fun s p hp => hP p.1 (h s p hp)

theorem trivial (m : Matcher χ α) : Gives m fun _ => True := fun _ _ _ => True.intro

variable {P : List χ → Prop}

theorem opt {m : Matcher χ (List χ)} (h : Gives m P) (hnil : P []) : Gives m.opt P :=
  h.orElse (.pure hnil)

theorem many (p : χ → Bool) : Gives (.many p) fun a => ∀ c ∈ a, p c = true := by
  intro s
  induction s with
  | nil =>
    intro q hq
    rw [List.mem_singleton.1 hq]
    exact fun c hc => absurd hc List.not_mem_nil
  | cons c s ih =>
    intro q hq
    rcases mem_many_cons.1 hq with ⟨hc, q', hq', rfl⟩ | rfl
    · exact List.forall_mem_cons.2 ⟨hc, ih q' hq'⟩
    · exact fun c hc => absurd hc List.not_mem_nil

theorem many1 (p : χ → Bool) : Gives (.many1 p) fun a => a ≠ [] ∧ ∀ c ∈ a, p c = true := by
  intro s q hq
  obtain ⟨hmem, hne⟩ := List.mem_filter.1 hq
  exact ⟨by simpa using hne, many p s q hmem⟩

theorem literal [DecidableEq χ] (fold : χ → χ) (w : List χ) :
    Gives (.literal fold w) fun a => a.map fold = w.map fold := by
  induction w with
  | nil =>
    intro s q hq
    rw [Matcher.literal] at hq
    rw [List.mem_singleton.1 hq]
  | cons c w ih =>
    intro s q hq
    obtain ⟨d, t, rfl, hc, q', hq', rfl⟩ := mem_literal_cons.1 hq
    rw [List.map_cons, List.map_cons, ih t q' hq', hc]

theorem seq_cons {Q R : List χ → Prop} {m : Matcher χ (List χ)} {ms : List (Matcher χ (List χ))}
    (hm : Gives m P) (hms : Gives (.seq ms) Q) (h : ∀ a b, P a → Q b → R (a ++ b)) :
    Gives (.seq (m :: ms)) R :=
  hm.bind fun a ha => hms.bind fun b hb => .pure (h a b ha hb)

theorem seq_singleton {m : Matcher χ (List χ)} (hm : Gives m P) : Gives (.seq [m]) P := by
  have hnil : Gives (.seq [] : Matcher χ (List χ)) (· = []) := .pure rfl
  refine hm.seq_cons hnil fun a b ha hb => ?_
  rw [hb, List.append_nil]
  exact ha

/-- A property that goes over to concatenations. -/
theorem seq (hnil : P []) (happend : ∀ a b, P a → P b → P (a ++ b)) {ms : List (Matcher χ (List χ))}
    (h : ∀ m ∈ ms, Gives m P) : Gives (.seq ms) P := by
  induction ms with
  | nil => exact .pure hnil
  | cons m ms ih =>
    obtain ⟨hm, hms⟩ := List.forall_mem_cons.1 h
    exact hm.seq_cons (ih hms) happend

end Gives

/-- What is left of the word has a property. -/
def Leaves (m : Matcher χ α) (Q : List χ → Prop) : Prop := ∀ s, ∀ p ∈ m s, Q p.2

theorem Leaves.bind {m : Matcher χ α} {f : α → Matcher χ β} {Q : List χ → Prop}
    (h : ∀ a, Leaves (f a) Q) : Leaves (m.bind f) Q := by
  intro s q hq
  obtain ⟨p, -, hq⟩ := List.mem_flatMap.1 hq
  exact h p.1 p.2 q hq

/-- What was looked at is left. -/
theorem Leaves.lookahead {p : List χ → Bool} {a : α} {Q : List χ → Prop}
    (h : ∀ s, p s = true → Q s) : Leaves ((lookahead p).bind fun _ => pure a) Q := by
  intro s q hq
  obtain ⟨r, hr, hq⟩ := List.mem_flatMap.1 hq
  rw [List.mem_singleton.1 hq]
  unfold Matcher.lookahead at hr
  split_ifs at hr with hs
  · rw [List.mem_singleton.1 hr]
    exact h s hs
  · exact absurd hr List.not_mem_nil

/-! ## What is read stands there -/

/-- What is read stands before what is left, and is read before anything else too. -/
def Free (m : Matcher χ (List χ)) : Prop :=
  ∀ s, ∀ p ∈ m s, s = p.1 ++ p.2 ∧ ∀ r, (p.1, r) ∈ m (p.1 ++ r)

theorem nil_mem_many (p : χ → Bool) (r : List χ) : ([], r) ∈ many p r := by
  cases r with
  | nil => exact List.mem_singleton_self _
  | cons c r => exact List.mem_append_right _ (List.mem_singleton_self _)

namespace Free

variable {m n : Matcher χ (List χ)}

theorem nil : Free (.seq [] : Matcher χ (List χ)) := by
  intro s p hp
  rw [List.mem_singleton.1 hp]
  exact ⟨rfl, fun r => List.mem_singleton_self _⟩

theorem orElse (hm : Free m) (hn : Free n) : Free (m.orElse n) := by
  intro s p hp
  rcases List.mem_append.1 hp with h | h
  · exact ⟨(hm s p h).1, fun r => List.mem_append_left _ ((hm s p h).2 r)⟩
  · exact ⟨(hn s p h).1, fun r => List.mem_append_right _ ((hn s p h).2 r)⟩

theorem opt (hm : Free m) : Free m.opt := hm.orElse nil

theorem seq_cons {ms : List (Matcher χ (List χ))} (hm : Free m) (hms : Free (.seq ms)) :
    Free (.seq (m :: ms)) := by
  intro s p hp
  obtain ⟨q, hq, hp⟩ := List.mem_flatMap.1 hp
  obtain ⟨q', hq', hp⟩ := List.mem_flatMap.1 hp
  obtain rfl := List.mem_singleton.1 hp
  obtain ⟨hs, hread⟩ := hm s q hq
  obtain ⟨hs', hread'⟩ := hms q.2 q' hq'
  refine ⟨by rw [hs, hs', List.append_assoc], fun r => ?_⟩
  refine List.mem_flatMap.2 ⟨(q.1, q'.1 ++ r), ?_, List.mem_flatMap.2 ⟨(q'.1, r), hread' r,
    List.mem_singleton_self _⟩⟩
  rw [List.append_assoc]
  exact hread _

theorem seq {ms : List (Matcher χ (List χ))} (h : ∀ m ∈ ms, Free m) : Free (.seq ms) := by
  induction ms with
  | nil => exact nil
  | cons m ms ih =>
    obtain ⟨hm, hms⟩ := List.forall_mem_cons.1 h
    exact hm.seq_cons (ih hms)

theorem many (p : χ → Bool) : Free (.many p) := by
  intro s
  induction s with
  | nil =>
    intro q hq
    rw [List.mem_singleton.1 hq]
    exact ⟨rfl, nil_mem_many p⟩
  | cons c s ih =>
    intro q hq
    rcases mem_many_cons.1 hq with ⟨hc, q', hq', rfl⟩ | rfl
    · refine ⟨congrArg (c :: ·) (ih q' hq').1, fun r => ?_⟩
      exact mem_many_cons.2 (Or.inl ⟨hc, _, (ih q' hq').2 r, rfl⟩)
    · exact ⟨rfl, nil_mem_many p⟩

theorem many1 (p : χ → Bool) : Free (.many1 p) := by
  intro s q hq
  obtain ⟨hmem, hne⟩ := List.mem_filter.1 hq
  exact ⟨(many p s q hmem).1, fun r => List.mem_filter.2 ⟨(many p s q hmem).2 r, hne⟩⟩

theorem literal [DecidableEq χ] (fold : χ → χ) (w : List χ) : Free (.literal fold w) := by
  induction w with
  | nil =>
    intro s q hq
    rw [Matcher.literal] at hq
    rw [List.mem_singleton.1 hq]
    refine ⟨rfl, fun r => ?_⟩
    rw [Matcher.literal]
    exact List.mem_singleton_self _
  | cons c w ih =>
    intro s q hq
    obtain ⟨d, t, rfl, hc, q', hq', rfl⟩ := mem_literal_cons.1 hq
    refine ⟨congrArg (d :: ·) (ih t q' hq').1, fun r => ?_⟩
    exact mem_literal_cons.2 ⟨d, _, rfl, hc, _, (ih t q' hq').2 r, rfl⟩

end Free

/-- Another spelling of the word. -/
theorem First.literal_of_map [DecidableEq χ] {fold : χ → χ} {w v : List χ}
    (h : v.map fold = w.map fold) (r : List χ) : First (.literal fold w) (v ++ r) v r := by
  induction w generalizing v with
  | nil =>
    rw [List.map_eq_nil_iff.1 h]
    unfold First
    rw [List.nil_append, Matcher.literal]
    rfl
  | cons c w ih =>
    cases v with
    | nil => cases h
    | cons d v =>
      obtain ⟨hc, hw⟩ := List.cons.inj h
      have hrest : (Matcher.literal fold w (v ++ r)).head? = some (v, r) := ih hw
      unfold First
      rw [List.cons_append, Matcher.literal, if_pos hc.symm, List.head?_map, hrest]
      rfl

/-- The first way, where there is one and no other. -/
theorem First.of_unique {α : Type*} {m : Matcher χ α} {r : List χ} {a : α} (h : (a, r) ∈ m s)
    (hu : ∀ p ∈ m s, p = (a, r)) : First m s a r := by
  unfold First
  cases hm : m s with
  | nil =>
    rw [hm] at h
    cases h
  | cons p ps =>
    rw [hu p (hm ▸ List.mem_cons_self)]
    rfl

end Matcher

end PPBase
