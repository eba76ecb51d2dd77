import Mathlib.Data.List.Forall2

/-!
# Computations that may fail

A chain of fallible steps succeeds exactly if each step does.
-/

namespace PPBase

namespace Failing

universe u v

variable {ε : Type u} {α β : Type v}

variable {x : Except ε α}

theorem bind_eq_ok {f : α → Except ε β} {b : β} :
    x >>= f = .ok b ↔ ∃ a, x = .ok a ∧ f a = .ok b := by
  cases x with
  | error e =>
    constructor
    · rintro ⟨⟩
    · rintro ⟨a, ⟨⟩, -⟩
  | ok a =>
    constructor
    · exact fun h => ⟨a, rfl, h⟩
    · rintro ⟨a, ⟨⟩, h⟩
      exact h

@[simp] theorem ok_bind (a : α) (f : α → Except ε β) : (Except.ok a >>= f) = f a := rfl

theorem map_eq_ok {f : α → β} {b : β} : x.map f = .ok b ↔ ∃ a, x = .ok a ∧ f a = b := by
  cases x with
  | error e =>
    constructor
    · rintro ⟨⟩
    · rintro ⟨a, ⟨⟩, -⟩
  | ok a =>
    constructor
    · rintro ⟨⟩
      exact ⟨a, rfl, rfl⟩
    · rintro ⟨a, ⟨⟩, rfl⟩
      rfl

theorem mapError_eq_ok {ε' : Type u} {f : ε → ε'} {a : α} : x.mapError f = .ok a ↔ x = .ok a := by
  cases x with
  | error e =>
    constructor
    · rintro ⟨⟩
    · rintro ⟨⟩
  | ok b =>
    constructor
    · rintro ⟨⟩
      rfl
    · rintro ⟨⟩
      rfl

theorem foldlM_cons_eq_ok {f : β → α → Except ε β} {x : α} {xs : List α} {b b' : β} :
    (x :: xs).foldlM f b = .ok b' ↔ ∃ b₁, f b x = .ok b₁ ∧ xs.foldlM f b₁ = .ok b' := by
  rw [List.foldlM_cons, bind_eq_ok]

/-- Each element has its result. -/
theorem mapM_eq_ok_iff {f : α → Except ε β} :
    ∀ {xs : List α} {ys : List β}, xs.mapM f = .ok ys ↔ List.Forall₂ (fun x y => f x = .ok y) xs ys
  | [], ys => by
    rw [List.mapM_nil, List.forall₂_nil_left_iff]
    exact ⟨fun h => (Except.ok.inj h).symm, fun h => congrArg Except.ok h.symm⟩
  | x :: xs, ys => by
    rw [List.mapM_cons, bind_eq_ok, List.forall₂_cons_left_iff]
    refine exists_congr fun y => ?_
    rw [bind_eq_ok]
    constructor
    · rintro ⟨hy, zs, hzs, h⟩
      exact ⟨zs, hy, mapM_eq_ok_iff.1 hzs, (Except.ok.inj h).symm⟩
    · rintro ⟨zs, hy, hzs, rfl⟩
      exact ⟨hy, zs, mapM_eq_ok_iff.2 hzs, rfl⟩

theorem exists_of_forall₂ {R : α → β → Prop} {y : β} :
    ∀ {xs : List α} {ys : List β}, List.Forall₂ R xs ys → y ∈ ys → ∃ x ∈ xs, R x y
  | _, _, .cons hxy h, hy => by
    rcases List.mem_cons.1 hy with rfl | hy
    · exact ⟨_, List.mem_cons_self, hxy⟩
    · obtain ⟨x, hx, hxy⟩ := exists_of_forall₂ h hy
      exact ⟨x, List.mem_cons_of_mem _ hx, hxy⟩

theorem mem_of_mapM {α β : Type*} {f : α → Option β} {l : List α} {r : List β}
    (h : l.mapM f = some r) {b : β} : b ∈ r ↔ ∃ a ∈ l, f a = some b := by
  induction l generalizing r with
  | nil =>
    obtain rfl := Option.some.inj h
    simp
  | cons a l ih =>
    rw [List.mapM_cons] at h
    obtain ⟨c, hc, h⟩ := Option.bind_eq_some_iff.1 h
    obtain ⟨r', hr', h⟩ := Option.bind_eq_some_iff.1 h
    obtain rfl := Option.some.inj h
    rw [List.mem_cons, ih hr']
    constructor
    · rintro (rfl | ⟨a', ha', hb⟩)
      · exact ⟨a, List.mem_cons_self, hc⟩
      · exact ⟨a', List.mem_cons_of_mem _ ha', hb⟩
    · rintro ⟨a', ha', hb⟩
      rcases List.mem_cons.1 ha' with rfl | ha'
      · exact .inl (Option.some.inj (hb.symm.trans hc))
      · exact .inr ⟨a', ha', hb⟩

theorem mapM_eq_iff {α β γ : Type*} {f : α → Option β} {g : β → γ} {h : α → γ} {xs : List α} :
    (∃ ys, xs.mapM f = some ys ∧ ys.map g = xs.map h) ↔ ∀ x ∈ xs, ∃ y, f x = some y ∧ g y = h x := by
  induction xs with
  | nil => exact iff_of_true ⟨[], rfl, rfl⟩ fun _ h => absurd h List.not_mem_nil
  | cons x xs ih =>
    rw [List.forall_mem_cons, ← ih, List.mapM_cons]
    constructor
    · rintro ⟨ys, hys, heq⟩
      obtain ⟨y, hy, hys⟩ := Option.bind_eq_some_iff.1 hys
      obtain ⟨zs, hzs, hys⟩ := Option.bind_eq_some_iff.1 hys
      cases hys
      obtain ⟨hhead, htail⟩ := List.cons.inj heq
      exact ⟨⟨y, hy, hhead⟩, zs, hzs, htail⟩
    · rintro ⟨⟨y, hy, hhead⟩, ys, hys, htail⟩
      refine ⟨y :: ys, by rw [hy, hys]; rfl, ?_⟩
      rw [List.map_cons, hhead, htail, List.map_cons]

/-- The computation has a result. -/
def Succeeds (x : Except ε α) : Prop := ∃ a, x = .ok a

theorem succeeds_ok (a : α) : Succeeds (Except.ok a : Except ε α) := ⟨a, rfl⟩

theorem not_succeeds_error (e : ε) : ¬Succeeds (Except.error e : Except ε α) := nofun

theorem succeeds_bind {f : α → Except ε β} :
    Succeeds (x >>= f) ↔ ∃ a, x = .ok a ∧ Succeeds (f a) := by
  constructor
  · rintro ⟨b, hb⟩
    obtain ⟨a, ha, hb⟩ := bind_eq_ok.1 hb
    exact ⟨a, ha, b, hb⟩
  · rintro ⟨a, ha, b, hb⟩
    exact ⟨b, bind_eq_ok.2 ⟨a, ha, hb⟩⟩

/-- A step that always succeeds does not matter. -/
theorem succeeds_bind_iff {f : α → Except ε β} (hf : ∀ a, Succeeds (f a)) :
    Succeeds (x >>= f) ↔ Succeeds x := by
  rw [succeeds_bind]
  exact exists_congr fun a => and_iff_left (hf a)

theorem succeeds_map {f : α → β} : Succeeds (f <$> x) ↔ Succeeds x := by
  cases x with
  | error e => exact iff_of_false (not_succeeds_error e) (not_succeeds_error e)
  | ok a => exact iff_of_true ⟨f a, rfl⟩ ⟨a, rfl⟩

/-- What every step of a loop keeps, the loop keeps. -/
theorem foldlM_invariant {f : β → α → Except ε β} {P : β → Prop} :
    ∀ {xs : List α} {b b' : β}, (∀ x ∈ xs, ∀ b b', P b → f b x = .ok b' → P b') →
      P b → xs.foldlM f b = .ok b' → P b'
  | [], b, b', _, hb, h => by
    obtain rfl := Except.ok.inj h
    exact hb
  | x :: xs, b, b', hstep, hb, h => by
    rw [List.foldlM_cons] at h
    obtain ⟨b₁, h₁, h⟩ := bind_eq_ok.1 h
    exact foldlM_invariant (fun y hy => hstep y (List.mem_cons_of_mem _ hy))
      (hstep x List.mem_cons_self _ _ hb h₁) h

theorem foldlM_some_invariant {α β : Type*} {f : β → α → Option β} {P : β → Prop} :
    ∀ {xs : List α} {b b' : β}, (∀ x ∈ xs, ∀ b b', P b → f b x = some b' → P b') →
      P b → xs.foldlM f b = some b' → P b'
  | [], _, _, _, hb, h => Option.some.inj h ▸ hb
  | x :: xs, b, b', hstep, hb, h => by
    rw [List.foldlM_cons] at h
    obtain ⟨b₁, h₁, h⟩ := Option.bind_eq_some_iff.1 h
    exact foldlM_some_invariant (fun y hy => hstep y (List.mem_cons_of_mem _ hy))
      (hstep x List.mem_cons_self _ _ hb h₁) h

/-! ## Steps with keys of their own -/

/-- A loop in which each step reads and writes the entry of its own key. -/
theorem foldlM_update_eq_ok {κ α β ε : Type} [DecidableEq κ]
    {f : (κ → β) → α → Except ε (κ → β)} {g : α → κ} {step : α → β → Except ε β}
    (hf : ∀ y a, f y a = (step a (y (g a))).map (Function.update y (g a))) :
    ∀ {xs : List α} {y y' : κ → β}, (xs.map g).Nodup → (xs.foldlM f y = .ok y' ↔
      (∀ a ∈ xs, step a (y (g a)) = .ok (y' (g a))) ∧ ∀ k ∉ xs.map g, y' k = y k)
  | [], y, y', _ => by
    constructor
    · intro h
      obtain rfl := Except.ok.inj h
      exact ⟨nofun, fun _ _ => rfl⟩
    · rintro ⟨-, h⟩
      exact congrArg Except.ok (funext fun k => (h k List.not_mem_nil).symm)
  | a :: xs, y, y', hnd => by
    obtain ⟨ha, hxs⟩ := List.nodup_cons.1 hnd
    have hstep : ∀ b, f y a = .ok b ↔ ∃ v, step a (y (g a)) = .ok v ∧
        Function.update y (g a) v = b := fun b => by
      rw [hf]
      exact map_eq_ok
    have hother : ∀ v, ∀ c ∈ xs, Function.update y (g a) v (g c) = y (g c) := by
      intro v c hc
      refine Function.update_of_ne (fun hk => ha ?_) _ _
      rw [← hk]
      exact List.mem_map_of_mem hc
    rw [foldlM_cons_eq_ok, List.forall_mem_cons, List.map_cons]
    constructor
    · rintro ⟨y₁, h₁, h⟩
      obtain ⟨v, hv, rfl⟩ := (hstep y₁).1 h₁
      obtain ⟨hin, hout⟩ := (foldlM_update_eq_ok hf hxs).1 h
      have hself : y' (g a) = v := (hout _ ha).trans (Function.update_self ..)
      refine ⟨⟨hself ▸ hv, fun c hc => hother v c hc ▸ hin c hc⟩, fun k hk => ?_⟩
      obtain ⟨hka, hk⟩ := not_or.1 (mt List.mem_cons.2 hk)
      rw [hout k hk, Function.update_of_ne hka]
    · rintro ⟨⟨hv, hin⟩, hout⟩
      refine ⟨_, (hstep _).2 ⟨_, hv, rfl⟩, (foldlM_update_eq_ok hf hxs).2
        ⟨fun c hc => (hother _ c hc).symm ▸ hin c hc, fun k hk => ?_⟩⟩
      by_cases hka : k = g a
      · rw [hka, Function.update_self]
      · rw [Function.update_of_ne hka, hout k fun h => (List.mem_cons.1 h).elim hka hk]

end Failing

end PPBase
