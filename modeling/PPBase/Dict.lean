import Mathlib.Data.List.Induction
import Mathlib.Data.List.Nodup

/-!
# Dictionaries

A dictionary is a list of entries read by their first key, as Python keeps one in
insertion order. Writing a key replaces its entry in place or appends a new one.
-/

namespace PPBase

/-- Entries in insertion order. -/
abbrev Dict (κ α : Type*) := List (κ × α)

namespace Dict

variable {κ α β : Type*} [DecidableEq κ]

/-- `d.get(k)` -/
def get? : Dict κ α → κ → Option α
  | [], _ => none
  | (k', v) :: d, k => if k' = k then some v else get? d k

/-- `k in d` -/
def has (d : Dict κ α) (k : κ) : Bool := (d.get? k).isSome

/-- `d[k] = v` -/
def set : Dict κ α → κ → α → Dict κ α
  | [], k, v => [(k, v)]
  | (k', v') :: d, k, v => if k' = k then (k, v) :: d else (k', v') :: set d k v

/-- `d.pop(k, None)` -/
def del (d : Dict κ α) (k : κ) : Dict κ α := d.filter fun e => e.1 ≠ k

/-- `d.keys()` -/
def keys (d : Dict κ α) : List κ := d.map Prod.fst

/-- `{**d, **e}` -/
def update (d e : Dict κ α) : Dict κ α := e.foldl (fun d p => set d p.1 p.2) d

/-- `d.setdefault(k, []).append(v)` -/
def push (d : Dict κ (List α)) (k : κ) (v : α) : Dict κ (List α) :=
  d.set k ((d.get? k).getD [] ++ [v])

@[simp] theorem get?_nil (k : κ) : get? ([] : Dict κ α) k = none := rfl

@[simp] theorem get?_cons (k' : κ) (v : α) (d : Dict κ α) (k : κ) :
    get? ((k', v) :: d) k = if k' = k then some v else get? d k := rfl

theorem get?_set (d : Dict κ α) (k k' : κ) (v : α) :
    (d.set k v).get? k' = if k = k' then some v else d.get? k' := by
  induction d with
  | nil => simp [set]
  | cons e d ih =>
    obtain ⟨j, w⟩ := e
    by_cases hj : j = k
    · subst hj
      by_cases hk : j = k' <;> simp [set, hk]
    · by_cases hk : j = k'
      · subst hk
        simp [set, hj, Ne.symm hj]
      · simp [set, hj, hk, ih]

@[simp] theorem get?_set_self (d : Dict κ α) (k : κ) (v : α) :
    (d.set k v).get? k = some v := by
  simp [get?_set]

theorem set_ne_nil (d : Dict κ α) (k : κ) (v : α) : d.set k v ≠ [] := by
  intro h
  have hget := get?_set_self d k v
  rw [h] at hget
  cases hget

variable {d : Dict κ α} {k : κ} {v : α}

/-- A value set where it is already. -/
theorem set_get? (h : d.get? k = some v) : d.set k v = d := by
  induction d with
  | nil => cases h
  | cons e d ih =>
    obtain ⟨j, w⟩ := e
    rw [get?_cons] at h
    unfold set
    split_ifs at h ⊢ with hj
    · rw [Option.some.inj h, hj]
    · rw [ih h]

theorem get?_set_ne (d : Dict κ α) {k' : κ} (v : α) (h : k ≠ k') :
    (d.set k v).get? k' = d.get? k' := by
  simp [get?_set, h]

theorem get?_del (d : Dict κ α) (k k' : κ) :
    (d.del k).get? k' = if k = k' then none else d.get? k' := by
  induction d with
  | nil => simp [del]
  | cons e d ih =>
    obtain ⟨j, w⟩ := e
    simp only [del] at ih
    by_cases hj : j = k
    · subst hj
      by_cases hk : j = k'
      · subst hk
        simpa [del] using ih
      · simpa [del, hk] using ih
    · by_cases hk : j = k'
      · subst hk
        simp [del, hj, Ne.symm hj]
      · simp only [del, List.filter_cons, ne_eq, hj, not_false_eq_true, decide_true, if_true,
          get?_cons, hk, if_false]
        exact ih

theorem get?_filter (p : κ → Bool) (d : Dict κ α) (k : κ) :
    get? (d.filter fun e => p e.1) k = if p k then d.get? k else none := by
  induction d with
  | nil => simp
  | cons e d ih =>
    obtain ⟨j, v⟩ := e
    rw [List.filter_cons]
    by_cases hj : j = k
    · subst hj
      cases hp : p j <;> simp [hp, ih]
    · cases p j <;> simp [hj, ih]

theorem get?_map (g : κ → α → β) (d : Dict κ α) (k : κ) :
    get? (d.map fun e => (e.1, g e.1 e.2)) k = (d.get? k).map (g k) := by
  induction d with
  | nil => rfl
  | cons e d ih =>
    obtain ⟨j, v⟩ := e
    by_cases hj : j = k
    · simp [hj]
    · simp [hj, ih]

theorem get?_eq_none_iff : d.get? k = none ↔ k ∉ d.keys := by
  induction d with
  | nil => simp [keys]
  | cons e d ih =>
    obtain ⟨j, w⟩ := e
    by_cases hj : j = k
    · simp [keys, hj]
    · simpa [keys, hj, Ne.symm hj] using ih

theorem has_iff_mem_keys : d.has k = true ↔ k ∈ d.keys := by
  rw [has, Option.isSome_iff_ne_none, ne_eq, get?_eq_none_iff, not_not]

theorem get?_foldl_set_of_notMem {γ : Type*} (k : γ → κ) (g : γ → α) {j : κ} :
    ∀ (xs : List γ) (d : Dict κ α), j ∉ xs.map k →
      (xs.foldl (fun d x => d.set (k x) (g x)) d).get? j = d.get? j
  | [], _, _ => rfl
  | x :: xs, d, h => by
    rw [List.map_cons, List.mem_cons, not_or] at h
    rw [List.foldl_cons, get?_foldl_set_of_notMem k g xs _ h.2, get?_set_ne d _ (Ne.symm h.1)]

/-- Entries written under distinct keys are all there at the end. -/
theorem get?_foldl_set {γ : Type*} (k : γ → κ) (g : γ → α) :
    ∀ {xs : List γ} (d : Dict κ α), (xs.map k).Nodup → ∀ {x : γ}, x ∈ xs →
      (xs.foldl (fun d x => d.set (k x) (g x)) d).get? (k x) = some (g x)
  | y :: xs, d, hnd, x, hx => by
    rw [List.map_cons, List.nodup_cons] at hnd
    rw [List.foldl_cons]
    rcases List.mem_cons.1 hx with rfl | hx
    · rw [get?_foldl_set_of_notMem k g xs _ hnd.1, get?_set_self]
    · exact get?_foldl_set k g _ hnd.2 hx

theorem set_of_notMem : ∀ {d : Dict κ α} {j : κ}, j ∉ d.keys → ∀ v : α, d.set j v = d ++ [(j, v)]
  | [], _, _, _ => rfl
  | (i, w) :: d, j, h, v => by
    obtain ⟨hne, hd⟩ := List.ne_and_not_mem_of_not_mem_cons h
    rw [set, if_neg (Ne.symm hne), set_of_notMem hd]
    rfl

/-- Entries written under new, distinct keys stand in the order in which they are written. -/
theorem foldl_set_eq {γ : Type*} (k : γ → κ) (g : γ → α) :
    ∀ (xs : List γ) (d : Dict κ α), (d.keys ++ xs.map k).Nodup →
      xs.foldl (fun d x => d.set (k x) (g x)) d = d ++ xs.map fun x => (k x, g x)
  | [], d, _ => (List.append_nil d).symm
  | x :: xs, d, h => by
    have hx : k x ∉ d.keys := fun hmem =>
      (List.nodup_append.1 h).2.2 _ hmem _ List.mem_cons_self rfl
    rw [List.foldl_cons, set_of_notMem hx, foldl_set_eq k g xs]
    · simp
    · simpa [keys, List.map_append] using h

/-- Of entries written one after the other the last one under a key is kept. -/
theorem get?_foldl_set_eq_find? {γ : Type*} (k : γ → κ) (g : γ → α) (j : κ) :
    ∀ (xs : List γ) (d : Dict κ α), (xs.foldl (fun d x => d.set (k x) (g x)) d).get? j =
      ((xs.reverse.find? fun x => k x = j).map g).or (d.get? j)
  | [], d => rfl
  | x :: xs, d => by
    rw [List.foldl_cons, get?_foldl_set_eq_find? k g j xs, List.reverse_cons, List.find?_append,
      get?_set]
    cases xs.reverse.find? fun x => k x = j with
    | some y => rfl
    | none => by_cases hx : k x = j <;> simp [hx]

theorem mem_set {e : κ × α} (h : e ∈ d.set k v) : e = (k, v) ∨ e ∈ d := by
  induction d with
  | nil => exact Or.inl (List.mem_singleton.1 h)
  | cons e' d ih =>
    obtain ⟨j, w⟩ := e'
    unfold set at h
    split_ifs at h with hj
    · rcases List.mem_cons.1 h with h | h
      · exact Or.inl h
      · exact Or.inr (List.mem_cons_of_mem _ h)
    · rcases List.mem_cons.1 h with rfl | h
      · exact Or.inr List.mem_cons_self
      · exact (ih h).imp_right (List.mem_cons_of_mem _)

theorem nodup_keys_set (h : d.keys.Nodup) (k : κ) (v : α) : (d.set k v).keys.Nodup := by
  induction d with
  | nil => exact List.nodup_singleton k
  | cons e d ih =>
    obtain ⟨j, w⟩ := e
    obtain ⟨hj, hd⟩ := List.nodup_cons.1 h
    unfold set
    split_ifs with hk
    · exact List.nodup_cons.2 ⟨hk ▸ hj, hd⟩
    · refine List.nodup_cons.2 ⟨fun hmem => ?_, ih hd⟩
      obtain ⟨e, he, hek⟩ := List.mem_map.1 hmem
      rcases mem_set he with rfl | he
      · exact hk hek.symm
      · exact hj (hek ▸ List.mem_map_of_mem he)

theorem mem_keys_set {j : κ} : j ∈ (d.set k v).keys ↔ j = k ∨ j ∈ d.keys := by
  rw [← has_iff_mem_keys, ← has_iff_mem_keys, has, has, get?_set]
  by_cases hk : k = j
  · simp [hk]
  · simp [hk, Ne.symm hk]

omit [DecidableEq κ] in
theorem nodup_keys_filter {q : κ → Bool} (h : d.keys.Nodup) :
    (keys (d.filter fun e => q e.1)).Nodup :=
  h.sublist (List.filter_sublist.map Prod.fst)

theorem nodup_keys_foldl_del : ∀ {ks : List κ} {d : Dict κ α}, d.keys.Nodup →
    (ks.foldl del d).keys.Nodup
  | [], _, h => h
  | k :: _, d, h => nodup_keys_foldl_del (d := del d k) (nodup_keys_filter (q := (· ≠ k)) h)

theorem get?_foldl_del (ks : List κ) (d : Dict κ α) (k : κ) :
    (ks.foldl del d).get? k = if k ∈ ks then none else d.get? k := by
  induction ks generalizing d with
  | nil => simp
  | cons j ks ih =>
    rw [List.foldl_cons, ih, get?_del]
    by_cases hk : k ∈ ks
    · rw [if_pos hk, if_pos (List.mem_cons_of_mem _ hk)]
    · by_cases hj : j = k
      · subst hj
        rw [if_neg hk, if_pos rfl, if_pos List.mem_cons_self]
      · rw [if_neg hk, if_neg hj, if_neg]
        rintro h
        rcases List.mem_cons.1 h with h | h
        · exact hj h.symm
        · exact hk h

theorem mem_foldl_del {ks : List κ} {e : κ × α} : e ∈ ks.foldl del d ↔ e ∈ d ∧ e.1 ∉ ks := by
  induction ks generalizing d with
  | nil => simp
  | cons j ks ih =>
    rw [List.foldl_cons, ih]
    simp only [del, List.mem_filter, decide_eq_true_eq, List.mem_cons, not_or, and_assoc]

theorem mem_of_get? (h : d.get? k = some v) : (k, v) ∈ d := by
  induction d with
  | nil => cases h
  | cons e d ih =>
    obtain ⟨j, w⟩ := e
    by_cases hj : j = k
    · subst hj
      obtain rfl : w = v := by simpa using h
      simp
    · rw [get?_cons, if_neg hj] at h
      exact List.mem_cons_of_mem _ (ih h)

theorem get?_of_mem (hd : d.keys.Nodup) {e : κ × α} (he : e ∈ d) : d.get? e.1 = some e.2 := by
  induction d with
  | nil => cases he
  | cons e' d ih =>
    obtain ⟨hnot, hrest⟩ := List.nodup_cons.1 hd
    obtain ⟨k, v⟩ := e'
    rw [get?_cons]
    rcases List.mem_cons.1 he with rfl | htail
    · exact if_pos rfl
    · have hkey : e.1 ∈ keys d := List.mem_map_of_mem htail
      rw [if_neg fun hk : k = e.1 => hnot (by rw [hk]; exact hkey)]
      exact ih hrest htail

/-- What `{**d, **e}` holds, where `e` has no key twice. -/
theorem get?_update {e : Dict κ α} (h : e.keys.Nodup) (k : κ) :
    (d.update e).get? k = (e.get? k).or (d.get? k) := by
  cases hk : e.get? k with
  | none => exact get?_foldl_set_of_notMem Prod.fst Prod.snd e d (get?_eq_none_iff.1 hk)
  | some v => exact get?_foldl_set Prod.fst Prod.snd d h (mem_of_get? hk)

theorem get?_mapM {f : α → Option β} : ∀ {d : Dict κ α} {d' : Dict κ β},
    (d.mapM fun p => (f p.2).map (p.1, ·)) = some d' →
      d'.keys = d.keys ∧ ∀ k, d'.get? k = (d.get? k).bind f
  | [], d', h => by
    obtain rfl := Option.some.inj h
    exact ⟨rfl, fun _ => rfl⟩
  | (j, v) :: d, d', h => by
    rw [List.mapM_cons] at h
    obtain ⟨p, hp, h⟩ := Option.bind_eq_some_iff.1 h
    obtain ⟨w, hw, rfl⟩ := Option.map_eq_some_iff.1 hp
    obtain ⟨e, he, h⟩ := Option.bind_eq_some_iff.1 h
    obtain rfl := Option.some.inj h
    obtain ⟨hkeys, hget⟩ := get?_mapM he
    refine ⟨congrArg (j :: ·) hkeys, fun k => ?_⟩
    rw [get?_cons, get?_cons, hget]
    by_cases hj : j = k
    · rw [if_pos hj, if_pos hj]
      exact hw.symm
    · rw [if_neg hj, if_neg hj]

end Dict

end PPBase
