import Mathlib.Data.List.Basic

/-!
# Scanners

A scanner reads a word one letter at a time. Each step may emit tokens, and the state it
ends in decides whether the word may stop there and which tokens are still pending. The
run over a concatenation is the run over the first part followed by the run over the
second (`Scanner.run_append`), so what a splice of two words means is decided by the state
the first one leaves behind (`Scanner.scan_append`).
-/

namespace PPBase

/-- A letter-by-letter scanner with states `σ`, letters `χ` and tokens `τ`. -/
structure Scanner (σ χ τ : Type*) where
  /-- The state before the first letter. -/
  start : σ
  /-- The tokens one letter completes and the state after it. -/
  step : σ → χ → Option (List τ × σ)
  /-- The tokens pending at the end of the word, if it may end in this state. -/
  finish : σ → Option (List τ)

namespace Scanner

variable {σ χ τ : Type*} (M : Scanner σ χ τ)

/-- Tokens completed by a word read from a given state, and the state after it. -/
def run : σ → List χ → Option (List τ × σ)
  | s, [] => some ([], s)
  | s, c :: cs =>
    match M.step s c with
    | none => none
    | some (ts, s') => (run s' cs).map fun p => (ts ++ p.1, p.2)

/-- All tokens of a word read from a given state. -/
def scanFrom (s : σ) (w : List χ) : Option (List τ) :=
  (M.run s w).bind fun p => (M.finish p.2).map (p.1 ++ ·)

/-- All tokens of a word. -/
def scan (w : List χ) : Option (List τ) := M.scanFrom M.start w

/-- The state a word leaves behind. -/
def stateAfter (w : List χ) : Option σ := (M.run M.start w).map Prod.snd

@[simp] theorem run_nil (s : σ) : M.run s [] = some ([], s) := rfl

theorem run_next (s : σ) (c : χ) (cs : List χ) : M.run s (c :: cs) =
    match M.step s c with
    | none => none
    | some (ts, s') => (M.run s' cs).map fun p => (ts ++ p.1, p.2) := rfl

variable {s s' : σ} {c : χ} {ts : List τ}

theorem run_cons (h : M.step s c = some (ts, s')) (cs : List χ) :
    M.run s (c :: cs) = (M.run s' cs).map fun p => (ts ++ p.1, p.2) := by
  rw [run_next, h]

theorem run_cons_none (h : M.step s c = none) (cs : List χ) : M.run s (c :: cs) = none := by
  rw [run_next, h]

theorem run_cons_eq_some {cs : List χ} {p : List τ × σ} :
    M.run s (c :: cs) = some p ↔
      ∃ q q', M.step s c = some q ∧ M.run q.2 cs = some q' ∧ p = (q.1 ++ q'.1, q'.2) := by
  constructor
  · intro h
    cases hstep : M.step s c with
    | none =>
      rw [M.run_cons_none hstep] at h
      cases h
    | some q =>
      rw [M.run_cons hstep] at h
      obtain ⟨q', hq', rfl⟩ := Option.map_eq_some_iff.1 h
      exact ⟨q, q', rfl, hq', rfl⟩
  · rintro ⟨⟨ts, s'⟩, q', hstep, hq', rfl⟩
    rw [M.run_cons hstep, hq']
    rfl

theorem run_append (s : σ) (u v : List χ) :
    M.run s (u ++ v) = (M.run s u).bind fun p => (M.run p.2 v).map fun q => (p.1 ++ q.1, q.2) := by
  induction u generalizing s with
  | nil => cases h : M.run s v <;> simp [h]
  | cons c u ih =>
    cases h : M.step s c with
    | none =>
      rw [List.cons_append, M.run_cons_none h, M.run_cons_none h]
      rfl
    | some p =>
      obtain ⟨ts, s'⟩ := p
      rw [List.cons_append, M.run_cons h, M.run_cons h, ih]
      cases M.run s' u with
      | none => rfl
      | some p =>
        cases h₂ : M.run p.2 v with
        | none => simp [h₂]
        | some q => simp [h₂]

/-- A word read after a known prefix. -/
theorem scanFrom_append {u : List χ} (h : M.run s u = some (ts, s')) (v : List χ) :
    M.scanFrom s (u ++ v) = (M.scanFrom s' v).map (ts ++ ·) := by
  simp only [scanFrom, run_append, h, Option.bind_some]
  cases M.run s' v with
  | none => rfl
  | some q => simp [Function.comp_def]

/-- One letter, then the rest of the word. -/
theorem scanFrom_cons (h : M.step s c = some (ts, s')) (cs : List χ) :
    M.scanFrom s (c :: cs) = (M.scanFrom s' cs).map (ts ++ ·) := by
  have hrun : M.run s [c] = some (ts, s') := by simp [M.run_cons h]
  simpa using M.scanFrom_append hrun cs

/-- A letter that completes no token. -/
theorem scanFrom_silent (h : M.step s c = some ([], s')) (cs : List χ) :
    M.scanFrom s (c :: cs) = M.scanFrom s' cs := by
  simpa using M.scanFrom_cons h cs

/-- A state that completes some tokens before a word and then reads it as another one does. -/
theorem scanFrom_completes {w : List χ}
    (hstep : ∀ c cs, w = c :: cs → M.step s' c = (M.step s c).map fun p => (ts ++ p.1, p.2))
    (hfinish : w = [] → M.finish s' = (M.finish s).map (ts ++ ·)) :
    M.scanFrom s' w = (M.scanFrom s w).map (ts ++ ·) := by
  cases w with
  | nil =>
    simp only [scanFrom, run_nil, Option.bind_some, List.nil_append, Option.map_id', hfinish]
  | cons c cs =>
    have hc := hstep c cs rfl
    cases h : M.step s c with
    | none =>
      rw [h] at hc
      have hc' : M.step s' c = none := hc
      simp [scanFrom, M.run_cons_none h, M.run_cons_none hc']
    | some p =>
      obtain ⟨us, t⟩ := p
      rw [h] at hc
      rw [M.scanFrom_cons hc, M.scanFrom_cons h, Option.map_map]
      simp [Function.comp_def]

/-- A scanned word is a run to a state in which it may end. -/
theorem scanFrom_eq_some {w : List χ} :
    M.scanFrom s w = some ts ↔
      ∃ us s' vs, M.run s w = some (us, s') ∧ M.finish s' = some vs ∧ ts = us ++ vs := by
  constructor
  · intro h
    obtain ⟨⟨us, s'⟩, hr, h⟩ := Option.bind_eq_some_iff.1 h
    obtain ⟨vs, hf, rfl⟩ := Option.map_eq_some_iff.1 h
    exact ⟨us, s', vs, hr, hf, rfl⟩
  · rintro ⟨us, s', vs, hr, hf, rfl⟩
    simp [scanFrom, hr, hf]

/-- A letter that first completes whatever is pending, emits `t`, and starts over. -/
def Delimits (s : σ) (c : χ) (t : τ) : Prop :=
  M.step s c = (M.finish s).map fun ts => (ts ++ [t], M.start)

/-- A delimiter closes the word before it and starts the scan of the word after it. -/
theorem scanFrom_delimiter {u : List χ} {us : List τ} {t : τ} (hr : M.run s u = some (us, s'))
    (hd : M.Delimits s' c t) (hs : M.scanFrom s u = some ts) (v : List χ) :
    M.scanFrom s (u ++ c :: v) = (M.scan v).map (ts ++ t :: ·) := by
  obtain ⟨us₁, s₁, vs, hr₁, hf, rfl⟩ := M.scanFrom_eq_some.1 hs
  obtain ⟨rfl, rfl⟩ := Prod.mk.inj (Option.some.inj (hr.symm.trans hr₁))
  have hstep : M.step s' c = some (vs ++ [t], M.start) := by rw [hd, hf]; rfl
  rw [M.scanFrom_append hr, M.scanFrom_cons hstep, scan]
  cases M.scanFrom M.start v with
  | none => rfl
  | some ts => simp

end Scanner

end PPBase
