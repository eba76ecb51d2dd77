import Mathlib.Algebra.Order.Floor.Ring
import Mathlib.Data.Rat.Floor
import PPBase.Dict
import PPBase.Text

/-!
# The rate limiter

`dispatch` keeps the times of the admitted requests of every client in a queue. It drops those that
have left the window, turns a request away when the queue is full, and enqueues its time otherwise.
Times are rational numbers here.

`exact_window` : with a fixed configuration, a request is admitted exactly when fewer requests than
allowed were admitted in the window that ends with it; so no window holds more, and the remaining
number that is reported is exact. `retryAfter_sufficient_iff` : a client that waits as long as it
was told is admitted exactly when the wait for room was at most a second, or a whole number of
seconds until the oldest request leaves, since the seconds are truncated.
-/

namespace PPBase

namespace RateLimit

/-! ## The middleware -/

/-- `_RateLimitConfig` -/
structure Config where
  enabled : Bool := false
  maxRequests : ℕ := 1000
  windowSeconds : ℕ := 60
  maxRequests_pos : 0 < maxRequests := by decide
  windowSeconds_pos : 0 < windowSeconds := by decide

structure Request where
  path : Text
  identifier : Text
  now : ℚ

/-- What becomes of a request, with the headers that are set. -/
inductive Outcome
  | unlimited
  | tooManyRequests (retryAfter : ℤ) (limit : ℕ)
  | admitted (limit : ℕ) (remaining resetAfter : ℤ)
  deriving DecidableEq

/-- `X-RateLimit-Remaining` -/
def Outcome.remaining : Outcome → Option ℤ
  | .unlimited => none
  | .tooManyRequests _ _ => some 0
  | .admitted _ remaining _ => some remaining

def Outcome.isAdmitted : Outcome → Bool
  | .admitted _ _ _ => true
  | _ => false

/-- `_hits`, the oldest request first. -/
abbrev Hits := Dict Text (List ℚ)

/-- Python's `int` of a number. -/
def truncate (x : ℚ) : ℤ := if 0 ≤ x then ⌊x⌋ else ⌈x⌉

def startsWith (prefix' path : Text) : Bool := (Text.afterPrefix? prefix' path).isSome

/-- The paths that are limited. -/
def limitedPath (path : Text) : Bool :=
  startsWith "/api" path &&
    !(["/api/health", "/api/realtime"].any fun skipped => startsWith skipped path)

/-- The queue of a client without the requests that have left the window. -/
def pruned (config : Config) (hits : Hits) (r : Request) : List ℚ :=
  ((hits.get? r.identifier).getD []).dropWhile fun hit => hit ≤ r.now - config.windowSeconds

/-- The seconds from `now` until a request leaves the window. -/
def wait (config : Config) (hit now : ℚ) : ℚ := hit + config.windowSeconds - now

/-- `RateLimitMiddleware.dispatch` -/
def dispatch (config : Config) (hits : Hits) (r : Request) : Hits × Outcome :=
  if !limitedPath r.path || !config.enabled then (hits, .unlimited)
  else
    let bucket := pruned config hits r
    if bucket.length ≥ config.maxRequests then
      let retryAfter := max 1 (truncate (wait config (bucket.headD 0) r.now))
      (hits.set r.identifier bucket, .tooManyRequests retryAfter config.maxRequests)
    else
      let bucket := bucket ++ [r.now]
      (hits.set r.identifier bucket,
        .admitted config.maxRequests (max 0 ((config.maxRequests : ℤ) - bucket.length))
          (max 0 (truncate (wait config (bucket.headD 0) r.now))))

/-! ## Runs -/

/-- The queues, and the admitted requests of all clients. -/
structure State where
  hits : Hits := []
  log : List Request := []

def State.step (s : State) (e : Config × Request) : State where
  hits := (dispatch e.1 s.hits e.2).1
  log := if (dispatch e.1 s.hits e.2).2.isAdmitted then s.log ++ [e.2] else s.log

/-- The requests in their order, each with the configuration it meets. -/
def run (requests : List (Config × Request)) : State := requests.foldl State.step {}

/-- The times at which requests of a client were admitted. -/
def State.admitted (s : State) (identifier : Text) : List ℚ :=
  (s.log.filter fun r => r.identifier = identifier).map Request.now

/-- The clock does not go backwards between two requests of a client. -/
def Ordered (requests : List Request) : Prop :=
  requests.Pairwise fun r r' => r.identifier = r'.identifier → r.now ≤ r'.now

theorem run_append_singleton (requests : List (Config × Request)) (e : Config × Request) :
    run (requests ++ [e]) = (run requests).step e := by
  simp [run]

/-! ## Sorted queues -/

section Queue

variable {l : List ℚ}

/-- Of a sorted list, the front that is dropped is what is not kept. -/
theorem dropWhile_eq_filter (h : l.Pairwise (· ≤ ·)) (c : ℚ) :
    (l.dropWhile fun a => a ≤ c) = l.filter fun a => c < a := by
  induction l with
  | nil => rfl
  | cons a l ih =>
    obtain ⟨hhead, hl⟩ := List.pairwise_cons.1 h
    by_cases ha : a ≤ c
    · rw [List.dropWhile_cons_of_pos (by simpa using ha), ih hl,
        List.filter_cons_of_neg (by simpa using ha)]
    · rw [List.dropWhile_cons_of_neg (by simpa using ha), List.filter_eq_self.2]
      intro b hb
      rcases List.mem_cons.1 hb with rfl | hb
      · simpa using ha
      · simpa using lt_of_lt_of_le (not_le.1 ha) (hhead b hb)

/-- When the queue has room again. -/
theorem length_dropWhile_lt_iff (h : l.Pairwise (· ≤ ·)) {m : ℕ} (hm : 0 < m)
    (hlength : m ≤ l.length) (c : ℚ) :
    (l.dropWhile fun a => a ≤ c).length < m ↔ ∃ a, l[l.length - m]? = some a ∧ a ≤ c := by
  induction l with
  | nil => simp at hlength; omega
  | cons a l ih =>
    obtain ⟨hhead, hl⟩ := List.pairwise_cons.1 h
    rw [List.length_cons] at hlength
    by_cases ha : a ≤ c
    · rw [List.dropWhile_cons_of_pos (by simpa using ha)]
      rcases Nat.lt_or_ge l.length m with hlt | hge
      · have hzero : (a :: l).length - m = 0 := by rw [List.length_cons]; omega
        refine iff_of_true (lt_of_le_of_lt (List.length_dropWhile_le _ l) hlt) ⟨a, ?_, ha⟩
        rw [hzero]
        rfl
      · have hsucc : (a :: l).length - m = (l.length - m) + 1 := by rw [List.length_cons]; omega
        rw [hsucc, List.getElem?_cons_succ]
        exact ih hl hge
    · rw [List.dropWhile_cons_of_neg (by simpa using ha)]
      refine iff_of_false (by rw [List.length_cons]; omega) ?_
      rintro ⟨b, hb, hbc⟩
      rcases List.mem_cons.1 (List.mem_of_getElem? hb) with rfl | hmem
      · exact ha hbc
      · exact ha (le_trans (hhead b hmem) hbc)

end Queue

/-! ## Steps -/

/-- The queue of a client. -/
def State.bucket (s : State) (identifier : Text) : List ℚ := (s.hits.get? identifier).getD []

theorem pruned_eq (config : Config) (s : State) (r : Request) :
    pruned config s.hits r =
      (s.bucket r.identifier).dropWhile fun hit => hit ≤ r.now - config.windowSeconds := rfl

theorem isAdmitted_iff (config : Config) (hits : Hits) (r : Request) :
    (dispatch config hits r).2.isAdmitted = true ↔ limitedPath r.path = true ∧
      config.enabled = true ∧ (pruned config hits r).length < config.maxRequests := by
  unfold dispatch
  cases hpath : limitedPath r.path <;> cases henabled : config.enabled <;>
    simp [Outcome.isAdmitted]
  split_ifs with hfull
  · simpa using hfull
  · simpa using hfull

theorem dispatch_hits (config : Config) (hits : Hits) (r : Request) :
    (dispatch config hits r).1 =
      if limitedPath r.path = true ∧ config.enabled = true then
        hits.set r.identifier
          (if (pruned config hits r).length < config.maxRequests then
            pruned config hits r ++ [r.now] else pruned config hits r)
      else hits := by
  unfold dispatch
  cases hpath : limitedPath r.path <;> cases henabled : config.enabled <;> try rfl
  simp only [Bool.not_true, Bool.or_self, Bool.false_eq_true, if_false, and_self, if_true]
  by_cases hfull : (pruned config hits r).length < config.maxRequests
  · rw [if_pos hfull, if_neg (not_le.2 hfull)]
  · rw [if_neg hfull, if_pos (not_lt.1 hfull)]

theorem State.admitted_step (s : State) (config : Config) (r : Request) (identifier : Text) :
    (s.step (config, r)).admitted identifier =
      if (dispatch config s.hits r).2.isAdmitted = true ∧ r.identifier = identifier then
        s.admitted identifier ++ [r.now] else s.admitted identifier := by
  simp only [State.admitted, State.step]
  split_ifs with h₁ h₂ h₂ <;> simp_all

/-- What a request does to the queue and the admitted times of a client. -/
theorem State.step_cases (s : State) (config : Config) (r : Request) (identifier : Text) :
    ((s.step (config, r)).bucket identifier = s.bucket identifier ∧
        (s.step (config, r)).admitted identifier = s.admitted identifier) ∨
      r.identifier = identifier ∧
        ((s.step (config, r)).bucket identifier = pruned config s.hits r ∧
            (s.step (config, r)).admitted identifier = s.admitted identifier ∨
          (pruned config s.hits r).length < config.maxRequests ∧
            (s.step (config, r)).bucket identifier = pruned config s.hits r ++ [r.now] ∧
              (s.step (config, r)).admitted identifier = s.admitted identifier ++ [r.now]) := by
  have hbucket : (s.step (config, r)).bucket identifier =
      ((dispatch config s.hits r).1.get? identifier).getD [] := rfl
  have hadmitted := isAdmitted_iff config s.hits r
  rw [State.admitted_step, hbucket, dispatch_hits]
  by_cases hid : r.identifier = identifier
  · subst hid
    by_cases hlimited : limitedPath r.path = true ∧ config.enabled = true
    · rw [if_pos hlimited, Dict.get?_set_self, Option.getD_some]
      by_cases hroom : (pruned config s.hits r).length < config.maxRequests
      · refine .inr ⟨rfl, .inr ⟨hroom, if_pos hroom, ?_⟩⟩
        rw [if_pos ⟨hadmitted.2 ⟨hlimited.1, hlimited.2, hroom⟩, rfl⟩]
      · refine .inr ⟨rfl, .inl ⟨if_neg hroom, ?_⟩⟩
        rw [if_neg fun h => hroom (hadmitted.1 h.1).2.2]
    · rw [if_neg hlimited,
        if_neg fun h => hlimited ⟨(hadmitted.1 h.1).1, (hadmitted.1 h.1).2.1⟩]
      exact .inl ⟨rfl, rfl⟩
  · refine .inl ⟨?_, if_neg fun h => hid h.2⟩
    split_ifs
    · rw [Dict.get?_set_ne _ _ hid]
      rfl
    · rw [Dict.get?_set_ne _ _ hid]
      rfl
    · rfl

/-! ## Queues in a run -/

/-- A queue is in order, and holds times of earlier requests. -/
theorem bucket_sorted {requests : List (Config × Request)}
    (h : Ordered (requests.map Prod.snd)) (identifier : Text) :
    ((run requests).bucket identifier).Pairwise (· ≤ ·) ∧
      ∀ a ∈ (run requests).bucket identifier,
        ∃ e ∈ requests, e.2.identifier = identifier ∧ e.2.now = a := by
  induction requests using List.reverseRecOn with
  | nil => exact ⟨.nil, nofun⟩
  | append_singleton requests e ih =>
    obtain ⟨config, r⟩ := e
    rw [List.map_append, Ordered, List.pairwise_append] at h
    obtain ⟨hsorted, hmem⟩ := ih h.1
    have hkept : ∀ a ∈ (run requests).bucket identifier,
        ∃ e ∈ requests ++ [(config, r)], e.2.identifier = identifier ∧ e.2.now = a :=
      fun a ha => (hmem a ha).imp fun e he => ⟨List.mem_append_left _ he.1, he.2⟩
    have hsub : (pruned config (run requests).hits r).Sublist
        ((run requests).bucket r.identifier) := List.dropWhile_sublist _
    rw [run_append_singleton]
    rcases (run requests).step_cases config r identifier with
      ⟨hb, -⟩ | ⟨rfl, ⟨hb, -⟩ | ⟨-, hb, -⟩⟩
    · rw [hb]
      exact ⟨hsorted, hkept⟩
    · rw [hb]
      exact ⟨hsorted.sublist hsub, fun a ha => hkept a (hsub.subset ha)⟩
    · rw [hb]
      refine ⟨List.pairwise_append.2 ⟨hsorted.sublist hsub, List.pairwise_singleton _ _, ?_⟩,
        fun a ha => ?_⟩
      · intro a ha b hb
        rw [List.mem_singleton.1 hb]
        obtain ⟨e, he, hid, rfl⟩ := hmem a (hsub.subset ha)
        exact h.2.2 e.2 (List.mem_map_of_mem he) r (List.mem_singleton_self r) hid
      · rcases List.mem_append.1 ha with ha | ha
        · exact hkept a (hsub.subset ha)
        · exact ⟨(config, r), by simp, rfl, (List.mem_singleton.1 ha).symm⟩

/-- The admitted times of a client are in order, and times of earlier requests. -/
theorem admitted_sorted {requests : List (Config × Request)}
    (h : Ordered (requests.map Prod.snd)) (identifier : Text) :
    ((run requests).admitted identifier).Pairwise (· ≤ ·) ∧
      ∀ a ∈ (run requests).admitted identifier,
        ∃ e ∈ requests, e.2.identifier = identifier ∧ e.2.now = a := by
  have hsub : ∀ requests : List (Config × Request),
      (run requests).log.Sublist (requests.map Prod.snd) := by
    intro requests
    induction requests using List.reverseRecOn with
    | nil => exact .slnil
    | append_singleton requests e ih =>
      rw [run_append_singleton, List.map_append]
      simp only [State.step]
      split_ifs
      · exact ih.append (List.Sublist.refl _)
      · exact ih.trans (List.sublist_append_left _ _)
  refine ⟨?_, fun a ha => ?_⟩
  · rw [State.admitted, List.pairwise_map, List.pairwise_filter]
    refine (h.sublist (hsub requests)).imp fun {r r'} hle hr hr' => hle ?_
    rw [of_decide_eq_true hr, of_decide_eq_true hr']
  · obtain ⟨r, hr, rfl⟩ := List.mem_map.1 ha
    obtain ⟨hlog, hid⟩ := List.mem_filter.1 hr
    obtain ⟨e, he, rfl⟩ := List.mem_map.1 ((hsub requests).subset hlog)
    exact ⟨e, he, of_decide_eq_true hid, rfl⟩

/-! ## The window -/

/-- A run with one configuration. -/
def runWith (config : Config) (requests : List Request) : State :=
  run (requests.map fun r => (config, r))

/-- A time lies in the window that ends at `now`. -/
def inWindow (config : Config) (now hit : ℚ) : Bool :=
  now - config.windowSeconds < hit && hit ≤ now

section Window

variable {config : Config} {requests : List Request} {r : Request} {identifier : Text}

theorem runWith_append_singleton (config : Config) (requests : List Request) (r : Request) :
    runWith config (requests ++ [r]) = (runWith config requests).step (config, r) := by
  simp [runWith, run]

theorem map_snd_runWith (config : Config) (requests : List Request) :
    (requests.map fun r => (config, r)).map Prod.snd = requests := by
  simp [Function.comp_def]

theorem Ordered.append (h : Ordered (requests ++ [r])) :
    Ordered requests ∧ ∀ r' ∈ requests, r'.identifier = r.identifier → r'.now ≤ r.now := by
  obtain ⟨hrequests, -, hle⟩ := List.pairwise_append.1 h
  exact ⟨hrequests, fun r' hr' => hle r' hr' r (List.mem_singleton_self r)⟩

theorem le_of_mem_admitted (h : Ordered requests) {n : ℚ}
    (hn : ∀ r ∈ requests, r.identifier = identifier → r.now ≤ n) :
    ∀ a ∈ (runWith config requests).admitted identifier, a ≤ n := by
  intro a ha
  obtain ⟨e, he, hid, rfl⟩ :=
    (admitted_sorted (by rwa [map_snd_runWith]) identifier).2 a ha
  obtain ⟨r, hr, rfl⟩ := List.mem_map.1 he
  exact hn r hr hid

/-- What pruning leaves are the admitted requests of the window. -/
theorem dropWhile_bucket (h : Ordered requests) {n : ℚ}
    (hn : ∀ r ∈ requests, r.identifier = identifier → r.now ≤ n) :
    (((runWith config requests).bucket identifier).dropWhile fun hit =>
        hit ≤ n - config.windowSeconds) =
      ((runWith config requests).admitted identifier).filter fun hit =>
        n - config.windowSeconds < hit := by
  induction requests using List.reverseRecOn generalizing n with
  | nil => rfl
  | append_singleton requests r ih =>
    obtain ⟨hrequests, hle⟩ := h.append
    have hn' : ∀ r ∈ requests, r.identifier = identifier → r.now ≤ n :=
      fun r' hr' => hn r' (List.mem_append_left _ hr')
    have hsorted := (bucket_sorted (by rwa [map_snd_runWith config (requests ++ [r])])
      identifier).1
    rw [← runWith] at hsorted
    rw [runWith_append_singleton] at hsorted ⊢
    rcases (runWith config requests).step_cases config r identifier with
      ⟨hb, ha⟩ | ⟨rfl, hstep⟩
    · rw [hb, ha]
      exact ih hrequests hn'
    · have hpruned := ih hrequests hle
      have hrn : r.now ≤ n := hn r (by simp) rfl
      -- What the window of `n` holds, that of the last request held.
      have hfilter : (pruned config (runWith config requests).hits r).filter
            (fun hit => n - config.windowSeconds < hit) =
          ((runWith config requests).admitted r.identifier).filter fun hit =>
            n - config.windowSeconds < hit := by
        rw [pruned_eq, hpruned, List.filter_filter]
        refine List.filter_congr fun a _ => ?_
        rw [Bool.and_eq_left_iff_imp]
        simp only [decide_eq_true_eq]
        intro h
        linarith
      rw [dropWhile_eq_filter hsorted]
      rcases hstep with ⟨hb, ha⟩ | ⟨-, hb, ha⟩
      · rw [hb, ha, hfilter]
      · rw [hb, ha, List.filter_append, List.filter_append, hfilter]

theorem length_pruned (config : Config) (h : Ordered (requests ++ [r])) :
    (pruned config (runWith config requests).hits r).length =
      ((runWith config requests).admitted r.identifier).countP (inWindow config r.now) := by
  obtain ⟨hrequests, hle⟩ := h.append
  rw [pruned_eq, dropWhile_bucket hrequests hle, List.countP_eq_length_filter]
  congr 1
  refine List.filter_congr fun a ha => ?_
  have := le_of_mem_admitted hrequests hle a ha
  simp [inWindow, this]

/-- Times less than a window apart : no more than allowed were admitted. -/
theorem countP_admitted_le (config : Config) (identifier : Text) (h : Ordered requests)
    {p : ℚ → Bool}
    (hp : ∀ a b, p a = true → p b = true → b - config.windowSeconds < a) :
    ((runWith config requests).admitted identifier).countP p ≤ config.maxRequests := by
  induction requests using List.reverseRecOn with
  | nil => exact Nat.zero_le _
  | append_singleton requests r ih =>
    obtain ⟨hrequests, hle⟩ := h.append
    have hlength := length_pruned config h
    rw [runWith_append_singleton]
    rcases (runWith config requests).step_cases config r identifier with
      ⟨-, ha⟩ | ⟨rfl, ⟨-, ha⟩ | ⟨hroom, -, ha⟩⟩
    · rw [ha]
      exact ih hrequests
    · rw [ha]
      exact ih hrequests
    · rw [ha, List.countP_append, List.countP_singleton]
      by_cases hnow : p r.now = true
      · have hcount : ((runWith config requests).admitted r.identifier).countP p ≤
            ((runWith config requests).admitted r.identifier).countP (inWindow config r.now) := by
          refine List.countP_mono_left fun a ha hpa => ?_
          have := le_of_mem_admitted hrequests hle a ha
          simp [inWindow, this, hp a r.now hpa hnow]
        rw [if_pos hnow]
        omega
      · rw [if_neg hnow]
        exact ih hrequests

theorem remaining_eq {hits : Hits} (hlimited : limitedPath r.path = true)
    (henabled : config.enabled = true) :
    (dispatch config hits r).2.remaining =
      some (if (pruned config hits r).length < config.maxRequests then
        max 0 ((config.maxRequests : ℤ) - ((pruned config hits r).length + 1)) else 0) := by
  unfold dispatch
  simp only [hlimited, henabled, Bool.not_true, Bool.or_self, Bool.false_eq_true, if_false]
  by_cases hroom : (pruned config hits r).length < config.maxRequests
  · simp [if_pos hroom, Outcome.remaining, not_le.2 hroom]
  · simp [if_neg hroom, Outcome.remaining, not_lt.1 hroom]

/-- With a fixed configuration, a request is admitted exactly when fewer than the maximum were
admitted in the window that ends with it, the remaining number is what the window leaves, and no
half-open window holds more than the maximum. -/
theorem exact_window (henabled : config.enabled = true) (hlimited : limitedPath r.path = true)
    (h : Ordered (requests ++ [r])) :
    ((dispatch config (runWith config requests).hits r).2.isAdmitted = true ↔
      ((runWith config requests).admitted r.identifier).countP (inWindow config r.now) <
        config.maxRequests) ∧
    (dispatch config (runWith config requests).hits r).2.remaining =
      some ((config.maxRequests : ℤ) -
        ((runWith config (requests ++ [r])).admitted r.identifier).countP
          (inWindow config r.now)) ∧
    ∀ identifier (start : ℚ),
      ((runWith config (requests ++ [r])).admitted identifier).countP
          (fun hit => start < hit && hit ≤ start + config.windowSeconds) ≤ config.maxRequests ∧
        ((runWith config (requests ++ [r])).admitted identifier).countP
          (fun hit => start ≤ hit && hit < start + config.windowSeconds) ≤
            config.maxRequests := by
  have hlength := length_pruned config h
  have hadmitted := isAdmitted_iff config (runWith config requests).hits r
  have hwindow : ∀ a b, inWindow config r.now a = true → inWindow config r.now b = true →
      b - config.windowSeconds < a := by
    intro a b ha hb
    simp only [inWindow, Bool.and_eq_true, decide_eq_true_eq] at ha hb
    linarith
  refine ⟨?_, ?_, fun identifier start =>
    ⟨countP_admitted_le config identifier h ?_, countP_admitted_le config identifier h ?_⟩⟩
  · rw [hadmitted, hlength]
    exact ⟨fun h => h.2.2, fun h => ⟨hlimited, henabled, h⟩⟩
  · have hle := countP_admitted_le config r.identifier h hwindow
    rw [remaining_eq hlimited henabled]
    rw [runWith_append_singleton, State.admitted_step] at hle ⊢
    by_cases hroom : (pruned config (runWith config requests).hits r).length < config.maxRequests
    · have hself : inWindow config r.now r.now = true := by
        have := config.windowSeconds_pos
        simp [inWindow, this]
      rw [if_pos hroom, if_pos ⟨hadmitted.2 ⟨hlimited, henabled, hroom⟩, rfl⟩, List.countP_append,
        List.countP_singleton, if_pos hself, ← hlength]
      congr 1
      omega
    · have hrejected : ¬((dispatch config (runWith config requests).hits r).2.isAdmitted = true ∧
          r.identifier = r.identifier) := fun h => hroom (hadmitted.1 h.1).2.2
      rw [if_neg hrejected] at hle
      rw [if_neg hroom, if_neg hrejected]
      congr 1
      omega
  · intro a b ha hb
    simp only [Bool.and_eq_true, decide_eq_true_eq] at ha hb
    linarith
  · intro a b ha hb
    simp only [Bool.and_eq_true, decide_eq_true_eq] at ha hb
    linarith

/-- A third request within ten seconds, where two are allowed. -/
theorem third_rejected :
    let config : Config := { enabled := true, maxRequests := 2, windowSeconds := 10 }
    let at' : ℚ → Request := fun now => ⟨"/api/collections", "10.0.0.1", now⟩
    (dispatch config (runWith config [at' 0, at' 4]).hits (at' (39 / 4))).2.isAdmitted = false := by
  intro config at'
  have h := (@exact_window config [at' 0, at' 4] (at' (39 / 4)) rfl (by decide)
    (by simp [Ordered, at']; norm_num)).1
  rw [Bool.eq_false_iff, Ne, h]
  decide +kernel

end Window

/-! ## Waiting as told -/

section Waiting

variable {history : List (Config × Request)} {config : Config} {r : Request}

/-- The oldest request that counts. -/
def oldestHit (config : Config) (hits : Hits) (r : Request) : ℚ := (pruned config hits r).headD 0

/-- The request after whose expiry fewer than the maximum count. -/
def freeingHit (config : Config) (hits : Hits) (r : Request) : ℚ :=
  ((pruned config hits r)[(pruned config hits r).length - config.maxRequests]?).getD 0

/-- Requests of other clients leave a queue alone. -/
theorem bucket_foldl_step {others : List (Config × Request)} {identifier : Text}
    (h : ∀ e ∈ others, e.2.identifier ≠ identifier) (s : State) :
    (others.foldl State.step s).bucket identifier = s.bucket identifier := by
  induction others generalizing s with
  | nil => rfl
  | cons e others ih =>
    obtain ⟨hid, hothers⟩ := List.forall_mem_cons.1 h
    rw [List.foldl_cons, ih hothers]
    rcases s.step_cases e.1 e.2 identifier with ⟨hb, -⟩ | ⟨hid', -⟩
    · exact hb
    · exact absurd hid' hid

theorem rejected_cases {hits : Hits} {retryAfter : ℤ} {limit : ℕ}
    (h : (dispatch config hits r).2 = .tooManyRequests retryAfter limit) :
    limitedPath r.path = true ∧ config.enabled = true ∧
      config.maxRequests ≤ (pruned config hits r).length ∧
        retryAfter = max 1 (truncate (wait config (oldestHit config hits r) r.now)) := by
  unfold dispatch at h
  split_ifs at h with hlimited
  dsimp only at h
  split_ifs at h with hfull
  · rw [Bool.or_eq_true, not_or] at hlimited
    refine ⟨by simpa using hlimited.1, by simpa using hlimited.2, hfull, ?_⟩
    exact (Outcome.tooManyRequests.inj h).1.symm

/-- A client that has been turned away, and is alone with its queue, is admitted once enough of its
requests have left the window. -/
theorem later_isAdmitted_iff (h : Ordered (history.map Prod.snd)) {retryAfter : ℤ} {limit : ℕ}
    (hrejected : (dispatch config (run history).hits r).2 = .tooManyRequests retryAfter limit)
    {others : List (Config × Request)} (hothers : ∀ e ∈ others, e.2.identifier ≠ r.identifier)
    (now : ℚ) :
    (dispatch config (others.foldl State.step ((run history).step (config, r))).hits
        { r with now := now }).2.isAdmitted = true ↔
      wait config (freeingHit config (run history).hits r) now ≤ 0 := by
  obtain ⟨hlimited, henabled, hfull, -⟩ := rejected_cases hrejected
  have hsorted := ((bucket_sorted h r.identifier).1).sublist
    (List.dropWhile_sublist fun hit => decide (hit ≤ r.now - config.windowSeconds))
  rw [← pruned_eq] at hsorted
  have hbucket : ((run history).step (config, r)).bucket r.identifier =
      pruned config (run history).hits r := by
    show ((dispatch config (run history).hits r).1.get? r.identifier).getD [] = _
    rw [dispatch_hits, if_pos ⟨hlimited, henabled⟩, if_neg (not_lt.2 hfull), Dict.get?_set_self,
      Option.getD_some]
  rw [isAdmitted_iff, pruned_eq, bucket_foldl_step hothers, hbucket,
    length_dropWhile_lt_iff hsorted config.maxRequests_pos hfull]
  have hindex : (pruned config (run history).hits r).length - config.maxRequests <
      (pruned config (run history).hits r).length := by
    have := config.maxRequests_pos
    omega
  unfold freeingHit wait
  rw [List.getElem?_eq_getElem hindex, Option.getD_some]
  constructor
  · rintro ⟨-, -, a, ha, hle⟩
    rw [Option.some.inj ha]
    linarith
  · intro hle
    exact ⟨hlimited, henabled, _, rfl, by linarith⟩

/-- The oldest request that counts leaves first, and has not left yet. -/
theorem wait_oldestHit (h : Ordered (history.map Prod.snd))
    (hfull : config.maxRequests ≤ (pruned config (run history).hits r).length) :
    0 < wait config (oldestHit config (run history).hits r) r.now ∧
      oldestHit config (run history).hits r ≤ freeingHit config (run history).hits r := by
  have hbucket := (bucket_sorted h r.identifier).1
  have hkept : ∀ a ∈ pruned config (run history).hits r, r.now - config.windowSeconds < a := by
    intro a ha
    rw [pruned_eq, dropWhile_eq_filter hbucket] at ha
    simpa using (List.mem_filter.1 ha).2
  have hsorted : (pruned config (run history).hits r).Pairwise (· ≤ ·) :=
    hbucket.sublist (List.dropWhile_sublist _)
  have hpos := config.maxRequests_pos
  unfold oldestHit freeingHit wait
  generalize pruned config (run history).hits r = bucket at hfull hkept hsorted ⊢
  cases bucket with
  | nil => simp at hfull; omega
  | cons a bucket =>
    have hindex : (a :: bucket).length - config.maxRequests < (a :: bucket).length := by
      rw [List.length_cons]
      omega
    rw [List.getElem?_eq_getElem hindex, Option.getD_some, List.headD_cons]
    have := hkept a List.mem_cons_self
    refine ⟨by linarith, ?_⟩
    rcases List.mem_cons.1 (List.getElem_mem hindex) with heq | hmem
    · exact heq.ge
    · exact (List.pairwise_cons.1 hsorted).1 _ hmem

theorem truncate_of_pos {x : ℚ} (h : 0 < x) : truncate x = ⌊x⌋ := if_pos h.le

/-- A client that is told to wait is admitted at every later time, however the other clients behave,
exactly when its wait was at most a second, or a whole number of seconds in which the oldest request
already makes room. -/
theorem retryAfter_sufficient_iff (h : Ordered (history.map Prod.snd)) {retryAfter : ℤ} {limit : ℕ}
    (hrejected : (dispatch config (run history).hits r).2 = .tooManyRequests retryAfter limit) :
    (∀ others : List (Config × Request), (∀ e ∈ others, e.2.identifier ≠ r.identifier) →
      ∀ now : ℚ, r.now + retryAfter ≤ now →
        (dispatch config (others.foldl State.step ((run history).step (config, r))).hits
          { r with now := now }).2.isAdmitted = true) ↔
      wait config (freeingHit config (run history).hits r) r.now ≤ 1 ∨
        freeingHit config (run history).hits r = oldestHit config (run history).hits r ∧
          ∃ seconds : ℤ, wait config (oldestHit config (run history).hits r) r.now = seconds := by
  obtain ⟨-, -, hfull, hretry⟩ := rejected_cases hrejected
  obtain ⟨hpos, hle⟩ := wait_oldestHit h hfull
  rw [truncate_of_pos hpos] at hretry
  -- Admission at every later time is admission at the first of them.
  have hfirst : (∀ others : List (Config × Request),
      (∀ e ∈ others, e.2.identifier ≠ r.identifier) → ∀ now : ℚ, r.now + retryAfter ≤ now →
        (dispatch config (others.foldl State.step ((run history).step (config, r))).hits
          { r with now := now }).2.isAdmitted = true) ↔
      wait config (freeingHit config (run history).hits r) r.now ≤ retryAfter := by
    constructor
    · intro hall
      have := (later_isAdmitted_iff h hrejected (List.forall_mem_nil _) _).1
        (hall [] (List.forall_mem_nil _) _ le_rfl)
      unfold wait at this ⊢
      linarith
    · intro hwait others hothers now hnow
      rw [later_isAdmitted_iff h hrejected hothers]
      unfold wait at hwait ⊢
      linarith
  rw [hfirst, hretry, Int.cast_max, Int.cast_one, le_max_iff]
  refine or_congr_right' fun hlong => ?_
  have hfloor := Int.floor_le (wait config (oldestHit config (run history).hits r) r.now)
  unfold wait at hfloor hlong ⊢
  constructor
  · intro hwait
    have heq : freeingHit config (run history).hits r = oldestHit config (run history).hits r :=
      le_antisymm (by linarith) hle
    refine ⟨heq, ⌊oldestHit config (run history).hits r + config.windowSeconds - r.now⌋, ?_⟩
    rw [heq] at hwait
    exact le_antisymm hwait hfloor
  · rintro ⟨heq, seconds, hseconds⟩
    rw [heq, hseconds, Int.floor_intCast]

/-- The second of two requests that come eight and a half seconds apart, where one is allowed in ten
seconds, is told to wait a second, and is then turned away again. -/
theorem rejected_after_waiting :
    let config : Config := { enabled := true, maxRequests := 1, windowSeconds := 10 }
    let at' : ℚ → Request := fun now => ⟨"/api/collections", "10.0.0.1", now⟩
    let s := run [(config, at' 0)]
    (dispatch config s.hits (at' (17 / 2))).2 = .tooManyRequests 1 1 ∧
      (dispatch config (s.step (config, at' (17 / 2))).hits (at' (19 / 2))).2.isAdmitted =
        false := by
  decide +kernel

/-- Who comes after eight seconds is told to wait two, and is admitted from then on. -/
theorem admitted_after_waiting :
    let config : Config := { enabled := true, maxRequests := 1, windowSeconds := 10 }
    let at' : ℚ → Request := fun now => ⟨"/api/collections", "10.0.0.1", now⟩
    ∀ now : ℚ, 10 ≤ now →
      (dispatch config ((run [(config, at' 0)]).step (config, at' 8)).hits (at' now)).2.isAdmitted =
        true := by
  intro config at' now hnow
  have hrejected : (dispatch config (run [(config, at' 0)]).hits (at' 8)).2 =
      .tooManyRequests 2 1 := by decide +kernel
  have hordered : Ordered ([(config, at' 0)].map Prod.snd) := List.pairwise_singleton _ _
  refine (retryAfter_sufficient_iff hordered hrejected).2
    (.inr ⟨by decide +kernel, 2, by decide +kernel⟩) []
    (List.forall_mem_nil _) now ?_
  show (8 : ℚ) + ((2 : ℤ) : ℚ) ≤ now
  norm_num
  exact hnow

end Waiting

end RateLimit

end PPBase
