import PPBase.HookManager

/-!
# Who owns the bindings

A load registers some bindings and the manager keeps track of some (`Tracks`); they are the same
where each registration has a handler and an id of its own (`Fresh`). Then removing the bindings of
one file leaves those of all others (`Holds.unbind`), and a load adds those of its file
(`Holds.load`).

`bindings_owned` : after every run in which loads are clean, files are added under ids of their own
and only disabled hooks are enabled, the bindings of the registry are those of the application and
those that the last load of each enabled file has made.

A load that fails after its first registration is not clean (`failed_load_stays`).
-/

namespace PPBase

/-! ## Bindings of a registry -/

/-- What a binding is tracked by. -/
def bindingKey {ε η : Type*} (x : HookName × HookBinding ε η) : HookFunction :=
  { hookType := x.1, bindingId := x.2.id }

namespace HookRegistry

variable {ε η : Type*}

theorem mem_bindings {R : HookRegistry ε η} {x : HookName × HookBinding ε η} :
    x ∈ R.bindings ↔ (R x.1).bindings.get? x.2.id = some x.2 := by
  rw [bindings, List.mem_flatMap]
  constructor
  · rintro ⟨h, -, hx⟩
    obtain ⟨e, he, rfl⟩ := List.mem_map.1 hx
    rw [← (R h).ids e he]
    exact Dict.get?_of_mem (R h).keys he
  · intro hx
    exact ⟨x.1, HookName.mem_all x.1, List.mem_map.2 ⟨_, Dict.mem_of_get? hx, rfl⟩⟩

theorem nodup_bindings (R : HookRegistry ε η) : R.bindings.Nodup := by
  refine List.nodup_flatMap.2 ⟨fun h _ => ?_, ?_⟩
  · refine List.Nodup.of_map (fun x => x.2.id) ?_
    rw [List.map_map]
    have hids : (R h).bindings.map ((fun x : HookName × HookBinding ε η => x.2.id) ∘ fun e => (h,
      e.2)) =
        (R h).bindings.keys := List.map_congr_left fun e he => ((R h).ids e he).symm
    rw [hids]
    exact (R h).keys
  · have hall : HookName.all.Nodup := by decide
    refine hall.imp fun hne => ?_
    intro x hx hy
    obtain ⟨e, -, rfl⟩ := List.mem_map.1 hx
    obtain ⟨e', -, he⟩ := List.mem_map.1 hy
    exact hne (Prod.mk.inj he).1.symm

end HookRegistry

namespace HookManager

variable {ε η : Type*}

variable {R : HookRegistry ε η} {i : Text} {state : HookFileState}

theorem mem_bindFunc {hook : HookName} {handler : η} {id : Option Text} {priority : ℤ}
    {predicate : Option (ε → Bool)}
    (hnew : (R hook).bindings.has ((R hook).newBinding handler id priority predicate).id = false)
    {x : HookName × HookBinding ε η} :
    x ∈ (bindFunc R hook handler id priority predicate).1.bindings ↔
      x ∈ R.bindings ∨ x = (bindFunc R hook handler id priority predicate).2 := by
  rw [HookRegistry.mem_bindings, HookRegistry.mem_bindings]
  obtain ⟨h, b⟩ := x
  dsimp only [bindFunc]
  by_cases hh : h = hook
  · subst hh
    rw [Function.update_self, Hook.bind, Dict.get?_set]
    split_ifs with hid
    · have hnone : (R h).bindings.get? b.id = none := by
        rw [← hid]
        simpa [Dict.has] using hnew
      rw [hnone]
      simp [eq_comm]
    · refine ⟨.inl, fun hx => hx.resolve_right fun hb => hid ?_⟩
      rw [(Prod.mk.inj hb).2]
  · rw [Function.update_of_ne hh]
    refine ⟨.inl, fun hx => hx.resolve_right fun hb => hh (Prod.mk.inj hb).1⟩

theorem mem_unbindFile {fs : List HookFunction} {x : HookName × HookBinding ε η} :
    x ∈ (unbindFile R fs).bindings ↔ x ∈ R.bindings ∧ bindingKey x ∉ fs := by
  induction fs generalizing R with
  | nil => simp [unbindFile]
  | cons f fs ih =>
    have hone : x ∈ HookRegistry.bindings
        (Function.update R f.hookType ((R f.hookType).unbind f.bindingId)) ↔
          x ∈ R.bindings ∧ bindingKey x ≠ f := by
      rw [HookRegistry.mem_bindings, HookRegistry.mem_bindings]
      by_cases hh : x.1 = f.hookType
      · rw [hh, Function.update_self, Hook.unbind, Dict.get?_del]
        split_ifs with hid
        · refine iff_of_false (by rintro ⟨⟩) fun hx => hx.2 ?_
          rw [bindingKey, hh, ← hid]
        · refine ⟨fun hx => ⟨hx, ?_⟩, And.left⟩
          rintro rfl
          exact hid rfl
      · rw [Function.update_of_ne hh]
        refine ⟨fun hx => ⟨hx, ?_⟩, And.left⟩
        rintro rfl
        exact hh rfl
    rw [List.mem_cons, not_or, ← and_assoc, ← hone]
    exact ih

/-! ## Tracking -/

/-- No binding qualifies that is not tracked. -/
theorem foldl_record_skip {candidate : HookBinding ε η → Bool} {T : List HookFunction}
    {xs : List (HookName × HookBinding ε η)}
    (hxs : ∀ x ∈ xs, candidate x.2 = true → ∃ t ∈ T, t.bindingId = x.2.id) :
    xs.foldl (record candidate) T = T := by
  induction xs with
  | nil => rfl
  | cons x xs ih =>
    obtain ⟨hx, hxs⟩ := List.forall_mem_cons.1 hxs
    have hskip : record candidate T x = T := by
      unfold record
      split_ifs with htracked hcandidate
      · rfl
      · obtain ⟨t, ht, hid⟩ := hx hcandidate
        exact absurd (List.any_eq_true.2 ⟨t, ht, decide_eq_true hid⟩) htracked
      · rfl
    rw [List.foldl_cons, hskip]
    exact ih hxs

/-- One binding qualifies that is not tracked: it is now. -/
theorem foldl_record {candidate : HookBinding ε η → Bool} {new : HookName × HookBinding ε η}
    (hnew : candidate new.2 = true) {T : List HookFunction} (hT : ∀ t ∈ T, t.bindingId ≠ new.2.id)
    {xs : List (HookName × HookBinding ε η)} (hmem : new ∈ xs)
    (hxs : ∀ x ∈ xs, candidate x.2 = true → (∃ t ∈ T, t.bindingId = x.2.id) ∨ x = new) :
    xs.foldl (record candidate) T = T ++ [bindingKey new] := by
  induction xs with
  | nil => cases hmem
  | cons x xs ih =>
    obtain ⟨hx, hxs⟩ := List.forall_mem_cons.1 hxs
    rw [List.foldl_cons]
    by_cases heq : x = new
    · have hstep : record candidate T x = T ++ [bindingKey new] := by
        have huntracked : ¬T.any (fun t => t.bindingId = x.2.id) = true := by
          rw [heq, List.any_eq_true]
          rintro ⟨t, ht, hid⟩
          exact hT t ht (of_decide_eq_true hid)
        rw [record, if_neg huntracked, heq, if_pos hnew]
        rfl
      rw [hstep]
      refine foldl_record_skip fun y hy hcandidate => ?_
      rcases hxs y hy hcandidate with ⟨t, ht, hid⟩ | rfl
      · exact ⟨t, List.mem_append_left _ ht, hid⟩
      · exact ⟨_, List.mem_append_right _ (List.mem_singleton_self _), rfl⟩
    · have hskip : [x].foldl (record candidate) T = T := foldl_record_skip fun y hy hcandidate => by
        obtain rfl := List.mem_singleton.1 hy
        exact (hx hcandidate).resolve_right heq
      rw [List.foldl_cons, List.foldl_nil] at hskip
      rw [hskip]
      exact ih ((List.mem_cons.1 hmem).resolve_left (Ne.symm heq)) hxs

/-! ## Loads -/

variable [DecidableEq η]

/-- The binding of a registration. -/
def bindingOf (R : HookRegistry ε η) (r : Registration ε η) : HookBinding ε η :=
  (R r.hook).newBinding r.handler r.id r.priority r.predicate

/-- A registration without middlewares, under an id that is free and was not used in the load. -/
structure Fresh (p : Progress ε η) (r : Registration ε η) : Prop where
  plain : r.middlewares = []
  free : (p.registry r.hook).bindings.has (bindingOf p.registry r).id = false
  unused : ∀ t ∈ p.tracked, t.bindingId ≠ (bindingOf p.registry r).id

def FreshAll : Progress ε η → List (Registration ε η) → Prop
  | _, [] => True
  | p, r :: rs => Fresh p r ∧ FreshAll (register p r) rs

/-- What has been bound in a load is in the registry beside what was there, and tracked. -/
structure Tracks (B : HookRegistry ε η) (p : Progress ε η) : Prop where
  mem : ∀ x, x ∈ p.registry.bindings ↔ x ∈ B.bindings ∨ x ∈ p.bound
  tracked : p.tracked = p.bound.map bindingKey
  apart : ∀ x ∈ p.bound, ∀ y ∈ B.bindings, bindingKey x ≠ bindingKey y

/-- The registry after a registration. -/
def boundRegistry (R : HookRegistry ε η) (r : Registration ε η) : HookRegistry ε η :=
  (bindFunc R r.hook r.handler r.id r.priority r.predicate).1

theorem register_eq {p : Progress ε η} {r : Registration ε η} (h : r.middlewares = []) :
    register p r = ⟨boundRegistry p.registry r,
      track (boundRegistry p.registry r) r.handler p.tracked,
      p.bound ++ [(r.hook, bindingOf p.registry r)]⟩ := by
  rw [register, h]
  rfl

theorem Tracks.register {B : HookRegistry ε η} {p : Progress ε η} {r : Registration ε η}
    (h : Tracks B p) (hr : Fresh p r) (hown : ∀ y ∈ B.bindings, y.2.handler ≠ r.handler) :
    Tracks B (register p r) := by
  have hmem : ∀ x, x ∈ (boundRegistry p.registry r).bindings ↔
      x ∈ p.registry.bindings ∨ x = (r.hook, bindingOf p.registry r) :=
        fun x => mem_bindFunc hr.free
  have htracked : track (boundRegistry p.registry r) r.handler p.tracked =
      p.tracked ++ [bindingKey (r.hook, bindingOf p.registry r)] := by
    refine foldl_record (decide_eq_true rfl) hr.unused ((hmem _).2 (.inr rfl)) fun x hx hc => ?_
    rcases (hmem x).1 hx with hx | rfl
    · refine .inl ?_
      have hbound : x ∈ p.bound :=
        ((h.mem x).1 hx).resolve_left fun hb => hown x hb (of_decide_eq_true hc)
      rw [h.tracked]
      exact ⟨bindingKey x, List.mem_map_of_mem hbound, rfl⟩
    · exact .inr rfl
  have hnew : (r.hook, bindingOf p.registry r) ∉ p.registry.bindings ∧
      ∀ y ∈ B.bindings, bindingKey (r.hook, bindingOf p.registry r) ≠ bindingKey y := by
    have hnone : (p.registry r.hook).bindings.get? (bindingOf p.registry r).id = none := by
      simpa [Dict.has] using hr.free
    refine ⟨fun hx => ?_, fun y hy hk => ?_⟩
    · cases hnone.symm.trans (HookRegistry.mem_bindings.1 hx)
    have hget := HookRegistry.mem_bindings.1 ((h.mem y).2 (.inl hy))
    obtain ⟨hhook, hid⟩ := HookFunction.mk.inj hk
    dsimp only at hhook hid
    rw [← hhook, ← hid, hnone] at hget
    cases hget
  rw [register_eq hr.plain]
  constructor
  · intro x
    rw [hmem, h.mem, List.mem_append, List.mem_singleton, or_assoc]
  · rw [htracked, h.tracked, List.map_append]
    rfl
  · intro x hx
    rcases List.mem_append.1 hx with hx | hx
    · exact h.apart x hx
    · rw [List.mem_singleton.1 hx]
      exact hnew.2

theorem Tracks.foldl {B : HookRegistry ε η} {rs : List (Registration ε η)} :
    ∀ {p : Progress ε η}, Tracks B p → FreshAll p rs →
      (∀ r ∈ rs, ∀ y ∈ B.bindings, y.2.handler ≠ r.handler) →
      Tracks B (rs.foldl HookManager.register p) := by
  induction rs with
  | nil => exact fun h _ _ => h
  | cons r rs ih =>
    intro p h hfresh hown
    obtain ⟨hr, hrs⟩ := List.forall_mem_cons.1 hown
    exact ih (h.register hfresh.1 hr) hfresh.2 hrs

/-- A load that registers only what the manager keeps track of. -/
structure LoadRecord.Clean (moduleOf : η → Option Text) (l : LoadRecord ε η) : Prop where
  /-- Where the load fails, it has not registered anything. -/
  whole : l.outcome ≠ .done → l.registrations = []
  /-- The handlers are not those of other bindings. -/
  own : ∀ r ∈ l.registrations, ∀ y ∈ l.before.bindings, y.2.handler ≠ r.handler
  fresh : FreshAll ⟨l.before, [], []⟩ l.registrations
  /-- Where nothing is registered, no binding has a handler of the module. -/
  alone : l.registrations = [] →
    ∀ y ∈ l.before.bindings, moduleOf y.2.handler ≠ some (moduleName l.filename)

/-- The bindings that the last load of a hook file made, none if it failed. -/
def lastBound (loads : List (LoadRecord ε η)) (hookId : Text) : List (HookName × HookBinding ε η) :=
  match loads.reverse.find? (fun l => l.hookId = hookId) with
  | none => []
  | some l => if l.outcome = .done then l.bound else []

/-- The bindings of a file that is present and enabled. -/
def owned (s : HookManager ε η) (hookId : Text) : List (HookName × HookBinding ε η) :=
  match s.files.get? hookId with
  | none => []
  | some state => if state.enabled then lastBound s.loads hookId else []

/-- The bindings of the files are in the registry beside those of the application, each under a
key of its own. -/
structure Holds (base R : HookRegistry ε η) (own : Text → List (HookName × HookBinding ε η)) :
    Prop where
  mem : ∀ x, x ∈ R.bindings ↔ x ∈ base.bindings ∨ ∃ i, x ∈ own i
  apart_base : ∀ i, ∀ x ∈ own i, ∀ y ∈ base.bindings, bindingKey x ≠ bindingKey y
  apart : ∀ i j, i ≠ j → ∀ x ∈ own i, ∀ y ∈ own j, bindingKey x ≠ bindingKey y

omit [DecidableEq η] in
theorem Holds.unbind {base : HookRegistry ε η} {own : Text → List (HookName × HookBinding ε η)}
    (h : Holds base R own) {fs : List HookFunction}
    (hfs : ∀ t, t ∈ fs ↔ ∃ x ∈ own i, t = bindingKey x) :
    Holds base (unbindFile R fs) (Function.update own i []) := by
  have hown : ∀ {j x}, x ∈ Function.update own i [] j → j ≠ i ∧ x ∈ own j := by
    intro j x hx
    by_cases hj : j = i
    · rw [hj, Function.update_self] at hx
      exact absurd hx List.not_mem_nil
    · rw [Function.update_of_ne hj] at hx
      exact ⟨hj, hx⟩
  refine ⟨fun x => ?_, fun j x hx => h.apart_base j x (hown hx).2, fun j k hjk x hx y hy =>
    h.apart j k hjk x (hown hx).2 y (hown hy).2⟩
  rw [mem_unbindFile, h.mem, hfs]
  constructor
  · rintro ⟨hx | ⟨j, hx⟩, hnot⟩
    · exact .inl hx
    · have hj : j ≠ i := by
        rintro rfl
        exact hnot ⟨x, hx, rfl⟩
      exact .inr ⟨j, by rwa [Function.update_of_ne hj]⟩
  · rintro (hx | ⟨j, hx⟩)
    · exact ⟨.inl hx, fun ⟨y, hy, hk⟩ => h.apart_base i y hy x hx hk.symm⟩
    · obtain ⟨hj, hx⟩ := hown hx
      exact ⟨.inr ⟨j, hx⟩, fun ⟨y, hy, hk⟩ => h.apart j i hj x hx y hy hk⟩

omit [DecidableEq η] in
theorem Holds.load {base : HookRegistry ε η} {own : Text → List (HookName × HookBinding ε η)}
    (h : Holds base R own) (hi : own i = []) {p : Progress ε η} (hp : Tracks R p) :
    Holds base p.registry (Function.update own i p.bound) := by
  have hown : ∀ {j x}, x ∈ Function.update own i p.bound j →
      j = i ∧ x ∈ p.bound ∨ j ≠ i ∧ x ∈ own j := by
    intro j x hx
    by_cases hj : j = i
    · rw [hj, Function.update_self] at hx
      exact .inl ⟨hj, hx⟩
    · rw [Function.update_of_ne hj] at hx
      exact .inr ⟨hj, hx⟩
  have hold : ∀ {j x}, x ∈ own j → x ∈ R.bindings := fun hx => (h.mem _).2 (.inr ⟨_, hx⟩)
  refine ⟨fun x => ?_, fun j x hx y hy => ?_, fun j k hjk x hx y hy => ?_⟩
  · rw [hp.mem, h.mem, or_assoc]
    refine or_congr_right ⟨?_, ?_⟩
    · rintro (⟨j, hx⟩ | hx)
      · have hj : j ≠ i := by
          rintro rfl
          rw [hi] at hx
          exact List.not_mem_nil hx
        exact ⟨j, by rwa [Function.update_of_ne hj]⟩
      · exact ⟨i, by rwa [Function.update_self]⟩
    · rintro ⟨j, hx⟩
      exact (hown hx).symm.imp (fun hx => ⟨j, hx.2⟩) And.right
  · obtain ⟨-, hx⟩ | ⟨-, hx⟩ := hown hx
    · exact hp.apart x hx y ((h.mem y).2 (.inl hy))
    · exact h.apart_base j x hx y hy
  · obtain ⟨hji, hx⟩ | ⟨-, hx⟩ := hown hx <;> obtain ⟨hki, hy⟩ | ⟨-, hy⟩ := hown hy
    · exact absurd (hji.trans hki.symm) hjk
    · exact hp.apart x hx y (hold hy)
    · exact fun hk => hp.apart y hy x (hold hx) hk.symm
    · exact h.apart j k hjk x hx y hy

/-! ## The manager -/

omit [DecidableEq η] in
theorem lastBound_append (loads : List (LoadRecord ε η)) (l : LoadRecord ε η) (i : Text) :
    lastBound (loads ++ [l]) i =
      if l.hookId = i then (if l.outcome = .done then l.bound else []) else lastBound loads i := by
  unfold lastBound
  rw [List.reverse_append, List.reverse_singleton, List.singleton_append, List.find?_cons]
  by_cases hl : l.hookId = i
  · rw [if_pos hl, decide_eq_true hl]
  · rw [if_neg hl, decide_eq_false hl]

/-- Between the operations the manager knows which bindings it has to remove. -/
structure Settled (base : HookRegistry ε η) (s : HookManager ε η) : Prop where
  holds : Holds base s.registry (owned s)
  functions : ∀ i state, s.files.get? i = some state →
    ∀ t, t ∈ state.functions ↔ ∃ x ∈ owned s i, t = bindingKey x
  hookId : ∀ i state, s.files.get? i = some state → state.hookId = i

theorem length_bound {rs : List (Registration ε η)} :
    ∀ {p : Progress ε η}, FreshAll p rs →
      (rs.foldl register p).bound.length = p.bound.length + rs.length := by
  induction rs with
  | nil => exact fun _ => rfl
  | cons r rs ih =>
    intro p h
    rw [List.foldl_cons, ih h.2, register_eq h.1.plain, List.length_append, List.length_cons]
    simp only [List.length_cons, List.length_nil]
    omega

variable {moduleOf : η → Option Text} {base : HookRegistry ε η} {s : HookManager ε η}
  {dir : HookDir ε η}

/-- A clean load: the bindings it has made, and what is taken for them. -/
theorem runFile_spec {file : HookFile ε η}
    (hclean : LoadRecord.Clean moduleOf (loadRecord R file state)) :
    Tracks R (runFile R file) ∧ (file.outcome ≠ .done → (runFile R file).bound = []) ∧
      ∀ t, t ∈ trackedFunctions moduleOf state.filename (runFile R file) ↔
        ∃ x ∈ (runFile R file).bound, t = bindingKey x := by
  have hstart : Tracks R (⟨R, [], []⟩ : Progress ε η) :=
    ⟨fun x => by simp, rfl, fun x hx => absurd hx List.not_mem_nil⟩
  have htracks : Tracks R (runFile R file) := hstart.foldl hclean.fresh hclean.own
  have hlength : (runFile R file).bound.length = file.registrations.length :=
    (length_bound hclean.fresh).trans (Nat.zero_add _)
  refine ⟨htracks, fun hfails => ?_, fun t => ?_⟩
  · have hnone : file.registrations = [] := hclean.whole hfails
    rw [hnone] at hlength
    exact List.eq_nil_of_length_eq_zero hlength
  · have hkeys : t ∈ (runFile R file).tracked ↔ ∃ x ∈ (runFile R file).bound, t = bindingKey x := by
      rw [htracks.tracked, List.mem_map]
      exact exists_congr fun x => and_congr_right fun _ => eq_comm
    rw [trackedFunctions]
    split_ifs with htracked
    · have hbound : (runFile R file).bound = [] := by
        rw [htracks.tracked] at htracked
        exact List.map_eq_nil_iff.1 htracked
      have hnone : file.registrations = [] := by
        rw [hbound] at hlength
        exact List.eq_nil_of_length_eq_zero hlength.symm
      have hregistry : (runFile R file).registry = R := by rw [runFile, hnone]; rfl
      have hscan : scanBindingsFromModule moduleOf (runFile R file).registry
          (moduleName state.filename) (runFile R file).tracked = (runFile R file).tracked := by
        refine foldl_record_skip fun x hx hc => ?_
        rw [hregistry] at hx
        exact absurd (of_decide_eq_true hc) (hclean.alone hnone x hx)
      rw [hscan]
      exact hkeys
    · exact hkeys

omit [DecidableEq η] in
theorem owned_of_get? (h : s.files.get? i = some state) :
    owned s i = if state.enabled then lastBound s.loads i else [] := by
  rw [owned, h]

omit [DecidableEq η] in
theorem owned_congr {s' : HookManager ε η} (hfiles : s'.files.get? i = s.files.get? i)
    (hloads : lastBound s'.loads i = lastBound s.loads i) : owned s' i = owned s i := by
  rw [owned, owned, hfiles, hloads]

theorem lastBound_loadFile (state : HookFileState) (i : Text) :
    lastBound (loadFile moduleOf dir s state).loads i =
      if state.hookId = i then
        if (fileOf dir state.filename).outcome = .done then
          (runFile s.registry (fileOf dir state.filename)).bound
        else []
      else lastBound s.loads i := lastBound_append _ _ _

omit [DecidableEq η] in
theorem loadedState_eq (moduleOf : η → Option Text) (file : HookFile ε η) (p : Progress ε η)
    (state : HookFileState) :
    (loadedState moduleOf file p state).enabled = state.enabled ∧
      (loadedState moduleOf file p state).hookId = state.hookId ∧
      (loadedState moduleOf file p state).functions =
        if file.outcome = .done then trackedFunctions moduleOf state.filename p else [] := by
  unfold loadedState
  cases file.outcome <;> exact ⟨rfl, rfl, rfl⟩

/-- A load of a file whose bindings, if there were any, have been removed. -/
theorem loadFile_settled (henabled : state.enabled = true)
    (hfunctions : ∀ i f, i ≠ state.hookId → s.files.get? i = some f → ∀ t, t ∈ f.functions ↔ ∃ x ∈ owned s i, t = bindingKey x)
    (hids : ∀ i f, s.files.get? i = some f → f.hookId = i)
    (hholds : Holds base s.registry (Function.update (owned s) state.hookId []))
    (hclean : ∀ l ∈ (loadFile moduleOf dir s state).loads, LoadRecord.Clean moduleOf l) :
    Settled base (loadFile moduleOf dir s state) := by
  obtain ⟨htracks, hfails, htracked⟩ := runFile_spec (hclean _ (List.mem_append_right _
    (List.mem_singleton_self _)))
  obtain ⟨hstateEnabled, hstateId, hstateFunctions⟩ := loadedState_eq moduleOf
    (fileOf dir state.filename) (runFile s.registry (fileOf dir state.filename)) state
  have hget : (loadFile moduleOf dir s state).files.get? state.hookId =
      some (loadedState moduleOf (fileOf dir state.filename)
        (runFile s.registry (fileOf dir state.filename)) state) := Dict.get?_set_self _ _ _
  have hgetOther : ∀ i, i ≠ state.hookId →
      (loadFile moduleOf dir s state).files.get? i = s.files.get? i :=
    fun i hi => Dict.get?_set_ne _ _ (Ne.symm hi)
  have hother : ∀ i, i ≠ state.hookId → owned (loadFile moduleOf dir s state) i = owned s i := by
    intro i hi
    refine owned_congr (hgetOther i hi) ?_
    rw [lastBound_loadFile, if_neg (Ne.symm hi)]
  have hself : owned (loadFile moduleOf dir s state) state.hookId =
      (runFile s.registry (fileOf dir state.filename)).bound := by
    rw [owned_of_get? hget, hstateEnabled, if_pos henabled, lastBound_loadFile, if_pos rfl]
    split_ifs with hdone
    · rfl
    · exact (hfails hdone).symm
  have howned : owned (loadFile moduleOf dir s state) = Function.update (Function.update (owned s)
      state.hookId []) state.hookId (runFile s.registry (fileOf dir state.filename)).bound := by
    funext i
    rw [Function.update_idem]
    by_cases hi : i = state.hookId
    · rw [hi, hself, Function.update_self]
    · rw [hother i hi, Function.update_of_ne hi]
  refine ⟨?_, fun i f hf t => ?_, fun i f hf => ?_⟩
  · rw [howned]
    exact hholds.load (Function.update_self ..) htracks
  · by_cases hi : i = state.hookId
    · subst hi
      obtain rfl := Option.some.inj (hget.symm.trans hf)
      rw [hself, hstateFunctions]
      split_ifs with hdone
      · exact htracked t
      · rw [hfails hdone]
        simp
    · rw [hgetOther i hi] at hf
      rw [hother i hi]
      exact hfunctions i f hi hf t
  · by_cases hi : i = state.hookId
    · subst hi
      obtain rfl := Option.some.inj (hget.symm.trans hf)
      exact hstateId
    · rw [hgetOther i hi] at hf
      exact hids i f hf

/-- Clean loads, and those that will be. -/
def AllClean (moduleOf : η → Option Text) (s : HookManager ε η) : Prop :=
  ∀ l ∈ s.loads, LoadRecord.Clean moduleOf l

omit [DecidableEq η] in
theorem update_owned (h : owned s i = []) : Function.update (owned s) i [] = owned s := by
  rw [← h, Function.update_eq_self]

omit [DecidableEq η] in
/-- A state of a file that is not enabled. -/
theorem idle_settled (state : HookFileState) (hidle : state.enabled = false)
    (hnone : state.functions = []) (D : List Text)
    (hfunctions : ∀ i f, i ≠ state.hookId → s.files.get? i = some f →
      ∀ t, t ∈ f.functions ↔ ∃ x ∈ owned s i, t = bindingKey x)
    (hids : ∀ i f, s.files.get? i = some f → f.hookId = i)
    (hholds : Holds base s.registry (Function.update (owned s) state.hookId [])) :
    Settled base { s with files := s.files.set state.hookId state, disabledHooks := D } := by
  have hget : (s.files.set state.hookId state).get? state.hookId = some state :=
    Dict.get?_set_self _ _ _
  have hgetOther : ∀ i, i ≠ state.hookId →
      (s.files.set state.hookId state).get? i = s.files.get? i :=
    fun i hi => Dict.get?_set_ne _ _ (Ne.symm hi)
  have howned : owned { s with files := s.files.set state.hookId state, disabledHooks := D } =
      Function.update (owned s) state.hookId [] := by
    funext i
    by_cases hi : i = state.hookId
    · rw [hi, Function.update_self, owned_of_get? hget, hidle]
      rfl
    · rw [Function.update_of_ne hi]
      exact owned_congr (hgetOther i hi) rfl
  refine ⟨howned ▸ hholds, fun i f hf t => ?_, fun i f hf => ?_⟩
  · rw [howned]
    by_cases hi : i = state.hookId
    · subst hi
      obtain rfl := Option.some.inj (hget.symm.trans hf)
      rw [hnone, Function.update_self]
      simp
    · rw [Function.update_of_ne hi]
      exact hfunctions i f hi ((hgetOther i hi).symm.trans hf) t
  · by_cases hi : i = state.hookId
    · subst hi
      obtain rfl := Option.some.inj (hget.symm.trans hf)
      rfl
    · exact hids i f ((hgetOther i hi).symm.trans hf)

/-- A file that the manager does not know. -/
theorem addFile_settled {lower : Text → Text} {filename : Text} (h : Settled base s)
    (hnew : s.files.get? (hookIdFromFilename lower filename) = none)
    (hclean : AllClean moduleOf (addFile lower moduleOf dir s filename)) :
    Settled base (addFile lower moduleOf dir s filename) := by
  have hnone : owned s (hookIdFromFilename lower filename) = [] := by rw [owned, hnew]
  unfold addFile at hclean ⊢
  generalize hstate : newState s.disabledHooks (hookIdFromFilename lower filename) filename = state
    at hclean ⊢
  have hid : state.hookId = hookIdFromFilename lower filename := by rw [← hstate]; rfl
  have hfunctions : state.functions = [] := by rw [← hstate]; rfl
  have hgetOther : ∀ i, i ≠ state.hookId →
      (s.files.set state.hookId state).get? i = s.files.get? i :=
    fun i hi => Dict.get?_set_ne _ _ (Ne.symm hi)
  rw [← hid] at hnone
  have hholds : Holds base s.registry (Function.update (owned s) state.hookId []) := by
    rw [update_owned hnone]
    exact h.holds
  dsimp only at hclean ⊢
  split_ifs at hclean ⊢ with henabled
  · refine loadFile_settled henabled (fun i f hi hf t => ?_) (fun i f hf => ?_) ?_ hclean
    · have hsame : owned { s with files := s.files.set state.hookId state } i = owned s i :=
        owned_congr (hgetOther i hi) rfl
      rw [hsame]
      exact h.functions i f ((hgetOther i hi).symm.trans hf) t
    · by_cases hi : i = state.hookId
      · have hf' : some state = some f := by
          rw [← hf, hi]
          exact (Dict.get?_set_self ..).symm
        rw [← Option.some.inj hf', hi]
      · exact h.hookId i f ((hgetOther i hi).symm.trans hf)
    · have hsame : Function.update (owned { s with files := s.files.set state.hookId state })
          state.hookId [] = Function.update (owned s) state.hookId [] := by
        funext i
        by_cases hi : i = state.hookId
        · rw [hi, Function.update_self, Function.update_self]
        · rw [Function.update_of_ne hi, Function.update_of_ne hi]
          exact owned_congr (hgetOther i hi) rfl
      rw [hsame]
      exact hholds
  · exact idle_settled state (Bool.eq_false_iff.2 henabled) hfunctions s.disabledHooks
      (fun i f _ => h.functions i f) h.hookId hholds

theorem reload_settled (h : Settled base s) (hstate : s.files.get? state.hookId = some state)
    (henabled : state.enabled = true) (hclean : AllClean moduleOf (reload moduleOf dir s state)) :
    Settled base (reload moduleOf dir s state) :=
  loadFile_settled (s := { s with registry := unbindFile s.registry state.functions }) henabled
    (fun i f _ => h.functions i f) h.hookId
    (h.holds.unbind (h.functions state.hookId state hstate)) hclean

theorem reloadFile_settled {hookId : Text} (h : Settled base s)
    (hclean : AllClean moduleOf (reloadFile moduleOf dir s hookId)) :
    Settled base (reloadFile moduleOf dir s hookId) := by
  unfold reloadFile at hclean ⊢
  cases hstate : s.files.get? hookId with
  | none => exact h
  | some state =>
    rw [hstate] at hclean
    obtain rfl : state.hookId = hookId := h.hookId hookId state hstate
    dsimp only at hclean ⊢
    split_ifs at hclean ⊢ with henabled
    · exact reload_settled h hstate henabled hclean
    · have hidle : state.enabled = false := Bool.eq_false_iff.2 henabled
      have hnone : owned s state.hookId = [] := by
        rw [owned_of_get? hstate, hidle]
        rfl
      have hfunctions : state.functions = [] := List.eq_nil_iff_forall_not_mem.2 fun t ht => by
        obtain ⟨x, hx, -⟩ := (h.functions _ _ hstate t).1 ht
        rw [hnone] at hx
        exact List.not_mem_nil hx
      exact idle_settled { state with status := .disabled } hidle hfunctions s.disabledHooks
        (fun i f _ => h.functions i f) h.hookId ((update_owned hnone).symm ▸ h.holds)

theorem enableHook_settled {hookId : Text} (h : Settled base s)
    (hdisabled : ∀ state, s.files.get? hookId = some state → state.enabled = false)
    (hclean : AllClean moduleOf (enableHook moduleOf dir s hookId)) :
    Settled base (enableHook moduleOf dir s hookId) := by
  unfold enableHook at hclean ⊢
  cases hstate : s.files.get? hookId with
  | none => exact h
  | some state =>
    rw [hstate] at hclean
    obtain rfl : state.hookId = hookId := h.hookId hookId state hstate
    have hnone : owned s state.hookId = [] := by
      rw [owned_of_get? hstate, hdisabled state hstate]
      rfl
    refine loadFile_settled rfl (fun i f _ => h.functions i f) h.hookId ?_ hclean
    exact (update_owned hnone).symm ▸ h.holds

omit [DecidableEq η] in
theorem disableHook_settled (hookId : Text) (h : Settled base s) :
    Settled base (disableHook s hookId) := by
  unfold disableHook
  cases hstate : s.files.get? hookId with
  | none => exact h
  | some state =>
    obtain rfl : state.hookId = hookId := h.hookId hookId state hstate
    exact idle_settled (s := { s with registry := unbindFile s.registry state.functions })
      { state with functions := [], enabled := false, status := .disabled } rfl rfl _
      (fun i f _ => h.functions i f) h.hookId
      (h.holds.unbind (h.functions state.hookId state hstate))

omit [DecidableEq η] in
theorem removeFile_settled (hookId : Text) (h : Settled base s) :
    Settled base (removeFile s hookId) := by
  unfold removeFile
  cases hstate : s.files.get? hookId with
  | none => exact h
  | some state =>
    have howned : owned { s with
        registry := unbindFile s.registry state.functions
        files := s.files.del hookId
        disabledHooks := s.disabledHooks.filter (· ≠ hookId) } =
          Function.update (owned s) hookId [] := by
      funext i
      by_cases hi : i = hookId
      · rw [hi, Function.update_self, owned, Dict.get?_del, if_pos rfl]
      · rw [Function.update_of_ne hi]
        exact owned_congr (by rw [Dict.get?_del, if_neg (Ne.symm hi)]) rfl
    have hget : ∀ i f, (s.files.del hookId).get? i = some f → i ≠ hookId ∧ s.files.get? i =
        some f := by
      intro i f hf
      rw [Dict.get?_del] at hf
      split_ifs at hf with hi
      exact ⟨Ne.symm hi, hf⟩
    refine ⟨?_, fun i f hf t => ?_, fun i f hf => h.hookId i f (hget i f hf).2⟩
    · rw [howned]
      exact h.holds.unbind (h.functions hookId state hstate)
    · rw [howned, Function.update_of_ne (hget i f hf).1]
      exact h.functions i f (hget i f hf).2 t

/-! ## Folds over files -/

variable {lower : Text → Text}

theorem loads_addFile (filename : Text) :
    ∀ l ∈ s.loads, l ∈ (addFile lower moduleOf dir s filename).loads := by
  intro l hl
  unfold addFile
  dsimp only
  split_ifs
  · exact List.mem_append_left _ hl
  · exact hl

theorem loads_rescanFile (filename : Text) :
    ∀ l ∈ s.loads, l ∈ (rescanFile lower moduleOf dir s filename).loads := by
  intro l hl
  unfold rescanFile
  cases s.files.get? (hookIdFromFilename lower filename) with
  | none => exact loads_addFile filename l hl
  | some state =>
    dsimp only
    split_ifs
    · exact List.mem_append_left _ hl
    · exact hl

/-- What every file keeps holds at the end, as long as all loads are clean. -/
theorem foldl_settled (moduleOf : η → Option Text) {step : HookManager ε η → Text → HookManager ε η}
    {I : HookManager ε η → List Text → Prop}
    (hloads : ∀ s f, ∀ l ∈ s.loads, l ∈ (step s f).loads)
    (hstep : ∀ s f fs, I s (f :: fs) → AllClean moduleOf (step s f) → I (step s f) fs) :
    ∀ (fs : List Text) {s : HookManager ε η}, I s fs → AllClean moduleOf (fs.foldl step s) →
      I (fs.foldl step s) []
  | [], _, h, _ => h
  | f :: fs, s, h, hclean => by
    have hmono : ∀ (fs : List Text) (s : HookManager ε η), ∀ l ∈ s.loads,
      l ∈ (fs.foldl step s).loads := by
      intro fs
      induction fs with
      | nil => exact fun s l hl => hl
      | cons f fs ih => exact fun s l hl => ih _ l (hloads s f l hl)
    exact foldl_settled moduleOf hloads hstep fs (hstep s f fs h
      fun l hl => hclean l (hmono fs _ l hl)) hclean

theorem files_addFile {filename : Text} (hi : i ≠ hookIdFromFilename lower filename) :
    (addFile lower moduleOf dir s filename).files.get? i = s.files.get? i := by
  unfold addFile
  dsimp only
  split_ifs
  · exact (Dict.get?_set_ne _ _ (Ne.symm hi)).trans (Dict.get?_set_ne _ _ (Ne.symm hi))
  · exact Dict.get?_set_ne _ _ (Ne.symm hi)

theorem initialLoad_settled (h : Settled base s)
    (hids : ((discoverFiles dir).map (hookIdFromFilename lower)).Nodup)
    (hnew : ∀ f ∈ discoverFiles dir, s.files.get? (hookIdFromFilename lower f) = none)
    (hclean : AllClean moduleOf (initialLoad lower moduleOf dir s)) :
    Settled base (initialLoad lower moduleOf dir s) := by
  refine (foldl_settled moduleOf (I := fun s fs => Settled base s ∧
    (fs.map (hookIdFromFilename lower)).Nodup ∧
      ∀ f ∈ fs, s.files.get? (hookIdFromFilename lower f) = none)
    (fun _ f => loads_addFile f) ?_ _ ⟨h, hids, hnew⟩ hclean).1
  rintro s f fs ⟨h, hids, hnew⟩ hclean
  obtain ⟨hid, hids⟩ := List.nodup_cons.1 hids
  obtain ⟨hf, hfs⟩ := List.forall_mem_cons.1 hnew
  refine ⟨addFile_settled h hf hclean, hids, fun g hg => ?_⟩
  have hne : hookIdFromFilename lower g ≠ hookIdFromFilename lower f :=
    fun heq => hid (heq ▸ List.mem_map_of_mem hg)
  rw [files_addFile hne]
  exact hfs g hg

theorem rescanFile_settled {filename : Text} (h : Settled base s)
    (hclean : AllClean moduleOf (rescanFile lower moduleOf dir s filename)) :
    Settled base (rescanFile lower moduleOf dir s filename) := by
  unfold rescanFile at hclean ⊢
  cases hstate : s.files.get? (hookIdFromFilename lower filename) with
  | none =>
    rw [hstate] at hclean
    exact addFile_settled h hstate hclean
  | some state =>
    rw [hstate] at hclean
    have hid := h.hookId _ state hstate
    rw [← hid] at hstate
    dsimp only at hclean ⊢
    split_ifs at hclean ⊢ with hreload
    · exact reload_settled h hstate (Bool.and_eq_true_iff.1 hreload).1 hclean
    · exact h

omit [DecidableEq η] in
theorem foldl_removeFile_settled (h : Settled base s) (ids : List Text) :
    Settled base (ids.foldl removeFile s) := by
  induction ids generalizing s with
  | nil => exact h
  | cons i ids ih => exact ih (removeFile_settled i h)

theorem rescan_settled (h : Settled base s)
    (hclean : AllClean moduleOf (rescan lower moduleOf dir s)) :
    Settled base (rescan lower moduleOf dir s) :=
  foldl_settled moduleOf (I := fun s _ => Settled base s)
    (fun _ f => loads_rescanFile f) (fun _ _ _ h hclean => rescanFile_settled h hclean) _
    (foldl_removeFile_settled h _) hclean

/-! ## Runs -/

/-- An operation that the manager is up to: files are added under ids of their own, and only a
disabled hook is enabled. -/
def Op.Allowed (lower : Text → Text) (s : HookManager ε η) : Op ε η → Prop
  | .initialLoad dir => ((discoverFiles dir).map (hookIdFromFilename lower)).Nodup ∧
      ∀ f ∈ discoverFiles dir, s.files.get? (hookIdFromFilename lower f) = none
  | .enableHook _ hookId => ∀ state, s.files.get? hookId = some state → state.enabled = false
  | _ => True

/-- The states of the manager after any operations, from one that has loaded nothing. Every
operation and every load of it is of a kind. -/
inductive Run (lower : Text → Text) (moduleOf : η → Option Text) (base : HookRegistry ε η)
    (P : HookManager ε η → Op ε η → Prop) (Q : LoadRecord ε η → Prop) : HookManager ε η → Prop
  | start (disabledHooks : List Text) : Run lower moduleOf base P Q ⟨base, [], disabledHooks, []⟩
  | step {s : HookManager ε η} {op : Op ε η} (h : Run lower moduleOf base P Q s) (hop : P s op)
      (hloads : ∀ l ∈ (step lower moduleOf s op).loads, Q l) :
      Run lower moduleOf base P Q (step lower moduleOf s op)

/-- The bindings of the registry are those of the application and those that the last load of
each enabled file has made, each of them once and of one owner. -/
structure Owned (base : HookRegistry ε η) (s : HookManager ε η) : Prop where
  mem : ∀ x, x ∈ s.registry.bindings ↔ x ∈ base.bindings ∨ ∃ i state,
    s.files.get? i = some state ∧ state.enabled = true ∧ x ∈ lastBound s.loads i
  once : s.registry.bindings.Nodup
  owner : ∀ i j x, x ∈ owned s i → x ∈ owned s j → i = j
  foreign : ∀ i x, x ∈ owned s i → x ∉ base.bindings

omit [DecidableEq η] in
theorem mem_owned {x : HookName × HookBinding ε η} :
    x ∈ owned s i ↔ ∃ state, s.files.get? i = some state ∧ state.enabled = true ∧
      x ∈ lastBound s.loads i := by
  unfold owned
  cases s.files.get? i with
  | none => simp
  | some state => cases hstate : state.enabled <;> simp [hstate]

theorem Run.settled (h : Run lower moduleOf base (Op.Allowed lower) (LoadRecord.Clean moduleOf) s) :
    Settled base s := by
  induction h with
  | start =>
    have howned : ∀ D, owned (⟨base, [], D, []⟩ : HookManager ε η) = fun _ => [] := fun _ => rfl
    refine ⟨⟨fun x => ?_, fun i x hx => absurd hx List.not_mem_nil,
      fun i j _ x hx => absurd hx List.not_mem_nil⟩, fun i f hf => (nomatch hf),
      fun i f hf => (nomatch hf)⟩
    rw [howned]
    simp
  | @step s op _ hop hloads ih =>
    cases op with
    | initialLoad dir => exact initialLoad_settled ih hop.1 hop.2 hloads
    | rescan dir => exact rescan_settled ih hloads
    | reloadFile dir hookId => exact reloadFile_settled ih hloads
    | enableHook dir hookId => exact enableHook_settled ih hop hloads
    | disableHook hookId => exact disableHook_settled hookId ih

/-- After every run of allowed operations whose loads leave nothing behind, each binding has one
owner. -/
theorem bindings_owned
    (h : Run lower moduleOf base (Op.Allowed lower) (LoadRecord.Clean moduleOf) s) :
    Owned base s := by
  have hsettled := h.settled
  refine ⟨fun x => ?_, s.registry.nodup_bindings, fun i j x hi hj => ?_, fun i x hi hx => ?_⟩
  · rw [hsettled.holds.mem]
    exact or_congr_right (exists_congr fun i => mem_owned)
  · by_contra hij
    exact hsettled.holds.apart i j hij x hi x hj rfl
  · exact hsettled.holds.apart_base i x hi x hx rfl

/-! ## One file -/

/-- A file that registers one handler and then comes to an end. -/
def auditFile (outcome : LoadOutcome) : HookFile Unit ℕ where
  hash := "0cc175b9c0f1b6a831c399e269772661"
  mtime := 1
  registrations := [⟨.recordViewRequest, none, 0, none, 7, []⟩]
  outcome := outcome
  name := none
  description := none
  requiresRestart := false

def auditDir (outcome : LoadOutcome) : HookDir Unit ℕ := [("audit.py", auditFile outcome)]

theorem discover_auditDir (outcome : LoadOutcome) :
    discoverFiles (auditDir outcome) = [("audit.py" : Text)] := by
  have hfilter : ((auditDir outcome).keys.filter fun f =>
      isPython f && f ≠ ("__init__.py" : Text) && f.head? ≠ some '_') = [("audit.py" : Text)] := by
    have hkeys : (auditDir outcome).keys = [("audit.py" : Text)] := rfl
    rw [hkeys]
    decide
  rw [discoverFiles, hfilter]
  exact List.mergeSort_singleton _

/-- The state after the first load. -/
def audited (outcome : LoadOutcome) : HookManager Unit ℕ :=
  addFile Text.lower (fun _ => none) (auditDir outcome) ⟨HookRegistry.new, [], [], []⟩ "audit.py"

def auditBinding : HookName × HookBinding Unit ℕ :=
  (.recordViewRequest, { id := "record_view_request:1", handler := 7 })

theorem mem_audited (outcome : LoadOutcome) :
    auditBinding ∈ (audited outcome).registry.bindings := by
  refine HookRegistry.mem_bindings.2 ?_
  cases outcome <;> rfl

theorem step_audited (outcome : LoadOutcome) :
    step Text.lower (fun _ => none) ⟨HookRegistry.new, [], [], []⟩
      (.initialLoad (auditDir outcome)) =
      audited outcome := by
  rw [step, initialLoad, discover_auditDir]
  rfl

/-- The binding of a file that was loaded is its own. -/
theorem audited_owned : Owned HookRegistry.new (audited .done) ∧
    auditBinding ∈ owned (audited .done) "audit" := by
  have hrun : Run Text.lower (fun _ => none) HookRegistry.new (Op.Allowed Text.lower)
      (LoadRecord.Clean fun _ => none) (audited .done) := by
    rw [← step_audited]
    refine .step (.start []) ⟨?_, fun f _ => rfl⟩ fun l hl => ?_
    · rw [discover_auditDir]
      exact List.nodup_singleton _
    · rw [step_audited] at hl
      obtain rfl := List.mem_singleton.1 hl
      have hempty : (HookRegistry.new : HookRegistry Unit ℕ).bindings = [] := rfl
      refine ⟨fun h => absurd rfl h, fun r _ y hy => ?_, ⟨⟨rfl, rfl, fun t ht => ?_⟩, trivial⟩,
        fun h => (nomatch h)⟩
      · exact absurd (hempty ▸ hy) List.not_mem_nil
      · exact absurd ht List.not_mem_nil
  exact ⟨bindings_owned hrun, List.mem_singleton_self auditBinding⟩

/-- The handler of a file whose `register()` fails stays active. -/
theorem failed_load_stays : ∃ s, Run Text.lower (fun _ => none) HookRegistry.new
    (fun _ (_ : Op Unit ℕ) => True) (fun _ => True) s ∧
      auditBinding ∈ s.registry.bindings ∧ ¬Owned HookRegistry.new s := by
  refine ⟨audited .registerFails, ?_, mem_audited _, fun h => ?_⟩
  · rw [← step_audited]
    exact .step (.start []) trivial fun _ _ => trivial
  · have hnone : ∀ i, lastBound (audited .registerFails).loads i = [] := by
      intro i
      have hloads := lastBound_append []
        (loadRecord HookRegistry.new (auditFile .registerFails)
          (newState [] ("audit" : Text) ("audit.py" : Text))) i
      refine hloads.trans ?_
      split_ifs with _ hdone
      · cases hdone
      · rfl
      · rfl
    rcases (h.mem auditBinding).1 (mem_audited _) with hbase | ⟨i, state, -, -, hlast⟩
    · have hempty : (HookRegistry.new : HookRegistry Unit ℕ).bindings = [] := rfl
      exact List.not_mem_nil (hempty ▸ hbase)
    · rw [hnone] at hlast
      exact List.not_mem_nil hlast

end HookManager

end PPBase
