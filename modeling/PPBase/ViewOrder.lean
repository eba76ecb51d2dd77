import PPBase.DatabaseSchema
import PPBase.SnapshotOrder

/-!
# The order in which views are restored

`orderViews` goes over the views that are left, in the order of their names, again and again, and
places each that needs none that is not placed yet; the views a pass has just placed count at once.
What is placed is in order after every pass (`Placed.pass`), so in the end all views are listed,
each after those it needs; a pass that places none leaves views that each need one of them
(`Blocked.pass`). `orderViews_spec` : it fails exactly if views need each other in a circle, and
the order in which it is given the views does not matter.
-/

namespace PPBase

namespace ViewOrder

open CopyFormat TopoSort

/-- `{v.name: v for v in views}` -/
def byName (views : List ViewSpec) : Dict Text ViewSpec :=
  views.foldl (fun d v => d.set v.name v) []

/-- The state of a pass over the names that are pending. -/
structure Pass where
  ordered : List ViewSpec
  placed : List Text
  progressed : Bool := false
  stillPending : List Text := []

/-- The other views a view depends on. -/
def deps (lookup : Text → Option ViewSpec) (v : ViewSpec) : List Text :=
  v.dependsOn.filter fun dep => (lookup dep).isSome ∧ dep ≠ v.name

/-- One name of a pass. -/
def visit (lookup : Text → Option ViewSpec) (s : Pass) (name : Text) : Pass :=
  match lookup name with
  | none => s
  | some v =>
    if ∀ dep ∈ deps lookup v, dep ∈ s.placed then
      { s with ordered := s.ordered ++ [v], placed := name :: s.placed, progressed := true }
    else { s with stillPending := s.stillPending ++ [name] }

/-- `for name in pending: …` -/
def pass (lookup : Text → Option ViewSpec) (pending : List Text) (ordered : List ViewSpec)
    (placed : List Text) : Pass :=
  pending.foldl (visit lookup) { ordered, placed }

/-- The message of the `RestoreError`. -/
def cycleError (names : List Text) : Text :=
  ("view dependency cycle detected among: " : Text) ++
    (", " : Text).intercalate (names.insertionSort (· ≤ ·))

theorem length_stillPending_le (lookup : Text → Option ViewSpec) (names : List Text) (s : Pass) :
    (names.foldl (visit lookup) s).stillPending.length ≤ s.stillPending.length + names.length := by
  induction names generalizing s with
  | nil => exact le_refl _
  | cons name names ih =>
    rw [List.foldl_cons]
    refine (ih _).trans ?_
    unfold visit
    split
    · simp
    · split_ifs
      · simp
      · simp
        omega

/-- A pass that places a view leaves fewer pending. -/
theorem length_stillPending_lt (lookup : Text → Option ViewSpec) (names : List Text) (s : Pass)
    (hs : s.progressed = false) (h : (names.foldl (visit lookup) s).progressed = true) :
    (names.foldl (visit lookup) s).stillPending.length < s.stillPending.length + names.length := by
  induction names generalizing s with
  | nil => exact absurd (hs.symm.trans h) Bool.false_ne_true
  | cons name names ih =>
    rw [List.foldl_cons] at h ⊢
    by_cases hvisit : (visit lookup s name).progressed = true
    · refine (length_stillPending_le lookup names _).trans_lt ?_
      unfold visit at hvisit ⊢
      split at hvisit
      · exact absurd (hs.symm.trans hvisit) Bool.false_ne_true
      · split_ifs at hvisit ⊢
        · simp
        · exact absurd (hs.symm.trans hvisit) Bool.false_ne_true
    · refine (ih _ (Bool.eq_false_iff.2 hvisit) h).trans_le ?_
      unfold visit
      split
      · simp
      · split_ifs
        · simp
        · simp
          omega

/-- `_order_views`, from the views that are placed. -/
def orderFrom (lookup : Text → Option ViewSpec) (pending : List Text) (ordered : List ViewSpec)
    (placed : List Text) : Except Text (List ViewSpec) :=
  if pending = [] then .ok ordered
  else
    if _h : (pass lookup pending ordered placed).progressed = true then
      orderFrom lookup (pass lookup pending ordered placed).stillPending
        (pass lookup pending ordered placed).ordered (pass lookup pending ordered placed).placed
    else .error (cycleError (pass lookup pending ordered placed).stillPending)
termination_by pending.length
decreasing_by simpa [pass] using length_stillPending_lt lookup pending { ordered, placed } rfl _h

/-- `_order_views` -/
def orderViews (views : List ViewSpec) : Except Text (List ViewSpec) :=
  orderFrom (byName views).get? ((byName views).keys.insertionSort (· ≤ ·)) [] []

/-! ## What is placed -/

/-- A view depends on another. -/
def Needs (v w : ViewSpec) : Prop := w.name ∈ v.dependsOn ∧ w.name ≠ v.name

/-- One view of the tuple depends on another one. -/
def NeedsIn (views : List ViewSpec) (v w : ViewSpec) : Prop := v ∈ views ∧ w ∈ views ∧ Needs v w

/-- The lookup finds the views by their names. -/
def Finds (lookup : Text → Option ViewSpec) (views : List ViewSpec) : Prop :=
  ∀ n v, lookup n = some v ↔ v ∈ views ∧ v.name = n

/-- What holds of the views that are placed and of the names that are left. -/
structure Placed (views : List ViewSpec) (ordered : List ViewSpec) (placed left : List Text) :
    Prop where
  perm : (ordered.map ViewSpec.name ++ left).Perm (views.map ViewSpec.name)
  sub : ∀ v ∈ ordered, v ∈ views
  placed_iff : ∀ n, n ∈ placed ↔ n ∈ ordered.map ViewSpec.name
  sorted : ordered.Pairwise fun v w => ¬Needs v w
  settled : ∀ v ∈ ordered, ∀ w ∈ views, Needs v w → w.name ∈ placed

variable {lookup : Text → Option ViewSpec} {views : List ViewSpec}

theorem mem_deps (hfinds : Finds lookup views) {v : ViewSpec} {n : Text} :
    n ∈ deps lookup v ↔ ∃ w ∈ views, w.name = n ∧ Needs v w := by
  rw [deps, List.mem_filter, decide_eq_true_iff, Option.isSome_iff_exists]
  constructor
  · rintro ⟨hdep, ⟨w, hw⟩, hne⟩
    obtain ⟨hmem, rfl⟩ := (hfinds n w).1 hw
    exact ⟨w, hmem, rfl, hdep, hne⟩
  · rintro ⟨w, hmem, rfl, hdep, hne⟩
    exact ⟨hdep, ⟨w, (hfinds _ w).2 ⟨hmem, rfl⟩⟩, hne⟩

theorem Placed.add {ordered : List ViewSpec} {placed left : List Text} {v : ViewSpec}
    (h : Placed views ordered placed (v.name :: left)) (hnodup : (views.map ViewSpec.name).Nodup)
    (hv : v ∈ views) (hdeps : ∀ w ∈ views, Needs v w → w.name ∈ placed) :
    Placed views (ordered ++ [v]) (v.name :: placed) left := by
  have hnew : v.name ∉ ordered.map ViewSpec.name := fun hmem =>
    (List.nodup_append.1 (h.perm.nodup_iff.2 hnodup)).2.2 _ hmem _ List.mem_cons_self rfl
  refine ⟨by simpa using h.perm, ?_, fun n => ?_, ?_, ?_⟩
  · intro u hu
    rcases List.mem_append.1 hu with hold | hlast
    · exact h.sub u hold
    · rwa [List.mem_singleton.1 hlast]
  · rw [List.mem_cons, h.placed_iff, List.map_append, List.mem_append, List.map_singleton,
      List.mem_singleton, or_comm]
  · refine List.pairwise_append.2 ⟨h.sorted, ?_, fun u hu w hw hneeds => ?_⟩
    · exact List.pairwise_singleton _ _
    · obtain rfl := List.mem_singleton.1 hw
      exact hnew ((h.placed_iff _).1 (h.settled u hu w hv hneeds))
  · intro u hu w hw hneeds
    rcases List.mem_append.1 hu with hold | hlast
    · exact List.mem_cons_of_mem _ (h.settled u hold w hw hneeds)
    · obtain rfl := List.mem_singleton.1 hlast
      exact List.mem_cons_of_mem _ (hdeps w hw hneeds)

/-- What a name of a pass does. -/
theorem visit_cases (hfinds : Finds lookup views) (s : Pass) {v : ViewSpec} (hv : v ∈ views) :
    (∀ w ∈ views, Needs v w → w.name ∈ s.placed) ∧ visit lookup s v.name =
        { s with ordered := s.ordered ++ [v], placed := v.name :: s.placed, progressed := true } ∨
      (∃ w ∈ views, Needs v w ∧ w.name ∉ s.placed) ∧
        visit lookup s v.name = { s with stillPending := s.stillPending ++ [v.name] } := by
  have hlookup : lookup v.name = some v := (hfinds _ v).2 ⟨hv, rfl⟩
  by_cases hdeps : ∀ dep ∈ deps lookup v, dep ∈ s.placed
  · refine .inl ⟨fun w hw hneeds => hdeps _ ((mem_deps hfinds).2 ⟨w, hw, rfl, hneeds⟩), ?_⟩
    simp only [visit, hlookup, if_pos hdeps]
  · have hvisit : visit lookup s v.name =
        { s with stillPending := s.stillPending ++ [v.name] } := by
      simp only [visit, hlookup, if_neg hdeps]
    push Not at hdeps
    obtain ⟨dep, hdep, hnot⟩ := hdeps
    obtain ⟨w, hw, rfl, hneeds⟩ := (mem_deps hfinds).1 hdep
    exact .inr ⟨⟨w, hw, hneeds, hnot⟩, hvisit⟩

/-- A pass keeps what is placed in order. -/
theorem Placed.pass (hnodup : (views.map ViewSpec.name).Nodup) (hfinds : Finds lookup views) :
    ∀ (names : List Text) (s : Pass), Placed views s.ordered s.placed (s.stillPending ++ names) →
      Placed views (names.foldl (visit lookup) s).ordered (names.foldl (visit lookup) s).placed
        (names.foldl (visit lookup) s).stillPending
  | [], s, h => by simpa using h
  | name :: names, s, h => by
    have hname : name ∈ views.map ViewSpec.name := h.perm.mem_iff.1 (by simp)
    obtain ⟨v, hv, rfl⟩ := List.mem_map.1 hname
    rw [List.foldl_cons]
    refine Placed.pass hnodup hfinds names _ ?_
    rcases visit_cases hfinds s hv with ⟨hdeps, hvisit⟩ | ⟨-, hvisit⟩
    · have hfront : Placed views s.ordered s.placed (v.name :: (s.stillPending ++ names)) :=
        { h with perm := (List.Perm.append_left _ List.perm_middle.symm).trans h.perm }
      rw [hvisit]
      exact hfront.add hnodup hv hdeps
    · rw [hvisit]
      simpa using h

/-- Each name needs a view that is not placed. -/
def Blocked (views : List ViewSpec) (placed left : List Text) : Prop :=
  ∀ n ∈ left, ∃ v ∈ views, v.name = n ∧ ∃ w ∈ views, Needs v w ∧ w.name ∉ placed

theorem progressed_foldl (lookup : Text → Option ViewSpec) :
    ∀ (names : List Text) (s : Pass), s.progressed = true →
      (names.foldl (visit lookup) s).progressed = true
  | [], _, h => h
  | name :: names, s, h => by
    rw [List.foldl_cons]
    refine progressed_foldl lookup names _ ?_
    unfold visit
    split
    · exact h
    · split_ifs
      · rfl
      · exact h

/-- A pass that places no view leaves all names blocked. -/
theorem Blocked.pass (hfinds : Finds lookup views) :
    ∀ (names : List Text) (s : Pass), (∀ n ∈ names, n ∈ views.map ViewSpec.name) →
      Blocked views s.placed s.stillPending →
      (names.foldl (visit lookup) s).progressed = false →
      (names.foldl (visit lookup) s).stillPending = s.stillPending ++ names ∧
        Blocked views s.placed (s.stillPending ++ names)
  | [], s, _, h, _ => by simpa using h
  | name :: names, s, hnames, h, hfalse => by
    obtain ⟨v, hv, rfl⟩ := List.mem_map.1 (hnames name List.mem_cons_self)
    rw [List.foldl_cons] at hfalse ⊢
    rcases visit_cases hfinds s hv with ⟨-, hvisit⟩ | ⟨hblocked, hvisit⟩
    · rw [hvisit, progressed_foldl lookup names _ rfl] at hfalse
      exact absurd hfalse.symm Bool.false_ne_true
    · rw [hvisit] at hfalse ⊢
      rw [List.append_cons s.stillPending v.name names]
      refine Blocked.pass hfinds names _ (fun n hn => hnames n (List.mem_cons_of_mem _ hn)) ?_
        hfalse
      intro n hn
      rcases List.mem_append.1 hn with hold | hlast
      · exact h n hold
      · exact ⟨v, hv, (List.mem_singleton.1 hlast).symm, hblocked⟩

/-! ## The whole order -/

/-- A list that has all views, each after those it needs. -/
def InOrder (views l : List ViewSpec) : Prop := l.Perm views ∧ l.Pairwise fun v w => ¬Needs v w

theorem orderFrom_spec (hnodup : (views.map ViewSpec.name).Nodup) (hfinds : Finds lookup views)
    (pending : List Text) (ordered : List ViewSpec) (placed : List Text)
    (h : Placed views ordered placed pending) :
    (∃ l, orderFrom lookup pending ordered placed = .ok l ∧ InOrder views l) ∨
      (∃ e, orderFrom lookup pending ordered placed = .error e) ∧
        ∃ v, Relation.TransGen (NeedsIn views) v v := by
  induction pending, ordered, placed using orderFrom.induct lookup with
  | case1 ordered placed =>
    rw [orderFrom, if_pos rfl]
    have hperm : (ordered.map ViewSpec.name).Perm (views.map ViewSpec.name) := by
      simpa using h.perm
    refine .inl ⟨ordered, rfl, ?_, h.sorted⟩
    have hordered : ordered.Nodup := .of_map _ (hperm.nodup_iff.2 hnodup)
    exact (List.subperm_of_subset hordered h.sub).perm_of_length_le
      (by simpa using hperm.length_eq.ge)
  | case2 pending ordered placed hne hprogressed ih =>
    rw [orderFrom, if_neg hne, dif_pos hprogressed]
    exact ih (Placed.pass hnodup hfinds pending { ordered, placed } h)
  | case3 pending ordered placed hne hprogressed =>
    rw [orderFrom, if_neg hne, dif_neg hprogressed]
    refine .inr ⟨⟨_, rfl⟩, ?_⟩
    have hsub : ∀ n ∈ pending, n ∈ views.map ViewSpec.name := fun n hn =>
      h.perm.mem_iff.1 (List.mem_append_right _ hn)
    obtain ⟨-, hblocked⟩ := Blocked.pass hfinds pending { ordered, placed } hsub
      (fun n hn => absurd hn List.not_mem_nil) (Bool.eq_false_iff.2 hprogressed)
    -- The views that are left each need one of them.
    refine exists_cycle (s := views.filter fun v => v.name ∈ pending) ?_ fun v hv => ?_
    · obtain ⟨n, hn⟩ := List.exists_mem_of_ne_nil _ hne
      obtain ⟨v, hv, rfl⟩ := List.mem_map.1 (hsub n hn)
      exact List.ne_nil_of_mem (List.mem_filter.2 ⟨hv, decide_eq_true hn⟩)
    · obtain ⟨hmem, hpending⟩ := List.mem_filter.1 hv
      obtain ⟨u, hu, hname, w, hw, hneeds, hnot⟩ := hblocked _ (of_decide_eq_true hpending)
      obtain rfl : u = v := List.inj_on_of_nodup_map hnodup hu hmem hname
      refine ⟨w, List.mem_filter.2 ⟨hw, decide_eq_true ?_⟩, hmem, hw, hneeds⟩
      have hall := h.perm.mem_iff.2 (List.mem_map_of_mem hw)
      exact (List.mem_append.1 hall).resolve_left fun hmap => hnot ((h.placed_iff _).2 hmap)

/-- Views in order do not need each other in a circle. -/
theorem InOrder.acyclic {l : List ViewSpec} (h : InOrder views l)
    (hnodup : (views.map ViewSpec.name).Nodup) (v : ViewSpec) :
    ¬Relation.TransGen (NeedsIn views) v v := by
  let rank (v : ViewSpec) : ℕ := (l.map ViewSpec.name).idxOf v.name
  have hrank : ∀ (i : ℕ) (hi : i < l.length), rank l[i] = i := fun i hi => by
    have hidx := ((h.1.map ViewSpec.name).nodup_iff.2 hnodup).idxOf_getElem i (by simpa using hi)
    rwa [List.getElem_map] at hidx
  have hlt : ∀ v w, NeedsIn views v w → rank w < rank v := by
    rintro v w ⟨hv, hw, hneeds⟩
    obtain ⟨i, hi, rfl⟩ := List.getElem_of_mem (h.1.mem_iff.2 hv)
    obtain ⟨j, hj, rfl⟩ := List.getElem_of_mem (h.1.mem_iff.2 hw)
    rw [hrank i hi, hrank j hj]
    refine lt_of_le_of_ne (not_lt.1 fun hij => ?_) ?_
    · exact List.pairwise_iff_getElem.1 h.2 i j hi hj hij hneeds
    · rintro rfl
      exact hneeds.2 rfl
  intro hcycle
  have hranks := hcycle.lift (p := fun a b : ℕ => b < a) rank hlt
  rw [Relation.transGen_eq_self] at hranks
  exact lt_irrefl _ hranks

theorem byName_eq (h : (views.map ViewSpec.name).Nodup) :
    byName views = views.map fun v => (v.name, v) :=
  Dict.foldl_set_eq ViewSpec.name id views [] h

theorem keys_byName (h : (views.map ViewSpec.name).Nodup) :
    (byName views).keys = views.map ViewSpec.name := by
  rw [byName_eq h, Dict.keys, List.map_map]
  rfl

theorem finds_byName (h : (views.map ViewSpec.name).Nodup) : Finds (byName views).get? views := by
  intro n v
  constructor
  · intro hv
    have hmem := Dict.mem_of_get? hv
    rw [byName_eq h] at hmem
    obtain ⟨w, hw, heq⟩ := List.mem_map.1 hmem
    obtain ⟨rfl, rfl⟩ := Prod.mk.inj heq
    exact ⟨hw, rfl⟩
  · rintro ⟨hv, rfl⟩
    exact Dict.get?_foldl_set ViewSpec.name id [] h hv

/-- For views of different names, what is returned has all of them in order, and it fails exactly if
views need each other in a circle; the order in which they are given does not matter. -/
theorem orderViews_spec (h : (views.map ViewSpec.name).Nodup) :
    (∀ l, orderViews views = .ok l → InOrder views l) ∧
      ((∃ e, orderViews views = .error e) ↔ ∃ v, Relation.TransGen (NeedsIn views) v v) ∧
      ∀ views', views'.Perm views → orderViews views' = orderViews views := by
  have hstart : Placed views [] [] ((byName views).keys.insertionSort (· ≤ ·)) :=
    ⟨(List.perm_insertionSort _ _).trans (.of_eq (keys_byName h)),
      fun _ hv => absurd hv List.not_mem_nil,
      fun n => iff_of_false List.not_mem_nil List.not_mem_nil, .nil,
      fun _ hv => absurd hv List.not_mem_nil⟩
  have hspec := orderFrom_spec h (finds_byName h) _ _ _ hstart
  refine ⟨fun l hl => ?_, ⟨?_, ?_⟩, fun views' hperm => ?_⟩
  · rcases hspec with ⟨l', hl', hordered⟩ | ⟨⟨e, he⟩, -⟩
    · obtain rfl := Except.ok.inj (hl.symm.trans hl')
      exact hordered
    · exact nomatch hl.symm.trans he
  · rintro ⟨e, he⟩
    rcases hspec with ⟨l, hl, -⟩ | ⟨-, hcycle⟩
    · exact nomatch he.symm.trans hl
    · exact hcycle
  · rintro ⟨v, hcycle⟩
    rcases hspec with ⟨l, hl, hordered⟩ | ⟨herror, -⟩
    · exact absurd hcycle (hordered.acyclic h v)
    · exact herror
  · have h' : (views'.map ViewSpec.name).Nodup := (hperm.map _).nodup_iff.2 h
    have hlookup : (byName views').get? = (byName views).get? := by
      funext n
      refine Option.ext fun v => ?_
      rw [finds_byName h' n v, finds_byName h n v, hperm.mem_iff]
    have hkeys : (byName views').keys.Perm (byName views).keys := by
      rw [keys_byName h', keys_byName h]
      exact hperm.map _
    have hsorted : (byName views').keys.insertionSort (· ≤ ·) =
        (byName views).keys.insertionSort (· ≤ ·) :=
      ((List.perm_insertionSort _ _).trans (hkeys.trans
        (List.perm_insertionSort _ _).symm)).eq_of_pairwise' (List.pairwise_insertionSort _ _)
          (List.pairwise_insertionSort _ _)
    rw [orderViews, orderViews, hlookup, hsorted]

/-- Two views that need each other. -/
def mutualViews : List ViewSpec := [⟨"a", ["b", "posts"]⟩, ⟨"b", ["a"]⟩]

theorem mutualViews_refused : (∃ e, orderViews mutualViews = .error e) ∧
    orderViews mutualViews.reverse = orderViews mutualViews := by
  obtain ⟨-, hcycle, hperm⟩ := @orderViews_spec mutualViews (by decide)
  have hforth : NeedsIn mutualViews ⟨"a", ["b", "posts"]⟩ ⟨"b", ["a"]⟩ :=
    ⟨by simp [mutualViews], by simp [mutualViews], by simp, by decide⟩
  have hback : NeedsIn mutualViews ⟨"b", ["a"]⟩ ⟨"a", ["b", "posts"]⟩ :=
    ⟨by simp [mutualViews], by simp [mutualViews], by simp, by decide⟩
  exact ⟨hcycle.2 ⟨_, .tail (.single hforth) hback⟩, hperm _ (List.reverse_perm _)⟩

end ViewOrder

end PPBase
