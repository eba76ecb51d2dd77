import PPBase.Response

/-!
# Relation expansion

`expand_records` places related records under the records of a response, one path at a time.
An `ExpandedRecord` is the row a record was built from, what is shown of it, and what was
placed under its fields. `Reach` says in terms of the tables alone which records a
path leads to, and `placed_expandRecord` that these are exactly the records that get placed :
no rule is read on the way. Expansion therefore respects the view rules exactly when every
record the paths lead to does (`expansion_viewable_iff`).
-/

namespace PPBase

/-- A record of a response with its `expand` object. An entry is a list for a multiple
relation. -/
inductive ExpandedRecord
  | mk (coll : Collection) (row : Row) (fields : Dict Text Value)
      (expand : List (Text × Bool × List ExpandedRecord))

namespace ExpandedRecord

def coll : ExpandedRecord → Collection
  | mk c _ _ _ => c

def row : ExpandedRecord → Row
  | mk _ r _ _ => r

def fields : ExpandedRecord → Dict Text Value
  | mk _ _ d _ => d

def expand : ExpandedRecord → Dict Text (Bool × List ExpandedRecord)
  | mk _ _ _ e => e

/-- The record shown and the collection it is from. -/
def source (n : ExpandedRecord) : Collection × Row := (n.coll, n.row)

/-- `record["expand"][field] = ..` -/
def setExpand (n : ExpandedRecord) (field : Text) (many : Bool) (ns : List ExpandedRecord) :
    ExpandedRecord :=
  mk n.coll n.row n.fields (n.expand.set field (many, ns))

end ExpandedRecord

namespace Expand

/-- `MAX_EXPAND_DEPTH` -/
def maxDepth : ℕ := 6

/-- `_parse_expand_string` -/
def parseExpandString (expand : Text) : List (List Text) :=
  (Text.split ',' expand).filterMap fun part =>
    if Text.strip part = [] then none
    else some ((Text.split '.' (Text.strip part)).take maxDepth)

/-- `_get_relation_field` -/
def relationField? (c : Collection) (field : Text) : Option Field :=
  c.schema.find? fun f => f.name = field ∧ f.type = .relation

/-- Where a relation field leads, by collection id only, and whether it is multiple. Options
are read from the nested object only. -/
def target? (db : Db) (c : Collection) (field : Text) : Option (Collection × Bool) :=
  match relationField? c field with
  | none => none
  | some f =>
    (db.collections.find? fun t => t.id = f.options.collectionId.getD []).map fun t =>
      (t, decide (1 < f.options.maxSelect.getD 1))

/-- The ids a field value refers to. -/
def linkedIds (rt : Runtime) (many : Bool) : Option Value → List Text
  | some (.list vs) => if many then (vs.filter Value.truthy).map (Macros.idText rt) else []
  | some v => if !many && v.truthy then [Macros.idText rt v] else []
  | none => []

/-- The fields hidden in an expanded record. -/
def hiddenInExpand (c : Collection) : List Text :=
  (c.schema.filter fun f => f.hidden || f.type = .password).map Field.name

/-- What is shown of an expanded row. -/
def response (rt : Runtime) (viewer : Viewer) (t : Collection) (row : Row) : Dict Text Value :=
  buildRecordResponse rt t row (hiddenInExpand t) none viewer

/-- A fetched row, with nothing placed under it yet. -/
def fetched (rt : Runtime) (viewer : Viewer) (t : Collection) (row : Row) : ExpandedRecord :=
  .mk t row (response rt viewer t row) []

/-- `str(item.get("id"))` -/
def shownId (rt : Runtime) (n : ExpandedRecord) : Text :=
  Macros.idText rt ((n.fields.get? "id").getD .null)

/-- What is placed for an id : the record another path placed already, or the fetched one. -/
def child? (rt : Runtime) (db : Db) (viewer : Viewer) (t : Collection)
    (previous : List ExpandedRecord) (id : Text) : Option ExpandedRecord :=
  match db.rowById t.name id with
  | none => none
  | some row =>
    (previous.reverse.find? fun n => shownId rt n = id).or (some (fetched rt viewer t row))

/-- The records already placed under a field. -/
def previously (n : ExpandedRecord) (field : Text) : List ExpandedRecord :=
  ((n.expand.get? field).map Prod.snd).getD []

/-- The records a field places. -/
def children (rt : Runtime) (db : Db) (viewer : Viewer) (t : Collection) (many : Bool)
    (n : ExpandedRecord) (field : Text) : List ExpandedRecord :=
  (linkedIds rt many (n.fields.get? field)).filterMap (child? rt db viewer t (previously n field))

/-- `_expand_path`, on one record. -/
def expandPath (rt : Runtime) (db : Db) (viewer : Viewer) :
    List Text → ExpandedRecord → ExpandedRecord
  | [], n => n
  | field :: rest, n =>
    match target? db n.coll field with
    | none => n
    | some (t, many) =>
      let placed := children rt db viewer t many n field
      let current := if placed.isEmpty then previously n field else placed
      if current.isEmpty then n
      else n.setExpand field many (current.map (expandPath rt db viewer rest))

/-- The record of a response before expansion. -/
def root (c : Collection) (row : Row) (fields : Dict Text Value) : ExpandedRecord :=
  .mk c row fields []

/-- `expand_records`, on one record. -/
def expandRecord (rt : Runtime) (db : Db) (viewer : Viewer) (expand : Text) (n : ExpandedRecord) :
    ExpandedRecord :=
  (parseExpandString expand).foldl (fun n p => expandPath rt db viewer p n) n

/-! ## Links and reachability -/

section

variable (rt : Runtime) (db : Db) (viewer : Viewer)

/-- The field of a record shown as `d` refers to a row of `t`. -/
def Links (c : Collection) (d : Dict Text Value) (field : Text) (t : Collection) (row : Row) :
    Prop :=
  ∃ many id, target? db c field = some (t, many) ∧ id ∈ linkedIds rt many (d.get? field) ∧
    db.rowById t.name id = some row

/-- A path leads to a record : along its first field, or further on from there. -/
inductive Reach : Collection → Dict Text Value → List Text → Collection × Row → Prop
  | here {c d field path t row} : Links rt db c d field t row → Reach c d (field :: path) (t, row)
  | deeper {c d field path t row x} : Links rt db c d field t row →
      Reach t (response rt viewer t row) path x → Reach c d (field :: path) x

/-- A record stands under `expand`, at any level. -/
inductive Placed : ExpandedRecord → Collection × Row → Prop
  | here {n : ExpandedRecord} {field many ns m} : n.expand.get? field = some (many, ns) → m ∈ ns →
      Placed n m.source
  | deeper {n : ExpandedRecord} {field many ns m x} : n.expand.get? field = some (many, ns) →
      m ∈ ns → Placed m x → Placed n x

/-- What stands under a field is what the field links to, once for each id. -/
inductive WellPlaced : ExpandedRecord → Prop
  | mk {n : ExpandedRecord}
      (link : ∀ field many ns, n.expand.get? field = some (many, ns) → ∀ m ∈ ns,
        Links rt db n.coll n.fields field m.coll m.row ∧
          m.fields = response rt viewer m.coll m.row)
      (below : ∀ field many ns, n.expand.get? field = some (many, ns) → ∀ m ∈ ns, WellPlaced m)
      (unique : ∀ field many ns, n.expand.get? field = some (many, ns) → ∀ m ∈ ns, ∀ m' ∈ ns,
        shownId rt m = shownId rt m' → m = m') : WellPlaced n

end

section

variable {rt : Runtime} {db : Db} {viewer : Viewer}

variable {id field : Text} {row : Row} {t : Collection} {n m : ExpandedRecord}
  {x : Collection × Row} {many : Bool}

theorem rowById_id {table : Text} (h : db.rowById table id = some row) :
    row.get? "id" = some (.text id) := by
  simpa using List.find?_some h

/-- An expanded record shows the id it was fetched by. -/
theorem get?_id_response (h : row.get? "id" = some (.text id)) :
    (response rt viewer t row).get? "id" = some (.text id) :=
  get?_id_buildRecordResponse h viewer

theorem shownId_response (hf : n.fields = response rt viewer n.coll n.row)
    (h : n.row.get? "id" = some (.text id)) : shownId rt n = id := by
  unfold shownId
  rw [hf, get?_id_response h]
  rfl

/-! ## What one path places -/

theorem not_placed_of_no_expand (h : n.expand = []) : ¬Placed n x := by
  intro hx
  cases hx with
  | here hget _ => simp [h] at hget
  | deeper hget _ _ => simp [h] at hget

theorem wellPlaced_of_no_expand (h : n.expand = []) : WellPlaced rt db viewer n := by
  refine ⟨fun f b ns hget => ?_, fun f b ns hget => ?_, fun f b ns hget => ?_⟩ <;>
    simp [h] at hget

/-- What a child is : the row its id stands for, placed before or fetched now. -/
theorem child?_eq_some {previous : List ExpandedRecord}
    (h : child? rt db viewer t previous id = some m) :
    ∃ row, db.rowById t.name id = some row ∧
      (m ∈ previous ∧ shownId rt m = id ∨ m = fetched rt viewer t row) := by
  unfold child? at h
  cases hrow : db.rowById t.name id with
  | none => simp [hrow] at h
  | some row =>
    refine ⟨row, rfl, ?_⟩
    rw [hrow] at h
    rcases Option.or_eq_some_iff.1 h with hfind | ⟨-, hfetch⟩
    · left
      have hmem := List.mem_of_find?_eq_some hfind
      exact ⟨by simpa using hmem, by simpa using List.find?_some hfind⟩
    · exact Or.inr (Option.some.inj hfetch).symm

theorem child?_isSome {previous : List ExpandedRecord} (h : db.rowById t.name id = some row) :
    ∃ m, child? rt db viewer t previous id = some m := by
  unfold child?
  rw [h]
  cases previous.reverse.find? fun n => shownId rt n = id with
  | some m => exact ⟨m, rfl⟩
  | none => exact ⟨_, rfl⟩

theorem get?_of_mem_previously (h : m ∈ previously n field) :
    ∃ many, n.expand.get? field = some (many, previously n field) := by
  unfold previously at h ⊢
  cases hget : n.expand.get? field with
  | none => simp [hget] at h
  | some p => exact ⟨p.1, rfl⟩

/-- A placed child shows the row its id stands for. -/
theorem child?_spec (hn : WellPlaced rt db viewer n) (ht : target? db n.coll field = some (t, many))
    (h : child? rt db viewer t (previously n field) id = some m) :
    m.coll = t ∧ db.rowById t.name id = some m.row ∧
      m.fields = response rt viewer t m.row ∧ WellPlaced rt db viewer m ∧ shownId rt m = id := by
  obtain ⟨row, hrow, ⟨hmem, hid⟩ | rfl⟩ := child?_eq_some h
  · obtain ⟨b, hget⟩ := get?_of_mem_previously hmem
    obtain ⟨hlink, hbelow, -⟩ := hn
    obtain ⟨⟨b', id', ht', -, hrow'⟩, hfields⟩ := hlink _ _ _ hget m hmem
    obtain ⟨rfl, rfl⟩ := Prod.mk.inj (Option.some.inj (ht.symm.trans ht'))
    have hid' : shownId rt m = id' := shownId_response hfields (rowById_id hrow')
    obtain rfl : id = id' := hid.symm.trans hid'
    exact ⟨rfl, hrow', hfields, hbelow _ _ _ hget m hmem, hid⟩
  · exact ⟨rfl, hrow, rfl, wellPlaced_of_no_expand rfl,
      shownId_response rfl (rowById_id hrow)⟩

theorem mem_children :
    m ∈ children rt db viewer t many n field ↔
      ∃ id ∈ linkedIds rt many (n.fields.get? field),
        child? rt db viewer t (previously n field) id = some m := by
  simp [children, List.mem_filterMap]

/-- What was placed before is placed again. -/
theorem mem_children_of_previously (hn : WellPlaced rt db viewer n)
    (ht : target? db n.coll field = some (t, many)) (hm : m ∈ previously n field) :
    m ∈ children rt db viewer t many n field := by
  obtain ⟨b, hget⟩ := get?_of_mem_previously hm
  obtain ⟨hlink, -, hunique⟩ := id hn
  obtain ⟨⟨b', id, ht', hid, hrow⟩, hfields⟩ := hlink _ _ _ hget m hm
  obtain ⟨ht₁, rfl⟩ := Prod.mk.inj (Option.some.inj (ht.symm.trans ht'))
  have hshown : shownId rt m = id := shownId_response hfields (rowById_id hrow)
  rw [← ht₁] at hrow
  refine mem_children.2 ⟨id, hid, ?_⟩
  unfold child?
  rw [hrow]
  cases hfind : (previously n field).reverse.find? fun n => shownId rt n = id with
  | none =>
    have hno := List.find?_eq_none.1 hfind m (by simpa using hm)
    simp [hshown] at hno
  | some m' =>
    have hmem : m' ∈ previously n field := by simpa using List.mem_of_find?_eq_some hfind
    have hshown' : shownId rt m' = id := by simpa using List.find?_some hfind
    have heq := hunique _ _ _ hget m' hmem m hm (hshown'.trans hshown.symm)
    simp [heq]

/-- One field of a path, on a record whose expansion is well placed. -/
theorem expandPath_cons (rest : List Text) (hn : WellPlaced rt db viewer n)
    (ht : target? db n.coll field = some (t, many)) :
    expandPath rt db viewer (field :: rest) n =
      if children rt db viewer t many n field = [] then n
      else n.setExpand field many
        ((children rt db viewer t many n field).map (expandPath rt db viewer rest)) := by
  rw [expandPath, ht]
  dsimp only
  by_cases hch : children rt db viewer t many n field = []
  · have hprev : previously n field = [] := by
      rw [List.eq_nil_iff_forall_not_mem]
      intro m hm
      have := mem_children_of_previously hn ht hm
      rw [hch] at this
      cases this
    simp [hch, hprev]
  · simp [hch]

/-- A path changes nothing of a record but what is expanded. -/
theorem expandPath_frame (p : List Text) (n : ExpandedRecord) :
    (expandPath rt db viewer p n).coll = n.coll ∧ (expandPath rt db viewer p n).row = n.row ∧
      (expandPath rt db viewer p n).fields = n.fields := by
  cases p with
  | nil => exact ⟨rfl, rfl, rfl⟩
  | cons field rest =>
    unfold expandPath
    split
    · exact ⟨rfl, rfl, rfl⟩
    · dsimp only
      split_ifs <;> exact ⟨rfl, rfl, rfl⟩

@[simp] theorem expandPath_coll (p : List Text) (n : ExpandedRecord) :
    (expandPath rt db viewer p n).coll = n.coll := (expandPath_frame p n).1

@[simp] theorem expandPath_row (p : List Text) (n : ExpandedRecord) :
    (expandPath rt db viewer p n).row = n.row := (expandPath_frame p n).2.1

@[simp] theorem expandPath_fields (p : List Text) (n : ExpandedRecord) :
    (expandPath rt db viewer p n).fields = n.fields := (expandPath_frame p n).2.2

theorem get?_setExpand (n : ExpandedRecord) (field field' : Text) (many : Bool)
    (ns : List ExpandedRecord) : (n.setExpand field many ns).expand.get? field' =
      if field = field' then some (many, ns) else n.expand.get? field' :=
  Dict.get?_set n.expand field field' (many, ns)

/-- A path keeps the expansion well placed. -/
theorem wellPlaced_expandPath : ∀ (p : List Text) {n : ExpandedRecord},
    WellPlaced rt db viewer n → WellPlaced rt db viewer (expandPath rt db viewer p n)
  | [], _, hn => hn
  | field :: rest, n, hn => by
    cases ht : target? db n.coll field with
    | none =>
      rw [expandPath, ht]
      exact hn
    | some tm =>
      obtain ⟨t, many⟩ := tm
      rw [expandPath_cons rest hn ht]
      split_ifs with hch
      · exact hn
      have hchild : ∀ m ∈ children rt db viewer t many n field, ∃ id ∈
          linkedIds rt many (n.fields.get? field), m.coll = t ∧
            db.rowById t.name id = some m.row ∧ m.fields = response rt viewer t m.row ∧
            WellPlaced rt db viewer m ∧ shownId rt m = id := by
        intro m hm
        obtain ⟨id, hid, hc⟩ := mem_children.1 hm
        exact ⟨id, hid, child?_spec hn ht hc⟩
      obtain ⟨hlink, hbelow, hunique⟩ := hn
      refine ⟨fun f b ns hget m hm => ?_, fun f b ns hget m hm => ?_, fun f b ns hget => ?_⟩
      · rw [get?_setExpand] at hget
        split_ifs at hget with hf
        · obtain ⟨rfl, rfl⟩ := Prod.mk.inj (Option.some.inj hget)
          obtain ⟨m₀, hm₀, rfl⟩ := List.mem_map.1 hm
          obtain ⟨id, hid, hcoll, hrow, hfields, -, -⟩ := hchild m₀ hm₀
          rw [expandPath_coll, expandPath_row, expandPath_fields, hcoll]
          exact ⟨⟨many, id, hf ▸ ht, hf ▸ hid, hrow⟩, hfields⟩
        · exact hlink _ _ _ hget m hm
      · rw [get?_setExpand] at hget
        split_ifs at hget with hf
        · obtain ⟨rfl, rfl⟩ := Prod.mk.inj (Option.some.inj hget)
          obtain ⟨m₀, hm₀, rfl⟩ := List.mem_map.1 hm
          obtain ⟨-, -, -, -, -, hwell, -⟩ := hchild m₀ hm₀
          exact wellPlaced_expandPath rest hwell
        · exact hbelow _ _ _ hget m hm
      · rw [get?_setExpand] at hget
        split_ifs at hget with hf
        · obtain ⟨rfl, rfl⟩ := Prod.mk.inj (Option.some.inj hget)
          intro m hm m' hm' hid
          obtain ⟨m₀, hm₀, rfl⟩ := List.mem_map.1 hm
          obtain ⟨m₁, hm₁, rfl⟩ := List.mem_map.1 hm'
          simp only [shownId, expandPath_fields] at hid
          obtain ⟨id₀, -, hc₀⟩ := mem_children.1 hm₀
          obtain ⟨id₁, -, hc₁⟩ := mem_children.1 hm₁
          have hs₀ := (child?_spec ⟨hlink, hbelow, hunique⟩ ht hc₀).2.2.2.2
          have hs₁ := (child?_spec ⟨hlink, hbelow, hunique⟩ ht hc₁).2.2.2.2
          obtain rfl : id₀ = id₁ := hs₀.symm.trans (hid.trans hs₁)
          rw [Option.some.inj (hc₀.symm.trans hc₁)]
        · exact hunique _ _ _ hget

theorem placed_iff :
    Placed n x ↔ ∃ field many ns, n.expand.get? field = some (many, ns) ∧
      ∃ m ∈ ns, x = m.source ∨ Placed m x := by
  constructor
  · intro h
    cases h with
    | here hget hm => exact ⟨_, _, _, hget, _, hm, Or.inl rfl⟩
    | deeper hget hm hx => exact ⟨_, _, _, hget, _, hm, Or.inr hx⟩
  · rintro ⟨field, many, ns, hget, m, hm, rfl | hx⟩
    · exact .here hget hm
    · exact .deeper hget hm hx

theorem reach_cons_iff {c : Collection} {d : Dict Text Value} {p : List Text} :
    Reach rt db viewer c d (field :: p) x ↔
      ∃ t row, Links rt db c d field t row ∧
        (x = (t, row) ∨ Reach rt db viewer t (response rt viewer t row) p x) := by
  constructor
  · intro h
    cases h with
    | here hl => exact ⟨_, _, hl, Or.inl rfl⟩
    | deeper hl hx => exact ⟨_, _, hl, Or.inr hx⟩
  · rintro ⟨t, row, hl, rfl | hx⟩
    · exact .here hl
    · exact .deeper hl hx

/-- Every linked row has a child. -/
theorem exists_child_of_links {t' : Collection} (hn : WellPlaced rt db viewer n)
    (ht : target? db n.coll field = some (t, many)) (hl : Links rt db n.coll n.fields field t' row) :
    ∃ m ∈ children rt db viewer t many n field, m.source = (t', row) ∧
      m.fields = response rt viewer t' row ∧ WellPlaced rt db viewer m := by
  obtain ⟨many', id, ht', hid, hrow⟩ := hl
  obtain ⟨rfl, rfl⟩ := Prod.mk.inj (Option.some.inj (ht'.symm.trans ht))
  have hsome : ∃ m, child? rt db viewer t' (previously n field) id = some m := child?_isSome hrow
  obtain ⟨m, hm⟩ := hsome
  obtain ⟨hcoll, hrow', hfields, hwell, -⟩ := child?_spec hn ht hm
  obtain rfl := Option.some.inj (hrow.symm.trans hrow')
  exact ⟨m, mem_children.2 ⟨id, hid, hm⟩, Prod.ext hcoll rfl, hfields, hwell⟩

/-- Every child is a linked row, placed before or with nothing under it. -/
theorem links_of_mem_children (hn : WellPlaced rt db viewer n)
    (ht : target? db n.coll field = some (t, many)) (hm : m ∈ children rt db viewer t many n field) :
    Links rt db n.coll n.fields field m.coll m.row ∧
      m.fields = response rt viewer m.coll m.row ∧ WellPlaced rt db viewer m ∧
      (m ∈ previously n field ∨ m.expand = []) := by
  obtain ⟨id, hid, hc⟩ := mem_children.1 hm
  obtain ⟨hcoll, hrow, hfields, hwell, -⟩ := child?_spec hn ht hc
  obtain ⟨row, -, ⟨hmem, -⟩ | rfl⟩ := child?_eq_some hc
  · rw [hcoll]
    exact ⟨⟨many, id, ht, hid, hrow⟩, hfields, hwell, Or.inl hmem⟩
  · exact ⟨⟨many, id, ht, hid, hrow⟩, hfields, hwell, Or.inr rfl⟩

/-- A path places exactly the records it leads to, and keeps those already placed. -/
theorem placed_expandPath : ∀ (p : List Text) {n : ExpandedRecord} {x : Collection × Row},
    WellPlaced rt db viewer n →
      (Placed (expandPath rt db viewer p n) x ↔
        Placed n x ∨ Reach rt db viewer n.coll n.fields p x)
  | [], n, x, hn => ⟨Or.inl, fun h => h.resolve_right fun hr => by cases hr⟩
  | field :: rest, n, x, hn => by
    cases ht : target? db n.coll field with
    | none =>
      rw [expandPath, ht, reach_cons_iff]
      refine ⟨Or.inl, fun h => h.resolve_right ?_⟩
      rintro ⟨t, row, ⟨many, id, ht', -⟩, -⟩
      rw [ht] at ht'
      cases ht'
    | some tm =>
      obtain ⟨t, many⟩ := tm
      rw [expandPath_cons rest hn ht, reach_cons_iff]
      split_ifs with hch
      · refine ⟨Or.inl, fun h => h.resolve_right ?_⟩
        rintro ⟨t', row, hl, -⟩
        obtain ⟨m, hm, -⟩ := exists_child_of_links hn ht hl
        rw [hch] at hm
        cases hm
      rw [placed_iff, placed_iff]
      constructor
      · rintro ⟨f, b, ns, hget, m', hm', hx⟩
        rw [get?_setExpand] at hget
        split_ifs at hget with hf
        · obtain ⟨rfl, rfl⟩ := Prod.mk.inj (Option.some.inj hget)
          obtain ⟨m, hm, rfl⟩ := List.mem_map.1 hm'
          obtain ⟨hlink, hfields, hwell, hold⟩ := links_of_mem_children hn ht hm
          rcases hx with rfl | hx
          · exact Or.inr ⟨m.coll, m.row, hlink, Or.inl (by simp [ExpandedRecord.source])⟩
          rcases (placed_expandPath rest hwell).1 hx with hx | hx
          · rcases hold with hmem | hnone
            · obtain ⟨b, hb⟩ := get?_of_mem_previously hmem
              exact Or.inl ⟨field, b, _, hb, m, hmem, Or.inr hx⟩
            · exact absurd hx (not_placed_of_no_expand hnone)
          · rw [hfields] at hx
            exact Or.inr ⟨m.coll, m.row, hlink, Or.inr hx⟩
        · exact Or.inl ⟨f, b, ns, hget, m', hm', hx⟩
      · have hget : (n.setExpand field many ((children rt db viewer t many n field).map
            (expandPath rt db viewer rest))).expand.get? field = some (many,
              (children rt db viewer t many n field).map (expandPath rt db viewer rest)) := by
          rw [get?_setExpand, if_pos rfl]
        rintro (⟨f, b, ns, hf, m, hm, hx⟩ | ⟨t', row, hl, hx⟩)
        · by_cases hff : field = f
          · subst hff
            have hprev : m ∈ previously n field := by simpa [previously, hf] using hm
            have hmem := mem_children_of_previously hn ht hprev
            refine ⟨field, many, _, hget, _, List.mem_map_of_mem hmem, ?_⟩
            rcases hx with rfl | hx
            · exact Or.inl (by simp [ExpandedRecord.source])
            · exact Or.inr ((placed_expandPath rest (links_of_mem_children hn ht hmem).2.2.1).2
                (Or.inl hx))
          · exact ⟨f, b, ns, by rw [get?_setExpand, if_neg hff, hf], m, hm, hx⟩
        · obtain ⟨m, hm, hsource, hfields, hwell⟩ := exists_child_of_links hn ht hl
          refine ⟨field, many, _, hget, _, List.mem_map_of_mem hm, ?_⟩
          rcases hx with rfl | hx
          · exact Or.inl (by rw [← hsource]; simp [ExpandedRecord.source])
          · refine Or.inr ((placed_expandPath rest hwell).2 (Or.inr ?_))
            rw [hfields, show m.coll = t' from congrArg Prod.fst hsource]
            exact hx

/-! ## What a response places -/

/-- The expanded record holds exactly what one of the requested paths leads to. -/
theorem placed_foldl_expandPath : ∀ (ps : List (List Text)) {n : ExpandedRecord}
    {x : Collection × Row}, WellPlaced rt db viewer n →
      (Placed (ps.foldl (fun n p => expandPath rt db viewer p n) n) x ↔
        Placed n x ∨ ∃ p ∈ ps, Reach rt db viewer n.coll n.fields p x)
  | [], n, x, _ => by simp
  | p :: ps, n, x, hn => by
    rw [List.foldl_cons, placed_foldl_expandPath ps (wellPlaced_expandPath p hn),
      placed_expandPath p hn, expandPath_coll, expandPath_fields]
    simp only [List.mem_cons, exists_eq_or_imp, or_assoc]

theorem placed_expandRecord {expand : Text} {c : Collection} {d : Dict Text Value} :
    Placed (expandRecord rt db viewer expand (root c row d)) x ↔
      ∃ p ∈ parseExpandString expand, Reach rt db viewer c d p x := by
  have hwell : WellPlaced rt db viewer (root c row d) := wellPlaced_of_no_expand rfl
  unfold expandRecord
  rw [placed_foldl_expandPath _ hwell]
  simp only [not_placed_of_no_expand (n := root c row d) rfl, false_or]
  rfl

/-- `expand_records`, on the records of a response. -/
def expandRecords (rt : Runtime) (db : Db) (viewer : Viewer) (expand : Text) (c : Collection)
    (records : List (Row × Dict Text Value)) : List ExpandedRecord :=
  records.map fun r => expandRecord rt db viewer expand (root c r.1 r.2)

/-- Expansion respects the view rules exactly when every record the paths lead to satisfies
the view rule of its collection. -/
theorem expansion_viewable_iff (pg : Pg) (isAdmin : Bool) (ctx : RequestContext) (expand : Text)
    (c : Collection) (records : List (Row × Dict Text Value)) :
    (∀ n ∈ expandRecords rt db viewer expand c records, ∀ x, Placed n x →
        viewable rt pg db isAdmin ctx x = true) ↔
      ∀ r ∈ records, ∀ p ∈ parseExpandString expand, ∀ x, Reach rt db viewer c r.2 p x →
        viewable rt pg db isAdmin ctx x = true := by
  constructor
  · intro h r hr p hp x hx
    have hn : expandRecord rt db viewer expand (root c r.1 r.2) ∈
        expandRecords rt db viewer expand c records :=
      List.mem_map.2 ⟨r, hr, rfl⟩
    exact h _ hn x (placed_expandRecord.2 ⟨p, hp, hx⟩)
  · intro h n hn x hx
    obtain ⟨r, hr, rfl⟩ := List.mem_map.1 hn
    obtain ⟨p, hp, hreach⟩ := placed_expandRecord.1 hx
    exact h r hr p hp x hreach

end

/-- Authors nobody but superusers may view. -/
def privateAuthors : Collection where
  id := "authors"
  name := "authors"
  viewRule := none

def authoredPosts : Collection where
  id := "posts"
  name := "posts"
  schema := [{ name := "author", type := .relation, options := { collectionId := some "authors" } }]
  listRule := some []

def authoredDb : Db where
  collections := [privateAuthors, authoredPosts]
  tables := [("authors", ⟨["id"], [[("id", .text "u1")]]⟩),
    ("posts", ⟨["id", "author"], [[("id", .text "p1"), ("author", .text "u1")]]⟩)]

/-- The response of the post for an anonymous request. -/
def authoredResponse : Dict Text Value :=
  buildRecordResponse .simple authoredPosts [("id", .text "p1"), ("author", .text "u1")] [] none
    (.request none)

/-- A record whose view rule admits no client stands under `expand`. -/
theorem private_author_placed :
    ¬∀ n ∈ expandRecords .simple authoredDb (.request none) "author" authoredPosts
        [([("id", .text "p1"), ("author", .text "u1")], authoredResponse)],
      ∀ x, Placed n x → viewable .simple .scalars authoredDb false {} x = true := by
  intro h
  have hreach : Reach .simple authoredDb (.request none) authoredPosts authoredResponse ["author"]
      (privateAuthors, [("id", .text "u1")]) :=
    .here ⟨false, "u1", rfl, by decide, rfl⟩
  have hplaced : Placed (expandRecord .simple authoredDb (.request none) "author"
      (root authoredPosts [("id", .text "p1"), ("author", .text "u1")] authoredResponse))
      (privateAuthors, [("id", .text "u1")]) :=
    placed_expandRecord.2 ⟨["author"], by decide, hreach⟩
  exact absurd (h _ List.mem_cons_self _ hplaced) (by decide)

end Expand

end PPBase
