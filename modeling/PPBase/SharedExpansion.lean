import PPBase.Expand
import PPBase.ObjectGraph

/-!
# Expansion of shared records

`expand_records` works on the dicts of a response in place : the records it fetches for a batch are
shared by all records that refer to them, and later paths find what earlier ones placed. Here the
dicts lie in a `Heap` and refer to each other by address. `grown_expandPath` : a path grows the
graph of the records as `growth` says, so that what is shown depends on the set of the paths only
(`shown_congr`). `expansion_independent_iff` : each record of a batch shows what it shows alone,
exactly if no record looks up the text of a value that was passed over when the ids were collected,
where only other records bring that id in (`Separate`). `null_member_shown` : the member null of a
multiple relation is such a value, its text is `None`.
-/

namespace PPBase

namespace SharedExpansion

open ObjectGraph Expand

/-- A record of a response : what it shows, and the `expand` object, which refers to other
records. An entry is a list for a multiple relation. -/
structure Record where
  fields : Dict Text Value
  expand : Option (Dict Text (Bool × List ℕ)) := none

/-- The records by their addresses. -/
abbrev Heap := List Record

/-- What the records hold and refer to. -/
def graph (h : Heap) : RefGraph Text (Dict Text Value) where
  size := h.length
  data a := (h[a]?.map Record.fields).getD []
  refs a field := (h[a]?.bind Record.expand).bind fun e => e.get? field

section

variable (rt : Runtime) (db : Db) (viewer : Viewer)

/-- The ids that a value adds to `all_ids`. -/
def collectedIds : Option Value → List Text
  | none | some .null => []
  | some (.list vs) => (vs.filter Value.truthy).map (Macros.idText rt)
  | some v => if v.truthy then [Macros.idText rt v] else []

/-- The ids under which the related records of a value are looked up. -/
def lookedUpIds (many : Bool) : Option Value → List Text
  | none | some .null => []
  | some v =>
    match many, v with
    | true, .list vs => vs.map (Macros.idText rt)
    | true, _ => []
    | false, v => [if v.truthy then Macros.idText rt v else []]

/-- `row_dict["id"]` -/
def rowId? (row : Row) : Option Text :=
  match row.get? "id" with
  | some (.text id) => some id
  | _ => none

/-- `_batch_fetch_records` -/
def batchFetchRecords (t : Collection) (ids : List Text) : Dict Text Row :=
  ((db.rows t.name).filterMap fun row => (rowId? row).bind fun id =>
    if id ∈ ids then some (id, row) else none).foldl (fun d e => d.set e.1 e.2) []

/-- `related_responses`, with the addresses at which its records are built. -/
def relatedResponses (size : ℕ) (rows : Dict Text Row) : Dict Text ℕ :=
  (rows.zipIdx size).map fun e => (e.1.1, e.2)

/-- The records of `related_responses`. -/
def builtRecords (t : Collection) (rows : Dict Text Row) : Heap :=
  rows.map fun e => { fields := response rt viewer t e.2 }

/-- `str(item.get("id"))` -/
def shownId (h : Heap) (a : ℕ) : Text :=
  Macros.idText rt (((graph h).data a |>.get? "id").getD .null)

/-- `previous_by_id` -/
def previousById (h : Heap) (previous : List ℕ) : Dict Text ℕ :=
  previous.foldl (fun d a => d.set (shownId rt h a) a) []

/-- The records that a value places, those of `previous` where it has the id already. -/
def place (h : Heap) (related : Dict Text ℕ) (many : Bool) (v : Option Value)
    (previous : List ℕ) : List ℕ :=
  (lookedUpIds rt many v).filterMap fun id =>
    (related.get? id).map fun a => ((previousById rt h previous).get? id).getD a

/-- The related records attached to one record. -/
def attach (related : Dict Text ℕ) (field : Text) (many : Bool) (h : Heap) (a : ℕ) : Heap :=
  match h[a]? with
  | none => h
  | some record =>
    let expand := record.expand.getD []
    let placed := place rt h related many (record.fields.get? field)
      (((expand.get? field).map Prod.snd).getD [])
    h.set a { record with
      expand := some (if placed = [] then expand else expand.set field (many, placed)) }

/-- `_expand_path` -/
def expandPath (depth : ℕ) : Collection → List ℕ → List Text → Heap → Heap
  | _, _, [], h => h
  | c, records, field :: remaining, h =>
    if maxDepth ≤ depth then h
    else
      match target? db c field with
      | none => h
      | some (t, many) =>
        let allIds := records.flatMap fun a => collectedIds rt (((graph h).data a).get? field)
        if allIds = [] then h
        else
          let rows := batchFetchRecords db t allIds
          let attached := records.foldl (attach rt (relatedResponses h.length rows) field many)
            (h ++ builtRecords rt viewer t rows)
          let nested := records.flatMap ((graph attached).children field)
          if remaining ≠ [] ∧ nested ≠ [] then
            expandPath (depth + 1) t nested remaining attached
          else attached

/-- `expand_records` -/
def expandRecords (c : Collection) (records : List (Dict Text Value)) (expand : Text) : Heap :=
  (parseExpandString expand).foldl
    (fun h path => expandPath rt db viewer 0 c (List.range records.length) path h)
    (records.map fun d => { fields := d })

/-- The records as they are shown with their `expand` objects, down to a depth. -/
def shown (depth : ℕ) (c : Collection) (records : List (Dict Text Value)) (expand : Text) :
    List (ObjectTree Text (Dict Text Value)) :=
  (List.range records.length).map
    ((graph (expandRecords rt db viewer c records expand)).unfold depth)

end

section

variable {rt : Runtime} {db : Db} {viewer : Viewer}

/-! ## What is fetched and built -/

/-- The row that is kept for an id. -/
def storedRow? (db : Db) (t : Collection) (id : Text) : Option Row :=
  (db.rows t.name).reverse.find? fun row => rowId? row = some id

theorem rowId?_storedRow? {t : Collection} {id : Text} {row : Row}
    (h : storedRow? db t id = some row) : rowId? row = some id := by
  simpa using List.find?_some h

theorem get?_batchFetchRecords (t : Collection) (ids : List Text) (id : Text) :
    (batchFetchRecords db t ids).get? id = if id ∈ ids then storedRow? db t id else none := by
  rw [batchFetchRecords, Dict.get?_foldl_set_eq_find? Prod.fst Prod.snd, storedRow?,
    ← List.filterMap_reverse, Dict.get?_nil, Option.or_none]
  induction (db.rows t.name).reverse with
  | nil => simp
  | cons row rows ih =>
    rw [List.filterMap_cons, List.find?_cons]
    cases hrow : rowId? row with
    | none => simpa using ih
    | some id' =>
      by_cases hmem : id' ∈ ids <;> by_cases hid : id' = id <;> simp_all

theorem get?_relatedResponses (rows : Dict Text Row) (size : ℕ) (id : Text) :
    ((relatedResponses size rows).get? id = none ∧ rows.get? id = none) ∨
      ∃ i e, rows[i]? = some e ∧ rows.get? id = some e.2 ∧
        (relatedResponses size rows).get? id = some (size + i) := by
  induction rows generalizing size with
  | nil => exact Or.inl ⟨rfl, rfl⟩
  | cons e rows ih =>
    have hcons : (relatedResponses size (e :: rows)).get? id =
        if e.1 = id then some size else (relatedResponses (size + 1) rows).get? id := rfl
    have hrows : Dict.get? (e :: rows) id = if e.1 = id then some e.2 else Dict.get? rows id := rfl
    rw [hcons, hrows]
    split_ifs with hid
    · exact Or.inr ⟨0, e, rfl, rfl, rfl⟩
    · rcases ih (size + 1) with h | ⟨i, e', hi, hrow, hget⟩
      · exact Or.inl h
      · refine Or.inr ⟨i + 1, e', hi, hrow, ?_⟩
        rw [hget, Nat.add_right_comm, Nat.add_assoc]

theorem length_builtRecords (t : Collection) (rows : Dict Text Row) :
    (builtRecords rt viewer t rows).length = rows.length := List.length_map _

/-- A related record is new and shows the row that was fetched for its id. -/
theorem related_spec (rt : Runtime) (viewer : Viewer) (h : Heap) (t : Collection)
    (rows : Dict Text Row) (id : Text) :
    ((relatedResponses h.length rows).get? id = none ∧ rows.get? id = none) ∨
      ∃ a row, (relatedResponses h.length rows).get? id = some a ∧ rows.get? id = some row ∧
        h.length ≤ a ∧ a < (h ++ builtRecords rt viewer t rows).length ∧
        (graph (h ++ builtRecords rt viewer t rows)).data a = response rt viewer t row := by
  rcases get?_relatedResponses rows h.length id with
    hnone | ⟨i, e, hi, hrow, hget⟩
  · exact Or.inl hnone
  · have hlt : i < rows.length := (List.getElem?_eq_some_iff.1 hi).1
    refine Or.inr ⟨_, _, hget, hrow, Nat.le_add_right _ _, ?_, ?_⟩
    · rw [List.length_append, length_builtRecords]
      omega
    · show ((h ++ builtRecords rt viewer t rows)[h.length + i]?.map Record.fields).getD [] = _
      rw [List.getElem?_append_right (Nat.le_add_right _ _), Nat.add_sub_cancel_left, builtRecords,
        List.getElem?_map, hi]
      rfl

/-! ## What the growth of the records is -/

/-- What a value should place, of the records fetched for the ids. -/
def linksOf (rt : Runtime) (db : Db) (viewer : Viewer) (t : Collection) (many : Bool)
    (ids : List Text) (v : Option Value) : List (Dict Text Value) :=
  (lookedUpIds rt many v).filterMap fun id =>
    ((batchFetchRecords db t ids).get? id).map (response rt viewer t)

/-- The entry of an `expand` object, if anything is placed. -/
def entryOf {α : Type*} (many : Bool) (placed : List α) : Option (Bool × List α) :=
  if placed = [] then none else some (many, placed)

theorem entryOf_nil {α : Type*} (many : Bool) : entryOf many ([] : List α) = none := rfl

theorem entryOf_getD {α : Type*} (many : Bool) (placed : List α) :
    ((entryOf many placed).map Prod.snd).getD [] = placed := by
  cases placed <;> rfl

/-- The ids that records bring in under a field. -/
def batchIds (rt : Runtime) (ds : List (Dict Text Value)) (field : Text) : List Text :=
  ds.flatMap fun d => collectedIds rt (d.get? field)

/-- The records of a batch, with their collection. -/
abbrev Batch := Option (Collection × List (Dict Text Value))

/-- What should stand under a field of a record of the batch. -/
def links (rt : Runtime) (db : Db) (viewer : Viewer) (batch : Batch) (d : Dict Text Value)
    (field : Text) : Option (Bool × List (Dict Text Value)) :=
  batch.bind fun b => (target? db b.1 field).bind fun tm =>
    entryOf tm.2 (linksOf rt db viewer tm.1 tm.2 (batchIds rt b.2 field) (d.get? field))

/-- The batch that a field of a batch leads to. -/
def nextBatch (rt : Runtime) (db : Db) (viewer : Viewer) (batch : Batch) (field : Text) : Batch :=
  batch.bind fun b => (target? db b.1 field).map fun tm =>
    (tm.1, b.2.flatMap fun d =>
      linksOf rt db viewer tm.1 tm.2 (batchIds rt b.2 field) (d.get? field))

/-- What the records of a response grow to. -/
def growth (rt : Runtime) (db : Db) (viewer : Viewer) : Growth Text (Dict Text Value) Batch where
  links := links rt db viewer
  next := nextBatch rt db viewer
  batch b := (b.map Prod.snd).getD []
  batch_next b field := by
    cases b with
    | none => rfl
    | some b =>
      cases ht : target? db b.1 field with
      | none => simp [nextBatch, links, ht]
      | some tm =>
        simp only [nextBatch, links, ht, Option.bind_some, Option.map_some, Option.getD_some,
          entryOf_getD]

/-! ## What attaching does -/

variable {h : Heap}

theorem get?_previousById {previous : List ℕ} {id : Text} :
    (previousById rt h previous).get? id = previous.reverse.find? fun a => shownId rt h a = id := by
  rw [previousById, Dict.get?_foldl_set_eq_find? (shownId rt h) (fun a => a)]
  simp

theorem shownId_of_data {a : ℕ} {t : Collection} {row : Row} {id : Text}
    (ha : (graph h).data a = response rt viewer t row) (hid : rowId? row = some id) :
    shownId rt h a = id := by
  have hrow : row.get? "id" = some (.text id) := by
    unfold rowId? at hid
    split at hid
    · rename_i id' heq
      rw [heq, Option.some.inj hid]
    · cases hid
  unfold shownId
  rw [ha, get?_id_response hrow]
  rfl

/-- What is placed is what should be, if the records placed before are : each is one of them or a
related one. -/
theorem place_spec {h₁ : Heap} {t : Collection} {many : Bool} {ids : List Text} {v : Option Value}
    {previous : List ℕ}
    (hdata : ∀ a, (graph h₁).data a = (graph (h ++ builtRecords rt viewer t (batchFetchRecords db t ids))).data a)
    (hprev : previous = [] ∨ previous.map (graph h₁).data = linksOf rt db viewer t many ids v) :
    (place rt h₁ (relatedResponses h.length (batchFetchRecords db t ids)) many v previous).map
        (graph h₁).data = linksOf rt db viewer t many ids v ∧
      ∀ a ∈ place rt h₁ (relatedResponses h.length (batchFetchRecords db t ids)) many v previous,
        a ∈ previous ∨ previous = [] ∧ h.length ≤ a ∧ a < (h ++ builtRecords rt viewer t
          (batchFetchRecords db t ids)).length := by
  set related := relatedResponses h.length (batchFetchRecords db t ids) with hrelated
  -- the record picked for an id that was looked up
  have hpick : ∀ id ∈ lookedUpIds rt many v, ∀ a, related.get? id = some a →
      ∃ row, (batchFetchRecords db t ids).get? id = some row ∧
        (graph h₁).data (((previousById rt h₁ previous).get? id).getD a) =
          response rt viewer t row ∧
        (((previousById rt h₁ previous).get? id).getD a ∈ previous ∨
          previous = [] ∧ h.length ≤ ((previousById rt h₁ previous).get? id).getD a ∧
            ((previousById rt h₁ previous).get? id).getD a <
              (h ++ builtRecords rt viewer t (batchFetchRecords db t ids)).length) := by
    intro id hid a ha
    obtain ⟨hnone, -⟩ | ⟨a', row, ha', hrow, hle, hlt, hshows⟩ :=
      related_spec rt viewer h t (batchFetchRecords db t ids) id
    · rw [← hrelated, ha] at hnone
      cases hnone
    rw [← hrelated, ha] at ha'
    obtain rfl := Option.some.inj ha'
    refine ⟨row, hrow, ?_⟩
    have hstored : storedRow? db t id = some row := by
      rw [get?_batchFetchRecords] at hrow
      split_ifs at hrow
      exact hrow
    rcases hprev with rfl | hprev
    · exact ⟨(hdata a).trans hshows, Or.inr ⟨rfl, hle, hlt⟩⟩
    · have hmem : response rt viewer t row ∈ previous.map (graph h₁).data := by
        rw [hprev]
        exact List.mem_filterMap.2 ⟨id, hid, by rw [hrow]; rfl⟩
      obtain ⟨b, hb, hbdata⟩ := List.mem_map.1 hmem
      cases hfind : (previousById rt h₁ previous).get? id with
      | none =>
        rw [get?_previousById, List.find?_eq_none] at hfind
        refine absurd (hfind b (List.mem_reverse.2 hb)) (not_not.2 ?_)
        exact decide_eq_true (shownId_of_data hbdata (rowId?_storedRow? hstored))
      | some b' =>
        rw [get?_previousById] at hfind
        have hb' : b' ∈ previous := List.mem_reverse.1 (List.mem_of_find?_eq_some hfind)
        have hshown : shownId rt h₁ b' = id := by simpa using List.find?_some hfind
        have hmem' : (graph h₁).data b' ∈ linksOf rt db viewer t many ids v := by
          rw [← hprev]
          exact List.mem_map_of_mem hb'
        obtain ⟨id', -, hid'⟩ := List.mem_filterMap.1 hmem'
        obtain ⟨row', hrow', hdata'⟩ := Option.map_eq_some_iff.1 hid'
        rw [get?_batchFetchRecords] at hrow'
        split_ifs at hrow' with hmem
        obtain rfl : id' = id :=
          (shownId_of_data hdata'.symm (rowId?_storedRow? hrow')).symm.trans hshown
        obtain rfl := Option.some.inj (hrow'.symm.trans hstored)
        exact ⟨hdata'.symm, Or.inl hb'⟩
  constructor
  · unfold place linksOf
    rw [List.map_filterMap]
    refine List.filterMap_congr fun id hid => ?_
    obtain ⟨hnone, hrow⟩ | ⟨a, row, ha, hrow, -⟩ :=
      related_spec rt viewer h t (batchFetchRecords db t ids) id
    · rw [← hrelated] at hnone
      rw [hnone, hrow]
      rfl
    · rw [← hrelated] at ha
      obtain ⟨row', hrow', hshows, -⟩ := hpick id hid a ha
      rw [ha, hrow']
      exact congrArg some hshows
  · intro a ha
    obtain ⟨id, hid, hsome⟩ := List.mem_filterMap.1 ha
    obtain ⟨a', ha', rfl⟩ := Option.map_eq_some_iff.1 hsome
    obtain ⟨-, -, -, hor⟩ := hpick id hid a' ha'
    exact hor

/-! ## One path -/

theorem graph_attach (rt : Runtime) (related : Dict Text ℕ) (field : Text) (many : Bool) {a : ℕ}
    (ha : a < h.length) :
    (graph (attach rt related field many h a)).size = h.length ∧
      (∀ b, (graph (attach rt related field many h a)).data b = (graph h).data b) ∧
      (∀ b k, ¬(b = a ∧ k = field) →
        (graph (attach rt related field many h a)).refs b k = (graph h).refs b k) ∧
      (graph (attach rt related field many h a)).refs a field =
        if place rt h related many (((graph h).data a).get? field)
            ((graph h).children field a) = [] then (graph h).refs a field
        else some (many, place rt h related many (((graph h).data a).get? field)
          ((graph h).children field a)) := by
  have hget : h[a]? = some h[a] := List.getElem?_eq_getElem ha
  have hdata : (graph h).data a = h[a].fields := by
    show (h[a]?.map Record.fields).getD [] = _
    rw [hget]
    rfl
  have hrefs : ∀ k, (graph h).refs a k = (h[a].expand.getD []).get? k := by
    intro k
    show (h[a]?.bind Record.expand).bind _ = _
    rw [hget, Option.bind_some]
    cases h[a].expand <;> rfl
  have hattach : attach rt related field many h a = h.set a { h[a] with
      expand := some (if place rt h related many (((graph h).data a).get? field)
          ((graph h).children field a) = [] then h[a].expand.getD []
        else (h[a].expand.getD []).set field (many, place rt h related many
          (((graph h).data a).get? field) ((graph h).children field a))) } := by
    unfold attach RefGraph.children
    rw [hget, hdata, hrefs]
  set placed := place rt h related many (((graph h).data a).get? field)
    ((graph h).children field a)
  have hexpand : ∀ k, (graph (attach rt related field many h a)).refs a k =
      (if placed = [] then h[a].expand.getD [] else
        (h[a].expand.getD []).set field (many, placed)).get? k := by
    intro k
    show ((attach rt related field many h a)[a]?.bind Record.expand).bind _ = _
    rw [hattach, List.getElem?_set_self ha]
    rfl
  refine ⟨?_, fun b => ?_, fun b k hbk => ?_, ?_⟩
  · show (attach rt related field many h a).length = _
    rw [hattach, List.length_set]
  · show ((attach rt related field many h a)[b]?.map Record.fields).getD [] = _
    rw [hattach]
    by_cases hb : a = b
    · subst hb
      rw [List.getElem?_set_self ha, hdata]
      rfl
    · rw [List.getElem?_set_ne hb]
      rfl
  · by_cases hb : b = a
    · subst hb
      rw [hexpand, hrefs]
      split_ifs
      · rfl
      · exact Dict.get?_set_ne _ _ fun hk => hbk ⟨rfl, hk.symm⟩
    · show ((attach rt related field many h a)[b]?.bind Record.expand).bind _ = _
      rw [hattach, List.getElem?_set_ne (Ne.symm hb)]
      rfl
  · rw [hexpand, hrefs]
    split_ifs
    · rfl
    · exact Dict.get?_set_self _ _ _

/-- The records built are new, and nothing is placed under them. -/
theorem graph_append (h built : Heap) (hnone : ∀ r ∈ built, r.expand = none) :
    (∀ a < h.length, (graph (h ++ built)).data a = (graph h).data a ∧
        (graph (h ++ built)).refs a = (graph h).refs a) ∧
      ∀ a, h.length ≤ a → ∀ k, (graph (h ++ built)).refs a k = none := by
  refine ⟨fun a ha => ?_, fun a ha k => ?_⟩
  · have hget : (h ++ built)[a]? = h[a]? := List.getElem?_append_left ha
    constructor
    · show ((h ++ built)[a]?.map Record.fields).getD [] = _
      rw [hget]
      rfl
    · funext k
      show ((h ++ built)[a]?.bind Record.expand).bind _ = _
      rw [hget]
      rfl
  · show ((h ++ built)[a]?.bind Record.expand).bind _ = none
    rw [List.getElem?_append_right ha]
    cases hget : built[a - h.length]? with
    | none => rfl
    | some r =>
      rw [Option.bind_some, hnone r (List.mem_of_getElem? hget)]
      rfl

section

variable {h : Heap} {roots : List ℕ} {s : Batch} {S : Set (List Text)} {path : List Text}
  {field : Text} {c t : Collection} {ds : List (Dict Text Value)} {many : Bool}

/-- The records after some of a batch were attached to : each refers under the field to what it did
or to what it should. -/
structure Attaching (rt : Runtime) (db : Db) (viewer : Viewer) (t : Collection) (field : Text)
    (many : Bool) (ids : List Text) (h : Heap) (records : List ℕ) (followed : Prop)
    (done : List ℕ) (h' : Heap) : Prop where
  size : h'.length =
    (h ++ builtRecords rt viewer t (batchFetchRecords db t ids)).length
  data : ∀ a, (graph h').data a =
    (graph (h ++ builtRecords rt viewer t (batchFetchRecords db t ids))).data a
  elsewhere : ∀ a k, ¬(a ∈ records ∧ k = field) → (graph h').refs a k =
    (graph (h ++ builtRecords rt viewer t (batchFetchRecords db t ids))).refs a k
  here : ∀ a ∈ records, ((graph h').refs a field = none ∧ ¬followed ∧ a ∉ done) ∨
    (graph h').refsData a field =
      entryOf many (linksOf rt db viewer t many ids (((graph h).data a).get? field))
  old_or_fresh : ∀ a ∈ records, ∀ b ∈ (graph h').children field a,
    b ∈ (graph h).children field a ∨
      ¬followed ∧ h.length ≤ b ∧ b < (graph h').size

theorem attaching_foldl {ids : List Text} {records : List ℕ} {followed : Prop}
    (hrecords : ∀ a ∈ records, a < h.length) : ∀ (todo : List ℕ) {done : List ℕ} {h' : Heap},
    todo ⊆ records →
    Attaching rt db viewer t field many ids h records followed done h' →
    Attaching rt db viewer t field many ids h records followed (done ++ todo)
      (todo.foldl
        (attach rt (relatedResponses h.length (batchFetchRecords db t ids)) field many) h')
  | [], done, h', _, hatt => by simpa using hatt
  | a :: todo, done, h', hsub, hatt => by
    obtain ⟨ha, hsub⟩ := List.cons_subset.1 hsub
    rw [List.foldl_cons, List.append_cons]
    refine attaching_foldl hrecords todo hsub ?_
    have hlt : a < h.length := hrecords a ha
    have halt : a < h'.length := by
      rw [hatt.size, List.length_append]
      omega
    obtain ⟨hsize, hdata, helse, hset⟩ := graph_attach rt
      (relatedResponses h.length (batchFetchRecords db t ids)) field many halt
    have hdata_a : (graph h').data a = (graph h).data a := by
      rw [hatt.data]
      refine ((graph_append h _ fun r hr => ?_).1 a hlt).1
      obtain ⟨e, -, rfl⟩ := List.mem_map.1 hr
      rfl
    rw [hdata_a] at hset
    have hprev : (graph h').children field a = [] ∨ ((graph h').children field a).map
        (graph h').data = linksOf rt db viewer t many ids (((graph h).data a).get? field) := by
      rcases hatt.here a ha with ⟨hnone, -⟩ | hdone
      · left
        unfold RefGraph.children
        rw [hnone]
        rfl
      · rw [RefGraph.map_data_children, hdone, entryOf_getD]
        exact Or.inr rfl
    obtain ⟨hplace, hmem⟩ := place_spec hatt.data hprev
    set placed := place rt h' (relatedResponses h.length (batchFetchRecords db t ids)) many
      (((graph h).data a).get? field) ((graph h').children field a)
    set h'' := attach rt (relatedResponses h.length (batchFetchRecords db t ids)) field many h' a
    have hchildren : ∀ b, b ≠ a → (graph h'').children field b = (graph h').children field b := by
      intro b hb
      unfold RefGraph.children
      rw [helse b field fun hba => hb hba.1]
    refine ⟨hsize.trans hatt.size, fun b => (hdata b).trans (hatt.data b), fun b k hbk => ?_,
      fun b hb => ?_, fun b hb x hx => ?_⟩
    · rw [helse b k fun hba => hbk ⟨hba.1 ▸ ha, hba.2⟩]
      exact hatt.elsewhere b k hbk
    · by_cases hba : b = a
      · subst hba
        right
        unfold RefGraph.refsData
        by_cases hplaced : placed = []
        · rw [if_pos hplaced] at hset
          rw [hset, ← hplace, hplaced, List.map_nil, entryOf_nil, Option.map_eq_none_iff]
          rcases hatt.here b hb with ⟨hnone, -⟩ | hdone
          · exact hnone
          · rw [← hplace, hplaced, List.map_nil, entryOf_nil] at hdone
            exact Option.map_eq_none_iff.1 hdone
        · rw [if_neg hplaced] at hset
          rw [hset, ← hplace, Option.map_some, List.map_congr_left fun x _ => hdata x, entryOf,
            if_neg (mt List.map_eq_nil_iff.1 hplaced)]
      · rw [helse b field fun h => hba h.1,
          Grown.refsData_congr (helse b field fun h => hba h.1) fun x _ => hdata x]
        refine (hatt.here b hb).imp_left fun hnone => ⟨hnone.1, hnone.2.1, fun hmem => ?_⟩
        rcases List.mem_append.1 hmem with hmem | hmem
        · exact hnone.2.2 hmem
        · exact hba (List.mem_singleton.1 hmem)
    · rw [hsize, ← show (graph h').size = h'.length from rfl]
      by_cases hba : b = a
      · subst hba
        by_cases hplaced : placed = []
        · rw [if_pos hplaced] at hset
          unfold RefGraph.children at hx
          rw [hset] at hx
          exact hatt.old_or_fresh b hb x hx
        rw [if_neg hplaced] at hset
        have hx : x ∈ placed := by
          unfold RefGraph.children at hx
          rwa [hset] at hx
        rcases hmem x hx with hold | ⟨hnil, hle, hlt⟩
        · exact hatt.old_or_fresh b hb x hold
        · right
          rw [show (graph h').size = h'.length from rfl, hatt.size]
          refine ⟨?_, hle, hlt⟩
          rcases hatt.here b hb with ⟨-, hnot, -⟩ | hdone
          · exact hnot
          -- nothing was placed, though what should be is there already : nothing should be
          have hmap := RefGraph.map_data_children (g := graph h') field b
          rw [hdone, hnil, ← hplace, entryOf_getD] at hmap
          exact absurd (List.map_eq_nil_iff.1 hmap.symm) hplaced
      · rw [hchildren b hba] at hx
        exact hatt.old_or_fresh b hb x hx

/-- What a field places along a path of a grown graph. -/
theorem attached_of_expandPath (hG : Grown (growth rt db viewer) (graph h) roots s S)
    (hs : (growth rt db viewer).after s path = some (c, ds))
    (ht : target? db c field = some (t, many)) :
    Grown.Attached (growth rt db viewer) (graph h)
      (graph (((graph h).reached roots path).foldl
        (attach rt (relatedResponses h.length
          (batchFetchRecords db t (batchIds rt ds field))) field many)
        (h ++ builtRecords rt viewer t (batchFetchRecords db t (batchIds rt ds field)))))
      roots s S path field := by
  set ids := batchIds rt ds field with hids
  set records := (graph h).reached roots path with hrecords
  have hlt : ∀ a ∈ records, a < h.length := hG.bounded path
  have happend := graph_append h (builtRecords rt viewer t (batchFetchRecords db t ids))
    fun r hr => by
      obtain ⟨e, -, rfl⟩ := List.mem_map.1 hr
      rfl
  have hlinks : ∀ d, (growth rt db viewer).links ((growth rt db viewer).after s path) d field =
      entryOf many (linksOf rt db viewer t many ids (d.get? field)) := by
    intro d
    rw [hs]
    show links rt db viewer (some (c, ds)) d field = _
    simp only [links, Option.bind_some, ht, hids]
  have hstart : Attaching rt db viewer t field many ids h records (path ++ [field] ∈ S) []
      (h ++ builtRecords rt viewer t (batchFetchRecords db t ids)) := by
    refine ⟨rfl, fun _ => rfl, fun _ _ _ => rfl, fun a ha => ?_, fun a ha b hb => Or.inl ?_⟩
    · by_cases hfollowed : path ++ [field] ∈ S
      · right
        rw [← hlinks, ← hG.followed path a field ha hfollowed]
        refine Grown.refsData_congr (congrFun (happend.1 a (hlt a ha)).2 field) fun b hb => ?_
        exact (happend.1 b (hG.bounded (path ++ [field]) b
          (RefGraph.mem_reached_append_singleton.2 ⟨a, ha, hb⟩))).1
      · left
        rw [congrFun (happend.1 a (hlt a ha)).2 field]
        exact ⟨hG.unfollowed path a field ha hfollowed, hfollowed, List.not_mem_nil⟩
    · rw [RefGraph.mem_children] at hb ⊢
      rwa [congrFun (happend.1 a (hlt a ha)).2 field] at hb
  have hatt := attaching_foldl hlt records (List.Subset.refl records) hstart
  have hsize : h.length ≤ (h ++ builtRecords rt viewer t (batchFetchRecords db t ids)).length := by
    rw [List.length_append]
    omega
  refine ⟨hsize.trans_eq hatt.size.symm, fun a ha => (hatt.data a).trans (happend.1 a ha).1,
    fun a ha k hk => ?_, fun a ha _ k => ?_, fun a ha => ?_, fun a ha b hb => ?_⟩
  · rw [hatt.elsewhere a k fun h => hk h.1 h.2]
    exact congrFun (happend.1 a ha).2 k
  · rw [hatt.elsewhere a k fun h => absurd (hlt a h.1) (not_lt.2 ha)]
    exact happend.2 a ha k
  · rcases hatt.here a ha with ⟨-, -, hnot⟩ | hdone
    · exact absurd ha hnot
    · rw [hdone, ← hlinks]
  · exact (hatt.old_or_fresh a ha b hb)

/-- A path keeps the records grown, and follows its fields. -/
theorem grown_expandPath : ∀ (rest : List Text) {depth : ℕ} {h : Heap} {S : Set (List Text)}
    {path : List Text} {c : Collection} {ds : List (Dict Text Value)},
    depth + rest.length ≤ maxDepth →
    Grown (growth rt db viewer) (graph h) roots s S → path ∈ S →
    (growth rt db viewer).after s path = some (c, ds) →
    Grown (growth rt db viewer)
      (graph (expandPath rt db viewer depth c ((graph h).reached roots path) rest h)) roots s
      (S ∪ Growth.prefixes path rest)
  | [], depth, h, S, path, c, ds, _, hG, hp, _ => by
    rw [Growth.prefixes_nil, Set.union_singleton, Set.insert_eq_of_mem hp, expandPath]
    exact hG
  | field :: rest, depth, h, S, path, c, ds, hdepth, hG, hp, hs => by
    rw [List.length_cons] at hdepth
    have hset : S ∪ Growth.prefixes path (field :: rest) =
        insert (path ++ [field]) S ∪ Growth.prefixes (path ++ [field]) rest := by
      rw [Growth.prefixes_cons]
      ext q
      have hself : path ++ [field] ∈ Growth.prefixes (path ++ [field]) rest :=
        ⟨[], List.nil_prefix, by simp⟩
      simp only [Set.mem_union, Set.mem_insert_iff]
      grind
    have hmem : path ++ [field] ∈ insert (path ++ [field]) S := Set.mem_insert _ _
    -- where nothing should be placed, the further fields of the path lead nowhere
    have hskip : (∀ d, (growth rt db viewer).links ((growth rt db viewer).after s path) d field =
        none) → Grown (growth rt db viewer) (graph h) roots s
          (insert (path ++ [field]) S ∪ Growth.prefixes (path ++ [field]) rest) := by
      intro hnone
      have hrefs : ∀ a ∈ (graph h).reached roots path, (graph h).refsData a field = none := by
        intro a ha
        by_cases hk : path ++ [field] ∈ S
        · rw [hG.followed path a field ha hk, hnone]
        · exact Option.map_eq_none_iff.2 (hG.unfollowed path a field ha hk)
      refine (hG.attach hp ⟨le_rfl, fun _ _ => rfl, fun _ _ _ _ => rfl, fun a hle hlt => ?_,
        fun a ha => ?_, fun _ _ _ hb => Or.inl hb⟩).of_unreached hmem ?_ rest
      · exact absurd hlt (not_lt.2 hle)
      · rw [hrefs a ha, hnone]
      · rw [RefGraph.reached_append_singleton, List.flatMap_eq_nil_iff]
        exact fun a ha => RefGraph.children_of_refsData_none (hrefs a ha)
    have hids : ((graph h).reached roots path).flatMap (fun a =>
        collectedIds rt (((graph h).data a).get? field)) = batchIds rt ds field := by
      have hbatch := hG.map_data hp
      rw [hs] at hbatch
      have hds : ((graph h).reached roots path).map (graph h).data = ds := hbatch
      rw [batchIds, ← hds, List.flatMap_map]
    have hlinks : ∀ d, (growth rt db viewer).links ((growth rt db viewer).after s path) d field =
        links rt db viewer (some (c, ds)) d field := by
      intro d
      rw [hs]
      rfl
    rw [hset, expandPath, if_neg (by omega)]
    cases ht : target? db c field with
    | none => exact hskip fun d => by simp [hlinks, links, ht]
    | some tm =>
      obtain ⟨t, many⟩ := tm
      have hatt := attached_of_expandPath hG hs ht
      have hgrown := hG.attach hp hatt
      have hnested := hG.flatMap_children_of_attached hatt
      dsimp only
      rw [hids]
      split_ifs with hnil hdeeper
      · refine hskip fun d => ?_
        have hplaced : linksOf rt db viewer t many (batchIds rt ds field) (d.get? field) = [] := by
          refine List.filterMap_eq_nil_iff.2 fun id _ => ?_
          rw [get?_batchFetchRecords, hnil]
          rfl
        simp [hlinks, links, ht, hplaced, entryOf_nil]
      · rw [hnested]
        have hnext : (growth rt db viewer).after s (path ++ [field]) =
            some (t, ds.flatMap fun d =>
              linksOf rt db viewer t many (batchIds rt ds field) (d.get? field)) := by
          rw [Growth.after_append_singleton, hs]
          show nextBatch rt db viewer (some (c, ds)) field = _
          simp only [nextBatch, Option.bind_some, ht, Option.map_some]
        exact grown_expandPath rest (by omega) hgrown hmem hnext
      · rcases not_and_or.1 hdeeper with hrest | hnone
        · rw [not_not.1 hrest, Growth.prefixes_nil, Set.union_singleton, Set.insert_eq_of_mem hmem]
          exact hgrown
        · rw [hnested] at hnone
          exact hgrown.of_unreached hmem (not_not.1 hnone) rest

end

/-! ## All paths -/

/-- The beginnings of the paths of an expansion. -/
def pathSet (paths : List (List Text)) : Set (List Text) := {q | q = [] ∨ ∃ p ∈ paths, q <+: p}

theorem grown_expandRecords (rt : Runtime) (db : Db) (viewer : Viewer) (c : Collection)
    (records : List (Dict Text Value)) (expand : Text) :
    Grown (growth rt db viewer) (graph (expandRecords rt db viewer c records expand))
      (List.range records.length) (some (c, records)) (pathSet (parseExpandString expand)) := by
  have hroots : (List.range records.length).map
      (graph (records.map fun d => { fields := d })).data = records := by
    refine List.ext_getElem (by simp) fun i hi hi' => ?_
    rw [List.getElem_map, List.getElem_range]
    show (((records.map fun d => ({ fields := d } : Record))[i]?).map Record.fields).getD [] = _
    rw [List.getElem?_map, List.getElem?_eq_getElem hi']
    rfl
  have hstart : Grown (growth rt db viewer) (graph (records.map fun d => { fields := d }))
      (List.range records.length) (some (c, records)) (pathSet []) := by
    have hset : pathSet [] = {[]} := by
      ext q
      simp [pathSet]
    rw [hset]
    refine Grown.of_no_refs hroots (fun a ha => ?_) fun a field => ?_
    · show a < (records.map fun d => ({ fields := d } : Record)).length
      rw [List.length_map]
      exact List.mem_range.1 ha
    · show (((records.map fun d => ({ fields := d } : Record))[a]?).bind Record.expand).bind _ =
        none
      rw [List.getElem?_map]
      cases records[a]? <;> rfl
  -- the paths that were followed so far, with those that are left
  have hrun : ∀ (todo done : List (List Text)) (h : Heap), (∀ p ∈ todo, p.length ≤ maxDepth) →
      Grown (growth rt db viewer) (graph h) (List.range records.length) (some (c, records))
        (pathSet done) →
      Grown (growth rt db viewer) (graph (todo.foldl (fun h path =>
          expandPath rt db viewer 0 c (List.range records.length) path h) h))
        (List.range records.length) (some (c, records)) (pathSet (done ++ todo)) := by
    intro todo
    induction todo with
    | nil =>
      intro done h _ hG
      rwa [List.append_nil]
    | cons p todo ih =>
      intro done h hlen hG
      rw [List.foldl_cons, List.append_cons]
      refine ih (done ++ [p]) _ (fun p' hp' => hlen p' (List.mem_cons_of_mem _ hp')) ?_
      have hset : pathSet (done ++ [p]) = pathSet done ∪ Growth.prefixes [] p := by
        ext q
        constructor
        · rintro (hq | ⟨p', hp', hq⟩)
          · exact Or.inl (Or.inl hq)
          · rcases List.mem_append.1 hp' with hp' | hp'
            · exact Or.inl (Or.inr ⟨p', hp', hq⟩)
            · rw [List.mem_singleton.1 hp'] at hq
              exact Or.inr ⟨q, hq, rfl⟩
        · rintro ((hq | ⟨p', hp', hq⟩) | ⟨r, hr, rfl⟩)
          · exact Or.inl hq
          · exact Or.inr ⟨p', List.mem_append_left _ hp', hq⟩
          · exact Or.inr ⟨p, by simp, hr⟩
      have hdepth : 0 + p.length ≤ maxDepth := by
        rw [Nat.zero_add]
        exact hlen p List.mem_cons_self
      have hempty : [] ∈ pathSet done := Or.inl rfl
      rw [hset]
      exact grown_expandPath p hdepth hG hempty rfl
  refine hrun (parseExpandString expand) [] _ (fun p hp => ?_) hstart
  obtain ⟨part, -, hpart⟩ := List.mem_filterMap.1 hp
  split_ifs at hpart
  rw [← Option.some.inj hpart]
  exact List.length_take_le _ _

/-- What is shown of the records. -/
theorem shown_eq (n : ℕ) (c : Collection) (records : List (Dict Text Value)) (expand : Text) :
    shown rt db viewer n c records expand = records.map
      ((growth rt db viewer).ideal n (pathSet (parseExpandString expand)) (some (c, records))) := by
  have hG := grown_expandRecords rt db viewer c records expand
  have hdata : (List.range records.length).map
      (graph (expandRecords rt db viewer c records expand)).data = records := hG.batch
  have hunfold := List.map_congr_left fun a (ha : a ∈ List.range records.length) =>
    hG.unfold_eq (q := []) n ha
  calc
    shown rt db viewer n c records expand =
        ((List.range records.length).map
          (graph (expandRecords rt db viewer c records expand)).data).map
            ((growth rt db viewer).ideal n (pathSet (parseExpandString expand))
              (some (c, records))) := by
      rw [shown, hunfold, List.map_map]
      rfl
    _ = _ := by rw [hdata]

theorem shown_congr {c : Collection} {records : List (Dict Text Value)} {expand expand' : Text}
    (h : ∀ p, p ∈ parseExpandString expand ↔ p ∈ parseExpandString expand') (n : ℕ) :
    shown rt db viewer n c records expand = shown rt db viewer n c records expand' := by
  have hset : pathSet (parseExpandString expand) = pathSet (parseExpandString expand') := by
    ext q
    simp only [pathSet, h]
  rw [shown_eq, shown_eq, hset]

end

/-! ## A batch and its records alone -/

/-- No record that a path leads to from one record of the batch looks up an id of a stored record
that it did not bring in, nor another one of these, but other records of the batch did. -/
def Separate (rt : Runtime) (db : Db) (viewer : Viewer) (c : Collection)
    (records : List (Dict Text Value)) (paths : List (List Text)) : Prop :=
  ∀ d ∈ records, ∀ q field, (∃ p ∈ paths, q ++ [field] <+: p) → ∀ c' own all t many,
    q.foldl (nextBatch rt db viewer) (some (c, [d])) = some (c', own) →
    q.foldl (nextBatch rt db viewer) (some (c, records)) = some (c', all) →
    target? db c' field = some (t, many) →
    ∀ d' ∈ own, ∀ id ∈ lookedUpIds rt many (d'.get? field), id ∈ batchIds rt all field →
      (storedRow? db t id).isSome → id ∈ batchIds rt own field

section

variable {rt : Runtime} {db : Db} {viewer : Viewer}

theorem filterMap_eq_iff {α β : Type*} {f g : α → Option β}
    (hfg : ∀ x y, g x = some y → f x = some y) :
    ∀ l : List α, l.filterMap f = l.filterMap g ↔ ∀ x ∈ l, f x = g x
  | [] => by simp
  | x :: l => by
    have ih := filterMap_eq_iff hfg l
    have hsub : ∀ l : List α, (l.filterMap g).length ≤ (l.filterMap f).length := by
      intro l
      induction l with
      | nil => exact le_rfl
      | cons x l ih =>
        cases hg : g x with
        | none => exact (List.filterMap_cons_none hg ▸ ih).trans (by cases hf : f x <;> simp [hf])
        | some y => simpa [hg, hfg x y hg] using ih
    rw [List.forall_mem_cons, ← ih]
    cases hg : g x with
    | some y =>
      rw [List.filterMap_cons_some hg, List.filterMap_cons_some (hfg x y hg), hfg x y hg]
      simp
    | none =>
      rw [List.filterMap_cons_none hg]
      cases hf : f x with
      | none => rw [List.filterMap_cons_none hf]; simp
      | some y =>
        rw [List.filterMap_cons_some hf]
        refine iff_of_false (fun heq => ?_) fun h => nomatch h.1
        have hlen := congrArg List.length heq
        have hle := hsub l
        rw [List.length_cons] at hlen
        omega

theorem entryOf_inj {α : Type*} {many : Bool} {placed placed' : List α}
    (h : entryOf many placed = entryOf many placed') : placed = placed' := by
  rw [← entryOf_getD many placed, h, entryOf_getD]

theorem found_mono {t : Collection} {ids ids' : List Text} (hids : ids ⊆ ids') {id : Text}
    {d : Dict Text Value}
    (h : ((batchFetchRecords db t ids).get? id).map (response rt viewer t) = some d) :
    ((batchFetchRecords db t ids').get? id).map (response rt viewer t) = some d := by
  rw [get?_batchFetchRecords] at h ⊢
  split_ifs at h with hid
  · rwa [if_pos (hids hid)]
  · cases h

/-- Fetching more ids places the same, if the further ones are not looked up or not stored. -/
theorem linksOf_eq_iff {t : Collection} {ids ids' : List Text} (hids : ids ⊆ ids') (many : Bool)
    (v : Option Value) :
    linksOf rt db viewer t many ids' v = linksOf rt db viewer t many ids v ↔
      ∀ id ∈ lookedUpIds rt many v, id ∈ ids' → (storedRow? db t id).isSome → id ∈ ids := by
  rw [linksOf, linksOf, filterMap_eq_iff fun id d h => found_mono hids h]
  refine forall₂_congr fun id _ => ?_
  rw [get?_batchFetchRecords, get?_batchFetchRecords]
  by_cases hid : id ∈ ids
  · simp [hid, hids hid]
  · by_cases hid' : id ∈ ids'
    · cases storedRow? db t id <;> simp [hid, hid']
    · simp [hid, hid']

theorem linksOf_mono {t : Collection} {many : Bool} {ids ids' : List Text} {v : Option Value}
    (hids : ids ⊆ ids') :
    linksOf rt db viewer t many ids v ⊆ linksOf rt db viewer t many ids' v := by
  intro d hd
  obtain ⟨id, hid, hsome⟩ := List.mem_filterMap.1 hd
  exact List.mem_filterMap.2 ⟨id, hid, found_mono hids hsome⟩

theorem batchIds_mono {ds ds' : List (Dict Text Value)} (hds : ds ⊆ ds') (field : Text) :
    batchIds rt ds field ⊆ batchIds rt ds' field := by
  intro id hid
  obtain ⟨d, hd, hmem⟩ := List.mem_flatMap.1 hid
  exact List.mem_flatMap.2 ⟨d, hds hd, hmem⟩

/-- A path leads from more records to more. -/
theorem after_mono (rt : Runtime) (db : Db) (viewer : Viewer) : ∀ (q : List Text)
    (c : Collection) {own all : List (Dict Text Value)}, own ⊆ all →
    ((growth rt db viewer).after (some (c, own)) q = none ∧
      (growth rt db viewer).after (some (c, all)) q = none) ∨
    ∃ c' own' all', (growth rt db viewer).after (some (c, own)) q = some (c', own') ∧
      (growth rt db viewer).after (some (c, all)) q = some (c', all') ∧ own' ⊆ all'
  | [], c, own, all, hsub => Or.inr ⟨c, own, all, rfl, rfl, hsub⟩
  | field :: q, c, own, all, hsub => by
    have hcons : ∀ ds, (growth rt db viewer).after (some (c, ds)) (field :: q) =
        (growth rt db viewer).after (nextBatch rt db viewer (some (c, ds)) field) q := fun _ => rfl
    have hnone : ∀ q, (growth rt db viewer).after none q = none := by
      intro q
      induction q with
      | nil => rfl
      | cons _ q ih => exact ih
    rw [hcons, hcons]
    cases ht : target? db c field with
    | none => exact Or.inl (by simp [nextBatch, ht, hnone])
    | some tm =>
      simp only [nextBatch, Option.bind_some, ht, Option.map_some]
      refine after_mono rt db viewer q tm.1 fun d hd => ?_
      obtain ⟨d₀, hd₀, hmem⟩ := List.mem_flatMap.1 hd
      exact List.mem_flatMap.2 ⟨d₀, hsub hd₀, linksOf_mono (batchIds_mono hsub field) hmem⟩

/-- The beginnings of paths are with them. -/
theorem closed_pathSet (paths : List (List Text)) : Growth.Closed (pathSet paths) := by
  rintro q q' hq (rfl | ⟨p, hp, hq'⟩)
  · exact Or.inl (List.prefix_nil.1 hq)
  · exact Or.inr ⟨p, hp, hq.trans hq'⟩

theorem ideal_eq_iff_separate {c : Collection} {records : List (Dict Text Value)}
    {paths : List (List Text)} :
    (∀ d ∈ records, ∀ n, (growth rt db viewer).ideal n (pathSet paths) (some (c, records)) d =
        (growth rt db viewer).ideal n (pathSet paths) (some (c, [d])) d) ↔
      Separate rt db viewer c records paths := by
  have hown : ∀ d, (growth rt db viewer).batch (some (c, [d])) = [d] := fun _ => rfl
  have hiff : ∀ d, (∀ n, (growth rt db viewer).ideal n (pathSet paths) (some (c, records)) d =
        (growth rt db viewer).ideal n (pathSet paths) (some (c, [d])) d) ↔ _ := fun d =>
    Iff.trans (by rw [hown, List.forall_mem_singleton])
      (ideal_eq_iff (G := growth rt db viewer) (s := some (c, records)) (t := some (c, [d]))
        (closed_pathSet paths))
  refine forall₂_congr fun d hd => (hiff d).trans (forall₂_congr fun q field => ?_)
  have hmem : q ++ [field] ∈ pathSet paths ↔ ∃ p ∈ paths, q ++ [field] <+: p := by
    simp [pathSet]
  rw [hmem]
  refine imp_congr_right fun _ => ?_
  have hsingle : [d] ⊆ records := fun d' hd' => List.mem_singleton.1 hd' ▸ hd
  rcases after_mono rt db viewer q c hsingle with
    ⟨hnone, -⟩ | ⟨c', own, all, hown, hall, hsub⟩
  · rw [hnone]
    refine iff_of_true (fun d' hd' => nomatch hd') fun c' own all t many hown => ?_
    exact absurd (hnone.symm.trans hown) (by simp)
  · rw [hown, hall]
    constructor
    · intro h c'' own' all' t many hown' hall' ht d' hd' id hid
      obtain ⟨rfl, rfl⟩ := Prod.mk.inj (Option.some.inj (hown.symm.trans hown'))
      obtain ⟨-, rfl⟩ := Prod.mk.inj (Option.some.inj (hall.symm.trans hall'))
      have hlinks : links rt db viewer (some (c', all)) d' field =
          links rt db viewer (some (c', own)) d' field := h d' hd'
      simp only [links, Option.bind_some, ht] at hlinks
      exact (linksOf_eq_iff (batchIds_mono hsub field) _ _).1 (entryOf_inj hlinks) id hid
    · intro h d' hd'
      show links rt db viewer (some (c', all)) d' field =
        links rt db viewer (some (c', own)) d' field
      cases ht : target? db c' field with
      | none => simp [links, ht]
      | some tm =>
        have hplaced : linksOf rt db viewer tm.1 tm.2 (batchIds rt all field) (d'.get? field) =
            linksOf rt db viewer tm.1 tm.2 (batchIds rt own field) (d'.get? field) :=
          (linksOf_eq_iff (batchIds_mono hsub field) _ _).2
            (h c' own all tm.1 tm.2 hown hall ht d' hd')
        simp only [links, Option.bind_some, ht, hplaced]

theorem mem_parseExpandString {expand : Text} {p : List Text} :
    p ∈ parseExpandString expand ↔ ∃ part ∈ Text.split ',' expand, Text.strip part ≠ [] ∧
      p = (Text.split '.' (Text.strip part)).take maxDepth := by
  unfold parseExpandString
  rw [List.mem_filterMap]
  refine exists_congr fun part => and_congr_right fun _ => ?_
  split_ifs with hpart <;> simp [hpart, eq_comm]

/-- What is shown does not depend on the order or the repetition of the paths, and each record of
a batch shows what it shows alone. -/
structure Independent (rt : Runtime) (db : Db) (viewer : Viewer) (c : Collection)
    (records : List (Dict Text Value)) (expand : Text) : Prop where
  order : ∀ expand', (∀ part, part ∈ Text.split ',' expand' ↔ part ∈ Text.split ',' expand) →
    ∀ n, shown rt db viewer n c records expand' = shown rt db viewer n c records expand
  alone : ∀ n, shown rt db viewer n c records expand =
    records.flatMap fun d => shown rt db viewer n c [d] expand

/-- The order never matters, and each record shows what it shows alone exactly if no record looks
up an id that only others bring in. -/
theorem expansion_independent_iff (rt : Runtime) (db : Db) (viewer : Viewer) (c : Collection)
    (records : List (Dict Text Value)) (expand : Text) :
    Independent rt db viewer c records expand ↔
      Separate rt db viewer c records (parseExpandString expand) := by
  have horder : ∀ expand', (∀ part, part ∈ Text.split ',' expand' ↔
      part ∈ Text.split ',' expand) →
        ∀ n, shown rt db viewer n c records expand' = shown rt db viewer n c records expand := by
    intro expand' hparts n
    refine shown_congr (fun p => ?_) n
    rw [mem_parseExpandString, mem_parseExpandString]
    simp only [hparts]
  have halone : ∀ n, (records.flatMap fun d => shown rt db viewer n c [d] expand) =
      records.map fun d => (growth rt db viewer).ideal n (pathSet (parseExpandString expand))
        (some (c, [d])) d := by
    intro n
    rw [List.map_eq_flatMap]
    refine List.flatMap_congr fun d _ => ?_
    rw [shown_eq]
    rfl
  have hiff : Independent rt db viewer c records expand ↔ ∀ n,
      shown rt db viewer n c records expand =
        records.flatMap fun d => shown rt db viewer n c [d] expand :=
    ⟨Independent.alone, fun h => ⟨horder, h⟩⟩
  rw [hiff, ← ideal_eq_iff_separate]
  have heach : ∀ n, shown rt db viewer n c records expand =
      (records.flatMap fun d => shown rt db viewer n c [d] expand) ↔ ∀ d ∈ records,
        (growth rt db viewer).ideal n (pathSet (parseExpandString expand)) (some (c, records)) d =
          (growth rt db viewer).ideal n (pathSet (parseExpandString expand)) (some (c, [d])) d := by
    intro n
    rw [halone, shown_eq, List.map_inj_left]
  simp only [heach]
  exact ⟨fun h d hd n => h n d hd, fun h n d hd => h d hd n⟩

end

/-! ## A null among the members -/

/-- Tags, one of them with the id `None`. -/
def tags : Collection where
  id := "tags"
  name := "tags"

def taggedPosts : Collection where
  id := "posts"
  name := "posts"
  schema := [{ name := "tags", type := .relation,
               options := { collectionId := some "tags", maxSelect := some 5 } }]

def taggedDb : Db where
  collections := [tags, taggedPosts]
  tables := [("tags", ⟨["id"], [[("id", .text "None")]]⟩)]

/-- Two posts, the first with a null among its tags. -/
def taggedResponses : List (Dict Text Value) :=
  [[("id", .text "p1"), ("tags", .list [.null])],
    [("id", .text "p2"), ("tags", .list [.text "None"])]]

/-- Whether anything stands under a field. -/
def standsUnder (field : Text) : ObjectTree Text (Dict Text Value) → Bool
  | .mk _ below => (below field).isSome

/-- Beside a post with the tag `None` a post shows this tag for a null among its tags, alone it
does not. -/
theorem null_member_shown :
    ¬Independent .simple taggedDb (.request none) taggedPosts taggedResponses "tags" := by
  intro h
  have hstands := congrArg (List.map (standsUnder "tags")) (h.alone 1)
  exact absurd hstands (by decide)

end SharedExpansion

end PPBase
