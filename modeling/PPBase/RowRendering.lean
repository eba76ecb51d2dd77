import PPBase.Json
import PPBase.Response

/-!
# Rendering of rows

The driver gives more types than a record has : numbers of any precision, dates, identifiers,
bytes (`DriverValue`), and a view can select any of them. `buildRecordResponse` formats dates and
whole numbers, which fails for some values (`Slot.raises`), and `render` serialises the result,
which fails for others (`isSerialisable`). `page_renders_iff` says which rows a page can hold.
-/

namespace PPBase

namespace RowRendering

open Response

/-- A number of double precision. -/
inductive Double
  | finite (q : Rat)
  | nan
  | infinity (negative : Bool)
  deriving DecidableEq

/-- What the driver gives for a column. -/
inductive DriverValue
  | none
  | bool (b : Bool)
  | int (i : ℤ)
  | float (x : Double)
  | str (s : Text)
  | datetime (micros : Int)
  /-- A time of day. -/
  | time (micros : ℕ)
  /-- A date, a `Decimal`, a UUID, bytes or a range : its text, and whether it is true. -/
  | other (text : Text) (truthy : Bool)
  | list (items : List DriverValue)
  | dict (members : List (Text × DriverValue))

/-- The texts of values. -/
structure Texts where
  runtime : Runtime
  /-- `str(v)` -/
  str : DriverValue → Text
  /-- `format_datetime` of a time of day. -/
  formatTime : ℕ → Text

/-- A row of a table or view. -/
abbrev DriverRow := Dict Text DriverValue

/-! ## The response of a row -/

/-- `bool(v)` -/
def DriverValue.truthy : DriverValue → Bool
  | .none => false
  | .bool b => b
  | .int i => i ≠ 0
  | .float x => x ≠ .finite 0
  | .str s => s ≠ []
  | .datetime _ => true
  | .time _ => true
  | .other _ truthy => truthy
  | .list items => !items.isEmpty
  | .dict members => !members.isEmpty

/-- What is written under a name of the response. -/
inductive Slot
  /-- A text that is not of the row. -/
  | text (s : Text)
  /-- `format_datetime(row.get(name))` -/
  | date (v : DriverValue)
  /-- A column as it is. -/
  | raw (v : DriverValue)
  /-- A column of the schema, or of a view without one. -/
  | shown (v : DriverValue)

namespace Slot

/-- Writing the value raises : `strftime` or `microsecond` is missing, or `int` gets no number. -/
def raises : Slot → Bool
  | .date v =>
    match v with
    | .none | .str _ | .datetime _ | .time _ => false
    | _ => true
  | .shown (.float .nan) => true
  | .shown (.float (.infinity _)) => true
  | _ => false

/-- The value that is written. -/
def value (K : Texts) : Slot → DriverValue
  | .text s => .str s
  | .date .none => .str []
  | .date (.datetime t) => .str (K.runtime.formatTime t)
  | .date (.time t) => .str (K.formatTime t)
  | .date v => v
  | .raw v => v
  | .shown (.datetime t) => .str (K.runtime.formatTime t)
  | .shown (.float (.finite q)) => if q.den = 1 then .int q.num else .float (.finite q)
  | .shown v => v

/-- The value, unless writing it raises. -/
def value? (K : Texts) (s : Slot) : Option DriverValue :=
  if s.raises then Option.none else some (s.value K)

end Slot

/-- `str(row.get("id", "") or "")` -/
def rowText (K : Texts) (v : DriverValue) : Text := if v.truthy then K.str v else []

/-- `_can_view_auth_email` -/
def canViewAuthEmail (K : Texts) (c : Collection) (row : DriverRow) : Viewer → Bool
  | .anyone => true
  | .request auth =>
    (((row.get? "email_visibility").map DriverValue.truthy).getD false) ||
      match auth with
      | some (e :: a) =>
        Dict.get? (e :: a) "type" = some (.text "admin") ||
          Dict.get? (e :: a) "type" = some (.text "authRecord") &&
            strOrEmpty K.runtime (Dict.get? (e :: a) "id") =
              rowText K ((row.get? "id").getD (.str [])) &&
            (strOrEmpty K.runtime (Dict.get? (e :: a) "collectionId") = c.id ||
              strOrEmpty K.runtime (Dict.get? (e :: a) "collectionName") = c.name)
      | _ => false

section

variable {α : Type}

/-- The internal columns removed at the end. -/
def stripInternal (d : Dict Text α) : Dict Text α :=
  let d := (d.del "password_hash").del "token_key"
  if d.has "email_visibility" && d.has "emailVisibility" then d.del "email_visibility" else d

/-- The `fields` parameter. -/
def applyFields (fieldsFilter : Option (List Text)) (d : Dict Text α) : Dict Text α :=
  match fieldsFilter with
  | Option.none | some [] => d
  | some ff => if ("*" : Text) ∈ ff then d else d.filter fun e => e.1 ∈ ff

end

variable (K : Texts) (c : Collection) (row : DriverRow) (hidden : List Text)
  (fieldsFilter : Option (List Text)) (viewer : Viewer)

/-- What is written before the columns of the schema or the view, in order. -/
def systemSlots : List (Text × Slot) :=
  [("id".toList, .raw ((row.get? "id").getD (.str []))), ("collectionId".toList, .text c.id),
    ("collectionName".toList, .text c.name),
    ("created".toList, .date ((row.get? "created").getD .none)),
    ("updated".toList, .date ((row.get? "updated").getD .none))] ++
  if c.type = .auth then
    (if canViewAuthEmail K c row viewer then
      [("email".toList, .raw ((row.get? "email").getD (.str [])))] else []) ++
    [("emailVisibility".toList, .raw ((row.get? "email_visibility").getD (.bool false))),
      ("verified".toList, .raw ((row.get? "verified").getD (.bool false)))]
  else []

/-- The columns of the schema, or of a view without a schema. -/
def columnSlots : List (Text × Slot) :=
  if c.schema ≠ [] then
    (c.schema.filter (showsField hidden fieldsFilter viewer)).map fun f =>
      (f.name, .shown ((row.get? f.name).getD .none))
  else if c.type = .view then
    (row.filter fun e => e.1 ∉ baseFields ∧ e.1 ∉ authHiddenColumns).map fun e =>
      (if e.1 = ("email_visibility" : Text) then "emailVisibility".toList else e.1, .shown e.2)
  else []

/-- Everything that is written. -/
def slots : List (Text × Slot) :=
  systemSlots K c row viewer ++ columnSlots c row hidden fieldsFilter viewer

/-- `result[key] = value` for one name after another. None if a value raises. -/
def writeSlots (slots : List (Text × Slot)) : Option DriverRow :=
  slots.foldlM (fun d e => (e.2.value? K).map (d.set e.1)) []

/-- `build_record_response`. None if it raises. -/
def buildRecordResponse : Option DriverRow :=
  (writeSlots K (slots K c row hidden fieldsFilter viewer)).map fun d =>
    applyFields fieldsFilter (stripInternal d)

/-! ## JSON -/

mutual

/-- The value as `json.dumps` without `NaN` takes it. None if it raises. -/
def toJson? : DriverValue → Option (Json Text Rat)
  | .none => some .null
  | .bool b => some (.bool b)
  | .int i => some (.int i)
  | .float (.finite q) => some (.float q)
  | .float _ => Option.none
  | .str s => some (.str s)
  | .datetime _ => Option.none
  | .time _ => Option.none
  | .other _ _ => Option.none
  | .list items => (itemsToJson? items).map .arr
  | .dict members => (membersToJson? members).map .obj

def itemsToJson? : List DriverValue → Option (List (Json Text Rat))
  | [] => some []
  | v :: items => (toJson? v).bind fun j => (itemsToJson? items).map (j :: ·)

def membersToJson? : List (Text × DriverValue) → Option (List (Text × Json Text Rat))
  | [] => some []
  | (k, v) :: members => (toJson? v).bind fun j => (membersToJson? members).map ((k, j) :: ·)

end

/-- The response of one row as JSON. None if building or serialising it raises. -/
def render : Option (Json Text Rat) :=
  (buildRecordResponse K c row hidden fieldsFilter viewer).bind fun d => toJson? (.dict d)

/-- `build_list_response` and `JSONResponse`. None if one of them raises. -/
def renderPage (page perPage totalItems totalPages : ℤ) (rows : List DriverRow) :
    Option (Json Text Rat) :=
  (rows.mapM fun row => buildRecordResponse K c row hidden fieldsFilter viewer).bind fun items =>
    toJson? (.dict [("page".toList, .int page), ("perPage".toList, .int perPage),
      ("totalItems".toList, .int totalItems), ("totalPages".toList, .int totalPages),
      ("items".toList, .list (items.map .dict))])

/-! ## Which rows can be rendered -/

mutual

/-- JSON has the value : it is made of nulls, truth values, whole and finite numbers and texts. -/
def DriverValue.isSerialisable : DriverValue → Bool
  | .none => true
  | .bool _ => true
  | .int _ => true
  | .float (.finite _) => true
  | .float _ => false
  | .str _ => true
  | .datetime _ => false
  | .time _ => false
  | .other _ _ => false
  | .list items => itemsSerialisable items
  | .dict members => membersSerialisable members

def itemsSerialisable : List DriverValue → Bool
  | [] => true
  | v :: items => v.isSerialisable && itemsSerialisable items

def membersSerialisable : List (Text × DriverValue) → Bool
  | [] => true
  | (_, v) :: members => v.isSerialisable && membersSerialisable members

end

/-- JSON has what is written. -/
def Slot.isSerialisable : Slot → Bool
  | .raw v => v.isSerialisable
  | .shown (.datetime _) => true
  | .shown v => v.isSerialisable
  | _ => true

/-- The last slot of each name. -/
def lastSlots (slots : List (Text × Slot)) : Dict Text Slot :=
  slots.foldl (fun d e => d.set e.1 e.2) []

/-- A row whose formatted columns can be formatted, and whose columns in the response JSON has. -/
structure Renders : Prop where
  formats : ∀ e ∈ slots K c row hidden fieldsFilter viewer, e.2.raises = false
  serialises : ∀ e ∈ applyFields fieldsFilter
    (stripInternal (lastSlots (slots K c row hidden fieldsFilter viewer))),
      e.2.isSerialisable = true

mutual

theorem exists_toJson? : ∀ v : DriverValue, (∃ j, toJson? v = some j) ↔ v.isSerialisable = true
  | .none => ⟨fun _ => rfl, fun _ => ⟨_, rfl⟩⟩
  | .bool _ => ⟨fun _ => rfl, fun _ => ⟨_, rfl⟩⟩
  | .int _ => ⟨fun _ => rfl, fun _ => ⟨_, rfl⟩⟩
  | .float (.finite _) => ⟨fun _ => rfl, fun _ => ⟨_, rfl⟩⟩
  | .float .nan => iff_of_false (by rintro ⟨_, ⟨⟩⟩) Bool.false_ne_true
  | .float (.infinity _) => iff_of_false (by rintro ⟨_, ⟨⟩⟩) Bool.false_ne_true
  | .str _ => ⟨fun _ => rfl, fun _ => ⟨_, rfl⟩⟩
  | .datetime _ => iff_of_false (by rintro ⟨_, ⟨⟩⟩) Bool.false_ne_true
  | .time _ => iff_of_false (by rintro ⟨_, ⟨⟩⟩) Bool.false_ne_true
  | .other _ _ => iff_of_false (by rintro ⟨_, ⟨⟩⟩) Bool.false_ne_true
  | .list items => by
    rw [toJson?, DriverValue.isSerialisable, ← exists_itemsToJson? items]
    simp only [Option.map_eq_some_iff]
    exact ⟨fun ⟨_, js, h, _⟩ => ⟨js, h⟩, fun ⟨js, h⟩ => ⟨_, js, h, rfl⟩⟩
  | .dict members => by
    rw [toJson?, DriverValue.isSerialisable, ← exists_membersToJson? members]
    simp only [Option.map_eq_some_iff]
    exact ⟨fun ⟨_, js, h, _⟩ => ⟨js, h⟩, fun ⟨js, h⟩ => ⟨_, js, h, rfl⟩⟩

theorem exists_itemsToJson? : ∀ items : List DriverValue,
    (∃ js, itemsToJson? items = some js) ↔ itemsSerialisable items = true
  | [] => ⟨fun _ => rfl, fun _ => ⟨_, rfl⟩⟩
  | v :: items => by
    rw [itemsToJson?, itemsSerialisable, Bool.and_eq_true, ← exists_toJson? v,
      ← exists_itemsToJson? items]
    simp only [Option.bind_eq_some_iff, Option.map_eq_some_iff]
    exact ⟨fun ⟨_, j, hj, js, hjs, _⟩ => ⟨⟨j, hj⟩, js, hjs⟩,
      fun ⟨⟨j, hj⟩, js, hjs⟩ => ⟨_, j, hj, js, hjs, rfl⟩⟩

theorem exists_membersToJson? : ∀ members : List (Text × DriverValue),
    (∃ js, membersToJson? members = some js) ↔ membersSerialisable members = true
  | [] => ⟨fun _ => rfl, fun _ => ⟨_, rfl⟩⟩
  | (k, v) :: members => by
    rw [membersToJson?, membersSerialisable, Bool.and_eq_true, ← exists_toJson? v,
      ← exists_membersToJson? members]
    simp only [Option.bind_eq_some_iff, Option.map_eq_some_iff]
    exact ⟨fun ⟨_, j, hj, js, hjs, _⟩ => ⟨⟨j, hj⟩, js, hjs⟩,
      fun ⟨⟨j, hj⟩, js, hjs⟩ => ⟨_, j, hj, js, hjs, rfl⟩⟩

end

theorem itemsSerialisable_iff {items : List DriverValue} :
    itemsSerialisable items = true ↔ ∀ v ∈ items, v.isSerialisable = true := by
  induction items with
  | nil => exact ⟨nofun, fun _ => rfl⟩
  | cons v items ih => rw [itemsSerialisable, Bool.and_eq_true, ih, List.forall_mem_cons]

theorem membersSerialisable_iff {members : List (Text × DriverValue)} :
    membersSerialisable members = true ↔ ∀ m ∈ members, m.2.isSerialisable = true := by
  induction members with
  | nil => exact ⟨nofun, fun _ => rfl⟩
  | cons m members ih => rw [membersSerialisable, Bool.and_eq_true, ih, List.forall_mem_cons]

/-- Formatting makes datetimes serialisable, and changes nothing else about it. -/
theorem isSerialisable_value {s : Slot} (h : s.raises = false) :
    (s.value K).isSerialisable = s.isSerialisable := by
  cases s with
  | text s => rfl
  | raw v => rfl
  | date v => cases v <;> first | rfl | cases h
  | shown v =>
    cases v with
    | float x =>
      cases x with
      | finite q =>
        show (if q.den = 1 then DriverValue.int q.num else .float (.finite q)).isSerialisable = true
        split_ifs <;> rfl
      | nan => cases h
      | infinity negative => cases h
    | _ => rfl

/-! ## Writing the slots -/

/-- The entries with other values. -/
def mapValues {α β : Type} (g : α → β) (d : Dict Text α) : Dict Text β :=
  d.map fun e => (e.1, g e.2)

section

variable {α β : Type} {g : α → β}

theorem mapValues_set (k : Text) (v : α) : ∀ d : Dict Text α,
    mapValues g (d.set k v) = (mapValues g d).set k (g v)
  | [] => rfl
  | (k', v') :: d => by
    have hcons : ∀ (k : Text) (v : α) (d : Dict Text α),
        mapValues g ((k, v) :: d) = (k, g v) :: mapValues g d := fun _ _ _ => rfl
    rw [hcons, Dict.set, Dict.set]
    split_ifs
    · rw [hcons]
    · rw [hcons, mapValues_set k v d]

theorem mapValues_del (k : Text) (d : Dict Text α) :
    mapValues g (d.del k) = (mapValues g d).del k := by
  rw [mapValues, Dict.del, Dict.del, mapValues, List.filter_map]
  rfl

theorem has_mapValues (k : Text) (d : Dict Text α) : (mapValues g d).has k = d.has k := by
  rw [Dict.has, Dict.has, mapValues, Dict.get?_map (fun _ => g), Option.isSome_map]

theorem mapValues_stripInternal (d : Dict Text α) :
    mapValues g (stripInternal d) = stripInternal (mapValues g d) := by
  unfold stripInternal
  dsimp only
  rw [← mapValues_del, ← mapValues_del, has_mapValues, has_mapValues]
  split_ifs
  · rw [mapValues_del]
  · rfl

theorem mapValues_applyFields (fieldsFilter : Option (List Text)) (d : Dict Text α) :
    mapValues g (applyFields fieldsFilter d) = applyFields fieldsFilter (mapValues g d) := by
  unfold applyFields
  split
  · rfl
  · rfl
  · split_ifs
    · rfl
    · rw [mapValues, mapValues, List.filter_map]
      rfl

end

theorem mem_of_mem_foldl_set {e : Text × Slot} :
    ∀ {slots : List (Text × Slot)} {d : Dict Text Slot},
      e ∈ slots.foldl (fun d e => d.set e.1 e.2) d → e ∈ slots ∨ e ∈ d
  | [], _, h => .inr h
  | f :: slots, d, h => by
    rcases @mem_of_mem_foldl_set e slots _ h with h | h
    · exact .inl (List.mem_cons_of_mem _ h)
    · rcases Dict.mem_set h with rfl | h
      · exact .inl List.mem_cons_self
      · exact .inr h

theorem mem_of_mem_stripInternal {α : Type} {e : Text × α} {d : Dict Text α}
    (h : e ∈ stripInternal d) : e ∈ d := by
  unfold stripInternal at h
  dsimp only at h
  split_ifs at h
  · exact (List.mem_filter.1 (List.mem_filter.1 (List.mem_filter.1 h).1).1).1
  · exact (List.mem_filter.1 (List.mem_filter.1 h).1).1

theorem mem_of_mem_applyFields {α : Type} {e : Text × α} {fieldsFilter : Option (List Text)}
    {d : Dict Text α} (h : e ∈ applyFields fieldsFilter d) : e ∈ d := by
  unfold applyFields at h
  split at h
  · exact h
  · exact h
  · split_ifs at h
    · exact h
    · exact (List.mem_filter.1 h).1

/-- What is selected has been written. -/
theorem mem_of_mem_selected {fieldsFilter : Option (List Text)} {slots : List (Text × Slot)}
    {e : Text × Slot} (h : e ∈ applyFields fieldsFilter (stripInternal (lastSlots slots))) :
    e ∈ slots :=
  (mem_of_mem_foldl_set (mem_of_mem_stripInternal (mem_of_mem_applyFields h))).resolve_right
    List.not_mem_nil

/-- All slots are written, or one of them raises. -/
theorem foldlM_slots {d' : DriverRow} : ∀ (slots : List (Text × Slot)) (d : Dict Text Slot),
    slots.foldlM (fun d e => (e.2.value? K).map (d.set e.1)) (mapValues (Slot.value K) d) =
        some d' ↔
      (∀ e ∈ slots, e.2.raises = false) ∧
        d' = mapValues (Slot.value K) (slots.foldl (fun d e => d.set e.1 e.2) d)
  | [], d => by
    rw [List.foldlM_nil, List.foldl_nil]
    exact ⟨fun h => ⟨nofun, (Option.some.inj h).symm⟩, fun h => congrArg some h.2.symm⟩
  | e :: slots, d => by
    rw [List.foldlM_cons, List.foldl_cons, List.forall_mem_cons]
    unfold Slot.value?
    split_ifs with hraises
    · exact iff_of_false (fun h => by cases h) fun h => by
        rw [hraises] at h
        cases h.1.1
    · show List.foldlM _ ((mapValues (Slot.value K) d).set e.1 (e.2.value K)) slots = some d' ↔ _
      have hok : e.2.raises = false := Bool.eq_false_iff.2 hraises
      rw [← mapValues_set, and_iff_right hok]
      exact foldlM_slots slots (d.set e.1 e.2)

theorem buildRecordResponse_eq_some {d : DriverRow} :
    buildRecordResponse K c row hidden fieldsFilter viewer = some d ↔
      (∀ e ∈ slots K c row hidden fieldsFilter viewer, e.2.raises = false) ∧
        d = mapValues (Slot.value K) (applyFields fieldsFilter
          (stripInternal (lastSlots (slots K c row hidden fieldsFilter viewer)))) := by
  rw [buildRecordResponse, Option.map_eq_some_iff, mapValues_applyFields, mapValues_stripInternal]
  have hwrite := fun d' => @foldlM_slots K d' (slots K c row hidden fieldsFilter viewer) []
  constructor
  · rintro ⟨d', hd', rfl⟩
    obtain ⟨hok, rfl⟩ := (hwrite d').1 hd'
    exact ⟨hok, rfl⟩
  · rintro ⟨hok, rfl⟩
    exact ⟨_, (hwrite _).2 ⟨hok, rfl⟩, rfl⟩

/-! ## Responses -/

/-- What a response without an exception holds is serialisable if the selected columns are. -/
theorem serialisable_iff (h : ∀ e ∈ slots K c row hidden fieldsFilter viewer, e.2.raises = false) :
    (∀ m ∈ mapValues (Slot.value K) (applyFields fieldsFilter
        (stripInternal (lastSlots (slots K c row hidden fieldsFilter viewer)))),
      m.2.isSerialisable = true) ↔
      Renders K c row hidden fieldsFilter viewer := by
  have hselected : ∀ e ∈ applyFields fieldsFilter
      (stripInternal (lastSlots (slots K c row hidden fieldsFilter viewer))),
        e.2.raises = false := fun e he => by
    have hmem := mem_of_mem_selected he
    exact h e hmem
  constructor
  · intro hall
    refine ⟨h, fun e he => ?_⟩
    rw [← isSerialisable_value K (hselected e he)]
    exact hall _ (List.mem_map_of_mem he)
  · intro hrenders m hm
    obtain ⟨e, he, rfl⟩ := List.mem_map.1 hm
    exact (isSerialisable_value K (hselected e he)).trans (hrenders.serialises e he)

theorem render_iff : (∃ j, render K c row hidden fieldsFilter viewer = some j) ↔
    Renders K c row hidden fieldsFilter viewer := by
  unfold render
  simp only [Option.bind_eq_some_iff, buildRecordResponse_eq_some]
  constructor
  · rintro ⟨j, d, ⟨hok, rfl⟩, hj⟩
    exact (serialisable_iff K c row hidden fieldsFilter viewer hok).1
      (membersSerialisable_iff.1 ((exists_toJson? _).1 ⟨j, hj⟩))
  · intro h
    obtain ⟨j, hj⟩ := (exists_toJson? (.dict _)).2 (membersSerialisable_iff.2
      ((serialisable_iff K c row hidden fieldsFilter viewer h.formats).2 h))
    exact ⟨j, _, ⟨h.formats, rfl⟩, hj⟩

/-- A row can be rendered if its response can be built and serialised. -/
theorem renders_iff_exists : Renders K c row hidden fieldsFilter viewer ↔
    ∃ d, buildRecordResponse K c row hidden fieldsFilter viewer = some d ∧
      (DriverValue.dict d).isSerialisable = true := by
  rw [← render_iff]
  unfold render
  simp only [Option.bind_eq_some_iff, ← exists_toJson?]
  exact ⟨fun ⟨j, d, hd, hj⟩ => ⟨d, hd, j, hj⟩, fun ⟨d, hd, j, hj⟩ => ⟨j, d, hd, hj⟩⟩

theorem exists_mapM {α β : Type} {f : α → Option β} {p : β → Prop} : ∀ {xs : List α},
    (∃ ys, xs.mapM f = some ys ∧ ∀ y ∈ ys, p y) ↔ ∀ x ∈ xs, ∃ y, f x = some y ∧ p y
  | [] => ⟨fun _ => nofun, fun _ => ⟨[], rfl, nofun⟩⟩
  | x :: xs => by
    rw [List.forall_mem_cons, ← @exists_mapM _ _ f p xs, List.mapM_cons]
    simp only [Option.bind_eq_bind, Option.bind_eq_some_iff, Option.pure_def, Option.some.injEq]
    constructor
    · rintro ⟨_, ⟨y, hy, ys, hys, rfl⟩, hall⟩
      rw [List.forall_mem_cons] at hall
      exact ⟨⟨y, hy, hall.1⟩, ys, hys, hall.2⟩
    · rintro ⟨⟨y, hy, hp⟩, ys, hys, hall⟩
      exact ⟨y :: ys, ⟨y, hy, ys, hys, rfl⟩, List.forall_mem_cons.2 ⟨hp, hall⟩⟩

/-- A response is rendered exactly if its row can be, and a page exactly if all its rows can be :
one row that cannot fails the page. -/
theorem page_renders_iff (page perPage totalItems totalPages : ℤ) (rows : List DriverRow) :
    ((∃ j, render K c row hidden fieldsFilter viewer = some j) ↔
      Renders K c row hidden fieldsFilter viewer) ∧
    ((∃ j, renderPage K c hidden fieldsFilter viewer page perPage totalItems totalPages rows =
        some j) ↔
      ∀ row ∈ rows, Renders K c row hidden fieldsFilter viewer) := by
  refine ⟨render_iff K c row hidden fieldsFilter viewer, ?_⟩
  simp only [renders_iff_exists]
  rw [← exists_mapM]
  have hbody : ∀ items : List DriverRow, (∃ j, toJson? (.dict [("page".toList, .int page),
      ("perPage".toList, .int perPage), ("totalItems".toList, .int totalItems),
      ("totalPages".toList, .int totalPages), ("items".toList, .list (items.map .dict))]) =
        some j) ↔ ∀ d ∈ items, (DriverValue.dict d).isSerialisable = true := fun items => by
    rw [exists_toJson?]
    show (true && (true && (true && (true &&
      (itemsSerialisable (items.map .dict) && true))))) = true ↔ _
    simp only [Bool.true_and, Bool.and_true, itemsSerialisable_iff, List.mem_map,
      forall_exists_index, and_imp, forall_apply_eq_imp_iff₂]
  unfold renderPage
  simp only [Option.bind_eq_some_iff]
  constructor
  · rintro ⟨j, items, hitems, hj⟩
    exact ⟨items, hitems, (hbody items).1 ⟨j, hj⟩⟩
  · rintro ⟨items, hitems, hall⟩
    obtain ⟨j, hj⟩ := (hbody items).2 hall
    exact ⟨j, items, hitems, hj⟩

/-- A view without a schema. -/
def prices : Collection where
  id := "prices"
  name := "prices"
  type := .view

/-- A price of type `numeric` cannot be rendered. -/
theorem numeric_not_rendered : ¬∀ (K : Texts) (c : Collection) (row : DriverRow)
    (hidden : List Text) (fieldsFilter : Option (List Text)) (viewer : Viewer),
      ∃ j, render K c row hidden fieldsFilter viewer = some j := by
  intro h
  obtain ⟨j, hj⟩ := h ⟨.simple, fun _ => [], fun _ => []⟩ prices
    [("id", .str "p1"), ("price", .other "1.50" true)] [] none .anyone
  cases hj

end RowRendering

end PPBase
