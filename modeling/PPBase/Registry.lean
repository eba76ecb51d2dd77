import PPBase.CollectionService

/-!
# What runs of collection operations keep

Every schema change stays within the names of the collection it is for (`Catalog.Frame`), so
an operation on one record leaves the other records and their relations alone
(`addCollection_kept`, `changeCollection_kept`, `dropCollection_kept`).

`run_keeps_system` : a collection with the system flag and its relation stay as they are in
every run whose imports name no such collection. `run_names` : names stay distinct without
regard to case, match the grammar and are neither reserved nor those of system tables, in
every run whose operations give only such names.
-/

namespace PPBase

namespace Catalog

/-! ## Frames -/

/-- Relations under other names than `ns` are as before, and no statement changed them. -/
def Frame (cat cat' : Catalog) (ns : List Text) : Prop :=
  ∀ n ∉ ns, cat'.relations.get? n = cat.relations.get? n ∧ (n ∈ cat'.changed → n ∈ cat.changed)

theorem Frame.refl (cat : Catalog) (ns : List Text) : Frame cat cat ns := fun _ _ => ⟨rfl, id⟩

theorem Frame.trans {cat cat' cat'' : Catalog} {ns : List Text} (h : Frame cat cat' ns)
    (h' : Frame cat' cat'' ns) : Frame cat cat'' ns := fun n hn =>
  ⟨(h' n hn).1.trans (h n hn).1, fun hc => (h n hn).2 ((h' n hn).2 hc)⟩

theorem Frame.mono {cat cat' : Catalog} {ns ms : List Text} (h : Frame cat cat' ns)
    (hsub : ∀ n ∈ ns, n ∈ ms) : Frame cat cat' ms := fun n hn => h n fun hm => hn (hsub n hm)

theorem frame_put (cat : Catalog) (n : Text) (r : Relation) : Frame cat (cat.put n r) [n] := by
  intro m hm
  rw [List.mem_singleton] at hm
  refine ⟨Dict.get?_set_ne _ _ (Ne.symm hm), fun hc => ?_⟩
  exact (List.mem_cons.1 hc).resolve_left hm

theorem frame_touch (cat : Catalog) (n : Text) : Frame cat (cat.touch n) [n] := by
  intro m hm
  rw [List.mem_singleton] at hm
  exact ⟨rfl, fun hc => (List.mem_cons.1 hc).resolve_left hm⟩

theorem frame_drop (cat : Catalog) (n : Text) : Frame cat (cat.drop n) [n] := by
  intro m hm
  rw [List.mem_singleton] at hm
  refine ⟨?_, fun hc => (List.mem_cons.1 hc).resolve_left hm⟩
  show (cat.relations.del n).get? m = _
  rw [Dict.get?_del, if_neg (Ne.symm hm)]

theorem frame_rename {cat cat' : Catalog} {n n' : Text} (h : cat.rename n n' = some cat') :
    Frame cat cat' [n, n'] := by
  unfold rename at h
  cases hr : cat.relations.get? n with
  | none => simp [hr] at h
  | some r =>
    simp only [hr] at h
    split_ifs at h
    obtain rfl := Option.some.inj h
    exact ((frame_drop cat n).mono (by simp)).trans ((frame_put _ n' r).mono (by simp))

end Catalog

namespace SchemaManager

open Catalog

variable {pg : Postgres} {c old new : CollectionDef} {cat cat' : Catalog}

theorem eq_of_safeName {s t : Text} (h : safeName s = some t) : t = s := by
  unfold safeName at h
  split_ifs at h
  exact (Option.some.inj h).symm

theorem createCollectionTable_frame (h : createCollectionTable pg c cat = some cat') :
    Frame cat cat' [c.name] := by
  simp only [createCollectionTable, Option.bind_eq_bind, Option.bind_eq_some_iff] at h
  obtain ⟨table, htable, h⟩ := h
  obtain rfl := eq_of_safeName htable
  split_ifs at h with hview hhas
  · simp only [Option.bind_eq_some_iff] at h
    obtain ⟨-, -, h⟩ := h
    cases hr : cat.relations.get? c.name with
    | none =>
      rw [hr] at h
      exact Option.some.inj h ▸ frame_put _ _ _
    | some r =>
      rw [hr] at h
      cases r with
      | table columns => cases h
      | view query => exact Option.some.inj h ▸ frame_put _ _ _
  · simp only [Option.bind_eq_some_iff] at h
    obtain ⟨-, -, -, -, h⟩ := h
    exact Option.some.inj h ▸ frame_touch _ _
  · simp only [Option.bind_eq_some_iff] at h
    obtain ⟨columns, -, -, -, -, -, h⟩ := h
    exact Option.some.inj h ▸ frame_put _ _ _

theorem dropCollectionObject_frame {n : Text} (h : dropCollectionObject pg n cat = some cat') :
    Frame cat cat' [n] := by
  simp only [dropCollectionObject, Option.bind_eq_bind, Option.bind_eq_some_iff] at h
  obtain ⟨table, htable, -, -, h⟩ := h
  obtain rfl := eq_of_safeName htable
  exact Option.some.inj h ▸ frame_drop _ _

theorem replaceCollectionObject_frame (h : replaceCollectionObject pg old new cat = some cat') :
    Frame cat cat' [old.name, new.name] := by
  have hold : ∀ n ∈ [old.name], n ∈ [old.name, new.name] := by simp
  have hnew : ∀ n ∈ [new.name], n ∈ [old.name, new.name] := by simp
  simp only [replaceCollectionObject, Option.bind_eq_bind, Option.bind_eq_some_iff] at h
  obtain ⟨oldName, holdName, -, -, h⟩ := h
  obtain rfl := eq_of_safeName holdName
  split_ifs at h with hsame hview
  · cases hr : cat.relations.get? old.name with
    | none =>
      rw [hr] at h
      exact Option.some.inj h ▸ (frame_put _ _ _).mono hold
    | some r =>
      rw [hr] at h
      cases r with
      | table columns => cases h
      | view query => exact Option.some.inj h ▸ (frame_put _ _ _).mono hold
  · simp only [Option.bind_eq_some_iff] at h
    obtain ⟨cat₁, hdrop, table, htable, h⟩ := h
    obtain rfl := eq_of_safeName htable
    split_ifs at h
    exact ((dropCollectionObject_frame hdrop).mono hold).trans
      (Option.some.inj h ▸ (frame_put _ _ _).mono hnew)
  · obtain ⟨cat₁, hdrop, h⟩ := Option.bind_eq_some_iff.1 h
    exact ((dropCollectionObject_frame hdrop).mono hold).trans
      ((createCollectionTable_frame h).mono hnew)

theorem alterTable_frame {n : Text} {cmds : List (Alter Text Text)}
    (h : alterTable n cmds cat = some cat') : Frame cat cat' [n] := by
  unfold alterTable at h
  split_ifs at h
  · exact Option.some.inj h ▸ .refl _ _
  · cases hr : cat.relations.get? n with
    | none =>
      rw [hr] at h
      cases h
    | some r =>
      rw [hr] at h
      cases r with
      | table columns =>
        obtain ⟨t, -, rfl⟩ := Option.map_eq_some_iff.1 h
        exact frame_put _ _ _
      | view query => cases h

theorem updateCollectionTable_frame (h : updateCollectionTable pg old new cat = some cat') :
    Frame cat cat' [old.name, new.name] := by
  have hnew : ∀ n ∈ [new.name], n ∈ [old.name, new.name] := by simp
  simp only [updateCollectionTable, Option.bind_eq_bind, Option.bind_eq_some_iff] at h
  obtain ⟨oldName, holdName, newName, hnewName, h⟩ := h
  obtain rfl := eq_of_safeName holdName
  obtain rfl := eq_of_safeName hnewName
  split_ifs at h with hview hchanged hname
  · exact replaceCollectionObject_frame h
  · exact Option.some.inj h ▸ .refl _ _
  all_goals
    simp only [Option.bind_eq_some_iff] at h
    obtain ⟨cmds, -, renamed, hrename, altered, halter, -, -, h⟩ := h
    refine (?_ : Frame cat renamed _).trans (((alterTable_frame halter).mono hnew).trans
      (Option.some.inj h ▸ (frame_touch _ _).mono hnew))
  · exact frame_rename hrename
  · exact Option.some.inj hrename ▸ .refl _ _

end SchemaManager

/-! ## Operations on one record -/

namespace Registry

/-- The primary key and the unique constraint of `_collections`. -/
structure WellKeyed (s : Registry) : Prop where
  ids : (s.records.map CollectionRecord.id).Nodup
  names : (s.records.map CollectionRecord.name).Nodup

/-- The records that satisfy `p` are there as before, and so are their relations. -/
def Keeps (s s' : Registry) (p : CollectionRecord → Prop) : Prop :=
  ∀ r ∈ s.records, p r → r ∈ s'.records ∧
    s'.catalog.relations.get? r.name = s.catalog.relations.get? r.name ∧
    (r.name ∈ s'.catalog.changed → r.name ∈ s.catalog.changed)

theorem Keeps.refl (s : Registry) (p : CollectionRecord → Prop) : s.Keeps s p :=
  fun _ hr _ => ⟨hr, rfl, id⟩

variable {s : Registry}

theorem Keeps.trans {s' s'' : Registry} {p : CollectionRecord → Prop} (h : s.Keeps s' p)
    (h' : s'.Keeps s'' p) : s.Keeps s'' p := by
  intro r hr hp
  obtain ⟨hr', hrel, hch⟩ := h r hr hp
  obtain ⟨hr'', hrel', hch'⟩ := h' r hr' hp
  exact ⟨hr'', hrel'.trans hrel, fun hc => hch (hch' hc)⟩

theorem Keeps.mono {s' : Registry} {p q : CollectionRecord → Prop} (h : s.Keeps s' p)
    (hq : ∀ r ∈ s.records, q r → p r) : s.Keeps s' q := fun r hr hqr => h r hr (hq r hr hqr)

theorem WellKeyed.eq_of_id (h : s.WellKeyed) {q r : CollectionRecord} (hq : q ∈ s.records)
    (hr : r ∈ s.records) (he : q.id = r.id) : q = r :=
  List.inj_on_of_nodup_map h.ids hq hr he

theorem WellKeyed.name_ne (h : s.WellKeyed) {q r : CollectionRecord} (hq : q ∈ s.records)
    (hr : r ∈ s.records) (hne : q.id ≠ r.id) : q.name ≠ r.name := fun he =>
  hne (congrArg _ (List.inj_on_of_nodup_map h.names hq hr he))

end Registry

namespace CollectionService

open SchemaManager Catalog Failing

variable {lower : Text → Text} {pg : Postgres} {s s' : Registry} {r old new : CollectionRecord}

theorem ddl_eq_ok {x : Option Catalog} {cat : Catalog} : ddl x = .ok cat ↔ x = some cat := by
  cases x with
  | none => simp [ddl]
  | some c => simp [ddl]

/-- The record as it stands in the list after an update of `old` to `new`. -/
def replaced (new q : CollectionRecord) : CollectionRecord := if q.id = new.id then new else q

theorem addCollection_spec (h : addCollection pg r s = .ok s') :
    (∀ q ∈ s.records, q.id ≠ r.id ∧ q.name ≠ r.name) ∧ s'.records = s.records ++ [r] ∧
      createCollectionTable pg r.toDef s.catalog = some s'.catalog := by
  obtain ⟨records, hins, h⟩ := bind_eq_ok.1 h
  obtain ⟨cat, hcat, h⟩ := bind_eq_ok.1 h
  obtain rfl := Except.ok.inj h
  unfold insert at hins
  split_ifs at hins with hany
  refine ⟨fun q hq => ?_, (Except.ok.inj hins).symm, ddl_eq_ok.1 hcat⟩
  by_contra hno
  refine hany (List.any_eq_true.2 ⟨q, hq, ?_⟩)
  simp only [Bool.or_eq_true, decide_eq_true_eq]
  tauto

theorem changeCollection_spec (h : changeCollection pg old new s = .ok s') :
    (∀ q ∈ s.records, q.id ≠ new.id → q.name ≠ new.name) ∧
      s'.records = s.records.map (replaced new) ∧
      (if physicalSchemaChanged old new then
        updateCollectionTable pg old.toDef new.toDef s.catalog = some s'.catalog
      else s'.catalog = s.catalog) := by
  obtain ⟨records, hsave, h⟩ := bind_eq_ok.1 h
  have hrec : (∀ q ∈ s.records, q.id ≠ new.id → q.name ≠ new.name) ∧
      records = s.records.map (replaced new) := by
    unfold save at hsave
    split_ifs at hsave with hany
    refine ⟨fun q hq hid hn => hany (List.any_eq_true.2 ⟨q, hq, ?_⟩), ?_⟩
    · simp [hid, hn]
    · rw [← Except.ok.inj hsave]
      rfl
  split_ifs at h with hch
  · obtain ⟨cat, hcat, h⟩ := bind_eq_ok.1 h
    obtain rfl := Except.ok.inj h
    exact ⟨hrec.1, hrec.2, by rw [if_pos hch]; exact ddl_eq_ok.1 hcat⟩
  · obtain rfl := Except.ok.inj h
    exact ⟨hrec.1, hrec.2, by rw [if_neg hch]⟩

theorem dropCollection_spec (h : dropCollection pg r s = .ok s') :
    s'.records = s.records.filter (·.id ≠ r.id) ∧
      dropCollectionObject pg r.name s.catalog = some s'.catalog := by
  obtain ⟨cat, hcat, h⟩ := bind_eq_ok.1 h
  obtain rfl := Except.ok.inj h
  exact ⟨rfl, ddl_eq_ok.1 hcat⟩

theorem addCollection_wellKeyed (hs : s.WellKeyed) (h : addCollection pg r s = .ok s') :
    s'.WellKeyed := by
  obtain ⟨hnew, hrec, -⟩ := addCollection_spec h
  constructor
  · rw [hrec, List.map_append, List.nodup_append']
    refine ⟨hs.ids, List.nodup_singleton _, fun i hi hr => ?_⟩
    obtain ⟨q, hq, rfl⟩ := List.mem_map.1 hi
    exact (hnew q hq).1 (List.mem_singleton.1 hr)
  · rw [hrec, List.map_append, List.nodup_append']
    refine ⟨hs.names, List.nodup_singleton _, fun n hn hr => ?_⟩
    obtain ⟨q, hq, rfl⟩ := List.mem_map.1 hn
    exact (hnew q hq).2 (List.mem_singleton.1 hr)

theorem addCollection_kept (h : addCollection pg r s = .ok s') : s.Keeps s' fun _ => True := by
  obtain ⟨hnew, hrec, hcat⟩ := addCollection_spec h
  intro q hq _
  refine ⟨hrec ▸ List.mem_append_left _ hq, createCollectionTable_frame hcat q.name fun hn => ?_⟩
  exact (hnew q hq).2 (List.mem_singleton.1 hn)

theorem changeCollection_frame (h : changeCollection pg old new s = .ok s') :
    Frame s.catalog s'.catalog [old.name, new.name] := by
  obtain ⟨-, -, hcat⟩ := changeCollection_spec h
  split_ifs at hcat
  · exact updateCollectionTable_frame hcat
  · exact hcat ▸ .refl _ _

theorem map_id_replaced (new : CollectionRecord) (rs : List CollectionRecord) :
    (rs.map (replaced new)).map CollectionRecord.id = rs.map CollectionRecord.id := by
  rw [List.map_map]
  refine List.map_congr_left fun q _ => ?_
  simp only [Function.comp_apply, replaced]
  split_ifs with hq
  · exact hq.symm
  · rfl

theorem changeCollection_wellKeyed (hs : s.WellKeyed) (h : changeCollection pg old new s = .ok s') :
    s'.WellKeyed := by
  obtain ⟨hnew, hrec, -⟩ := changeCollection_spec h
  constructor
  · rw [hrec, map_id_replaced]
    exact hs.ids
  · rw [hrec, List.map_map]
    refine (List.nodup_map_iff_inj_on hs.ids.of_map).2 fun q hq q' hq' he => ?_
    simp only [Function.comp_apply, replaced] at he
    split_ifs at he with h₁ h₂ h₂
    · exact hs.eq_of_id hq hq' (h₁.trans h₂.symm)
    · exact absurd he.symm (hnew q' hq' h₂)
    · exact absurd he (hnew q hq h₁)
    · exact List.inj_on_of_nodup_map hs.names hq hq' he

theorem changeCollection_kept (hs : s.WellKeyed) (hold : old ∈ s.records) (hid : new.id = old.id)
    (h : changeCollection pg old new s = .ok s') : s.Keeps s' fun q => q.id ≠ old.id := by
  obtain ⟨hnew, hrec, -⟩ := changeCollection_spec h
  intro q hq hne
  refine ⟨?_, changeCollection_frame h q.name fun hn => ?_⟩
  · rw [hrec]
    refine List.mem_map.2 ⟨q, hq, if_neg ?_⟩
    rwa [hid]
  · rcases List.mem_cons.1 hn with hn | hn
    · exact hs.name_ne hq hold hne hn
    · exact hnew q hq (by rwa [hid]) (List.mem_singleton.1 hn)

theorem dropCollection_wellKeyed (hs : s.WellKeyed) (h : dropCollection pg r s = .ok s') :
    s'.WellKeyed := by
  obtain ⟨hrec, -⟩ := dropCollection_spec h
  constructor
  · rw [hrec]
    exact hs.ids.sublist (List.filter_sublist.map _)
  · rw [hrec]
    exact hs.names.sublist (List.filter_sublist.map _)

theorem dropCollection_kept (hs : s.WellKeyed) (hr : r ∈ s.records)
    (h : dropCollection pg r s = .ok s') : s.Keeps s' fun q => q.id ≠ r.id := by
  obtain ⟨hrec, hcat⟩ := dropCollection_spec h
  intro q hq hne
  refine ⟨hrec ▸ List.mem_filter.2 ⟨hq, by simpa using hne⟩,
    dropCollectionObject_frame hcat q.name fun hn => ?_⟩
  exact hs.name_ne hq hr hne (List.mem_singleton.1 hn)

/-! ## System collections -/

/-- A collection with the system flag. -/
def IsSystem (r : CollectionRecord) : Prop := r.system = true

instance : DecidablePred IsSystem := fun _ => inferInstanceAs (Decidable (_ = _))

/-- An operation that is no import naming a system collection. -/
def Spares (lower : Text → Text) (s : Registry) : Op → Prop
  | .importAll entries _ =>
    ∀ e ∈ entries, ∀ r ∈ s.records, IsSystem r → lower e.name ≠ lower r.name
  | _ => True

/-- Each operation of a run spares the system collections there are before it. -/
def SparesAll (lower : Text → Text) (pg : Postgres) : Registry → List Op → Prop
  | _, [] => True
  | s, op :: ops => Spares lower s op ∧ SparesAll lower pg (step lower pg s op) ops

variable {g : Generated} {i : Text}

theorem createCollection_kept {data : CollectionCreate} (hs : s.WellKeyed)
    (h : createCollection lower pg g data s = .ok s') :
    s'.WellKeyed ∧ s.Keeps s' fun _ => True := by
  obtain ⟨-, -, h⟩ := bind_eq_ok.1 h
  split_ifs at h
  obtain ⟨id, -, h⟩ := bind_eq_ok.1 h
  exact ⟨addCollection_wellKeyed hs h, addCollection_kept h⟩

theorem findCollection_mem (h : findCollection lower s i = .ok r) : r ∈ s.records := by
  unfold findCollection at h
  cases hf : s.records.find? fun q => q.id = i || lower q.name = lower i with
  | none => simp [hf] at h
  | some q =>
    simp only [hf] at h
    exact Except.ok.inj h ▸ List.mem_of_find?_eq_some hf

theorem updateCollection_kept {data : CollectionUpdate} (hs : s.WellKeyed)
    (h : updateCollection lower pg g i data s = .ok s') : s'.WellKeyed ∧ s.Keeps s' IsSystem := by
  obtain ⟨record, hfind, h⟩ := bind_eq_ok.1 h
  split_ifs at h with hsys
  obtain ⟨name, -, h⟩ := bind_eq_ok.1 h
  have hmem := findCollection_mem hfind
  refine ⟨changeCollection_wellKeyed hs h, (changeCollection_kept hs hmem (by rfl) h).mono ?_⟩
  intro q hq hqs he
  exact hsys (hs.eq_of_id hq hmem he ▸ hqs)

theorem deleteCollection_kept (hs : s.WellKeyed) (h : deleteCollection lower pg i s = .ok s') :
    s'.WellKeyed ∧ s.Keeps s' IsSystem := by
  obtain ⟨record, hfind, h⟩ := bind_eq_ok.1 h
  split_ifs at h with hsys
  have hmem := findCollection_mem hfind
  refine ⟨dropCollection_wellKeyed hs h, (dropCollection_kept hs hmem h).mono ?_⟩
  intro q hq hqs he
  exact hsys (hs.eq_of_id hq hmem he ▸ hqs)

/-- The collections an import starts from, by their names in lower case. -/
def snapshot (lower : Text → Text) (s : Registry) : Dict Text Text :=
  s.records.foldl (fun d r => d.set (lower r.name) r.id) []

theorem mem_of_snapshot {k : Text} (h : (snapshot lower s).get? k = some i) :
    ∃ r ∈ s.records, lower r.name = k ∧ r.id = i := by
  have hfold : ∀ (rs : List CollectionRecord) (d : Dict Text Text),
      (rs.foldl (fun d r => d.set (lower r.name) r.id) d).get? k = some i →
        d.get? k = some i ∨ ∃ r ∈ rs, lower r.name = k ∧ r.id = i := by
    intro rs
    induction rs with
    | nil => exact fun d h => .inl h
    | cons r rs ih =>
      intro d h
      rcases ih _ h with h | ⟨q, hq, h⟩
      · rw [Dict.get?_set] at h
        split_ifs at h with hk
        · exact .inr ⟨r, List.mem_cons_self, hk, Option.some.inj h⟩
        · exact .inl h
      · exact .inr ⟨q, List.mem_cons_of_mem _ hq, h⟩
  rcases hfold _ _ h with h | h
  · cases h
  · exact h

theorem find?_id_eq_some (h : s.records.find? (·.id = i) = some r) : r ∈ s.records ∧ r.id = i :=
  ⟨List.mem_of_find?_eq_some h, by simpa using List.find?_some h⟩

/-- An entry of an import that names no system collection there was at the start. -/
theorem importEntry_kept {cur next : Registry} {e : ImportEntry} (hs : s.WellKeyed)
    (hcur : cur.WellKeyed ∧ s.Keeps cur IsSystem)
    (hspare : ∀ r ∈ s.records, IsSystem r → lower e.name ≠ lower r.name)
    (h : importEntry lower pg (snapshot lower s) cur e = .ok next) :
    next.WellKeyed ∧ s.Keeps next IsSystem := by
  unfold importEntry at h
  split_ifs at h with hname
  · exact Except.ok.inj h ▸ hcur
  · cases hex : (snapshot lower s).get? (lower e.name) with
    | none =>
      simp only [hex] at h
      obtain ⟨id, -, h⟩ := bind_eq_ok.1 h
      exact ⟨addCollection_wellKeyed hcur.1 h,
        hcur.2.trans ((addCollection_kept h).mono fun _ _ _ => trivial)⟩
    | some i =>
      simp only [hex] at h
      cases hf : cur.records.find? (·.id = i) with
      | none =>
        simp only [hf] at h
        exact Except.ok.inj h ▸ hcur
      | some record =>
        simp only [hf] at h
        obtain ⟨hmem, hid⟩ := find?_id_eq_some hf
        refine ⟨changeCollection_wellKeyed hcur.1 h, fun r hr hsys => ?_⟩
        obtain ⟨r₀, hr₀, hlow, hid₀⟩ := mem_of_snapshot hex
        have hne : r.id ≠ record.id := by
          intro he
          obtain rfl := hs.eq_of_id hr hr₀ (he.trans (hid.trans hid₀.symm))
          exact hspare r hr hsys hlow.symm
        obtain ⟨hrc, hrel, hch⟩ := hcur.2 r hr hsys
        obtain ⟨hrn, hrel', hch'⟩ := changeCollection_kept hcur.1 hmem (by rfl) h r hrc hne
        exact ⟨hrn, hrel'.trans hrel, fun hc => hch (hch' hc)⟩

theorem deleteMissingOne_kept {cur next : Registry} {imported : List Text} {entry : Text × Text}
    (hcur : cur.WellKeyed ∧ s.Keeps cur IsSystem)
    (h : deleteMissingOne pg imported cur entry = .ok next) :
    next.WellKeyed ∧ s.Keeps next IsSystem := by
  unfold deleteMissingOne at h
  split_ifs at h with himp
  · exact Except.ok.inj h ▸ hcur
  · cases hf : cur.records.find? (·.id = entry.2) with
    | none =>
      simp only [hf] at h
      exact Except.ok.inj h ▸ hcur
    | some record =>
      simp only [hf] at h
      obtain ⟨hmem, -⟩ := find?_id_eq_some hf
      split_ifs at h with hsys
      · exact Except.ok.inj h ▸ hcur
      · refine ⟨dropCollection_wellKeyed hcur.1 h, fun r hr hrs => ?_⟩
        obtain ⟨hrc, hrel, hch⟩ := hcur.2 r hr hrs
        have hne : r.id ≠ record.id := fun he => hsys (hcur.1.eq_of_id hrc hmem he ▸ hrs)
        obtain ⟨hrn, hrel', hch'⟩ := dropCollection_kept hcur.1 hmem h r hrc hne
        exact ⟨hrn, hrel'.trans hrel, fun hc => hch (hch' hc)⟩

theorem importCollections_kept {entries : List ImportEntry} {deleteMissing : Bool}
    (hs : s.WellKeyed)
    (hspare : ∀ e ∈ entries, ∀ r ∈ s.records, IsSystem r → lower e.name ≠ lower r.name)
    (h : importCollections lower pg entries deleteMissing s = .ok s') :
    s'.WellKeyed ∧ s.Keeps s' IsSystem := by
  obtain ⟨cur, hfold, h⟩ := bind_eq_ok.1 h
  have hcur : cur.WellKeyed ∧ s.Keeps cur IsSystem :=
    foldlM_invariant (P := fun c => c.WellKeyed ∧ s.Keeps c IsSystem)
      (fun e he c c' hc hstep => importEntry_kept hs hc (hspare e he) hstep) ⟨hs, .refl _ _⟩ hfold
  split_ifs at h
  · exact foldlM_invariant (P := fun c => c.WellKeyed ∧ s.Keeps c IsSystem)
      (fun entry _ c c' hc hstep => deleteMissingOne_kept hc hstep) hcur h
  · exact Except.ok.inj h ▸ hcur

theorem step_kept {op : Op} (hs : s.WellKeyed) (hop : Spares lower s op) :
    (step lower pg s op).WellKeyed ∧ s.Keeps (step lower pg s op) IsSystem := by
  have hsame : s.WellKeyed ∧ s.Keeps s IsSystem := ⟨hs, .refl _ _⟩
  cases op with
  | create g data =>
    cases h : createCollection lower pg g data s with
    | error e => simpa only [step, h] using hsame
    | ok s' =>
      have hk := createCollection_kept hs h
      simpa only [step, h] using
        (⟨hk.1, hk.2.mono fun _ _ _ => trivial⟩ : s'.WellKeyed ∧ s.Keeps s' IsSystem)
  | update g i data =>
    cases h : updateCollection lower pg g i data s with
    | error e => simpa only [step, h] using hsame
    | ok s' => simpa only [step, h] using updateCollection_kept hs h
  | delete i =>
    cases h : deleteCollection lower pg i s with
    | error e => simpa only [step, h] using hsame
    | ok s' => simpa only [step, h] using deleteCollection_kept hs h
  | importAll entries deleteMissing =>
    cases h : importCollections lower pg entries deleteMissing s with
    | error e => simpa only [step, h] using hsame
    | ok s' => simpa only [step, h] using importCollections_kept hs hop h

/-- In every run whose imports name no system collection, a collection with the system flag
stays as it is, and so does its relation, which no statement changes. -/
theorem run_keeps_system {ops : List Op} (hs : s.WellKeyed) (hops : SparesAll lower pg s ops) :
    s.Keeps (run lower pg s ops) IsSystem := by
  induction ops generalizing s with
  | nil => exact .refl _ _
  | cons op ops ih =>
    have hstep : (step lower pg s op).WellKeyed ∧ s.Keeps (step lower pg s op) IsSystem :=
      step_kept hs hops.1
    exact hstep.2.trans (ih hstep.1 hops.2)

/-- The first two fields of the `_mfas` collection. -/
def mfasRefs : List FieldDefinition :=
  [{ name := "collectionRef", type := .text, required := true },
    { name := "recordRef", type := .text, required := true }]

/-- The `_mfas` collection that the server creates when it starts. -/
def mfasRecord : CollectionRecord where
  id := "pbc_mfas"
  name := "_mfas"
  type := "base"
  system := true
  schema := mfasRefs ++ [{ name := "method", type := .text, required := true }]
  indexes := [("CREATE INDEX IF NOT EXISTS \"idx__mfas_cr\" " ++
    "ON \"_mfas\" (\"collectionRef\", \"recordRef\")").toList]
  rules := {}
  options := []

/-- A registry with one system collection and its table. -/
def mfasRegistry : Registry where
  records := [mfasRecord]
  catalog :=
    { relations := [("_mfas", .table (baseColumns ++
        [(("collectionRef" : Text), ("TEXT NOT NULL DEFAULT ''" : Text)),
          (("recordRef" : Text), ("TEXT NOT NULL DEFAULT ''" : Text)),
          (("method" : Text), ("TEXT NOT NULL DEFAULT ''" : Text))]))] }

/-- A database that takes every statement the model has checked. -/
def anyPostgres : Postgres := ⟨fun _ _ => true⟩

def noGenerated : Generated := ⟨[], fun _ => []⟩

/-- An import entry that names a system collection changes its schema and its table. -/
theorem import_changes_system : ¬∀ (lower : Text → Text) (pg : Postgres) (s : Registry)
    (ops : List Op), s.WellKeyed → s.Keeps (run lower pg s ops) IsSystem := by
  intro h
  have hkept := h Text.lower anyPostgres mfasRegistry
    [.importAll [{ name := "_mfas", schema := some mfasRefs, generated := noGenerated }] false]
    ⟨List.nodup_singleton _, List.nodup_singleton _⟩ mfasRecord (List.mem_singleton.2 rfl) rfl
  revert hkept
  decide

/-- Creating a collection and importing another leaves the system collection alone. -/
theorem create_keeps_system : mfasRegistry.Keeps (run Text.lower anyPostgres mfasRegistry
    [.create ⟨"posts0000000001", fun _ => []⟩ { name := "posts" },
      .importAll [{ name := "notes", generated := ⟨"notes0000000001", fun _ => []⟩ }] true])
      IsSystem :=
  run_keeps_system ⟨List.nodup_singleton _, List.nodup_singleton _⟩
    ⟨trivial, List.forall_mem_singleton.2 (by decide), trivial⟩

/-! ## Names -/

/-- The names of a registry whose records in `boot` were there at the start : distinct
without regard to case, of the grammar and, for the other records, neither reserved nor the
name of a system table. -/
structure NamesOk (lower : Text → Text) (boot : List (Text × Text)) (s : Registry) : Prop where
  distinct : (s.records.map fun r => lower r.name).Nodup
  grammar : ∀ r ∈ s.records, isName r.name = true
  unreserved : ∀ r ∈ s.records, (r.id, r.name) ∈ boot ∨
    (lower r.name ∉ reservedNames ∧ r.name ∉ systemTables)

/-- A name that a new collection may have. -/
def Proper (lower : Text → Text) (n : Text) : Prop :=
  isName n = true ∧ lower n ∉ reservedNames ∧ n ∉ systemTables

instance (lower : Text → Text) : DecidablePred (Proper lower) :=
  fun _ => inferInstanceAs (Decidable (_ ∧ _))

/-- The entries of an import that create a collection. -/
def creating (lower : Text → Text) (s : Registry) (entries : List ImportEntry) :
    List ImportEntry :=
  entries.filter fun e => e.name ≠ [] ∧ ((snapshot lower s).get? (lower e.name)).isNone

/-- An operation that gives proper names : an import besides gives no name twice, without
regard to case. What `create_collection` and `update_collection` check is not asked for. -/
def GivesNames (lower : Text → Text) (s : Registry) : Op → Prop
  | .create _ data => isName data.name = true ∧ data.name ∉ systemTables
  | .update _ i data => ∀ name r, data.name = some name → findCollection lower s i = .ok r →
      lower name ≠ lower r.name → isName name = true ∧ name ∉ systemTables
  | .delete _ => True
  | .importAll entries _ => (∀ e ∈ creating lower s entries, Proper lower e.name) ∧
      ((creating lower s entries).map fun e => lower e.name).Nodup

/-- Each operation of a run gives proper names. -/
def GivesNamesAll (lower : Text → Text) (pg : Postgres) : Registry → List Op → Prop
  | _, [] => True
  | s, op :: ops => GivesNames lower s op ∧ GivesNamesAll lower pg (step lower pg s op) ops

theorem unreserved_of_validate {n : Text} {u : Unit}
    (h : validateCollectionName lower n = .ok u) : lower n ∉ reservedNames := by
  unfold validateCollectionName at h
  split_ifs at h
  assumption

variable {boot : List (Text × Text)}

theorem addCollection_names (hs : NamesOk lower boot s) (hr : Proper lower r.name)
    (hnew : ∀ q ∈ s.records, lower q.name ≠ lower r.name) (h : addCollection pg r s = .ok s') :
    NamesOk lower boot s' := by
  obtain ⟨-, hrec, -⟩ := addCollection_spec h
  have hmem : ∀ q ∈ s'.records, q ∈ s.records ∨ q = r := fun q hq => by
    simpa [hrec] using hq
  refine ⟨?_, fun q hq => ?_, fun q hq => ?_⟩
  · rw [hrec, List.map_append, List.nodup_append']
    refine ⟨hs.distinct, List.nodup_singleton _, fun n hn hm => ?_⟩
    obtain ⟨q, hq, rfl⟩ := List.mem_map.1 hn
    exact hnew q hq (List.mem_singleton.1 hm)
  · rcases hmem q hq with hq | rfl
    · exact hs.grammar q hq
    · exact hr.1
  · rcases hmem q hq with hq | rfl
    · exact hs.unreserved q hq
    · exact .inr hr.2

theorem changeCollection_names (hwf : s.WellKeyed) (hs : NamesOk lower boot s)
    (hold : old ∈ s.records) (hid : new.id = old.id)
    (hname : new.name = old.name ∨ Proper lower new.name ∧
      ∀ q ∈ s.records, q.id ≠ old.id → lower q.name ≠ lower new.name)
    (h : changeCollection pg old new s = .ok s') : NamesOk lower boot s' := by
  obtain ⟨-, hrec, -⟩ := changeCollection_spec h
  have hmem : ∀ q ∈ s'.records, q ∈ s.records ∨ q = new := by
    intro q hq
    rw [hrec, List.mem_map] at hq
    obtain ⟨p, hp, rfl⟩ := hq
    unfold replaced
    split_ifs
    · exact .inr rfl
    · exact .inl hp
  have hother : ∀ q ∈ s.records, q.id ≠ old.id → lower q.name ≠ lower new.name := by
    intro q hq hne
    rcases hname with hname | hname
    · rw [hname]
      exact fun he => hne (congrArg _ (List.inj_on_of_nodup_map hs.distinct hq hold he))
    · exact hname.2 q hq hne
  refine ⟨?_, fun q hq => ?_, fun q hq => ?_⟩
  · rw [hrec, List.map_map]
    refine (List.nodup_map_iff_inj_on hwf.ids.of_map).2 fun p hp q hq he => ?_
    simp only [Function.comp_apply, replaced, hid] at he
    split_ifs at he with h₁ h₂ h₂
    · exact hwf.eq_of_id hp hq (h₁.trans h₂.symm)
    · exact absurd he.symm (hother q hq h₂)
    · exact absurd he (hother p hp h₁)
    · exact List.inj_on_of_nodup_map hs.distinct hp hq he
  · rcases hmem q hq with hq | rfl
    · exact hs.grammar q hq
    · rcases hname with hname | hname
      · exact hname ▸ hs.grammar old hold
      · exact hname.1.1
  · rcases hmem q hq with hq | rfl
    · exact hs.unreserved q hq
    · rcases hname with hname | hname
      · rw [hname, hid]
        exact hs.unreserved old hold
      · exact .inr hname.1.2

theorem dropCollection_names (hs : NamesOk lower boot s) (h : dropCollection pg r s = .ok s') :
    NamesOk lower boot s' := by
  obtain ⟨hrec, -⟩ := dropCollection_spec h
  have hmem : ∀ q ∈ s'.records, q ∈ s.records := fun q hq => by
    rw [hrec] at hq
    exact List.mem_of_mem_filter hq
  refine ⟨?_, fun q hq => hs.grammar q (hmem q hq), fun q hq => hs.unreserved q (hmem q hq)⟩
  rw [hrec]
  exact hs.distinct.sublist (List.filter_sublist.map _)

theorem createCollection_names {data : CollectionCreate} (hs : NamesOk lower boot s)
    (hop : isName data.name = true ∧ data.name ∉ systemTables)
    (h : createCollection lower pg g data s = .ok s') : NamesOk lower boot s' := by
  obtain ⟨u, hval, h⟩ := bind_eq_ok.1 h
  split_ifs at h with hany
  obtain ⟨id, -, h⟩ := bind_eq_ok.1 h
  refine addCollection_names hs ⟨hop.1, unreserved_of_validate hval, hop.2⟩ (fun q hq he => ?_) h
  exact hany (List.any_eq_true.2 ⟨q, hq, by simpa using he⟩)

/-- The name an update gives is the old one, or one that it has checked. -/
theorem newName_spec {record : CollectionRecord} {name : Option Text} {n : Text}
    (h : newName lower s record name = .ok n) : n = record.name ∨
      name = some n ∧ lower n ≠ lower record.name ∧ lower n ∉ reservedNames ∧
        ∀ q ∈ s.records, q.id ≠ record.id → lower q.name ≠ lower n := by
  unfold newName at h
  cases name with
  | none => exact .inl (Except.ok.inj h).symm
  | some m =>
    simp only at h
    split_ifs at h with hsame hany
    · exact .inl (Except.ok.inj h).symm
    · obtain ⟨u, -, h⟩ := bind_eq_ok.1 h
      cases h
    · obtain ⟨u, hval, h⟩ := bind_eq_ok.1 h
      obtain rfl := Except.ok.inj h
      refine .inr ⟨rfl, hsame, unreserved_of_validate hval, fun q hq hne he => ?_⟩
      exact hany (List.any_eq_true.2 ⟨q, hq, by simp [he, hne]⟩)

theorem updateCollection_names {data : CollectionUpdate} (hwf : s.WellKeyed)
    (hs : NamesOk lower boot s) (hop : GivesNames lower s (.update g i data))
    (h : updateCollection lower pg g i data s = .ok s') : NamesOk lower boot s' := by
  obtain ⟨record, hfind, h⟩ := bind_eq_ok.1 h
  split_ifs at h
  obtain ⟨name, hname, h⟩ := bind_eq_ok.1 h
  refine changeCollection_names hwf hs (findCollection_mem hfind) (by rfl) ?_ h
  rcases newName_spec hname with he | ⟨hdata, hne, hres, hother⟩
  · exact .inl he
  · have hgiven := hop name record hdata hfind hne
    exact .inr ⟨⟨hgiven.1, hres, hgiven.2⟩, hother⟩

theorem deleteCollection_names (hs : NamesOk lower boot s)
    (h : deleteCollection lower pg i s = .ok s') : NamesOk lower boot s' := by
  obtain ⟨record, -, h⟩ := bind_eq_ok.1 h
  split_ifs at h
  exact dropCollection_names hs h

/-- The entries of an import, from a state that has none of the names to be created. -/
theorem importEntries_names {entries : List ImportEntry} {cur next : Registry}
    (hwf : cur.WellKeyed) (hcur : NamesOk lower boot cur)
    (hprop : ∀ e ∈ creating lower s entries, Proper lower e.name)
    (hnd : ((creating lower s entries).map fun e => lower e.name).Nodup)
    (hnew : ∀ e ∈ creating lower s entries, ∀ q ∈ cur.records, lower q.name ≠ lower e.name)
    (h : entries.foldlM (importEntry lower pg (snapshot lower s)) cur = .ok next) :
    next.WellKeyed ∧ NamesOk lower boot next := by
  induction entries generalizing cur with
  | nil =>
    obtain rfl := Except.ok.inj h
    exact ⟨hwf, hcur⟩
  | cons e entries ih =>
    rw [List.foldlM_cons] at h
    obtain ⟨mid, hmid, h⟩ := bind_eq_ok.1 h
    unfold importEntry at hmid
    split_ifs at hmid with hname
    · have hskip : creating lower s (e :: entries) = creating lower s entries := by
        simp [creating, hname]
      rw [hskip] at hprop hnd hnew
      obtain rfl := Except.ok.inj hmid
      exact ih hwf hcur hprop hnd hnew h
    · cases hex : (snapshot lower s).get? (lower e.name) with
      | none =>
        have hcons : creating lower s (e :: entries) = e :: creating lower s entries := by
          simp [creating, hname, hex]
        rw [hcons] at hprop hnd hnew
        rw [List.map_cons, List.nodup_cons] at hnd
        simp only [hex] at hmid
        obtain ⟨id, -, hadd⟩ := bind_eq_ok.1 hmid
        refine ih (addCollection_wellKeyed hwf hadd)
          (addCollection_names hcur (hprop e List.mem_cons_self) (hnew e List.mem_cons_self) hadd)
          (fun e' he' => hprop e' (List.mem_cons_of_mem _ he')) hnd.2 (fun e' he' q hq => ?_) h
        obtain ⟨-, hrec, -⟩ := addCollection_spec hadd
        rw [hrec, List.mem_append, List.mem_singleton] at hq
        rcases hq with hq | rfl
        · exact hnew e' (List.mem_cons_of_mem _ he') q hq
        · exact fun he => hnd.1 (List.mem_map.2 ⟨e', he', he.symm⟩)
      | some i =>
        have hskip : creating lower s (e :: entries) = creating lower s entries := by
          simp [creating, hex]
        rw [hskip] at hprop hnd hnew
        simp only [hex] at hmid
        cases hf : cur.records.find? (·.id = i) with
        | none =>
          simp only [hf] at hmid
          obtain rfl := Except.ok.inj hmid
          exact ih hwf hcur hprop hnd hnew h
        | some record =>
          simp only [hf] at hmid
          obtain ⟨hmem, -⟩ := find?_id_eq_some hf
          refine ih (changeCollection_wellKeyed hwf hmid)
            (changeCollection_names hwf hcur hmem (by rfl) (.inl (by rfl)) hmid) hprop hnd
            (fun e' he' q hq => ?_) h
          obtain ⟨-, hrec, -⟩ := changeCollection_spec hmid
          rw [hrec, List.mem_map] at hq
          obtain ⟨p, hp, rfl⟩ := hq
          unfold replaced
          split_ifs
          · exact hnew e' he' record hmem
          · exact hnew e' he' p hp

theorem snapshot_ne_none (hr : r ∈ s.records) : (snapshot lower s).get? (lower r.name) ≠ none := by
  have hfold : ∀ (rs : List CollectionRecord) (d : Dict Text Text),
      r ∈ rs ∨ d.get? (lower r.name) ≠ none →
        (rs.foldl (fun d r => d.set (lower r.name) r.id) d).get? (lower r.name) ≠ none := by
    intro rs
    induction rs with
    | nil => exact fun d h => h.resolve_left List.not_mem_nil
    | cons q rs ih =>
      intro d h
      refine ih _ ?_
      rw [Dict.get?_set]
      split_ifs with hq
      · exact .inr (Option.some_ne_none _)
      · rcases h with h | h
        · rcases List.mem_cons.1 h with rfl | h
          · exact absurd rfl hq
          · exact .inl h
        · exact .inr h
  exact hfold _ _ (.inl hr)

theorem importCollections_names {entries : List ImportEntry} {deleteMissing : Bool}
    (hwf : s.WellKeyed) (hs : NamesOk lower boot s)
    (hop : GivesNames lower s (.importAll entries deleteMissing))
    (h : importCollections lower pg entries deleteMissing s = .ok s') :
    s'.WellKeyed ∧ NamesOk lower boot s' := by
  obtain ⟨cur, hfold, h⟩ := bind_eq_ok.1 h
  have hcur : cur.WellKeyed ∧ NamesOk lower boot cur := by
    refine importEntries_names hwf hs hop.1 hop.2 (fun e he q hq hlow => ?_) hfold
    have hnone := (List.mem_filter.1 he).2
    rw [decide_eq_true_eq, Option.isNone_iff_eq_none, ← hlow] at hnone
    exact snapshot_ne_none hq hnone.2
  split_ifs at h
  · refine foldlM_invariant (P := fun c => c.WellKeyed ∧ NamesOk lower boot c)
      (fun entry _ c c' hc hstep => ?_) hcur h
    unfold deleteMissingOne at hstep
    split_ifs at hstep
    · exact Except.ok.inj hstep ▸ hc
    · cases hf : c.records.find? (·.id = entry.2) with
      | none =>
        simp only [hf] at hstep
        exact Except.ok.inj hstep ▸ hc
      | some record =>
        simp only [hf] at hstep
        split_ifs at hstep
        · exact Except.ok.inj hstep ▸ hc
        · exact ⟨dropCollection_wellKeyed hc.1 hstep, dropCollection_names hc.2 hstep⟩
  · exact Except.ok.inj h ▸ hcur

theorem step_wellKeyed {op : Op} (hwf : s.WellKeyed) (hs : NamesOk lower boot s)
    (hop : GivesNames lower s op) :
    (step lower pg s op).WellKeyed ∧ NamesOk lower boot (step lower pg s op) := by
  cases op with
  | create g data =>
    cases h : createCollection lower pg g data s with
    | error e => simpa only [step, h] using And.intro hwf hs
    | ok s' =>
      simpa only [step, h] using
        And.intro (createCollection_kept hwf h).1 (createCollection_names hs hop h)
  | update g i data =>
    cases h : updateCollection lower pg g i data s with
    | error e => simpa only [step, h] using And.intro hwf hs
    | ok s' =>
      simpa only [step, h] using
        And.intro (updateCollection_kept hwf h).1 (updateCollection_names hwf hs hop h)
  | delete i =>
    cases h : deleteCollection lower pg i s with
    | error e => simpa only [step, h] using And.intro hwf hs
    | ok s' =>
      simpa only [step, h] using
        And.intro (deleteCollection_kept hwf h).1 (deleteCollection_names hs h)
  | importAll entries deleteMissing =>
    cases h : importCollections lower pg entries deleteMissing s with
    | error e => simpa only [step, h] using And.intro hwf hs
    | ok s' => simpa only [step, h] using importCollections_names hwf hs hop h

/-- In every run whose operations give proper names, the names of the collections stay
distinct without regard to case, of the grammar and, except for those there were at the
start, neither reserved nor the names of system tables. -/
theorem run_names {ops : List Op} (hwf : s.WellKeyed) (hs : NamesOk lower boot s)
    (hops : GivesNamesAll lower pg s ops) : NamesOk lower boot (run lower pg s ops) := by
  induction ops generalizing s with
  | nil => exact hs
  | cons op ops ih =>
    have hstep : (step lower pg s op).WellKeyed ∧ NamesOk lower boot (step lower pg s op) :=
      step_wellKeyed hwf hs hops.1
    exact ih hstep.1 hstep.2 hops.2

/-- An import of two new names that differ in case creates both. -/
theorem import_breaks_names : ¬∀ (lower : Text → Text) (pg : Postgres) (s : Registry)
    (boot : List (Text × Text)) (ops : List Op), s.WellKeyed → NamesOk lower boot s →
      NamesOk lower boot (run lower pg s ops) := by
  intro h
  have hnames := h Text.lower anyPostgres ⟨[], ⟨[], []⟩⟩ []
    [.importAll [{ name := "Posts", generated := ⟨"posts0000000001", fun _ => []⟩ },
      { name := "posts", generated := ⟨"posts0000000002", fun _ => []⟩ }] false]
    ⟨.nil, .nil⟩ ⟨.nil, fun _ h => absurd h List.not_mem_nil, fun _ h => absurd h List.not_mem_nil⟩
  exact absurd hnames.distinct (by decide)

/-- A collection on the table of the request log : its name is not reserved, and
`CREATE TABLE IF NOT EXISTS` takes the table there is. -/
example : (run Text.lower anyPostgres ⟨[], ⟨[("_requests", .table [])], []⟩⟩
    [.create ⟨"requests0000001", fun _ => []⟩ { name := "_requests" }]).records.map
      CollectionRecord.name = [("_requests" : Text)] := by
  decide

/-- Creating and importing collections under proper names keeps the names in order. -/
theorem create_keeps_names : NamesOk Text.lower [] (run Text.lower anyPostgres ⟨[], ⟨[], []⟩⟩
    [.create ⟨"posts0000000001", fun _ => []⟩ { name := "posts" },
      .importAll [{ name := "notes", generated := ⟨"notes0000000001", fun _ => []⟩ },
        { name := "posts", generated := ⟨"posts0000000002", fun _ => []⟩ }] false]) :=
  run_names ⟨.nil, .nil⟩
    ⟨.nil, fun _ h => absurd h List.not_mem_nil, fun _ h => absurd h List.not_mem_nil⟩
    ⟨⟨by decide, by decide⟩, ⟨by decide, by decide⟩, trivial⟩

end CollectionService

end PPBase
