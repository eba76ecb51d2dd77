import PPBase.ArchiveMap

/-!
# Runs of the archive store

`crash_safe` : after every run of operations in which only mild things go wrong, the archives of
the directory are those of the map after the same operations with the same outcomes, and every key
that is not listed can be published, should nothing go wrong then (`publish_total`).

A crash between the two calls of a deletion is not mild (`crashed_delete_blocks`).
-/

namespace PPBase

namespace ArchiveStore

variable {u : Unicode} (attrsPayload : Text → Bytes → Bytes)

/-! ## Publishing without faults -/

/-- An upload that the store should take. -/
structure Uploadable (u : Unicode) (d : Disk) (x : Upload) : Prop where
  valid : keyError u x.key x.requireZipSuffix = none
  fits : Fits x.key
  content : payload x.source ≠ []
  limit : ∀ limit ∈ x.maxSize, (payload x.source).length ≤ limit
  magic : x.sniffZip = true → ∃ magic ∈ zipMagic, magic <+: (payload x.source).take 4
  token : byteLength x.token = 24
  fresh : d.has (temporaryName x.token) = false ∧ d.has (attrsTemporaryName x.token) = false

theorem has_set (d : Disk) (m n : Text) (c : Bytes) :
    (d.set m c).has n = (decide (m = n) || d.has n) := by
  rw [Dict.has, Dict.get?_set]
  split_ifs with h <;> simp [h, Dict.has]

theorem has_del (d : Disk) (m n : Text) : (d.del m).has n = (!decide (m = n) && d.has n) := by
  rw [Dict.has, Dict.get?_del]
  split_ifs with h <;> simp [h, Dict.has]

/-- Which of the files of an upload are there: the temporary ones, the archive and the sidecar. -/
structure Files (x : Upload) (temporary attrsTemporary key attrs : Bool) (f : Frame) : Prop where
  temporary : f.disk.has (temporaryName x.token) = temporary
  attrsTemporary : f.disk.has (attrsTemporaryName x.token) = attrsTemporary
  key : f.disk.has x.key = key
  attrs : f.disk.has (attrsName x.key) = attrs

section

variable {x : Upload} {t a k s : Bool} {f : Frame}

/-- The names of the files are different. -/
structure Distinct (x : Upload) : Prop where
  temporaries : temporaryName x.token ≠ attrsTemporaryName x.token
  temporary_key : temporaryName x.token ≠ x.key
  temporary_attrs : temporaryName x.token ≠ attrsName x.key
  attrsTemporary_key : attrsTemporaryName x.token ≠ x.key
  attrsTemporary_attrs : attrsTemporaryName x.token ≠ attrsName x.key
  key_attrs : x.key ≠ attrsName x.key

theorem distinct_of_isKey (hkey : IsKey u x.key) (hvisible : Visible x.key) : Distinct x where
  temporaries := temporary_ne_attrsTemporary _
  temporary_key h := hidden_temporary x.token (h ▸ hvisible)
  temporary_attrs h := hidden_temporary x.token (h ▸ visible_attrsName hvisible hkey.ne_nil)
  attrsTemporary_key h := hidden_attrsTemporary x.token (h ▸ hvisible)
  attrsTemporary_attrs h :=
    hidden_attrsTemporary x.token (h ▸ visible_attrsName hvisible hkey.ne_nil)
  key_attrs h := hkey.unreserved (h.symm ▸ List.suffix_append _ _)

variable (hx : Distinct x) (h : Files x t a k s f)

include hx h

theorem Files.set_temporary (c : Bytes) :
    Files x true a k s { f with disk := f.disk.set (temporaryName x.token) c } where
  temporary := by simp [has_set]
  attrsTemporary := by simp [has_set, hx.temporaries, h.attrsTemporary]
  key := by simp [has_set, hx.temporary_key, h.key]
  attrs := by simp [has_set, hx.temporary_attrs, h.attrs]

theorem Files.set_attrsTemporary (c : Bytes) :
    Files x t true k s { f with disk := f.disk.set (attrsTemporaryName x.token) c } where
  temporary := by simp [has_set, hx.temporaries.symm, h.temporary]
  attrsTemporary := by simp [has_set]
  key := by simp [has_set, hx.attrsTemporary_key, h.key]
  attrs := by simp [has_set, hx.attrsTemporary_attrs, h.attrs]

theorem Files.set_key (c : Bytes) :
    Files x t a true s { f with disk := f.disk.set x.key c } where
  temporary := by simp [has_set, hx.temporary_key.symm, h.temporary]
  attrsTemporary := by simp [has_set, hx.attrsTemporary_key.symm, h.attrsTemporary]
  key := by simp [has_set]
  attrs := by simp [has_set, hx.key_attrs, h.attrs]

theorem Files.set_attrs (c : Bytes) :
    Files x t a k true { f with disk := f.disk.set (attrsName x.key) c } where
  temporary := by simp [has_set, hx.temporary_attrs.symm, h.temporary]
  attrsTemporary := by simp [has_set, hx.attrsTemporary_attrs.symm, h.attrsTemporary]
  key := by simp [has_set, hx.key_attrs.symm, h.key]
  attrs := by simp [has_set]

theorem Files.del_temporary :
    Files x false a k s { f with disk := f.disk.del (temporaryName x.token) } where
  temporary := by simp [has_del]
  attrsTemporary := by simp [has_del, hx.temporaries, h.attrsTemporary]
  key := by simp [has_del, hx.temporary_key, h.key]
  attrs := by simp [has_del, hx.temporary_attrs, h.attrs]

theorem Files.del_attrsTemporary :
    Files x t false k s { f with disk := f.disk.del (attrsTemporaryName x.token) } where
  temporary := by simp [has_del, hx.temporaries.symm, h.temporary]
  attrsTemporary := by simp [has_del]
  key := by simp [has_del, hx.attrsTemporary_key, h.key]
  attrs := by simp [has_del, hx.attrsTemporary_attrs, h.attrs]

end

variable {f : Frame}

/-- The files are those of the disk. -/
theorem Files.congr {x : Upload} {t a k s : Bool} {g : Frame} (h : Files x t a k s f)
    (hdisk : g.disk = f.disk) : Files x t a k s g := by
  obtain ⟨h₁, h₂, h₃, h₄⟩ := h
  exact ⟨hdisk ▸ h₁, hdisk ▸ h₂, hdisk ▸ h₃, hdisk ▸ h₄⟩

theorem short_upload {s token e : Text} (hs : byteLength s = 8) (h : byteLength token = 24)
    (he : byteLength e ≤ 10) : byteLength (s ++ token ++ e) ≤ 255 := by
  rw [byteLength_append, byteLength_append]
  omega

theorem short_temporaries {token : Text} (h : byteLength token = 24) :
    byteLength (temporaryName token) ≤ 255 ∧ byteLength (attrsTemporaryName token) ≤ 255 :=
  ⟨short_upload (by decide) h (by decide), short_upload (by decide) h (by decide)⟩

theorem create_total {name : Text} (hshort : byteLength name ≤ 255) (h : f.disk.has name = false) :
    onDisk (create name) f = .ok { f with disk := f.disk.set name [] } := by
  rw [onDisk, create, nameTooLong, decide_eq_false (not_lt.2 hshort), h]
  rfl

theorem unlink_total {name : Text} (hshort : byteLength name ≤ 255) (h : f.disk.has name = true) :
    onDisk (unlink name) f = .ok { f with disk := f.disk.del name } := by
  rw [onDisk, unlink_of_short hshort, if_pos h]

theorem linkAs_total {source target present : Text} {set : Frame → Frame}
    (hshort : byteLength target ≤ 255) (hsource : f.disk.has source = true)
    (htarget : f.disk.has target = false) :
    ∃ c, linkAs source target present set f = .ok (set { f with disk := f.disk.set target c }) := by
  obtain ⟨c, hc⟩ := Option.isSome_iff_exists.1 hsource
  refine ⟨c, ?_⟩
  rw [linkAs, link, nameTooLong, decide_eq_false (not_lt.2 hshort), hc, htarget]
  rfl

section

variable {x : Upload} {d : Disk} (hx : Distinct x)

include hx

theorem total_copyCalls (hlimit : ∀ limit ∈ x.maxSize, (payload x.source).length ≤ limit)
    (chunks : List Bytes) : ∀ i size, size + (payload chunks).length = (payload x.source).length →
      Total (Files x true false false false)
        (copyCalls (temporaryName x.token) x.maxSize i size chunks)
        (Files x true false false false) := by
  have hread : ∀ i, Total (Files x true false false false) [sys (.read i) .ok]
      (Files x true false false false) := fun i =>
    .cons (fun f hf => ⟨f, rfl, hf⟩) (.nil fun _ h => h)
  induction chunks with
  | nil => exact fun i size _ => hread i
  | cons chunk chunks ih =>
    intro i size hsize
    by_cases hchunk : chunk = []
    · rw [copyCalls, if_pos hchunk]
      exact hread i
    rw [payload_cons chunks hchunk, List.length_append] at hsize
    have hcheck : ∀ f, checkSize x.maxSize (size + chunk.length) f = .ok f := by
      intro f
      unfold checkSize
      cases hmax : x.maxSize with
      | none => rfl
      | some limit =>
        have hle := hlimit limit hmax
        exact if_neg (by omega)
    rw [copyCalls, if_neg hchunk]
    refine .cons (fun f hf => ⟨f, rfl, hf⟩) (.cons (fun f hf => ⟨f, hcheck f, hf⟩) ?_)
    refine (Total.invariant fun c hc f hf => ?_).append (ih (i + 1) _ (by omega))
    obtain ⟨b, n, rfl⟩ := mem_writeAll hc
    exact ⟨_, rfl, hf.set_temporary hx _⟩

theorem total_prepareCalls (hup : Uploadable u d x) :
    Total (Files x false false false false) (prepareCalls attrsPayload x)
      (Files x true true false false) := by
  obtain ⟨htemporary, hattrsTemporary⟩ := short_temporaries hup.token
  have hopen : Total (Files x false false false false)
      [sys .openTemporary fun f =>
        (onDisk (create (temporaryName x.token)) f).map fun f => { f with descriptor := true }]
      (Files x true false false false) := by
    refine .cons (fun f hf => ?_) (.nil fun _ h => h)
    dsimp only [sys]
    rw [create_total htemporary hf.temporary]
    exact ⟨_, rfl, (hf.set_temporary hx []).congr rfl⟩
  have hcopy := total_copyCalls hx hup.limit x.source 0 0 (Nat.zero_add _)
  have hcontent : ∀ f, checkContent x.sniffZip (payload x.source) f = .ok f := by
    intro f
    rw [checkContent, if_neg (fun h => hup.content (List.eq_nil_of_length_eq_zero h)),
      if_neg (fun h => h.2 (hup.magic h.1))]
  have hmid : Total (Files x true false false false)
      [compute (checkContent x.sniffZip (payload x.source)),
        sys .fsyncTemporary .ok,
        sys .closeTemporary fun f => .ok { f with descriptor := false },
        sys .openAttrs fun f =>
          (onDisk (create (attrsTemporaryName x.token)) f).map fun f =>
            { f with attrsDescriptor := true }]
      (Files x true true false false) := by
    refine .cons (fun f hf => ⟨f, hcontent f, hf⟩) <| .cons (fun f hf => ⟨f, rfl, hf⟩) <|
      .cons (fun f hf => ⟨_, rfl, hf.congr rfl⟩) <| .cons (fun f hf => ?_) (.nil fun _ h => h)
    dsimp only [sys]
    rw [create_total hattrsTemporary hf.attrsTemporary]
    exact ⟨_, rfl, (hf.set_attrsTemporary hx []).congr rfl⟩
  have hwrite : Total (Files x true true false false)
      (writeAll (attrsTemporaryName x.token) .writeAttrs 0 (attrsPayload x.key (payload x.source)))
      (Files x true true false false) := by
    refine .invariant fun c hc f hf => ?_
    obtain ⟨b, n, rfl⟩ := mem_writeAll hc
    exact ⟨_, rfl, hf.set_attrsTemporary hx _⟩
  have hclose : Total (Files x true true false false)
      [sys .fsyncAttrs .ok, sys .closeAttrs fun f => .ok { f with attrsDescriptor := false }]
      (Files x true true false false) :=
    .cons (fun f hf => ⟨f, rfl, hf⟩) <| .cons (fun f hf => ⟨_, rfl, hf.congr rfl⟩) (.nil
      fun _ h => h)
  exact (((hopen.append hcopy).append hmid).append hwrite).append hclose

omit attrsPayload in
theorem total_linkCalls (hup : Uploadable u d x) :
    Total (Files x true true false false) (linkCalls x) (Files x false false true true) := by
  obtain ⟨htemporary, hattrsTemporary⟩ := short_temporaries hup.token
  have hkey : byteLength x.key ≤ 255 := hup.fits.2.trans (by decide)
  have hattrs : byteLength (attrsName x.key) ≤ 255 := by
    rw [byteLength_attrsName]
    exact Nat.add_le_add_right hup.fits.2 6
  unfold linkCalls
  refine .cons (R := Files x true true true false) (fun f hf => ?_) <|
    .cons (R := Files x false true true false) (fun f hf => ?_) <|
    .cons (R := Files x false true true true) (fun f hf => ?_) <|
    .cons (R := Files x false false true true) (fun f hf => ?_) <|
    .cons (fun f hf => ⟨f, rfl, hf⟩) (.nil fun _ h => h)
  · obtain ⟨c, hlink⟩ := linkAs_total hkey hf.temporary hf.key
    dsimp only [sys]
    exact ⟨_, hlink, (hf.set_key hx c).congr rfl⟩
  · exact ⟨_, unlink_total htemporary hf.temporary, hf.del_temporary hx⟩
  · obtain ⟨c, hlink⟩ := linkAs_total hattrs hf.attrsTemporary hf.attrs
    dsimp only [sys]
    exact ⟨_, hlink, (hf.set_attrs hx c).congr rfl⟩
  · exact ⟨_, unlink_total hattrsTemporary hf.attrsTemporary, hf.del_attrsTemporary hx⟩

omit attrsPayload hx in
theorem total_finishCalls :
    Total (Files x false false true true) (finishCalls x) (Files x false false true true) := by
  refine .cons (fun f hf => ⟨_, rfl, hf.congr rfl⟩) (.cons (fun f hf => ?_) (.nil fun _ h => h))
  obtain ⟨c, hc⟩ := Option.isSome_iff_exists.1 hf.key
  dsimp only [inspect, regularInfo]
  rw [hc]
  exact ⟨_, rfl, hf.congr rfl⟩

end

theorem mem_list_iff {key : Text} (hkey : IsKey u key) (hvisible : Visible key) (d : Disk) :
    key ∈ (list u d).map BackupArchiveInfo.key ↔ d.has key = true := by
  have hlisted : isListed u key = true := (isListed_iff u).2 ⟨hvisible, hkey⟩
  rw [Dict.has_iff_mem_keys, mem_list, and_iff_right hlisted]

/-- A key that is not listed can be published. -/
theorem publish_total {x : Upload} {d : Disk} (hup : Uploadable u d x) (hd : Tidy d)
    (hlist : x.key ∉ (list u d).map BackupArchiveInfo.key) :
    (publish u attrsPayload (fun _ => .pass) x d).1 =
      .returned (some { key := x.key, size := (payload x.source).length }) := by
  have hkey := isKey_of_keyError u hup.valid
  have hvisible := hup.fits.1
  have hx := distinct_of_isKey hkey hvisible
  have habsent : d.has x.key = false :=
    Bool.eq_false_iff.2 fun h => hlist ((mem_list_iff hkey hvisible d).2 h)
  have hnone : d.get? x.key = none := by simpa [Dict.has] using habsent
  have hattrs : d.has (attrsName x.key) = false := Bool.eq_false_iff.2 fun h =>
    Bool.false_ne_true (habsent.symm.trans (hd _ hkey.ne_nil hvisible hkey.unreserved h))
  have htotal := ((total_prepareCalls attrsPayload hx hup).append (total_linkCalls hx hup)).append
    total_finishCalls
  obtain ⟨f, hrun, -⟩ := htotal { disk := d } ⟨hup.fresh.1, hup.fresh.2, habsent, hattrs⟩
  have hended : Ended x d (runCalls (fun _ => .pass) (publishCalls attrsPayload x) { disk := d }) :=
    ended_publishCalls attrsPayload hkey hvisible hnone (by rintro ⟨⟩)
  rw [publishCalls, hrun] at hended
  cases hended with
  | done hmid hlinked hp hinfo =>
    have hinspect : runCalls (fun _ => .pass) [inspect .inspect x.key] { disk := d } =
        (.raised (.notFound (("backup not found: " : Text) ++ x.key)), { disk := d }) := by
      simp only [runCalls, SysCall.run, SysCall.fault, inspect, regularInfo, hnone]
      rfl
    have hnames : cleanup x f = cleanupTemporaries x f := by
      rw [cleanup, cleanupNames, hp]
      exact List.append_nil _
    rw [publish, validateBackupKey, hup.valid]
    dsimp only
    rw [hinspect]
    dsimp only
    rw [publishCalls, hrun, finallyDo, hnames]
    obtain ⟨g, hg | hg⟩ := runCalls_suppressed (fun _ => .pass)
      (suppressed_cleanupTemporaries (x := x) (hmid.closed hlinked)) f
    · rw [hg]
      dsimp only
      rw [(kept_cleanupTemporaries hg).info, hinfo]
    · exact absurd hg (runCalls_ne_crashed fun _ => by rintro ⟨⟩)

/-! ## Runs -/

/-- One operation after the other from an empty directory, with how each of them ended. Only
mild things go wrong in them. -/
inductive Run (u : Unicode) (attrsPayload : Text → Bytes → Bytes) : List (Op × Outcome) → Disk →
  Prop
  | start : Run u attrsPayload [] []
  | step {log : List (Op × Outcome)} {d : Disk} (h : Run u attrsPayload log d)
      {plan : Place → CallFault} {op : Op} (hop : op.Mild plan) :
      Run u attrsPayload (log ++ [(op, (exec u attrsPayload plan d op).1)])
        (exec u attrsPayload plan d op).2

/-- The runs of the map. -/
inductive MapRun : List (Op × Outcome) → Archives → Prop
  | start : MapRun [] fun _ => none
  | step {log : List (Op × Outcome)} {A B : Archives} {op : Op} {o : Outcome} (h : MapRun log A)
      (hs : MapStep A op o B) : MapRun (log ++ [(op, o)]) B

theorem run_spec {log : List (Op × Outcome)} {d : Disk} (h : Run u attrsPayload log d) :
    MapRun log (archives u d) ∧ Tidy d := by
  induction h with
  | start =>
    refine ⟨?_, fun k _ _ _ h => absurd h (by simp [Dict.has])⟩
    have hempty : archives u [] = fun _ => none := by
      funext k
      simp [archives]
    rw [hempty]
    exact .start
  | step _ hop ih =>
    obtain ⟨hmap, htidy⟩ := exec_spec attrsPayload hop ih.2
    exact ⟨.step ih.1 hmap, htidy⟩

/-- The archives are those of the map after the same operations with the same outcomes, and what
is not listed can be published. -/
theorem crash_safe {log : List (Op × Outcome)} {d : Disk} (h : Run u attrsPayload log d) :
    MapRun log (archives u d) ∧
      ∀ x, Uploadable u d x → x.key ∉ (list u d).map BackupArchiveInfo.key →
        (publish u attrsPayload (fun _ => .pass) x d).1 =
          .returned (some { key := x.key, size := (payload x.source).length }) := by
  obtain ⟨hmap, htidy⟩ := run_spec attrsPayload h
  exact ⟨hmap, fun x hup hlist => publish_total attrsPayload hup htidy hlist⟩

/-! ## One archive -/

/-- Texts of ASCII are in normal form. -/
def ascii : Unicode where
  nfc := id
  isOther c := c.toNat < 32 || c.toNat = 127
  casefold := Text.lower

def zipUpload : Upload where
  source := [[0x50, 0x4b, 0x05, 0x06], [0x00]]
  key := "a.zip"
  requireZipSuffix := true
  sniffZip := true
  maxSize := none
  token := "00112233445566778899aabb"

/-- The process crashes before one call. -/
def crashAt (p : Place) (q : Place) : CallFault := if q = p then .crash else .pass

/-- A sidecar of the key alone. -/
def keySidecar (key : Text) (_ : Bytes) : Bytes := key.map fun c => UInt8.ofNat c.toNat

/-- The archive is there after a crash between the two link steps. -/
theorem linked_archive_listed : ∃ d, Run ascii keySidecar [(.publish zipUpload, .crashed)] d ∧
    archives ascii d zipUpload.key = some [0x50, 0x4b, 0x05, 0x06, 0x00] ∧
      MapRun [(.publish zipUpload, .crashed)] (archives ascii d) := by
  have hmild : (Op.publish zipUpload).Mild (crashAt .unlinkTemporary) :=
    ⟨⟨by unfold Visible; decide, by decide⟩, by decide, by decide, by decide⟩
  have hrun := (Run.start : Run ascii keySidecar [] []).step hmild
  have hout : (exec ascii keySidecar (crashAt .unlinkTemporary) [] (.publish zipUpload)).1 =
      .crashed := by decide
  rw [hout, List.nil_append] at hrun
  exact ⟨_, hrun, by decide, (crash_safe keySidecar hrun).1⟩

/-- A crash between the two calls of a deletion leaves a sidecar behind, and the key cannot be
published any more. -/
theorem crashed_delete_blocks :
    let stored := (publish ascii keySidecar (fun _ => .pass) zipUpload []).2
    let deleted := (delete ascii (crashAt .unlinkAttrs) zipUpload.key stored).2
    (list ascii deleted) = [] ∧ (publish ascii keySidecar (fun _ => .pass) zipUpload deleted).1 =
      .raised (.alreadyExists "backup metadata already exists: a.zip") := by
  decide

end ArchiveStore

end PPBase
