import PPBase.ArchiveStore
import PPBase.Failing

/-!
# The archive store as a map

What an operation does to the directory, it does to a map from keys to contents (`MapStep`),
wherever it fails or crashes : `publish_spec` and `delete_spec`, together `exec_spec`. Both ask
that the key does not start with a dot and leaves room for the suffix of its sidecar, and that
nothing goes wrong in a few calls after which the store cannot make up for it (`Op.Mild`).

Nothing of an upload is seen before its link step (`Prepared`). After it the archive is there, and
the sidecar only if there was none (`Midway`), so the `finally` block can take both away again
(`cleanup_undoes`). Between the operations no sidecar is left without its archive (`Tidy`).
-/

namespace PPBase

namespace ArchiveStore

variable (u : Unicode) (attrsPayload : Text → Bytes → Bytes)

/-- One operation, and what goes wrong in it. -/
inductive Op
  | publish (x : Upload)
  | delete (key : Text)

def exec (plan : Place → CallFault) (d : Disk) : Op → Outcome × Disk
  | .publish x => publish u attrsPayload plan x d
  | .delete key => delete u plan key d

abbrev Archives := Text → Option Bytes

/-- What an operation does to the map, by its outcome. -/
inductive MapStep (A : Archives) : Op → Outcome → Archives → Prop
  | published {x : Upload} (h : A x.key = none) :
      MapStep A (.publish x)
        (.returned (some { key := x.key, size := (payload x.source).length }))
        (Function.update A x.key (some (payload x.source)))
  | refused {x : Upload} (e : StoreError) : MapStep A (.publish x) (.raised e) A
  | interrupted {x : Upload} : MapStep A (.publish x) .crashed A
  /-- The crash comes after the link step. -/
  | linked {x : Upload} (h : A x.key = none) :
      MapStep A (.publish x) .crashed (Function.update A x.key (some (payload x.source)))
  | deleted {key : Text} (h : A key ≠ none) :
      MapStep A (.delete key) (.returned none) (Function.update A key none)
  | undeleted {key : Text} (e : StoreError) : MapStep A (.delete key) (.raised e) A
  /-- The archive is gone when the deletion fails. -/
  | unsynced {key : Text} (e : StoreError) (h : A key ≠ none) :
      MapStep A (.delete key) (.raised e) (Function.update A key none)
  | undeletedCrash {key : Text} : MapStep A (.delete key) .crashed A
  | deletedCrash {key : Text} (h : A key ≠ none) :
      MapStep A (.delete key) .crashed (Function.update A key none)

/-- A name that does not start with a dot. -/
def Visible (name : Text) : Prop := name.head? ≠ some '.'

/-- The name of a key and of its sidecar both fit. -/
def Fits (key : Text) : Prop := Visible key ∧ byteLength key ≤ 249

/-- Nothing goes wrong where the store cannot make up for it. -/
def Op.Mild (plan : Place → CallFault) : Op → Prop
  | .publish x => Fits x.key ∧ plan .inspectPublished ≠ .fail ∧ plan .removeKey ≠ .fail ∧
      plan .removeAttrs = .pass
  | .delete key => Fits key ∧ plan .unlinkAttrs = .pass

/-! ## Names -/

theorem hidden_upload (s t : Text) : ¬Visible ((".upload-" : Text) ++ s ++ t) := by
  have hdot : (".upload-" : Text) = '.' :: ("upload-" : Text) := by decide
  rw [hdot]
  exact fun h => h rfl

theorem hidden_temporary (token : Text) : ¬Visible (temporaryName token) := hidden_upload token _

theorem hidden_attrsTemporary (token : Text) : ¬Visible (attrsTemporaryName token) :=
  hidden_upload token _

theorem temporary_ne_attrsTemporary (token : Text) :
    temporaryName token ≠ attrsTemporaryName token := by
  intro h
  have hend : (".tmp" : Text) = (".attrs.tmp" : Text) := List.append_cancel_left h
  exact absurd hend (by decide)

variable {key name n : Text} {d e : Disk}

theorem visible_attrsName (h : Visible key) (hne : key ≠ []) : Visible (attrsName key) := by
  obtain ⟨c, k, rfl⟩ := List.exists_cons_of_ne_nil hne
  exact h

theorem attrsName_injective {j k : Text} (h : attrsName j = attrsName k) : j = k :=
  List.append_cancel_right h

theorem byteLength_append (s t : Text) : byteLength (s ++ t) = byteLength s + byteLength t := by
  rw [byteLength, List.map_append, List.sum_append]
  rfl

theorem byteLength_attrsName (key : Text) : byteLength (attrsName key) = byteLength key + 6 :=
  byteLength_append key attrsSuffix

theorem guard_eq_none {c : Prop} [Decidable c] {m : Text} {r : Option Text} :
    (if c then some m else r) = none ↔ ¬c ∧ r = none := by
  split_ifs with h
  · exact ⟨fun hm => (nomatch hm), fun hc => absurd h hc.1⟩
  · exact ⟨fun hr => ⟨h, hr⟩, And.right⟩

/-- A key that the store accepts, and lists unless it starts with a dot. -/
structure IsKey (key : Text) : Prop where
  ne_nil : key ≠ []
  short : byteLength key ≤ 255
  unreserved : ¬attrsSuffix <:+ key
  valid : keyError u key false = none

theorem isKey_of_keyError {zip : Bool} (hnone : keyError u key zip = none) : IsKey u key := by
  simp only [keyError, guard_eq_none, not_or] at hnone
  obtain ⟨⟨hne, hstrip⟩, hnfc, hpath, hsuffix, hother, -, hshort, -⟩ := hnone
  refine ⟨hne, not_lt.1 hshort, hsuffix, ?_⟩
  simp only [keyError, guard_eq_none, not_or]
  exact ⟨⟨hne, hstrip⟩, hnfc, hpath, hsuffix, hother, fun hzip => Bool.false_ne_true hzip.1, hshort,
    trivial⟩

theorem isListed_iff : isListed u name = true ↔ Visible name ∧ IsKey u name := by
  rw [isListed, Bool.and_eq_true, Bool.not_eq_true', Bool.or_eq_false_iff,
    Option.isNone_iff_eq_none,
    decide_eq_false_iff_not, decide_eq_false_iff_not]
  exact ⟨fun h => ⟨h.1.1, isKey_of_keyError u h.2⟩, fun h => ⟨⟨h.1, h.2.unreserved⟩, h.2.valid⟩⟩

/-! ## What is on the disk -/

/-- No sidecar without its archive. -/
def Tidy (d : Disk) : Prop :=
  ∀ k ≠ [], Visible k → ¬attrsSuffix <:+ k → d.has (attrsName k) = true → d.has k = true

/-- The same files, apart from temporary ones. -/
def Alike (d e : Disk) : Prop := ∀ n, Visible n → d.get? n = e.get? n

theorem mem_list {k : Text} :
    k ∈ (list u d).map BackupArchiveInfo.key ↔ isListed u k = true ∧ k ∈ d.keys := by
  rw [list, List.map_map]
  simp only [List.mem_map, List.mem_filter, Dict.keys, Function.comp]
  constructor
  · rintro ⟨e, ⟨he, hl⟩, rfl⟩
    exact ⟨hl, e, he, rfl⟩
  · rintro ⟨hl, e, he, rfl⟩
    exact ⟨e, ⟨he, hl⟩, rfl⟩

theorem archives_eq (d : Disk) (k : Text) :
    archives u d k = if isListed u k then d.get? k else none := by
  unfold archives
  by_cases hl : isListed u k = true
  · rw [if_pos hl]
    by_cases hk : k ∈ d.keys
    · rw [if_pos ((mem_list u).2 ⟨hl, hk⟩)]
    · rw [if_neg fun h => hk ((mem_list u).1 h).2, Dict.get?_eq_none_iff.2 hk]
  · rw [if_neg hl, if_neg fun h => hl ((mem_list u).1 h).1]

theorem archives_congr (h : Alike d e) : archives u d = archives u e := by
  funext k
  rw [archives_eq, archives_eq]
  split_ifs with hl
  · exact h k ((isListed_iff u).1 hl).1
  · rfl

theorem has_congr (h : d.get? n = e.get? n) : d.has n = e.has n := by
  rw [Dict.has, Dict.has, h]

theorem Tidy.congr (hd : Tidy d) (h : Alike e d) : Tidy e := by
  intro k hne hk hsuffix hattrs
  rw [has_congr (h _ (visible_attrsName hk hne))] at hattrs
  rw [has_congr (h k hk)]
  exact hd k hne hk hsuffix hattrs

theorem alike_set (hn : ¬Visible n) (c : Bytes) : Alike (d.set n c) d :=
  fun _ hm => Dict.get?_set_ne d c fun h => hn (h ▸ hm)

theorem get?_del_ne (d : Disk) {m : Text} (h : n ≠ m) : (d.del n).get? m = d.get? m := by
  rw [Dict.get?_del, if_neg h]

theorem alike_del (hn : ¬Visible n) : Alike (d.del n) d :=
  fun _ hm => get?_del_ne d fun h => hn (h ▸ hm)

theorem create_eq_ok {d' : Disk} (h : create name d = .ok d') : d' = d.set name [] := by
  unfold create at h
  split_ifs at h
  exact (Except.ok.inj h).symm

theorem unlink_eq_ok {d' : Disk} (h : unlink name d = .ok d') : d' = d.del name := by
  unfold unlink at h
  split_ifs at h
  exact (Except.ok.inj h).symm

theorem link_eq_ok {source target : Text} {d' : Disk} (h : link source target d = .ok d') :
    d.get? target = none ∧ ∃ content, d.get? source = some content ∧ d' = d.set target content := by
  unfold link at h
  split_ifs at h with _ hhas
  · cases hs : d.get? source <;> rw [hs] at h <;> cases h
  · cases hs : d.get? source with
    | none =>
      rw [hs] at h
      cases h
    | some content =>
      rw [hs] at h
      refine ⟨?_, content, rfl, (Except.ok.inj h).symm⟩
      simpa [Dict.has] using hhas

theorem linkAs_eq_ok {source target present : Text} {set : Frame → Frame} {f f' : Frame}
    (h : linkAs source target present set f = .ok f') :
    f.disk.get? target = none ∧ ∃ content, f.disk.get? source = some content ∧
      f' = set { f with disk := f.disk.set target content } := by
  unfold linkAs at h
  split at h
  case h_1 d hd =>
    obtain ⟨hnone, content, hs, rfl⟩ := link_eq_ok hd
    exact ⟨hnone, content, hs, (Except.ok.inj h).symm⟩
  case h_2 => cases h
  case h_3 => cases h

theorem onDisk_eq_ok {act : Disk → Except OsError Disk} {f f' : Frame} (h : onDisk act f = .ok f') :
    ∃ d, act f.disk = .ok d ∧ f' = { f with disk := d } := by
  unfold onDisk at h
  split at h
  case h_1 d hd => exact ⟨d, hd, (Except.ok.inj h).symm⟩
  case h_2 => cases h

/-! ## Publishing -/

section

variable {x : Upload} {d : Disk}

/-- Before the link step nothing can be seen. -/
structure Prepared (d : Disk) (f : Frame) : Prop where
  alike : Alike f.disk d
  linked : f.linked = false
  attrsPublished : f.attrsPublished = false
  published : f.published = false

/-- The files of an upload under way, beside those that were there. -/
structure Midway (x : Upload) (d : Disk) (f : Frame) : Prop where
  key : f.disk.get? x.key = if f.linked then some (payload x.source) else none
  attrs : f.attrsPublished = false → f.disk.get? (attrsName x.key) = d.get? (attrsName x.key)
  fresh : f.attrsPublished = true → f.linked = true ∧ d.get? (attrsName x.key) = none
  others : ∀ n, Visible n → n ≠ x.key → n ≠ attrsName x.key → f.disk.get? n = d.get? n
  closed : f.linked = true → f.descriptor = false ∧ f.attrsDescriptor = false

variable {f f' : Frame} {plan : Place → CallFault}

theorem Prepared.alter (h : Prepared d f) (hdisk : Alike f'.disk f.disk)
    (hflags : f'.linked = f.linked ∧ f'.attrsPublished = f.attrsPublished ∧ f'.published = f.published) :
    Prepared d f' where
  alike n hn := (hdisk n hn).trans (h.alike n hn)
  linked := hflags.1.trans h.linked
  attrsPublished := hflags.2.1.trans h.attrsPublished
  published := hflags.2.2.trans h.published

/-- Changes of hidden files go unseen. -/
theorem Midway.alter (h : Midway x d f) (hkey : IsKey u x.key) (hvisible : Visible x.key)
    (hdisk : Alike f'.disk f.disk)
    (hflags : f'.linked = f.linked ∧ f'.attrsPublished = f.attrsPublished ∧ f'.descriptor = f.descriptor ∧ f'.attrsDescriptor = f.attrsDescriptor) :
    Midway x d f' where
  key := by rw [hdisk _ hvisible, hflags.1, h.key]
  attrs hf := by
    rw [hdisk _ (visible_attrsName hvisible hkey.ne_nil), h.attrs (hflags.2.1.symm.trans hf)]
  fresh hf := by
    rw [hflags.1]
    exact h.fresh (hflags.2.1.symm.trans hf)
  others n hn hk ha := (hdisk n hn).trans (h.others n hn hk ha)
  closed hf := by
    rw [hflags.2.2.1, hflags.2.2.2]
    exact h.closed (hflags.1.symm.trans hf)

theorem Prepared.midway (h : Prepared d f) (hkey : IsKey u x.key) (hvisible : Visible x.key)
    (hnone : d.get? x.key = none) : Midway x d f where
  key := by rw [h.alike _ hvisible, h.linked, hnone]; rfl
  attrs _ := h.alike _ (visible_attrsName hvisible hkey.ne_nil)
  fresh hf := absurd (h.attrsPublished.symm.trans hf) Bool.false_ne_true
  others n hn _ _ := h.alike n hn
  closed hf := absurd (h.linked.symm.trans hf) Bool.false_ne_true

/-- Writes to a hidden file. -/
theorem triple_writeAll {name : Text} {place : ℕ → Place} (hname : ¬Visible name) (bs : Bytes) :
    ∀ n c, Triple plan (fun f => Prepared d f ∧ f.disk.get? name = some c)
      (writeAll name place n bs) (fun f => Prepared d f ∧ f.disk.get? name = some (c ++ bs))
      (Prepared d) := by
  induction bs with
  | nil => exact fun n c => .nil fun f hf => by rwa [List.append_nil]
  | cons b bs ih =>
    intro n c
    refine .cons (R := fun f => Prepared d f ∧ f.disk.get? name = some (c ++ [b]))
      (fun f hf => hf.1) rfl ?_ ?_
    · rintro f f' ⟨hp, hc⟩ hact
      obtain rfl := Except.ok.inj hact
      refine ⟨hp.alter (alike_set hname _) ⟨rfl, rfl, rfl⟩, ?_⟩
      rw [append, Dict.get?_set_self, hc]
      rfl
    · have hrest := ih (n + 1) (c ++ [b])
      rwa [List.append_assoc] at hrest

theorem mem_writeAll {name : Text} {place : ℕ → Place} {c : Step} :
    ∀ {bs : Bytes} {n : ℕ}, c ∈ writeAll name place n bs →
      ∃ b n, c = sys (place n) fun f => .ok { f with disk := append name b f.disk }
  | b :: bs, n, h => by
    rcases List.mem_cons.1 h with rfl | h
    · exact ⟨b, n, rfl⟩
    · exact mem_writeAll h

theorem checkSize_eq_ok {maxSize : Option ℕ} {n : ℕ} (h : checkSize maxSize n f = .ok f') :
    f' = f := by
  unfold checkSize at h
  split at h
  · exact (Except.ok.inj h).symm
  · split_ifs at h
    exact (Except.ok.inj h).symm

theorem checkContent_eq_ok {sniffZip : Bool} {content : Bytes}
    (h : checkContent sniffZip content f = .ok f') : f' = f := by
  unfold checkContent at h
  split_ifs at h
  exact (Except.ok.inj h).symm

theorem payload_cons {chunk : Bytes} (chunks : List Bytes) (h : chunk ≠ []) :
    payload (chunk :: chunks) = chunk ++ payload chunks := by
  simp [payload, h]

/-- The loop leaves the whole source in the file. -/
theorem triple_copyCalls (plan : Place → CallFault) {name : Text} (maxSize : Option ℕ)
    (hname : ¬Visible name) (chunks : List Bytes) :
    ∀ i size c, Triple plan (fun f => Prepared d f ∧ f.disk.get? name = some c)
      (copyCalls name maxSize i size chunks)
      (fun f => Prepared d f ∧ f.disk.get? name = some (c ++ payload chunks)) (Prepared d) := by
  have hend : ∀ i c, Triple plan (fun f => Prepared d f ∧ f.disk.get? name = some c)
      [sys (.read i) .ok] (fun f => Prepared d f ∧ f.disk.get? name = some (c ++ []))
      (Prepared d) := by
    intro i c
    refine .cons (fun f hf => hf.1) rfl ?_ (.nil fun _ h => h)
    rintro f f' hf hact
    obtain rfl := Except.ok.inj hact
    rwa [List.append_nil]
  induction chunks with
  | nil => exact fun i _ c => hend i c
  | cons chunk chunks ih =>
    intro i size c
    by_cases hchunk : chunk = []
    · rw [copyCalls, if_pos hchunk, hchunk]
      exact hend i c
    · rw [copyCalls, if_neg hchunk, payload_cons chunks hchunk]
      refine .cons (R := fun f => Prepared d f ∧ f.disk.get? name = some c) (fun f hf => hf.1) rfl
        (fun f f' hf hact => (Except.ok.inj hact) ▸ hf) ?_
      refine .cons (R := fun f => Prepared d f ∧ f.disk.get? name = some c) (fun f hf => hf.1) rfl
        (fun f f' hf hact => (checkSize_eq_ok hact) ▸ hf) ?_
      refine (triple_writeAll hname chunk size c).append ?_
      have hrest := ih (i + 1) (size + chunk.length) (c ++ chunk)
      rwa [List.append_assoc] at hrest

/-- The whole source is in the temporary file, which nobody writes any more. -/
structure Filled (x : Upload) (d : Disk) (f : Frame) : Prop extends Prepared d f where
  content : f.disk.get? (temporaryName x.token) = some (payload x.source)
  descriptor : f.descriptor = false

theorem triple_prepareCalls :
    Triple plan (Prepared d) (prepareCalls attrsPayload x)
      (fun f => Filled x d f ∧ f.attrsDescriptor = false) (Prepared d) := by
  have hattrs : ∀ {f f' : Frame} {c : Bytes}, Filled x d f →
      f'.disk = f.disk.set (attrsTemporaryName x.token) c →
      (f'.linked = f.linked ∧ f'.attrsPublished = f.attrsPublished ∧ f'.published = f.published) →
      f'.descriptor = f.descriptor → Filled x d f' := by
    intro f f' c hf hdisk hflags hdescriptor
    refine ⟨hf.toPrepared.alter (hdisk ▸ alike_set (hidden_attrsTemporary _) _) hflags, ?_,
      hdescriptor.trans hf.descriptor⟩
    rw [hdisk, Dict.get?_set_ne _ _ (temporary_ne_attrsTemporary _).symm, hf.content]
  have hopen : Triple plan (Prepared d)
      [sys .openTemporary fun f =>
        (onDisk (create (temporaryName x.token)) f).map fun f => { f with descriptor := true }]
      (fun f => Prepared d f ∧ f.disk.get? (temporaryName x.token) = some []) (Prepared d) := by
    refine .cons (fun f hf => hf) rfl ?_ (.nil fun _ h => h)
    intro f f' hf hact
    obtain ⟨g, hg, rfl⟩ := Failing.map_eq_ok.1 hact
    obtain ⟨d', hd, rfl⟩ := onDisk_eq_ok hg
    obtain rfl := create_eq_ok hd
    exact ⟨hf.alter (alike_set (hidden_temporary _) _) ⟨rfl, rfl, rfl⟩, Dict.get?_set_self ..⟩
  have hcopy := triple_copyCalls (d := d) plan x.maxSize (hidden_temporary x.token) x.source 0 0 []
  have hmid : Triple plan
      (fun f => Prepared d f ∧ f.disk.get? (temporaryName x.token) = some (payload x.source))
      [compute (checkContent x.sniffZip (payload x.source)),
        sys .fsyncTemporary .ok,
        sys .closeTemporary fun f => .ok { f with descriptor := false },
        sys .openAttrs fun f =>
          (onDisk (create (attrsTemporaryName x.token)) f).map fun f =>
            { f with attrsDescriptor := true }]
      (Filled x d) (Prepared d) := by
    refine .cons (fun f hf => hf.1) rfl (fun f f' hf hact => (checkContent_eq_ok hact) ▸ hf) ?_
    refine .cons (fun f hf => hf.1) rfl (fun f f' hf hact => (Except.ok.inj hact) ▸ hf) ?_
    refine .cons (R := Filled x d) (fun f hf => hf.1) rfl ?_ ?_
    · rintro f f' ⟨hp, hc⟩ hact
      obtain rfl := Except.ok.inj hact
      exact ⟨⟨hp.alike, hp.linked, hp.attrsPublished, hp.published⟩, hc, rfl⟩
    · refine .cons (fun f hf => hf.toPrepared) rfl ?_ (.nil fun _ h => h)
      intro f f' hf hact
      obtain ⟨g, hg, rfl⟩ := Failing.map_eq_ok.1 hact
      obtain ⟨d', hd, rfl⟩ := onDisk_eq_ok hg
      exact hattrs hf (create_eq_ok hd) ⟨rfl, rfl, rfl⟩ rfl
  have hwrite : Triple plan (Filled x d)
      (writeAll (attrsTemporaryName x.token) .writeAttrs 0 (attrsPayload x.key (payload x.source)))
      (Filled x d) (Prepared d) := by
    refine (Triple.invariant fun c hc f f' hf hact => ?_).mono (fun _ h => h)
      fun _ h => h.toPrepared
    obtain ⟨b, n, rfl⟩ := mem_writeAll hc
    obtain rfl := Except.ok.inj hact
    exact hattrs hf rfl ⟨rfl, rfl, rfl⟩ rfl
  have hclose : Triple plan (Filled x d)
      [sys .fsyncAttrs .ok, sys .closeAttrs fun f => .ok { f with attrsDescriptor := false }]
      (fun f => Filled x d f ∧ f.attrsDescriptor = false) (Prepared d) := by
    refine .cons (fun f hf => hf.toPrepared) rfl (fun f f' hf hact => (Except.ok.inj hact) ▸ hf) ?_
    refine .cons (fun f hf => hf.toPrepared) rfl ?_ (.nil fun _ h => h)
    intro f f' hf hact
    obtain rfl := Except.ok.inj hact
    exact ⟨⟨⟨hf.alike, hf.linked, hf.attrsPublished, hf.published⟩, hf.content, hf.descriptor⟩, rfl⟩
  exact (((hopen.append hcopy).append hmid).append hwrite).append hclose

/-- What holds of a frame once the archive has its name. -/
structure Named (x : Upload) (d : Disk) (f : Frame) : Prop extends Midway x d f where
  linked : f.linked = true
  published : f.published = false

variable {u} (hkey : IsKey u x.key) (hvisible : Visible x.key) (hnone : d.get? x.key = none)

include hkey hvisible hnone in
theorem triple_linkCalls :
    Triple plan (fun f => Filled x d f ∧ f.attrsDescriptor = false) (linkCalls x) (Named x d)
      (fun f => Midway x d f ∧ f.published = false) := by
  have hne : attrsName x.key ≠ x.key := fun h => hkey.unreserved (h ▸ List.suffix_append _ _)
  have hhide : ∀ {n : Text} {f f' : Frame}, ¬Visible n → onDisk (unlink n) f = .ok f' →
      Midway x d f → Midway x d f' ∧ f'.linked = f.linked ∧ f'.published = f.published ∧
        f'.attrsPublished = f.attrsPublished := by
    intro n f f' hn hact hf
    obtain ⟨d', hd, rfl⟩ := onDisk_eq_ok hact
    obtain rfl := unlink_eq_ok hd
    exact ⟨hf.alter u hkey hvisible (alike_del hn) ⟨rfl, rfl, rfl, rfl⟩, rfl, rfl, rfl⟩
  have hstop : ∀ f, Named x d f → Midway x d f ∧ f.published = false :=
    fun f hf => ⟨hf.toMidway, hf.published⟩
  unfold linkCalls
  refine .cons (R := fun f => Named x d f ∧ f.attrsPublished = false)
    (fun f hf => ⟨hf.1.midway u hkey hvisible hnone, hf.1.published⟩) rfl ?_ ?_
  · rintro f f' ⟨hf, hattrs⟩ hact
    dsimp only [sys] at hact
    obtain ⟨-, content, hcontent, rfl⟩ := linkAs_eq_ok hact
    obtain rfl := Option.some.inj (hcontent.symm.trans hf.content)
    refine ⟨⟨⟨by simp, fun _ => ?_, fun h => ?_, fun n hn hk ha => ?_, fun _ => ?_⟩, rfl,
      hf.published⟩, hf.attrsPublished⟩
    · rw [Dict.get?_set_ne _ _ hne.symm]
      exact hf.alike _ (visible_attrsName hvisible hkey.ne_nil)
    · exact absurd (hf.attrsPublished.symm.trans h) Bool.false_ne_true
    · rw [Dict.get?_set_ne _ _ (Ne.symm hk)]
      exact hf.alike n hn
    · exact ⟨hf.descriptor, hattrs⟩
  refine .cons (R := fun f => Named x d f ∧ f.attrsPublished = false) (fun f hf => hstop f hf.1) rfl
    ?_ ?_
  · rintro f f' ⟨hf, hattrs⟩ hact
    obtain ⟨hmid, hl, hp, ha⟩ := hhide (hidden_temporary _) hact hf.toMidway
    exact ⟨⟨hmid, hl.trans hf.linked, hp.trans hf.published⟩, ha.trans hattrs⟩
  refine .cons (R := Named x d) (fun f hf => hstop f hf.1) rfl ?_ ?_
  · rintro f f' ⟨hf, hattrs⟩ hact
    dsimp only [sys] at hact
    obtain ⟨habsent, content, -, rfl⟩ := linkAs_eq_ok hact
    refine ⟨⟨?_, by rintro ⟨⟩, fun _ => ⟨hf.linked, ?_⟩, fun n hn hk ha => ?_, hf.closed⟩,
      hf.linked, hf.published⟩
    · rw [Dict.get?_set_ne _ _ hne]
      exact hf.key
    · rw [← hf.attrs hattrs]
      exact habsent
    · rw [Dict.get?_set_ne _ _ (Ne.symm ha)]
      exact hf.others n hn hk ha
  refine .cons (R := Named x d) hstop rfl ?_ ?_
  · intro f f' hf hact
    obtain ⟨hmid, hl, hp, -⟩ := hhide (hidden_attrsTemporary _) hact hf.toMidway
    exact ⟨hmid, hl.trans hf.linked, hp.trans hf.published⟩
  exact .cons hstop rfl (fun f f' hf hact => (Except.ok.inj hact) ▸ hf) (.nil fun _ h => h)

/-- How the `try` block ends, where the last call does not fail. -/
inductive Ended (x : Upload) (d : Disk) : Stop StoreError × Frame → Prop
  | done {f : Frame} (h : Midway x d f) (hlinked : f.linked = true) (hp : f.published = true)
      (hinfo : f.info = some { key := x.key, size := (payload x.source).length }) :
      Ended x d (.done, f)
  | raised {e : StoreError} {f : Frame} (h : Midway x d f) (hp : f.published = false) :
      Ended x d (.raised e, f)
  | crashed {f : Frame} (h : Midway x d f) : Ended x d (.crashed, f)

include hkey hvisible hnone in
theorem ended_publishCalls (hplan : plan .inspectPublished ≠ .fail) :
    Ended x d (runCalls plan (publishCalls attrsPayload x) { disk := d }) := by
  have hstart : Prepared d { disk := d } := ⟨fun _ _ => rfl, rfl, rfl, rfl⟩
  have hprepare : Triple plan (Prepared d) (prepareCalls attrsPayload x)
      (fun f => Filled x d f ∧ f.attrsDescriptor = false)
      (fun f => Midway x d f ∧ f.published = false) := (triple_prepareCalls attrsPayload).mono
    (fun _ h => h) fun f h => ⟨h.midway u hkey hvisible hnone, h.published⟩
  have hprep := hprepare.append (triple_linkCalls hkey hvisible hnone) _ hstart
  unfold publishCalls
  rcases hrun : runCalls plan (prepareCalls attrsPayload x ++ linkCalls x) { disk := d } with
    ⟨_ | e | _, f⟩ <;> rw [hrun] at hprep
  · rw [runCalls_append hrun, finishCalls, runCalls_cons (SysCall.run_eq_done rfl rfl)]
    obtain ⟨hmid, hlinked, hpublished⟩ := hprep
    have hfile : f.disk.get? x.key = some (payload x.source) := by
      rw [hmid.key, if_pos hlinked]
    have hmid' : ∀ i, Midway x d { f with published := true, info := i } := fun i =>
      ⟨hmid.key, hmid.attrs, hmid.fresh, hmid.others, hmid.closed⟩
    cases hfault : plan .inspectPublished with
    | pass =>
      have hact : regularInfo x.key { f with published := true } = .ok { f with
          published := true
          info := some { key := x.key, size := (payload x.source).length } } := by
        rw [regularInfo, hfile]
      rw [runCalls_cons (SysCall.run_eq_done (c := inspect .inspectPublished x.key) hfault hact)]
      exact .done (hmid' _) hlinked rfl rfl
    | fail => exact absurd hfault hplan
    | crash =>
      have hrun : (inspect .inspectPublished x.key).run plan { f with published := true } =
          (.crashed, { f with published := true }) := by
        simp only [SysCall.run, SysCall.fault, inspect, hfault]
      rw [runCalls, hrun]
      exact .crashed (hmid' f.info)
  · rw [runCalls_append_stop hrun (by rintro ⟨⟩)]
    exact .raised hprep.1 hprep.2
  · rw [runCalls_append_stop hrun (by rintro ⟨⟩)]
    exact .crashed hprep.1

/-! ## The `finally` block -/

/-- What the `finally` block finds is changed out of sight only. -/
structure Kept (f g : Frame) : Prop where
  alike : Alike g.disk f.disk
  linked : g.linked = f.linked
  attrsPublished : g.attrsPublished = f.attrsPublished
  descriptor : g.descriptor = f.descriptor
  attrsDescriptor : g.attrsDescriptor = f.attrsDescriptor
  info : g.info = f.info

include hkey hvisible in
omit hnone in
theorem Midway.kept {g : Frame} (h : Midway x d f) (hg : Kept f g) : Midway x d g :=
  h.alter u hkey hvisible hg.alike ⟨hg.linked, hg.attrsPublished, hg.descriptor, hg.attrsDescriptor⟩

omit hkey hvisible hnone in
theorem kept_cleanupTemporaries {g : Frame} {stop : Stop StoreError}
    (h : runCalls plan (cleanupTemporaries x f) f = (stop, g)) : Kept f g := by
  have hremove : ∀ {place : Place} {n : Text}, ¬Visible n → ∀ g g', Kept f g →
      (remove place n).act g = .ok g' → Kept f g' := by
    intro place n hn g g' hg hact
    obtain ⟨d', hd, rfl⟩ := onDisk_eq_ok hact
    obtain rfl := unlink_eq_ok hd
    exact ⟨fun m hm => (alike_del hn m hm).trans (hg.alike m hm), hg.linked, hg.attrsPublished,
      hg.descriptor, hg.attrsDescriptor, hg.info⟩
  have htriple : Triple plan (Kept f) (cleanupTemporaries x f) (Kept f) (Kept f) := by
    refine .invariant fun call hcall g g' hg hact => ?_
    have hclose : ∀ {place : Place} {b : Bool}, call ∈ (if b then [sys place .ok] else []) →
        Kept f g' := by
      intro place b hmem
      split_ifs at hmem
      · obtain rfl := List.mem_singleton.1 hmem
        exact Except.ok.inj hact ▸ hg
      · exact absurd hmem List.not_mem_nil
    rcases List.mem_append.1 hcall with hcall | hcall
    · rcases List.mem_append.1 hcall with hcall | hcall
      · exact hclose hcall
      · exact hclose hcall
    · rcases List.mem_cons.1 hcall with rfl | hcall
      · exact hremove (hidden_temporary _) g g' hg hact
      · obtain rfl := List.mem_singleton.1 hcall
        exact hremove (hidden_attrsTemporary _) g g' hg hact
  have hpost := htriple f ⟨fun _ _ => rfl, rfl, rfl, rfl, rfl, rfl⟩
  rw [h] at hpost
  rcases stop with _ | e | _ <;> exact hpost

/-- Where nothing is left to close, no error stops the block. -/
theorem suppressed_cleanupTemporaries (h : f.descriptor = false ∧ f.attrsDescriptor = false) :
    ∀ c ∈ cleanupTemporaries x f, c.suppressed = true := by
  simp [cleanupTemporaries, h.1, h.2, remove]

omit hkey hvisible in
include hnone in
theorem Midway.alike (h : Midway x d f) (hlinked : f.linked = false) : Alike f.disk d := by
  intro n hn
  by_cases hk : n = x.key
  · rw [hk, h.key, hlinked, hnone]
    rfl
  by_cases ha : n = attrsName x.key
  · rw [ha]
    refine h.attrs (Bool.eq_false_iff.2 fun hf => ?_)
    exact Bool.false_ne_true (hlinked.symm.trans (h.fresh hf).1)
  exact h.others n hn hk ha

/-- A removal of a name goes through, or the process crashes. -/
theorem remove_cases {place : Place} {name : Text} {cs : List Step} {stop : Stop StoreError}
    (hshort : byteLength name ≤ 255) (hplan : plan place ≠ .fail)
    (h : runCalls plan (remove place name :: cs) f = (stop, f')) :
    stop = .crashed ∧ plan place = .crash ∧ f' = f ∨
      ∃ e, e.get? name = none ∧ (∀ n, n ≠ name → e.get? n = f.disk.get? n) ∧
        runCalls plan cs { f with disk := e } = (stop, f') := by
  cases hfault : plan place with
  | fail => exact absurd hfault hplan
  | crash =>
    simp only [runCalls, SysCall.run, SysCall.fault, remove, hfault] at h
    exact .inl ⟨(Prod.mk.inj h).1.symm, rfl, (Prod.mk.inj h).2.symm⟩
  | pass =>
    simp only [runCalls, SysCall.run, SysCall.fault, remove, hfault, onDisk, unlink, nameTooLong,
      not_lt.2 hshort, decide_false, Bool.false_eq_true, if_false] at h
    by_cases hhas : f.disk.has name = true
    · rw [if_pos hhas] at h
      exact .inr ⟨_, by rw [Dict.get?_del, if_pos rfl], fun n hn => get?_del_ne _ (Ne.symm hn), h⟩
    · rw [if_neg hhas] at h
      exact .inr ⟨f.disk, by simpa [Dict.has] using hhas, fun _ _ => rfl, h⟩

include hkey hvisible hnone in
/-- A failed upload is undone, unless the process crashes. -/
theorem cleanup_undoes (hshort : byteLength x.key ≤ 249) (hkeyPlan : plan .removeKey ≠ .fail)
    (hattrsPlan : plan .removeAttrs = .pass) {g : Frame} {stop : Stop StoreError} (h : Midway x d f)
    (hp : f.published = false) (hrun : runCalls plan (cleanup x f) f = (stop, g)) :
    Alike g.disk d ∨ stop = .crashed ∧ Midway x d g := by
  rcases htemps : runCalls plan (cleanupTemporaries x f) f with ⟨stop₁, g₁⟩
  have hkept := kept_cleanupTemporaries htemps
  have hmid := h.kept hkey hvisible hkept
  by_cases hdone : stop₁ = .done
  · subst hdone
    rw [cleanup, runCalls_append htemps, cleanupNames, hp] at hrun
    cases hlinked : f.linked with
    | false =>
      have hattrs : f.attrsPublished = false :=
        Bool.eq_false_iff.2 fun hf => Bool.false_ne_true (hlinked.symm.trans (h.fresh hf).1)
      rw [hlinked, hattrs] at hrun
      obtain rfl := (Prod.mk.inj hrun).2
      exact .inl (hmid.alike hnone (hkept.linked.trans hlinked))
    | true =>
      rw [hlinked] at hrun
      obtain ⟨rfl, -, rfl⟩ | ⟨e, he, hothers, hrun⟩ :=
        remove_cases (hshort.trans (by decide)) hkeyPlan hrun
      · exact .inr ⟨rfl, hmid⟩
      have hleft : ∀ n, Visible n → n ≠ attrsName x.key → e.get? n = d.get? n := by
        intro n hn ha
        by_cases hk : n = x.key
        · rw [hk, he, hnone]
        · rw [hothers n hk, hmid.others n hn hk ha]
      cases hattrs : f.attrsPublished with
      | false =>
        rw [hattrs] at hrun
        obtain rfl := (Prod.mk.inj hrun).2
        refine .inl fun n hn => ?_
        by_cases ha : n = attrsName x.key
        · have hne : attrsName x.key ≠ x.key :=
            fun h => hkey.unreserved (h ▸ List.suffix_append _ _)
          rw [ha]
          exact (hothers _ hne).trans (hmid.attrs (hkept.attrsPublished.trans hattrs))
        · exact hleft n hn ha
      | true =>
        rw [hattrs] at hrun
        obtain ⟨-, hcrash, -⟩ | ⟨e', he', hothers', hrun⟩ := remove_cases
          (by rw [byteLength_attrsName]; omega) (by rw [hattrsPlan]; decide) hrun
        · exact nomatch hcrash.symm.trans hattrsPlan
        obtain rfl := (Prod.mk.inj hrun).2
        refine .inl fun n hn => ?_
        by_cases ha : n = attrsName x.key
        · rw [ha]
          exact he'.trans (h.fresh hattrs).2.symm
        · exact (hothers' n ha).trans (hleft n hn ha)
  · rw [cleanup, runCalls_append_stop htemps hdone] at hrun
    obtain ⟨rfl, rfl⟩ := Prod.mk.inj hrun
    cases hlinked : f.linked with
    | false => exact .inl (hmid.alike hnone (hkept.linked.trans hlinked))
    | true =>
      obtain ⟨g', hg | hg⟩ := runCalls_suppressed plan
        (suppressed_cleanupTemporaries (x := x) (h.closed hlinked)) f
      · exact absurd (Prod.mk.inj (htemps.symm.trans hg)).1 hdone
      · exact .inr ⟨(Prod.mk.inj (htemps.symm.trans hg)).1, hmid⟩

/-! ## The map -/

include hkey hvisible in
omit hnone in
theorem Midway.archives_eq (h : Midway x d f) (hlinked : f.linked = true) :
    archives u f.disk = Function.update (archives u d) x.key (some (payload x.source)) := by
  funext k
  rw [ArchiveStore.archives_eq]
  by_cases hk : k = x.key
  · rw [hk, Function.update_self, if_pos ((isListed_iff u).2 ⟨hvisible, hkey⟩), h.key,
    if_pos hlinked]
  · rw [Function.update_of_ne hk, ArchiveStore.archives_eq]
    split_ifs with hl
    · obtain ⟨hv, hlisted⟩ := (isListed_iff u).1 hl
      exact h.others k hv hk fun ha => hlisted.unreserved (ha ▸ List.suffix_append _ _)
    · rfl

include hkey hnone in
omit hvisible in
theorem Midway.tidy (h : Midway x d f) (hd : Tidy d) : Tidy f.disk := by
  intro k hne hk hsuffix hattrs
  by_cases hkx : k = x.key
  · subst hkx
    have hpublished : f.attrsPublished = true := by
      by_contra hf
      rw [Bool.not_eq_true] at hf
      rw [has_congr (h.attrs hf)] at hattrs
      have hhas := hd _ hne hk hsuffix hattrs
      simp [Dict.has, hnone] at hhas
    rw [Dict.has, h.key, if_pos (h.fresh hpublished).1]
    rfl
  · have ha : attrsName k ≠ x.key := fun ha => hkey.unreserved (ha ▸ List.suffix_append _ _)
    have hka : k ≠ attrsName x.key := fun ha => hsuffix (ha ▸ List.suffix_append _ _)
    have hattrs' : f.disk.get? (attrsName k) = d.get? (attrsName k) :=
      h.others _ (visible_attrsName hk hne) ha fun he => hkx (attrsName_injective he)
    rw [has_congr hattrs'] at hattrs
    rw [has_congr (h.others k hk hkx hka)]
    exact hd k hne hk hsuffix hattrs

end

variable {u}

theorem archives_key (hkey : IsKey u key) (hvisible : Visible key) (d : Disk) :
    archives u d key = d.get? key := by
  rw [archives_eq, if_pos ((isListed_iff u).2 ⟨hvisible, hkey⟩)]

theorem isKey_of_validates {k : Text} {zip : Bool} (h : validateBackupKey u key zip = .ok k) :
    IsKey u key := by
  unfold validateBackupKey at h
  cases hnone : keyError u key zip with
  | none => exact isKey_of_keyError u hnone
  | some m =>
    rw [hnone] at h
    cases h

/-- `_regular_info` finds the file, or fails. -/
theorem inspect_cases (plan : Place → CallFault) (place : Place) (key : Text) (f : Frame) :
    (∃ content g, f.disk.get? key = some content ∧ g.disk = f.disk ∧
      runCalls plan [inspect place key] f = (.done, g)) ∨
    (∃ m, f.disk.get? key = none ∧
      runCalls plan [inspect place key] f = (.raised (.notFound m), f)) ∨
    (∃ m, runCalls plan [inspect place key] f = (.raised (.state m), f)) ∨
    runCalls plan [inspect place key] f = (.crashed, f) := by
  cases hfault : plan place with
  | fail =>
    refine .inr (.inr (.inl ⟨("backup could not be inspected safely" : Text), ?_⟩))
    simp only [runCalls, SysCall.run, SysCall.fault, inspect, hfault]
    rfl
  | crash =>
    refine .inr (.inr (.inr ?_))
    simp only [runCalls, SysCall.run, SysCall.fault, inspect, hfault]
  | pass =>
    cases hkey : f.disk.get? key with
    | none =>
      refine .inr (.inl ⟨("backup not found: " : Text) ++ key, rfl, ?_⟩)
      simp only [runCalls, SysCall.run, SysCall.fault, inspect, hfault, regularInfo, hkey]
      rfl
    | some content =>
      refine .inl ⟨content, { f with info := some { key := key, size := content.length } }, rfl,
        rfl, ?_⟩
      simp only [runCalls, SysCall.run, SysCall.fault, inspect, hfault, regularInfo, hkey]

section

variable {x : Upload} {d : Disk} (hkey : IsKey u x.key) (hvisible : Visible x.key)
  (hnone : d.get? x.key = none) (hd : Tidy d)

include hkey hvisible hnone hd

/-- A crash leaves the archive under its name, or nothing. -/
theorem Midway.crash {f : Frame} (h : Midway x d f) :
    MapStep (archives u d) (.publish x) .crashed (archives u f.disk) ∧ Tidy f.disk := by
  refine ⟨?_, h.tidy hkey hnone hd⟩
  cases hlinked : f.linked with
  | false =>
    rw [archives_congr u (h.alike hnone hlinked)]
    exact .interrupted
  | true =>
    rw [h.archives_eq hkey hvisible hlinked]
    exact .linked ((archives_key hkey hvisible d).trans hnone)

theorem finallyDo_spec {plan : Place → CallFault} {r : Stop StoreError × Frame}
    (hshort : byteLength x.key ≤ 249) (hkeyPlan : plan .removeKey ≠ .fail)
    (hattrsPlan : plan .removeAttrs = .pass) (h : Ended x d r) :
    MapStep (archives u d) (.publish x) (finallyDo plan x r).1 (archives u (finallyDo plan x r).2) ∧
      Tidy (finallyDo plan x r).2 := by
  cases h with
  | crashed h => exact h.crash hkey hvisible hnone hd
  | @done f h hlinked hp hinfo =>
    have hnames : cleanup x f = cleanupTemporaries x f := by
      rw [cleanup, cleanupNames, hp]
      exact List.append_nil _
    rw [finallyDo, hnames]
    obtain ⟨g, hg | hg⟩ := runCalls_suppressed plan
      (suppressed_cleanupTemporaries (x := x) (h.closed hlinked)) f <;> rw [hg]
    all_goals
      have hkept := kept_cleanupTemporaries hg
      have hmid := h.kept hkey hvisible hkept
    · refine ⟨?_, hmid.tidy hkey hnone hd⟩
      dsimp only
      rw [hkept.info, hinfo, hmid.archives_eq hkey hvisible (hkept.linked.trans hlinked)]
      exact .published ((archives_key hkey hvisible d).trans hnone)
    · exact hmid.crash hkey hvisible hnone hd
  | @raised e f h hp =>
    rw [finallyDo]
    rcases hrun : runCalls plan (cleanup x f) f with ⟨stop, g⟩
    obtain halike | ⟨rfl, hmid⟩ :=
      cleanup_undoes hkey hvisible hnone hshort hkeyPlan hattrsPlan h hp hrun
    · rcases stop with _ | e' | _
      all_goals
        refine ⟨?_, hd.congr halike⟩
        dsimp only
        rw [archives_congr u halike]
      · exact .refused _
      · exact .refused _
      · exact .interrupted
    · exact hmid.crash hkey hvisible hnone hd

end

variable {plan : Place → CallFault}

/-- `publish` is a step of the map, and leaves no sidecar without its archive. -/
theorem publish_spec {x : Upload} (hx : (Op.publish x).Mild plan) (hd : Tidy d) :
    MapStep (archives u d) (.publish x) (publish u attrsPayload plan x d).1
        (archives u (publish u attrsPayload plan x d).2) ∧
      Tidy (publish u attrsPayload plan x d).2 := by
  obtain ⟨⟨hvisible, hshort⟩, hinspect, hremoveKey, hremoveAttrs⟩ := hx
  unfold publish
  cases hvalid : validateBackupKey u x.key x.requireZipSuffix with
  | error message => exact ⟨.refused _, hd⟩
  | ok k =>
    have hkey := isKey_of_validates hvalid
    obtain ⟨content, g, -, -, hrun⟩ | ⟨m, hnone, hrun⟩ | ⟨m, hrun⟩ | hrun :=
      inspect_cases plan .inspect x.key { disk := d } <;> rw [hrun]
    · exact ⟨.refused _, hd⟩
    · exact finallyDo_spec hkey hvisible hnone hd hshort hremoveKey hremoveAttrs
        (ended_publishCalls attrsPayload hkey hvisible hnone hinspect)
    · exact ⟨.refused _, hd⟩
    · exact ⟨.interrupted, hd⟩

/-! ## Deleting -/

theorem unlink_of_short (h : byteLength name ≤ 255) (d : Disk) :
    unlink name d = if d.has name then .ok (d.del name) else .error .fileNotFound := by
  rw [unlink, nameTooLong, decide_eq_false (not_lt.2 h)]
  rfl

/-- A deletion stops before it starts, or the key and its sidecar are both gone. -/
theorem deleteCalls_cases (hfits : Fits key) {f g : Frame} {stop : Stop StoreError}
    (hplan : plan .unlinkAttrs = .pass) (hhas : f.disk.has key = true)
    (h : runCalls plan (deleteCalls key) f = (stop, g)) :
    stop ≠ .done ∧ g = f ∨
      g.disk.get? key = none ∧ g.disk.get? (attrsName key) = none ∧
        ∀ n, n ≠ key → n ≠ attrsName key → g.disk.get? n = f.disk.get? n := by
  have hshort : byteLength key ≤ 255 := hfits.2.trans (by decide)
  have hattrs : byteLength (attrsName key) ≤ 255 := by
    rw [byteLength_attrsName]
    exact Nat.add_le_add_right hfits.2 6
  unfold deleteCalls at h
  cases hkey : plan .unlinkKey with
  | crash =>
    simp only [runCalls, SysCall.run, SysCall.fault, sys, hkey] at h
    obtain ⟨rfl, rfl⟩ := Prod.mk.inj h
    exact .inl ⟨by rintro ⟨⟩, rfl⟩
  | fail =>
    simp only [runCalls, SysCall.run, SysCall.fault, sys, hkey, Bool.false_eq_true, if_false] at h
    obtain ⟨rfl, rfl⟩ := Prod.mk.inj h
    exact .inl ⟨by rintro ⟨⟩, rfl⟩
  | pass =>
    have hfirst : onDisk (unlink key) f = .ok { f with disk := f.disk.del key } := by
      rw [onDisk, unlink_of_short hshort, if_pos hhas]
    rw [runCalls_cons (SysCall.run_eq_done (c := sys .unlinkKey (onDisk (unlink key))) hkey
      hfirst)] at h
    obtain ⟨e, hact, hnone, hothers⟩ : ∃ e,
        unlinkSidecar key { f with disk := f.disk.del key } = .ok { f with disk := e } ∧
        e.get? (attrsName key) = none ∧
          ∀ n, n ≠ attrsName key → e.get? n = (f.disk.del key).get? n := by
      rw [unlinkSidecar, onDisk, unlink_of_short hattrs]
      by_cases hsidecar : (f.disk.del key).has (attrsName key) = true
      · rw [if_pos hsidecar]
        exact ⟨_, rfl, by rw [Dict.get?_del, if_pos rfl], fun n hn => get?_del_ne _ (Ne.symm hn)⟩
      · rw [if_neg hsidecar]
        exact ⟨_, rfl, by simpa [Dict.has] using hsidecar, fun _ _ => rfl⟩
    rw [runCalls_cons (SysCall.run_eq_done (c := sys .unlinkAttrs (unlinkSidecar key)) hplan
      hact)] at h
    have hsync : Triple plan (· = { f with disk := e }) [sys .fsyncDeleted .ok]
        (· = { f with disk := e }) (· = { f with disk := e }) := by
      refine .invariant fun c hc s s' hs hs' => ?_
      obtain rfl := List.mem_singleton.1 hc
      exact (Except.ok.inj hs').symm.trans hs
    have hpost := hsync _ rfl
    rw [h] at hpost
    have hg : g = { f with disk := e } := by
      rcases stop with _ | e' | _ <;> exact hpost
    have hne : key ≠ attrsName key := fun he => by
      have hlen := congrArg byteLength he
      rw [byteLength_attrsName] at hlen
      omega
    rw [hg]
    refine .inr ⟨(hothers key hne).trans ?_, hnone, fun n hn ha => (hothers n ha).trans ?_⟩
    · rw [Dict.get?_del, if_pos rfl]
    · exact get?_del_ne _ (Ne.symm hn)

/-- What is left without a key and its sidecar. -/
theorem deleted_spec (hkey : IsKey u key) (hvisible : Visible key) (hd : Tidy d)
    (hk : e.get? key = none) (ha : e.get? (attrsName key) = none)
    (hothers : ∀ n, n ≠ key → n ≠ attrsName key → e.get? n = d.get? n) :
    archives u e = Function.update (archives u d) key none ∧ Tidy e := by
  constructor
  · funext k
    by_cases h : k = key
    · rw [h, Function.update_self, archives_key hkey hvisible, hk]
    · rw [Function.update_of_ne h, archives_eq, archives_eq]
      split_ifs with hl
      · obtain ⟨-, hlisted⟩ := (isListed_iff u).1 hl
        exact hothers k h fun hka => hlisted.unreserved (hka ▸ List.suffix_append _ _)
      · rfl
  · intro k hne hv hsuffix hattrs
    have hka : k ≠ attrsName key := fun h => hsuffix (h ▸ List.suffix_append _ _)
    have hkey' : k ≠ key := by
      rintro rfl
      simp [Dict.has, ha] at hattrs
    have hak : attrsName k ≠ key := fun h => hkey.unreserved (h ▸ List.suffix_append _ _)
    rw [has_congr (hothers _ hak fun h => hkey' (attrsName_injective h))] at hattrs
    rw [has_congr (hothers k hkey' hka)]
    exact hd k hne hv hsuffix hattrs

/-- `delete` is a step of the map, and leaves no sidecar without its archive. -/
theorem delete_spec (hx : (Op.delete key).Mild plan) (hd : Tidy d) :
    MapStep (archives u d) (.delete key) (delete u plan key d).1
        (archives u (delete u plan key d).2) ∧
      Tidy (delete u plan key d).2 := by
  obtain ⟨hfits, hattrs⟩ := hx
  unfold delete
  cases hvalid : validateBackupKey u key false with
  | error message => exact ⟨.undeleted _, hd⟩
  | ok k =>
    have hkey := isKey_of_validates hvalid
    obtain ⟨content, f, hcontent, hdisk, hrun⟩ | ⟨m, -, hrun⟩ | ⟨m, hrun⟩ | hrun :=
      inspect_cases plan .inspect key { disk := d } <;> rw [hrun]
    · have hsome : archives u d key ≠ none := by
        rw [archives_key hkey hfits.1]
        exact fun h => nomatch hcontent.symm.trans h
      rcases hcalls : runCalls plan (deleteCalls key) f with ⟨stop, g⟩
      dsimp only
      rw [hcalls]
      replace hdisk : f.disk = d := hdisk
      have hhas : f.disk.has key = true := by
        rw [hdisk, Dict.has, hcontent]
        rfl
      obtain ⟨hstop, rfl⟩ | ⟨hk, ha, hothers⟩ := deleteCalls_cases hfits hattrs hhas hcalls
      · rcases stop with _ | e | _
        · exact absurd rfl hstop
        all_goals
          dsimp only
          rw [hdisk]
        · exact ⟨.undeleted _, hd⟩
        · exact ⟨.undeletedCrash, hd⟩
      · obtain ⟨hmap, htidy⟩ := deleted_spec hkey hfits.1 hd hk ha fun n hn ha =>
          (hothers n hn ha).trans (congrArg (Dict.get? · n) hdisk)
        rcases stop with _ | e | _
        all_goals
          refine ⟨?_, htidy⟩
          dsimp only
          rw [hmap]
        · exact .deleted hsome
        · exact .unsynced _ hsome
        · exact .deletedCrash hsome
    · exact ⟨.undeleted _, hd⟩
    · exact ⟨.undeleted _, hd⟩
    · exact ⟨.undeletedCrash, hd⟩

/-- Every operation is a step of the map. -/
theorem exec_spec {op : Op} (hop : op.Mild plan) (hd : Tidy d) :
    MapStep (archives u d) op (exec u attrsPayload plan d op).1
        (archives u (exec u attrsPayload plan d op).2) ∧
      Tidy (exec u attrsPayload plan d op).2 := by
  cases op with
  | publish x => exact publish_spec attrsPayload hop hd
  | delete key => exact delete_spec hop hd

end ArchiveStore

end PPBase
