import PPBase.CollectionService

/-!
# The live storage settings

The backend of the storage and its S3 configuration come from the settings of the process, on
which the `s3` entry of the settings row is laid. Startup and every update of the row resolve that
entry once (`storageOverridesFromSettingsPayload`) and keep it in memory.

`applyRuntimeSettingsToApp` also writes the entry over the settings of the process, so that a row
that leaves the choice open makes the storage a local one, whatever the process was started with.
`applied_eq_iff` : the live configuration is then the one that the row asks for if and only if the
row makes the choice itself, or the process was started without an S3 configuration.
-/

namespace PPBase

/-! ## The settings row -/

/-- `_DEFAULT_SETTINGS` -/
def defaultSettings : Dict Text Value :=
  let s3 : Value := .obj
    [("enabled", .bool false), ("bucket", .text ""), ("region", .text ""), ("endpoint", .text ""),
      ("accessKey", .text ""), ("secret", .text ""), ("forcePathStyle", .bool false)]
  [("meta", .obj
      [("appName", .text "PPBase"), ("appURL", .text "http://localhost:8090"),
        ("senderName", .text "Support"), ("senderAddress", .text "support@example.com"),
        ("hideControls", .bool false)]),
    ("logs", .obj
      [("maxDays", .num 7), ("minLevel", .num 0), ("logIP", .bool true),
        ("logAuthId", .bool true)]),
    ("smtp", .obj
      [("enabled", .bool false), ("host", .text ""), ("port", .num 587), ("username", .text ""),
        ("password", .text ""), ("tls", .bool true), ("authMethod", .text "PLAIN"),
        ("localName", .text "")]),
    ("s3", s3),
    ("backups", .obj [("cron", .text ""), ("cronMaxKeep", .num 3), ("s3", s3)]),
    ("batch", .obj
      [("enabled", .bool true), ("maxRequests", .num 50), ("timeout", .num 3),
        ("maxBodySize", .num 0)]),
    ("rateLimits", .obj [("enabled", .bool false), ("rules", .list [])]),
    ("rateLimiting", .obj
      [("enabled", .bool false), ("maxRequests", .num 1000), ("window", .num 60)]),
    ("trustedProxy", .obj [("headers", .list []), ("useLeftmostIP", .bool false)])]

/-- `_deep_merge` -/
def deepMerge (base override : Dict Text Value) : Dict Text Value := deepMergeDicts base override

/-- `row.value or dict(_DEFAULT_SETTINGS)`, where the row may be missing. -/
def currentSettings : Option (Option (Dict Text Value)) → Dict Text Value
  | some (some (m :: ms)) => m :: ms
  | _ => defaultSettings

theorem deepMergeDicts_ne_nil (override : List (Text × Value)) {base : Dict Text Value}
    (h : base ≠ []) : deepMergeDicts base override ≠ [] := by
  induction override generalizing base with
  | nil => simpa only [deepMergeDicts] using h
  | cons m rest ih =>
    obtain ⟨k, v⟩ := m
    simp only [deepMergeDicts]
    refine ih fun hset => ?_
    have := Dict.get?_set_self base k (mergeValue (base.get? k) v)
    rw [hset] at this
    cases this

theorem currentSettings_ne_nil (row : Option (Option (Dict Text Value))) :
    currentSettings row ≠ [] := by
  unfold currentSettings
  split <;> exact List.cons_ne_nil _ _

/-- A merged value is not replaced by the defaults when it is read again. -/
theorem currentSettings_deepMerge (row : Option (Option (Dict Text Value)))
    (body : Dict Text Value) :
    currentSettings (some (some (deepMerge (currentSettings row) body))) =
      deepMerge (currentSettings row) body := by
  have h := deepMergeDicts_ne_nil body (currentSettings_ne_nil row)
  obtain ⟨m, ms, hm⟩ := List.exists_cons_of_ne_nil h
  rw [deepMerge, hm]
  rfl

namespace StorageRuntime

/-! ## The configuration -/

/-- The storage values without the data directory. -/
structure StorageValues where
  storageBackend : Text := "local"
  s3Endpoint : Text := ""
  s3Bucket : Text := ""
  s3Region : Text := ""
  s3AccessKey : Text := ""
  s3SecretKey : Text := ""
  s3ForcePathStyle : Bool := false

/-- The settings of the process that the storage reads. -/
structure Settings extends StorageValues where
  dataDir : Text := "./pb_data"

/-- `_StorageConfig` -/
structure StorageConfig where
  dataDir : Text
  backend : Text
  s3Endpoint : Text
  s3Bucket : Text
  s3Region : Text
  s3AccessKey : Text
  s3SecretKey : Text
  s3ForcePathStyle : Bool

/-- `_s3_has_required_credentials` -/
def s3HasRequiredCredentials (values : StorageValues) : Bool :=
  values.s3Bucket.strip ≠ [] && values.s3AccessKey.strip ≠ [] && values.s3SecretKey.strip ≠ []

/-- `_base_storage_values` -/
def baseStorageValues (settings : Settings) : StorageValues where
  storageBackend := if settings.storageBackend = [] then "local" else settings.storageBackend
  s3Endpoint := settings.s3Endpoint.strip
  s3Bucket := settings.s3Bucket.strip
  s3Region := settings.s3Region.strip
  s3AccessKey := settings.s3AccessKey.strip
  s3SecretKey := settings.s3SecretKey.strip
  s3ForcePathStyle := settings.s3ForcePathStyle

/-- `_storage_config_from_values` -/
def storageConfigFromValues (dataDir : Text) (values : StorageValues) : StorageConfig :=
  let backend : Text := if values.storageBackend = [] then "local" else values.storageBackend
  let backend := backend.strip.lower
  let backend : Text := if backend = "local" ∨ backend = "s3" then backend else "local"
  let backend : Text :=
    if backend = "s3" && !s3HasRequiredCredentials values then "local" else backend
  { dataDir, backend
    s3Endpoint := values.s3Endpoint.strip
    s3Bucket := values.s3Bucket.strip
    s3Region := values.s3Region.strip
    s3AccessKey := values.s3AccessKey.strip
    s3SecretKey := values.s3SecretKey.strip
    s3ForcePathStyle := values.s3ForcePathStyle }

section Payload

-- Python's `str` of a value that is no string.
variable (str : Value → Text)

/-- `str(raw.get(key, "") or "").strip()` -/
def payloadText (raw : Dict Text Value) (key : Text) : Text :=
  match raw.get? key with
  | some (.text t) => t.strip
  | some v => if v.truthy then (str v).strip else ""
  | none => ""

/-- The values of an `s3` entry, where an `enabled` that is missing or null follows from the
credentials. -/
def payloadValues (raw : Dict Text Value) : StorageValues :=
  let bucket := payloadText str raw "bucket"
  let accessKey := payloadText str raw "accessKey"
  let secretKey := payloadText str raw "secret"
  let useS3 :=
    match raw.get? "enabled" with
    | none | some .null => bucket ≠ [] && accessKey ≠ [] && secretKey ≠ []
    | some enabled => enabled.truthy
  { storageBackend := if useS3 then "s3" else "local"
    s3Endpoint := payloadText str raw "endpoint"
    s3Bucket := bucket
    s3Region := payloadText str raw "region"
    s3AccessKey := accessKey
    s3SecretKey := secretKey
    s3ForcePathStyle := ((raw.get? "forcePathStyle").getD (.bool false)).truthy }

/-- `has_any_value` -/
def hasAnyValue (raw : Dict Text Value) : Bool :=
  (match raw.get? "enabled" with
    | none | some .null => false
    | some _ => true) ||
  ["endpoint", "bucket", "region", "accessKey", "secret"].any fun key =>
    payloadText str raw key ≠ []

/-- `_storage_overrides_from_settings_payload` -/
def storageOverridesFromSettingsPayload (value : Option (Dict Text Value)) :
    Option StorageValues :=
  match value.bind fun value => value.get? "s3" with
  | some (.obj raw) => if hasAnyValue str raw then some (payloadValues str raw) else none
  | _ => none

/-- `resolve_storage_config_from_settings_payload` -/
def resolveStorageConfigFromSettingsPayload (settings : Settings)
    (value : Option (Dict Text Value)) : StorageConfig :=
  storageConfigFromValues settings.dataDir
    ((storageOverridesFromSettingsPayload str value).getD (baseStorageValues settings))

/-! ## The live runtime -/

/-- The settings of the process and `_runtime_storage_overrides`. -/
structure Runtime where
  settings : Settings
  overrides : Option StorageValues := none

/-- `_resolve_storage_config` -/
def resolveStorageConfig (runtime : Runtime) : StorageConfig :=
  storageConfigFromValues runtime.settings.dataDir
    (runtime.overrides.getD (baseStorageValues runtime.settings))

/-- `configure_storage_runtime_from_settings_payload` -/
def configureStorageRuntimeFromSettingsPayload (runtime : Runtime)
    (value : Option (Dict Text Value)) : Runtime :=
  { runtime with overrides := storageOverridesFromSettingsPayload str value }

/-- `s3_raw if isinstance(s3_raw, dict) else {}` -/
def s3Entry (value : Dict Text Value) : Dict Text Value :=
  match value.get? "s3" with
  | some (.obj raw) => raw
  | _ => []

/-- `_apply_runtime_settings_to_app` -/
def applyRuntimeSettingsToApp (runtime : Runtime) (value : Dict Text Value) : Runtime where
  overrides := (configureStorageRuntimeFromSettingsPayload str runtime (some value)).overrides
  settings := { payloadValues str (s3Entry value) with dataDir := runtime.settings.dataDir }

/-- The live configuration is that of the `s3` entry of the row. -/
def Applied (runtime : Runtime) (row : Option (Option (Dict Text Value))) : Prop :=
  resolveStorageConfig runtime = storageConfigFromValues runtime.settings.dataDir
    (payloadValues str (s3Entry (currentSettings row)))

/-- `bool(s3.get("forcePathStyle", False))` -/
def forcePathStyle (raw : Dict Text Value) : Bool :=
  ((raw.get? "forcePathStyle").getD (.bool false)).truthy

/-- The process has no S3 configuration of its own. -/
structure Settings.Plain (settings : Settings) : Prop where
  endpoint : settings.s3Endpoint.strip = []
  bucket : settings.s3Bucket.strip = []
  region : settings.s3Region.strip = []
  accessKey : settings.s3AccessKey.strip = []
  secretKey : settings.s3SecretKey.strip = []

/-- The `s3` entry of the row has a value, or there is nothing in the settings of the process that
it would hide. -/
def Chosen (settings : Settings) (value : Option (Dict Text Value)) : Prop :=
  (storageOverridesFromSettingsPayload str value).isSome = true ∨
    settings.Plain ∧ settings.s3ForcePathStyle = forcePathStyle (s3Entry (value.getD []))

theorem payloadText_strip (raw : Dict Text Value) (key : Text) :
    (payloadText str raw key).strip = payloadText str raw key := by
  unfold payloadText
  split
  · exact Text.strip_strip _
  · split
    · exact Text.strip_strip _
    · rfl
  · rfl

/-- The values of an entry survive their way through the settings of the process. -/
theorem baseStorageValues_payloadValues (raw : Dict Text Value) (dataDir : Text) :
    baseStorageValues { payloadValues str raw with dataDir := dataDir } =
      payloadValues str raw := by
  have hbackend : (payloadValues str raw).storageBackend ≠ [] := by
    unfold payloadValues
    dsimp only
    split_ifs <;> exact List.cons_ne_nil _ _
  unfold baseStorageValues
  rw [if_neg hbackend]
  simp only [payloadValues, payloadText_strip]

theorem storageOverrides_eq_some {value : Dict Text Value} {values : StorageValues}
    (h : storageOverridesFromSettingsPayload str (some value) = some values) :
    values = payloadValues str (s3Entry value) := by
  unfold storageOverridesFromSettingsPayload at h
  unfold s3Entry
  rw [Option.bind_some] at h
  split at h
  · split_ifs at h
    exact (Option.some.inj h).symm
  · cases h

/-- The live configuration after a value was applied. -/
theorem resolveStorageConfig_apply (runtime : Runtime) (value : Dict Text Value) :
    resolveStorageConfig (applyRuntimeSettingsToApp str runtime value) =
      storageConfigFromValues runtime.settings.dataDir (payloadValues str (s3Entry value)) := by
  have hbase := baseStorageValues_payloadValues str (s3Entry value) runtime.settings.dataDir
  show storageConfigFromValues runtime.settings.dataDir
    ((storageOverridesFromSettingsPayload str (some value)).getD (baseStorageValues _)) = _
  cases h : storageOverridesFromSettingsPayload str (some value) with
  | none => exact congrArg _ hbase
  | some values => rw [storageOverrides_eq_some str h, Option.getD_some]

theorem applied_apply (runtime : Runtime) (row : Option (Option (Dict Text Value))) :
    Applied str (applyRuntimeSettingsToApp str runtime (currentSettings row)) row :=
  resolveStorageConfig_apply str runtime (currentSettings row)

/-- Without a bucket the storage is a local one. -/
theorem backend_of_bucket {values : StorageValues} (h : values.s3Bucket.strip = [])
    (dataDir : Text) : (storageConfigFromValues dataDir values).backend = "local" := by
  unfold storageConfigFromValues s3HasRequiredCredentials
  rw [h]
  dsimp only
  split_ifs with h₁ h₂ h₃ <;> simp_all

/-- An entry without a value leaves the defaults. -/
theorem payloadValues_of_hasAnyValue {raw : Dict Text Value} (h : hasAnyValue str raw = false) :
    payloadValues str raw = { s3ForcePathStyle := forcePathStyle raw } := by
  unfold hasAnyValue at h
  rw [Bool.or_eq_false_iff] at h
  obtain ⟨henabled, htexts⟩ := h
  simp only [List.any_cons, List.any_nil, Bool.or_false, Bool.or_eq_false_iff,
    decide_eq_false_iff_not, not_not] at htexts
  obtain ⟨hendpoint, hbucket, hregion, haccess, hsecret⟩ := htexts
  unfold payloadValues
  simp only [hendpoint, hbucket, hregion, haccess, hsecret]
  cases henabled' : raw.get? "enabled" with
  | none => rfl
  | some v =>
    rw [henabled'] at henabled
    cases v with
    | null => rfl
    | _ => cases henabled

/-- What is applied of a row that makes no choice. -/
theorem payloadValues_of_overrides {row : Option (Option (Dict Text Value))}
    (h : storageOverridesFromSettingsPayload str (row.bind id) = none) :
    payloadValues str (s3Entry (currentSettings row)) =
      { s3ForcePathStyle := forcePathStyle (s3Entry ((row.bind id).getD [])) } := by
  rcases row with - | - | - | ⟨m, ms⟩
  · rfl
  · rfl
  · rfl
  · refine payloadValues_of_hasAnyValue str ?_
    unfold storageOverridesFromSettingsPayload at h
    show hasAnyValue str (s3Entry (m :: ms)) = false
    unfold s3Entry
    change (match Dict.get? (m :: ms) "s3" with
      | some (.obj raw) => if hasAnyValue str raw then some (payloadValues str raw) else none
      | _ => none) = none at h
    split at h
    · split_ifs at h with hany
      exact Bool.eq_false_iff.2 hany
    · rfl

/-- What is applied of a row that makes the choice. -/
theorem overrides_eq_some {row : Option (Option (Dict Text Value))} {values : StorageValues}
    (h : storageOverridesFromSettingsPayload str (row.bind id) = some values) :
    values = payloadValues str (s3Entry (currentSettings row)) := by
  rcases row with - | - | - | ⟨m, ms⟩
  · cases h
  · cases h
  · cases h
  · exact storageOverrides_eq_some str h

/-- The applied configuration is the one of the row and the settings the process was started with
if and only if the row makes the choice, or there is none but it. -/
theorem applied_eq_iff {runtime : Runtime} {row : Option (Option (Dict Text Value))}
    (h : Applied str runtime row) {settings : Settings}
    (hdata : runtime.settings.dataDir = settings.dataDir) :
    resolveStorageConfig runtime =
        resolveStorageConfigFromSettingsPayload str settings (row.bind id) ↔
      Chosen str settings (row.bind id) := by
  rw [h, hdata, resolveStorageConfigFromSettingsPayload]
  cases hoverrides : storageOverridesFromSettingsPayload str (row.bind id) with
  | some values =>
    rw [Option.getD_some, overrides_eq_some str hoverrides]
    exact iff_of_true rfl (.inl (by rw [hoverrides]; rfl))
  | none =>
    rw [Option.getD_none, payloadValues_of_overrides str hoverrides]
    unfold Chosen
    rw [hoverrides]
    constructor
    · intro heq
      have hfield {α : Type} (f : StorageConfig → α) := congrArg f heq
      have hstrip (t : Text) (ht : [] = t.strip.strip) : t.strip = [] := by
        rw [Text.strip_strip] at ht
        exact ht.symm
      exact .inr ⟨⟨hstrip _ (hfield StorageConfig.s3Endpoint),
        hstrip _ (hfield StorageConfig.s3Bucket), hstrip _ (hfield StorageConfig.s3Region),
        hstrip _ (hfield StorageConfig.s3AccessKey), hstrip _ (hfield StorageConfig.s3SecretKey)⟩,
        (hfield StorageConfig.s3ForcePathStyle).symm⟩
    · rintro (hnone | ⟨hplain, hstyle⟩)
      · cases hnone
      · have hbucket : (baseStorageValues settings).s3Bucket.strip = [] := by
          show settings.s3Bucket.strip.strip = []
          rw [hplain.bucket]
          rfl
        have hbackend := backend_of_bucket hbucket settings.dataDir
        have hbase : baseStorageValues settings =
            { storageBackend := (baseStorageValues settings).storageBackend
              s3ForcePathStyle := settings.s3ForcePathStyle } := by
          unfold baseStorageValues
          rw [hplain.endpoint, hplain.bucket, hplain.region, hplain.accessKey, hplain.secretKey]
          rfl
        rw [hbase] at hbackend ⊢
        show _ = StorageConfig.mk settings.dataDir (storageConfigFromValues settings.dataDir _).backend
          _ _ _ _ _ _
        rw [hbackend, ← hstyle]
        rfl

end Payload

end StorageRuntime

end PPBase
