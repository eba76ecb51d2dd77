import PPBase.ValueTree

/-!
# Auth options in migrations

A migration holds the options of an auth collection without secrets : `sanitizeAuthOptions` leaves
no secret of a token and no credential (`noSecrets_sanitize`). Where it is applied, its options are
merged into those of the collection, providers by their names (`mergeAuthOptions`).
-/

namespace PPBase

namespace AuthOptions

/-! ## Sanitizing -/

/-- `_AUTH_TOKEN_OPTION_KEYS` -/
def authTokenOptionKeys : List Text :=
  ["authToken", "passwordResetToken", "verificationToken", "emailChangeToken", "fileToken"]

/-- `_OAUTH_CREDENTIAL_KEYS` -/
def oauthCredentialKeys : List Text := ["clientId", "clientSecret", "client_id", "client_secret"]

mutual

/-- `_strip_oauth_credentials` -/
def stripOauthCredentials : Value → Value
  | .list xs => .list (stripItems xs)
  | .obj ms => .obj (stripMembers ms)
  | v => v

def stripItems : List Value → List Value
  | [] => []
  | x :: xs => stripOauthCredentials x :: stripItems xs

def stripMembers : List (Text × Value) → List (Text × Value)
  | [] => []
  | (k, x) :: ms =>
    if k ∈ oauthCredentialKeys then stripMembers ms
    else (k, stripOauthCredentials x) :: stripMembers ms

end

/-- `token_options.pop("secret", None)` for the options of a token. -/
def popSecret (sanitized : Dict Text Value) (optionName : Text) : Dict Text Value :=
  match sanitized.get? optionName with
  | some (.obj tokenOptions) => sanitized.set optionName (.obj (Dict.del tokenOptions "secret"))
  | _ => sanitized

/-- `_sanitize_auth_options` -/
def sanitizeAuthOptions (options : Dict Text Value) : Dict Text Value :=
  let sanitized := authTokenOptionKeys.foldl popSecret options
  match sanitized.get? "oauth2" with
  | none | some .null => sanitized
  | some oauthOptions => sanitized.set "oauth2" (stripOauthCredentials oauthOptions)

/-- `_sanitize_collection_definition` -/
def sanitizeCollectionDefinition (definition : Dict Text Value) : Dict Text Value :=
  match definition.get? "options" with
  | some (.obj options) => definition.set "options" (.obj (sanitizeAuthOptions options))
  | _ => definition

theorem stripItems_eq (xs : List Value) : stripItems xs = xs.map stripOauthCredentials := by
  induction xs with
  | nil => rfl
  | cons x xs ih => rw [stripItems, ih, List.map_cons]

theorem stripMembers_eq (ms : List (Text × Value)) :
    stripMembers ms = (ms.filter fun m => decide (m.1 ∉ oauthCredentialKeys)).map
      fun m => (m.1, stripOauthCredentials m.2) := by
  induction ms with
  | nil => rfl
  | cons m ms ih =>
    obtain ⟨k, x⟩ := m
    rw [stripMembers, ih, List.filter_cons]
    by_cases hk : k ∈ oauthCredentialKeys <;> simp [hk]

theorem get?_stripMembers (ms : Dict Text Value) (k : Text) :
    Dict.get? (stripMembers ms) k =
      if k ∈ oauthCredentialKeys then none else (ms.get? k).map stripOauthCredentials := by
  rw [stripMembers_eq, Dict.get?_map fun _ => stripOauthCredentials,
    Dict.get?_filter fun k => decide (k ∉ oauthCredentialKeys)]
  by_cases hk : k ∈ oauthCredentialKeys <;> simp [hk]

theorem keys_stripMembers_sublist (ms : Dict Text Value) :
    (Dict.keys (stripMembers ms)).Sublist ms.keys := by
  rw [stripMembers_eq, Dict.keys, List.map_map]
  exact List.filter_sublist.map _

theorem distinctKeys_strip {v : Value} (h : v.distinctKeys = true) :
    (stripOauthCredentials v).distinctKeys = true := by
  induction v with
  | list vs ih =>
    rw [stripOauthCredentials, stripItems_eq]
    refine Value.distinctKeys_list.2 (List.forall_mem_map.2 fun v hv => ?_)
    exact ih v hv (Value.distinctKeys_list.1 h v hv)
  | obj fs ih =>
    obtain ⟨hkeys, hfs⟩ := Value.distinctKeys_obj.1 h
    rw [stripOauthCredentials]
    refine Value.distinctKeys_obj.2 ⟨hkeys.sublist (keys_stripMembers_sublist fs), fun f hf => ?_⟩
    rw [stripMembers_eq] at hf
    obtain ⟨g, hg, rfl⟩ := List.mem_map.1 hf
    have hmem := List.mem_of_mem_filter hg
    exact ih g hmem (hfs g hmem)
  | _ => rfl

/-- Stripping is pruning. -/
theorem tree_stripOauthCredentials (v : Value) :
    (stripOauthCredentials v).tree = v.tree.prune (· ∈ oauthCredentialKeys) := by
  induction v with
  | list xs ih =>
    rw [stripOauthCredentials, stripItems_eq, Value.tree_list, Value.tree_list, Tree.prune_arr,
      List.map_map, List.map_map]
    exact congrArg _ (List.map_congr_left ih)
  | obj ms ih =>
    rw [stripOauthCredentials, Value.tree_obj, Value.tree_obj, Tree.prune_obj]
    congr 1
    funext k
    rw [get?_stripMembers]
    split
    · rfl
    · cases hk : Dict.get? ms k with
      | none => rfl
      | some v => exact congrArg some (ih _ (Dict.mem_of_get? hk))
  | _ => rfl

/-- No object in a value has the key of a credential. -/
inductive NoCredential : Value → Prop
  | scalar {v : Value} (hlist : ∀ vs, v ≠ .list vs) (hobj : ∀ fs, v ≠ .obj fs) : NoCredential v
  | list {vs : List Value} (items : ∀ v ∈ vs, NoCredential v) : NoCredential (.list vs)
  | obj {fs : Dict Text Value} (keys : ∀ k ∈ oauthCredentialKeys, k ∉ fs.keys)
      (values : ∀ f ∈ fs, NoCredential f.2) : NoCredential (.obj fs)

theorem noCredential_strip (v : Value) : NoCredential (stripOauthCredentials v) := by
  induction v with
  | list vs ih =>
    rw [stripOauthCredentials, stripItems_eq]
    exact .list (List.forall_mem_map.2 ih)
  | obj fs ih =>
    rw [stripOauthCredentials]
    refine .obj (fun k hk => ?_) fun f hf => ?_
    · rw [← Dict.get?_eq_none_iff, get?_stripMembers, if_pos hk]
    · rw [stripMembers_eq] at hf
      obtain ⟨g, hg, rfl⟩ := List.mem_map.1 hf
      exact ih g (List.mem_of_mem_filter hg)
  | _ => exact .scalar nofun nofun

/-- What `popSecret` leaves of the options of a token. -/
def withoutSecret : Value → Value
  | .obj fs => .obj (Dict.del fs "secret")
  | v => v

theorem get?_popSecret (options : Dict Text Value) (name k : Text) :
    (popSecret options name).get? k =
      if name = k then (options.get? k).map withoutSecret else options.get? k := by
  unfold popSecret
  split
  · rename_i fs h
    rw [Dict.get?_set]
    split
    · subst k
      rw [h, Option.map_some, withoutSecret]
    · rfl
  · rename_i h
    split
    · subst k
      cases hv : options.get? name with
      | none => rfl
      | some v =>
        cases v with
        | obj fs => exact absurd hv (h fs)
        | _ => rfl
    · rfl

theorem get?_foldl_popSecret {names : List Text} (h : names.Nodup) (k : Text) :
    ∀ options : Dict Text Value, (names.foldl popSecret options).get? k =
      if k ∈ names then (options.get? k).map withoutSecret else options.get? k := by
  induction names with
  | nil => exact fun options => rfl
  | cons name names ih =>
    intro options
    obtain ⟨hname, hnames⟩ := List.nodup_cons.1 h
    rw [List.foldl_cons, ih hnames, get?_popSecret]
    by_cases hk : name = k
    · subst hk
      rw [if_neg hname, if_pos rfl, if_pos List.mem_cons_self]
    · rw [if_neg hk]
      refine if_congr ?_ rfl rfl
      rw [List.mem_cons, or_iff_right (Ne.symm hk)]

theorem get?_sanitizeAuthOptions (options : Dict Text Value) (k : Text) :
    (sanitizeAuthOptions options).get? k =
      if k ∈ authTokenOptionKeys then (options.get? k).map withoutSecret
      else if k = "oauth2" then (options.get? k).map stripOauthCredentials
      else options.get? k := by
  have hnames : authTokenOptionKeys.Nodup := by decide
  have hfold := fun k => get?_foldl_popSecret hnames k options
  have hoauth : ("oauth2" : Text) ∉ authTokenOptionKeys := by decide
  have hstrip : (sanitizeAuthOptions options).get? k =
      if k = "oauth2" then ((authTokenOptionKeys.foldl popSecret options).get? k).map
        stripOauthCredentials
      else (authTokenOptionKeys.foldl popSecret options).get? k := by
    unfold sanitizeAuthOptions
    dsimp only
    split
    · rename_i h
      split
      · subst k
        rw [h]
        rfl
      · rfl
    · rename_i h
      split
      · subst k
        rw [h]
        rfl
      · rfl
    · rename_i v _ h
      rw [Dict.get?_set]
      by_cases hk : k = "oauth2"
      · subst hk
        rw [if_pos rfl, if_pos rfl, h, Option.map_some]
      · rw [if_neg (Ne.symm hk), if_neg hk]
  rw [hstrip, hfold]
  by_cases hk : k = "oauth2"
  · subst hk
    rw [if_pos rfl, if_neg hoauth, if_neg hoauth, if_pos rfl]
  · rw [if_neg hk, if_neg hk]

theorem keys_popSecret {options : Dict Text Value} (h : options.keys.Nodup) (name : Text) :
    (popSecret options name).keys.Nodup := by
  unfold popSecret
  split
  · exact Dict.nodup_keys_set h _ _
  · exact h

theorem keys_sanitizeAuthOptions {options : Dict Text Value} (h : options.keys.Nodup) :
    (sanitizeAuthOptions options).keys.Nodup := by
  have hfold : ∀ (names : List Text) (o : Dict Text Value), o.keys.Nodup →
      (names.foldl popSecret o).keys.Nodup := by
    intro names
    induction names with
    | nil => exact fun o ho => ho
    | cons name names ih => exact fun o ho => ih _ (keys_popSecret ho name)
  unfold sanitizeAuthOptions
  dsimp only
  split
  · exact hfold _ _ h
  · exact hfold _ _ h
  · exact Dict.nodup_keys_set (hfold _ _ h) _ _

theorem distinctKeys_withoutSecret {v : Value} (h : v.distinctKeys = true) :
    (withoutSecret v).distinctKeys = true := by
  cases v with
  | obj fs =>
    obtain ⟨hkeys, hfs⟩ := Value.distinctKeys_obj.1 h
    exact Value.distinctKeys_obj.2 ⟨hkeys.sublist (List.filter_sublist.map _),
      fun f hf => hfs f (List.mem_of_mem_filter hf)⟩
  | _ => exact h

theorem distinctKeys_sanitize {options : Dict Text Value}
    (h : (Value.obj options).distinctKeys = true) :
    (Value.obj (sanitizeAuthOptions options)).distinctKeys = true := by
  obtain ⟨hkeys, hvalues⟩ := Value.distinctKeys_obj_iff.1 h
  refine Value.distinctKeys_obj_iff.2 ⟨keys_sanitizeAuthOptions hkeys, fun k v hv => ?_⟩
  rw [get?_sanitizeAuthOptions] at hv
  split_ifs at hv
  · obtain ⟨w, hw, rfl⟩ := Option.map_eq_some_iff.1 hv
    exact distinctKeys_withoutSecret (hvalues k w hw)
  · obtain ⟨w, hw, rfl⟩ := Option.map_eq_some_iff.1 hv
    exact distinctKeys_strip (hvalues k w hw)
  · exact hvalues k v hv

/-- Options of tokens without a secret, and OAuth2 options without a credential. -/
structure NoSecrets (options : Dict Text Value) : Prop where
  tokens : ∀ k ∈ authTokenOptionKeys, ∀ tokenOptions : Dict Text Value,
    options.get? k = some (.obj tokenOptions) → ("secret" : Text) ∉ tokenOptions.keys
  oauth2 : ∀ v, options.get? "oauth2" = some v → NoCredential v

theorem noSecrets_sanitize (options : Dict Text Value) : NoSecrets (sanitizeAuthOptions options) where
  tokens k hk tokenOptions h := by
    rw [get?_sanitizeAuthOptions, if_pos hk] at h
    obtain ⟨v, -, hv⟩ := Option.map_eq_some_iff.1 h
    cases v with
    | obj fs =>
      obtain rfl : Dict.del fs "secret" = tokenOptions := Value.obj.inj hv
      rw [← Dict.get?_eq_none_iff, Dict.get?_del, if_pos rfl]
    | _ => cases hv
  oauth2 v h := by
    rw [get?_sanitizeAuthOptions, if_neg (by decide), if_pos rfl] at h
    obtain ⟨w, -, rfl⟩ := Option.map_eq_some_iff.1 h
    exact noCredential_strip w

/-! ## Merging options -/

/-- A value as the key of a Python dict : numbers and Booleans by their number. -/
inductive HashKey
  | none
  | number (q : Rat)
  | text (s : Text)
  | time (micros : Int)
  deriving DecidableEq

/-- The key a value is, unless it is a list or an object. -/
def hashKey : Value → Option HashKey
  | .null => some .none
  | .bool b => some (.number (if b then 1 else 0))
  | .num q => some (.number q)
  | .text s => some (.text s)
  | .time t => some (.time t)
  | .list _ | .obj _ => none

/-- `provider.get("name")` -/
def providerName (provider : Dict Text Value) : Value := (provider.get? "name").getD .null

/-- `current_by_name` with one more element of `current_providers`. -/
def addByName (currentByName : Dict HashKey (Dict Text Value)) :
    Value → Option (Dict HashKey (Dict Text Value))
  | .obj provider =>
    if (providerName provider).truthy then
      (hashKey (providerName provider)).map fun key => currentByName.set key provider
    else some currentByName
  | _ => some currentByName

/-- The elements of what is iterated over for `current_by_name`; keys and characters are no
objects. -/
def currentProviders : Value → Option (List Value)
  | .list providers => some providers
  | .obj _ | .text _ => some []
  | _ => none

/-- What an incoming provider becomes. -/
def mergeProvider (currentByName : Dict HashKey (Dict Text Value)) : Value → Option Value
  | .obj provider =>
    (hashKey (providerName provider)).map fun key =>
      .obj (deepMergeDicts ((currentByName.get? key).getD []) provider)
  | provider => some provider

/-- `_merge_auth_options`, if it raises no `TypeError`. -/
def mergeAuthOptions (defaults existing incoming : Dict Text Value) : Option (Dict Text Value) :=
  let merged := deepMergeDicts defaults existing
  match incoming.get? "oauth2" with
  | some (.obj incomingOauth) =>
    match Dict.get? incomingOauth "providers" with
    | some (.list incomingProviders) => do
      let current ← match merged.get? "oauth2" with
        | some (.obj currentOauth) =>
          currentProviders ((Dict.get? currentOauth "providers").getD (.list []))
        | _ => some []
      let currentByName ← current.foldlM addByName []
      let providers ← incomingProviders.mapM (mergeProvider currentByName)
      let oauthWithoutProviders := Dict.del incomingOauth "providers"
      let merged := deepMergeDicts merged (incoming.set "oauth2" (.obj oauthWithoutProviders))
      let mergedOauth := match merged.get? "oauth2" with
        | some (.obj mergedOauth) => mergedOauth
        | _ => []
      return merged.set "oauth2" (.obj (Dict.set mergedOauth "providers" (.list providers)))
    | _ => return deepMergeDicts merged incoming
  | _ => return deepMergeDicts merged incoming

end AuthOptions

end PPBase
