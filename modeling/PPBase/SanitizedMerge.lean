import PPBase.AuthOptions

/-!
# Merging sanitized options

Sanitized options, merged into defaults and options that are there, become what they were exactly if
those have what was stripped, at the keys where the merge looks for it, and no keys of their own
(`Reached`, `merge_sanitized_iff`). A provider gets its credentials from the last one with its name,
and what is in other lists is not merged. The order of members does not matter (`Reached.congr`).
-/

namespace PPBase

namespace AuthOptions

/-! ## Where things are kept -/

/-- The object, if it stands in `current_by_name` under the key. -/
def namedBy (key : HashKey) : Value → Option (Dict Text Value)
  | .obj provider =>
    if (providerName provider).truthy = true ∧ hashKey (providerName provider) = some key then
      some provider
    else none
  | _ => none

/-- The last of the providers with a name. -/
def lastNamed (providers : List Value) (key : HashKey) : Dict Text Value :=
  ((providers.filterMap (namedBy key)).getLast?).getD []

/-- The value at `c` gives back what is stripped from `v`. -/
def Kept (c : Option Value) (v : Value) : Prop :=
  Tree.Restored (· ∈ oauthCredentialKeys) (c.map Value.tree) v.tree

/-- The last provider with the name of this one gives back what is stripped from it. -/
def ProviderKept (providers : List Value) : Value → Prop
  | .obj provider =>
    ∃ key, hashKey (providerName provider) = some key ∧
      Kept (some (.obj (lastNamed providers key))) (.obj provider)
  | v => Kept none v

theorem hashKey_strip (v : Value) : hashKey (stripOauthCredentials v) = hashKey v := by
  cases v <;> rfl

theorem providerName_strip (provider : Dict Text Value) :
    providerName (stripMembers provider) = stripOauthCredentials (providerName provider) := by
  unfold providerName
  rw [get?_stripMembers, if_neg (by decide)]
  cases provider.get? "name" <;> rfl

variable {v : Value}

theorem get?_addByName {d d' : Dict HashKey (Dict Text Value)} (h : addByName d v = some d')
    (key : HashKey) : d'.get? key = (namedBy key v).or (d.get? key) := by
  cases v with
  | obj provider =>
    rw [addByName] at h
    rw [namedBy]
    split at h
    · rename_i htruthy
      obtain ⟨key', hkey', rfl⟩ := Option.map_eq_some_iff.1 h
      rw [hkey', Dict.get?_set]
      by_cases hk : key' = key
      · subst hk
        rw [if_pos rfl, if_pos ⟨htruthy, rfl⟩, Option.some_or]
      · rw [if_neg hk, if_neg fun h => hk (Option.some.inj h.2), Option.none_or]
    · rename_i htruthy
      cases h
      rw [if_neg fun h => htruthy h.1, Option.none_or]
  | _ => cases h; rfl

/-- `current_by_name` holds the last provider with a name. -/
theorem get?_foldlM_addByName {key : HashKey} {providers : List Value} :
    ∀ {d d' : Dict HashKey (Dict Text Value)}, providers.foldlM addByName d = some d' →
      d'.get? key = ((providers.filterMap (namedBy key)).getLast?).or (d.get? key) := by
  induction providers with
  | nil =>
    intro d d' h
    cases h
    rfl
  | cons v providers ih =>
    intro d d' h
    rw [List.foldlM_cons] at h
    obtain ⟨d₁, hd₁, h⟩ := Option.bind_eq_some_iff.1 h
    rw [ih h, get?_addByName hd₁]
    cases hv : namedBy key v with
    | none => rw [List.filterMap_cons_none hv, Option.none_or]
    | some p =>
      rw [List.filterMap_cons_some hv, List.getLast?_cons]
      cases (providers.filterMap (namedBy key)).getLast? <;> rfl

/-- The objects with a truthy name can be looked up by it. -/
def NamesHashable (providers : List Value) : Prop :=
  ∀ p, .obj p ∈ providers → (providerName p).truthy = true →
    ∃ key, hashKey (providerName p) = some key

theorem addByName_isSome {d : Dict HashKey (Dict Text Value)} :
    (∃ d', addByName d v = some d') ↔ ∀ p, v = .obj p → (providerName p).truthy = true →
      ∃ key, hashKey (providerName p) = some key := by
  cases v with
  | obj p =>
    rw [addByName]
    split
    · rename_i htruthy
      simp [htruthy, Option.map_eq_some_iff]
    · rename_i htruthy
      refine iff_of_true ⟨d, rfl⟩ fun q hq h => ?_
      cases hq
      exact absurd h htruthy
  | _ => exact iff_of_true ⟨d, rfl⟩ fun q hq => by cases hq

theorem foldlM_addByName_isSome {providers : List Value} :
    ∀ d, (∃ d', providers.foldlM addByName d = some d') ↔ NamesHashable providers := by
  induction providers with
  | nil => exact fun d => iff_of_true ⟨d, rfl⟩ fun _ h => absurd h List.not_mem_nil
  | cons v providers ih =>
    intro d
    rw [List.foldlM_cons]
    constructor
    · rintro ⟨d', h⟩
      obtain ⟨d₁, hd₁, h⟩ := Option.bind_eq_some_iff.1 h
      intro p hp
      rcases List.mem_cons.1 hp with hp | hp
      · exact addByName_isSome.1 ⟨d₁, hd₁⟩ p hp.symm
      · exact (ih d₁).1 ⟨d', h⟩ p hp
    · intro h
      obtain ⟨d₁, hd₁⟩ := addByName_isSome.2 fun p hp => h p (hp ▸ List.mem_cons_self)
      obtain ⟨d', hd'⟩ := (ih d₁).2 fun p hp => h p (List.mem_cons_of_mem _ hp)
      exact ⟨d', by rw [hd₁]; exact hd'⟩

theorem mergeProvider_strip {providers : List Value} {d : Dict HashKey (Dict Text Value)}
    (hd : providers.foldlM addByName [] = some d) (hv : v.distinctKeys = true) :
    (∃ w, mergeProvider d (stripOauthCredentials v) = some w ∧ w.tree = v.tree) ↔
      ProviderKept providers v := by
  cases v with
  | obj provider =>
    rw [stripOauthCredentials, mergeProvider, providerName_strip, hashKey_strip, ProviderKept]
    cases hkey : hashKey (providerName provider) with
    | none => exact iff_of_false (by rintro ⟨_, ⟨⟩, _⟩) (by rintro ⟨_, ⟨⟩, _⟩)
    | some key =>
      have hlast : (d.get? key).getD [] = lastNamed providers key := by
        rw [get?_foldlM_addByName hd, Dict.get?_nil, Option.or_none, lastNamed]
      have hstrip := distinctKeys_strip hv
      have htree := tree_stripOauthCredentials (.obj provider)
      rw [stripOauthCredentials] at hstrip htree
      have hmerged := tree_deepMergeDicts (lastNamed providers key) hstrip
      rw [htree] at hmerged
      rw [Option.map_some, hlast]
      constructor
      · rintro ⟨w, hw, heq⟩
        cases hw
        exact ⟨key, rfl, Tree.restored_of_merge_prune (hmerged.symm.trans heq)⟩
      · rintro ⟨key', hkey', hkept⟩
        cases hkey'
        exact ⟨_, rfl, hmerged.trans hkept.merge_prune⟩
  | list vs =>
    change _ ↔ Kept none (.list vs)
    rw [Kept, Option.map_none, ← Tree.merge_prune_eq_iff, Tree.merge_eq_of_members? (.inl rfl),
      ← tree_stripOauthCredentials]
    rw [stripOauthCredentials]
    constructor
    · rintro ⟨w, ⟨⟩, h⟩
      exact h
    · exact fun h => ⟨_, rfl, h⟩
  | _ =>
    refine iff_of_true ⟨_, rfl, rfl⟩ (.other (.inl rfl) ?_)
    exact .leaf _

/-- All keys of the value at `c` are keys of `v`. -/
def Covered (c : Option Value) (v : Value) : Prop := ∀ d, c = some d → d.tree.Covers v.tree

/-- The value at `c` is covered by the options `v` of a token, and has their secret. -/
def SecretKept (c : Option Value) : Value → Prop
  | .obj fs =>
    match c with
    | some (.obj bs) => (Value.obj bs).tree.Covers (Value.obj fs).tree ∧
      (Dict.get? bs "secret").map Value.tree = (Dict.get? fs "secret").map Value.tree
    | _ => Dict.get? fs "secret" = none
  | _ => True

/-- The members of an object, if it is one. -/
def currentOauth : Option Value → Dict Text Value
  | some (.obj current) => current
  | _ => []

/-- OAuth2 options without their credentials become what they were, with a list of providers, once
they are merged into `current`. -/
structure OauthReached (current oauth : Dict Text Value) (providers : List Value) : Prop where
  matched : ∃ existing, currentProviders ((current.get? "providers").getD (.list [])) =
    some existing ∧ NamesHashable existing ∧ ∀ p ∈ providers, ProviderKept existing p
  absent : ∀ k : Text, k ≠ "providers" → oauth.get? k = none → current.get? k = none
  credentials : ∀ k ∈ oauthCredentialKeys, ∀ v, oauth.get? k = some v →
    (current.get? k).map Value.tree = some v.tree
  other : ∀ k : Text, k ≠ "providers" → k ∉ oauthCredentialKeys → ∀ v, oauth.get? k = some v →
    Kept (current.get? k) v

/-- What is stripped from the value at `oauth2` is in the value at `c`. -/
def OauthKept (c : Option Value) : Value → Prop
  | .obj oauth =>
    match Dict.get? oauth "providers" with
    | some (.list providers) => OauthReached (currentOauth c) oauth providers
    | _ => Kept c (.obj oauth)
  | v => Kept c v

/-- Sanitized options become what they were once they are merged into `base`. -/
structure Reached (base target : Dict Text Value) : Prop where
  absent : ∀ k, target.get? k = none → base.get? k = none
  tokens : ∀ k ∈ authTokenOptionKeys, ∀ v, target.get? k = some v → SecretKept (base.get? k) v
  oauth2 : ∀ v, target.get? "oauth2" = some v → OauthKept (base.get? "oauth2") v
  other : ∀ k ∉ authTokenOptionKeys, k ≠ "oauth2" → ∀ v, target.get? k = some v →
    Covered (base.get? k) v

theorem covered_iff {c : Option Value} :
    Tree.mergeMember (c.map Value.tree) (some v.tree) = some v.tree ↔ Covered c v := by
  rw [Tree.mergeMember_some, Option.some.injEq]
  cases c with
  | none => exact iff_of_true (Tree.merge_eq_of_members? (.inl rfl)) fun _ h => nomatch h
  | some d =>
    rw [Option.map_some, Tree.merge_eq_right_iff]
    exact ⟨fun h e he => Option.some.inj he ▸ h, fun h => h d rfl⟩

theorem secretKept_iff {c : Option Value} :
    Tree.mergeMember (c.map Value.tree) (some (withoutSecret v).tree) = some v.tree ↔
      SecretKept c v := by
  rw [Tree.mergeMember_some, Option.some.injEq]
  cases v with
  | obj fs =>
    by_cases hc : ∃ bs, c = some (.obj bs)
    · obtain ⟨bs, rfl⟩ := hc
      have herase : (withoutSecret (.obj fs)).tree =
          .obj fun k => if k = "secret" then none else (Dict.get? fs k).map Value.tree := by
        rw [withoutSecret, Value.tree_obj]
        congr 1
        funext k
        rw [Dict.get?_del]
        by_cases hk : k = "secret"
        · rw [if_pos hk, if_pos hk.symm, Option.map_none]
        · rw [if_neg hk, if_neg (Ne.symm hk)]
      rw [Option.map_some, herase, Value.tree_obj, Value.tree_obj, Tree.merge_erase_iff, SecretKept,
        Value.tree_obj, Value.tree_obj]
    · have hkept : SecretKept c (.obj fs) ↔ Dict.get? fs "secret" = none := by
        rcases c with _ | c
        · exact Iff.rfl
        · cases c with
          | obj bs => exact absurd ⟨bs, rfl⟩ hc
          | _ => exact Iff.rfl
      rw [hkept, Tree.merge_eq_of_members? (.inl _), withoutSecret, Value.tree_obj_inj]
      · constructor
        · intro h
          have := h "secret"
          rw [Dict.get?_del, if_pos rfl] at this
          exact Option.map_eq_none_iff.1 this.symm
        · intro h k
          rw [Dict.get?_del]
          split
          · subst k
            rw [h]
          · rfl
      · rcases c with _ | c
        · rfl
        · exact Value.members?_tree.2 fun b hb => hc ⟨b, congrArg _ hb⟩
  | _ => exact iff_of_true (Tree.merge_eq_of_members? (.inr rfl)) trivial

theorem kept_iff {c : Option Value} :
    Tree.mergeMember (c.map Value.tree) (some (stripOauthCredentials v).tree) = some v.tree ↔
      Kept c v := by
  rw [Tree.mergeMember_some, tree_stripOauthCredentials, Option.some.injEq,
    Tree.merge_prune_eq_iff]
  exact Iff.rfl

section Merge

variable {defaults existing target oauth : Dict Text Value} {providers : List Value}

theorem get?_sanitize_oauth2 (options : Dict Text Value) :
    (sanitizeAuthOptions options).get? "oauth2" =
      (options.get? "oauth2").map stripOauthCredentials := by
  rw [get?_sanitizeAuthOptions, if_neg (by decide), if_pos rfl]

/-- Beside `oauth2` the merge is one of values at their keys. -/
theorem mergeMember_sanitize_iff {base : Dict Text Value} {k : Text} (hk : k ≠ "oauth2") :
    Tree.mergeMember ((base.get? k).map Value.tree)
        (((sanitizeAuthOptions target).get? k).map Value.tree) = (target.get? k).map Value.tree ↔
      (target.get? k = none → base.get? k = none) ∧
      (k ∈ authTokenOptionKeys → ∀ v, target.get? k = some v → SecretKept (base.get? k) v) ∧
      (k ∉ authTokenOptionKeys → ∀ v, target.get? k = some v → Covered (base.get? k) v) := by
  rw [get?_sanitizeAuthOptions, if_neg hk]
  cases target.get? k with
  | none =>
    rw [Option.map_none, ite_self, Option.map_none, Tree.mergeMember_none, Option.map_eq_none_iff]
    exact ⟨fun h => ⟨fun _ => h, fun _ _ => nofun, fun _ _ => nofun⟩, fun h => h.1 rfl⟩
  | some v =>
    by_cases hmem : k ∈ authTokenOptionKeys
    · rw [if_pos hmem, Option.map_some, Option.map_some, Option.map_some, secretKept_iff]
      exact ⟨fun h => ⟨nofun, fun _ w hw => Option.some.inj hw ▸ h, fun h => absurd hmem h⟩,
        fun h => h.2.1 hmem v rfl⟩
    · rw [if_neg hmem, Option.map_some, covered_iff]
      exact ⟨fun h => ⟨nofun, fun h => absurd h hmem, fun _ w hw => Option.some.inj hw ▸ h⟩,
        fun h => h.2.2 hmem v rfl⟩

/-- What is at a key once an object is merged into the value at `c`. -/
theorem map_tree_get?_mergeValue {c : Option Value} {override merged : Dict Text Value}
    (hkeys : (Value.obj override).distinctKeys = true)
    (hmerged : mergeValue c (.obj override) = .obj merged) (k : Text) :
    (merged.get? k).map Value.tree =
      Tree.mergeMember (((currentOauth c).get? k).map Value.tree)
        ((override.get? k).map Value.tree) := by
  by_cases hc : ∃ current, c = some (.obj current)
  · obtain ⟨current, rfl⟩ := hc
    rw [mergeValue_obj] at hmerged
    cases hmerged
    exact map_tree_get?_deepMergeDicts current hkeys k
  · have hcurrent : currentOauth c = [] := by
      rcases c with _ | c
      · rfl
      · cases c with
        | obj current => exact absurd ⟨current, rfl⟩ hc
        | _ => rfl
    rw [mergeValue_eq_right fun b _ h _ => hc ⟨b, h⟩] at hmerged
    cases hmerged
    rw [hcurrent, Dict.get?_nil, Option.map_none]
    cases (override.get? k).map Value.tree with
    | none => rw [Tree.mergeMember_none]
    | some v => rw [Tree.mergeMember_some, Tree.merge_eq_of_members? (.inl rfl)]

/-- What comes of options without credentials in those that are there, with a list of providers of
their own. -/
theorem tree_oauth_iff {merged : Dict Text Value} (c : Option Value) (mergedProviders : List Value)
    (hkeys : (Value.obj oauth).distinctKeys = true)
    (hproviders : oauth.get? "providers" = some (.list providers))
    (hmerged : mergeValue c (.obj (Dict.del (stripMembers oauth) "providers")) = .obj merged) :
    (Value.obj (merged.set "providers" (.list mergedProviders))).tree = (Value.obj oauth).tree ↔
      mergedProviders.map Value.tree = providers.map Value.tree ∧
      (∀ k : Text, k ≠ "providers" → oauth.get? k = none → (currentOauth c).get? k = none) ∧
      (∀ k ∈ oauthCredentialKeys, ∀ v, oauth.get? k = some v →
        ((currentOauth c).get? k).map Value.tree = some v.tree) ∧
      (∀ k : Text, k ≠ "providers" → k ∉ oauthCredentialKeys → ∀ v, oauth.get? k = some v →
        Kept ((currentOauth c).get? k) v) := by
  have hstripped := distinctKeys_strip hkeys
  rw [stripOauthCredentials] at hstripped
  have hmerge := map_tree_get?_mergeValue (distinctKeys_del hstripped "providers") hmerged
  have hother : ∀ k : Text, k ≠ "providers" →
      ((Dict.get? (merged.set "providers" (.list mergedProviders)) k).map Value.tree =
          (oauth.get? k).map Value.tree ↔
        (oauth.get? k = none → (currentOauth c).get? k = none) ∧
        (k ∈ oauthCredentialKeys → ∀ v, oauth.get? k = some v →
          ((currentOauth c).get? k).map Value.tree = some v.tree) ∧
        (k ∉ oauthCredentialKeys → ∀ v, oauth.get? k = some v →
          Kept ((currentOauth c).get? k) v)) := by
    intro k hk
    rw [Dict.get?_set_ne _ _ (Ne.symm hk), hmerge, Dict.get?_del, if_neg (Ne.symm hk),
      get?_stripMembers]
    cases hv : oauth.get? k with
    | none =>
      rw [Option.map_none, ite_self, Option.map_none, Tree.mergeMember_none,
        Option.map_eq_none_iff]
      refine ⟨fun h => ⟨fun _ => h, ?_, ?_⟩, fun h => h.1 rfl⟩
      · rintro _ _ ⟨⟩
      · rintro _ _ ⟨⟩
    | some v =>
      by_cases hh : k ∈ oauthCredentialKeys
      · rw [if_pos hh, Option.map_none, Tree.mergeMember_none, Option.map_some]
        refine ⟨fun h => ⟨?_, fun _ w hw => Option.some.inj hw ▸ h, fun h => absurd hh h⟩,
          fun h => h.2.1 hh v rfl⟩
        rintro ⟨⟩
      · rw [if_neg hh, Option.map_some, Option.map_some, Option.map_some, kept_iff]
        refine ⟨fun h => ⟨?_, fun h => absurd h hh, fun _ w hw => Option.some.inj hw ▸ h⟩,
          fun h => h.2.2 hh v rfl⟩
        rintro ⟨⟩
  have hcredential : ("providers" : Text) ∉ oauthCredentialKeys := by decide
  rw [Value.tree_obj_inj]
  constructor
  · intro h
    refine ⟨?_, fun k hk => ((hother k hk).1 (h k)).1, fun k hh => ?_,
      fun k hk => ((hother k hk).1 (h k)).2.2⟩
    · have := h "providers"
      rw [Dict.get?_set_self, hproviders, Option.map_some, Option.map_some, Value.tree_list,
        Value.tree_list] at this
      exact Tree.arr.inj (Option.some.inj this)
    · have hk : k ≠ "providers" := fun hk => hcredential (hk ▸ hh)
      exact ((hother k hk).1 (h k)).2.1 hh
  · rintro ⟨hlist, habsent, hcredentials, hkept⟩ k
    by_cases hk : k = "providers"
    · subst hk
      rw [Dict.get?_set_self, hproviders, Option.map_some, Option.map_some, Value.tree_list,
        Value.tree_list, hlist]
    · exact (hother k hk).2 ⟨habsent k hk, hcredentials k, hkept k hk⟩

theorem mergeProviders_iff {current : List Value} {d : Dict HashKey (Dict Text Value)}
    (hd : current.foldlM addByName [] = some d)
    (hkeys : (Value.list providers).distinctKeys = true) :
    (∃ merged, (providers.map stripOauthCredentials).mapM (mergeProvider d) = some merged ∧
      merged.map Value.tree = providers.map Value.tree) ↔
      ∀ p ∈ providers, ProviderKept current p := by
  rw [List.mapM_map, Failing.mapM_eq_iff]
  exact forall₂_congr fun p hp => mergeProvider_strip hd (Value.distinctKeys_list.1 hkeys p hp)

theorem mergeValue_obj_isObj (c : Option Value) (override : Dict Text Value) :
    ∃ merged, mergeValue c (.obj override) = .obj merged := by
  by_cases hc : ∃ current, c = some (.obj current)
  · obtain ⟨current, rfl⟩ := hc
    exact ⟨_, mergeValue_obj current override⟩
  · exact ⟨override, mergeValue_eq_right fun b _ h _ => hc ⟨b, h⟩⟩

/-- The merge of options with a list of providers. -/
theorem mergeAuthOptions_providers {incoming merged : Dict Text Value}
    (hincoming : incoming.get? "oauth2" = some (.obj oauth))
    (hkeys : (incoming.set "oauth2" (.obj (oauth.del "providers"))).keys.Nodup)
    (hproviders : oauth.get? "providers" = some (.list providers))
    (hmerged : mergeValue ((deepMergeDicts defaults existing).get? "oauth2")
      (.obj (oauth.del "providers")) = .obj merged) :
    mergeAuthOptions defaults existing incoming = do
      let current ← currentProviders (((currentOauth
        ((deepMergeDicts defaults existing).get? "oauth2")).get? "providers").getD (.list []))
      let currentByName ← current.foldlM addByName []
      let mergedProviders ← providers.mapM (mergeProvider currentByName)
      return (deepMergeDicts (deepMergeDicts defaults existing)
        (incoming.set "oauth2" (.obj (oauth.del "providers")))).set "oauth2"
          (.obj (merged.set "providers" (.list mergedProviders))) := by
  have hoauth : (deepMergeDicts (deepMergeDicts defaults existing)
      (incoming.set "oauth2" (.obj (oauth.del "providers")))).get? "oauth2" =
      some (.obj merged) := by
    rw [get?_deepMergeDicts hkeys, Dict.get?_set_self]
    exact congrArg some hmerged
  rw [mergeAuthOptions, hincoming]
  dsimp only
  rw [hproviders]
  dsimp only
  rw [hoauth]
  dsimp only
  rcases (deepMergeDicts defaults existing).get? "oauth2" with _ | c
  · rfl
  · cases c <;> rfl

theorem mergeAuthOptions_plain {incoming : Dict Text Value}
    (h : ∀ oauth providers, incoming.get? "oauth2" = some (.obj oauth) →
      Dict.get? oauth "providers" ≠ some (.list providers)) :
    mergeAuthOptions defaults existing incoming =
      some (deepMergeDicts (deepMergeDicts defaults existing) incoming) := by
  unfold mergeAuthOptions
  split
  · rename_i oauth hoauth
    split
    · exact absurd ‹_› (h oauth _ hoauth)
    · rfl
  · rfl

/-- What has to hold away from `oauth2`, and there. -/
theorem reached_iff {base : Dict Text Value} : Reached base target ↔
    (∀ k : Text, k ≠ "oauth2" → Tree.mergeMember ((base.get? k).map Value.tree)
      (((sanitizeAuthOptions target).get? k).map Value.tree) = (target.get? k).map Value.tree) ∧
    (target.get? "oauth2" = none → base.get? "oauth2" = none) ∧
    ∀ v, target.get? "oauth2" = some v → OauthKept (base.get? "oauth2") v := by
  have hoauth : ("oauth2" : Text) ∉ authTokenOptionKeys := by decide
  constructor
  · intro h
    refine ⟨fun k hk => (mergeMember_sanitize_iff hk).2 ⟨h.absent k, h.tokens k, ?_⟩,
      h.absent _, h.oauth2⟩
    exact fun hmem => h.other k hmem hk
  · rintro ⟨h, habsent, hkept⟩
    have hat := fun k hk => (mergeMember_sanitize_iff hk).1 (h k hk)
    refine ⟨fun k => ?_, fun k hk => ?_, hkept, fun k hmem hk => (hat k hk).2.2 hmem⟩
    · by_cases hk : k = "oauth2"
      · exact hk ▸ habsent
      · exact (hat k hk).1
    · exact (hat k fun heq => hoauth (heq ▸ hk)).2.1 hk

/-- Options that are set at `oauth2` are the target if that is the value there, and all others
come back. -/
theorem tree_set_oauth2_iff (base : Dict Text Value) {override : Dict Text Value} {v w : Value}
    (hkeys : (Value.obj override).distinctKeys = true) (hw : target.get? "oauth2" = some w)
    (hother : ∀ k : Text, k ≠ "oauth2" → override.get? k = (sanitizeAuthOptions target).get? k) :
    (Value.obj (Dict.set (deepMergeDicts base override) "oauth2" v)).tree =
      (Value.obj target).tree ↔
      (∀ k : Text, k ≠ "oauth2" → Tree.mergeMember ((base.get? k).map Value.tree)
        (((sanitizeAuthOptions target).get? k).map Value.tree) = (target.get? k).map Value.tree) ∧
      v.tree = w.tree := by
  have hk : ∀ k : Text, k ≠ "oauth2" →
      (Dict.get? (Dict.set (deepMergeDicts base override) "oauth2" v) k).map Value.tree =
        Tree.mergeMember ((base.get? k).map Value.tree)
          (((sanitizeAuthOptions target).get? k).map Value.tree) := by
    intro k hk
    rw [Dict.get?_set_ne _ _ (Ne.symm hk), map_tree_get?_deepMergeDicts base hkeys, hother k hk]
  rw [Value.tree_obj_inj]
  constructor
  · intro h
    refine ⟨fun k hne => (hk k hne).symm.trans (h k), ?_⟩
    have := h "oauth2"
    rw [Dict.get?_set_self, hw] at this
    exact Option.some.inj this
  · rintro ⟨h, hv⟩ k
    by_cases hne : k = "oauth2"
    · subst hne
      rw [Dict.get?_set_self, hw, Option.map_some, Option.map_some, hv]
    · exact (hk k hne).trans (h k hne)

/-- Options with a list of providers, sanitized and merged. -/
theorem merge_sanitized_providers (hkeys : (Value.obj target).distinctKeys = true)
    (hoauth : target.get? "oauth2" = some (.obj oauth))
    (hproviders : oauth.get? "providers" = some (.list providers)) :
    (∃ merged, mergeAuthOptions defaults existing (sanitizeAuthOptions target) = some merged ∧
      (Value.obj merged).tree = (Value.obj target).tree) ↔
      Reached (deepMergeDicts defaults existing) target := by
  have hdistinct := Value.distinctKeys_get? hkeys hoauth
  have hstripped := distinctKeys_strip hdistinct
  rw [stripOauthCredentials] at hstripped
  have hincoming : (sanitizeAuthOptions target).get? "oauth2" = some (.obj (stripMembers oauth)) := by
    rw [get?_sanitize_oauth2, hoauth, Option.map_some, stripOauthCredentials]
  have hincomingList : Dict.get? (stripMembers oauth) "providers" =
      some (.list (providers.map stripOauthCredentials)) := by
    rw [get?_stripMembers, if_neg (by decide), hproviders, Option.map_some, stripOauthCredentials,
      stripItems_eq]
  have hoverride := distinctKeys_set (distinctKeys_sanitize hkeys)
    (distinctKeys_del hstripped "providers") "oauth2"
  obtain ⟨merged, hmerged⟩ := mergeValue_obj_isObj
    ((deepMergeDicts defaults existing).get? "oauth2") (Dict.del (stripMembers oauth) "providers")
  have hresult := fun ps => (tree_set_oauth2_iff (deepMergeDicts defaults existing) hoverride hoauth
    fun k hk => Dict.get?_set_ne _ _ (Ne.symm hk)).trans
      (and_congr_right' (tree_oauth_iff _ ps hdistinct hproviders hmerged))
  have hlistKeys := Value.distinctKeys_get? hdistinct hproviders
  rw [mergeAuthOptions_providers hincoming (Value.distinctKeys_obj.1 hoverride).1 hincomingList
    hmerged, reached_iff, hoauth]
  constructor
  · rintro ⟨result, hsome, hsame⟩
    obtain ⟨current, hcurrent, hsome⟩ := Option.bind_eq_some_iff.1 hsome
    obtain ⟨d, hd, hsome⟩ := Option.bind_eq_some_iff.1 hsome
    obtain ⟨ps, hps, hsome⟩ := Option.bind_eq_some_iff.1 hsome
    cases hsome
    obtain ⟨hrest, hmap, habsent, hcredentials, hkept⟩ := (hresult ps).1 hsame
    refine ⟨hrest, by rintro ⟨⟩, fun v hv => ?_⟩
    cases hv
    rw [OauthKept, hproviders]
    exact ⟨⟨current, hcurrent, (foldlM_addByName_isSome []).1 ⟨d, hd⟩,
      (mergeProviders_iff hd hlistKeys).1 ⟨ps, hps, hmap⟩⟩, habsent, hcredentials, hkept⟩
  · rintro ⟨hrest, -, hv⟩
    have hv := hv _ rfl
    rw [OauthKept, hproviders] at hv
    obtain ⟨current, hcurrent, hnames, hmatched⟩ := hv.matched
    obtain ⟨d, hd⟩ := (foldlM_addByName_isSome []).2 hnames
    obtain ⟨ps, hps, hmap⟩ := (mergeProviders_iff hd hlistKeys).2 hmatched
    refine ⟨_, ?_, (hresult ps).2 ⟨hrest, hmap, hv.absent, hv.credentials, hv.other⟩⟩
    rw [hcurrent]
    show (current.foldlM addByName []).bind _ = _
    rw [hd]
    show ((providers.map stripOauthCredentials).mapM (mergeProvider d)).bind _ = _
    rw [hps]
    rfl

/-- Options without a list of providers, sanitized and merged. -/
theorem merge_sanitized_plain (hkeys : (Value.obj target).distinctKeys = true)
    (hproviders : ∀ oauth providers, target.get? "oauth2" = some (.obj oauth) →
      Dict.get? oauth "providers" ≠ some (.list providers)) :
    (∃ merged, mergeAuthOptions defaults existing (sanitizeAuthOptions target) = some merged ∧
      (Value.obj merged).tree = (Value.obj target).tree) ↔
      Reached (deepMergeDicts defaults existing) target := by
  have hincoming : ∀ oauth providers,
      (sanitizeAuthOptions target).get? "oauth2" = some (.obj oauth) →
        Dict.get? oauth "providers" ≠ some (.list providers) := by
    intro oauth ps hsome hlist
    rw [get?_sanitize_oauth2] at hsome
    obtain ⟨v, hv, heq⟩ := Option.map_eq_some_iff.1 hsome
    cases v with
    | obj fs =>
      cases heq
      rw [get?_stripMembers, if_neg (by decide)] at hlist
      obtain ⟨w, hw, heq⟩ := Option.map_eq_some_iff.1 hlist
      cases w with
      | list qs => exact hproviders fs qs hv hw
      | _ => cases heq
    | _ => cases heq
  have hat : (Tree.mergeMember
      (((deepMergeDicts defaults existing).get? "oauth2").map Value.tree)
      (((sanitizeAuthOptions target).get? "oauth2").map Value.tree) =
        (target.get? "oauth2").map Value.tree) ↔
      (target.get? "oauth2" = none → (deepMergeDicts defaults existing).get? "oauth2" = none) ∧
      ∀ v, target.get? "oauth2" = some v →
        OauthKept ((deepMergeDicts defaults existing).get? "oauth2") v := by
    rw [get?_sanitize_oauth2]
    cases hv : target.get? "oauth2" with
    | none =>
      rw [Option.map_none, Option.map_none, Tree.mergeMember_none, Option.map_eq_none_iff]
      exact ⟨fun h => ⟨fun _ => h, nofun⟩, fun h => h.1 rfl⟩
    | some v =>
      have hkept : OauthKept ((deepMergeDicts defaults existing).get? "oauth2") v ↔
          Kept ((deepMergeDicts defaults existing).get? "oauth2") v := by
        unfold OauthKept
        split
        · split
          · exact absurd ‹_› (hproviders _ _ hv)
          · exact Iff.rfl
        · exact Iff.rfl
      rw [Option.map_some, Option.map_some, Option.map_some, kept_iff, ← hkept]
      exact ⟨fun h => ⟨nofun, fun w hw => Option.some.inj hw ▸ h⟩, fun h => h.2 v rfl⟩
  rw [mergeAuthOptions_plain hincoming, reached_iff, ← hat]
  have htree : ∀ merged, some (deepMergeDicts (deepMergeDicts defaults existing)
      (sanitizeAuthOptions target)) = some merged →
      ((Value.obj merged).tree = (Value.obj target).tree ↔ ∀ k, Tree.mergeMember
        (((deepMergeDicts defaults existing).get? k).map Value.tree)
        (((sanitizeAuthOptions target).get? k).map Value.tree) = (target.get? k).map Value.tree) := by
    intro merged h
    cases h
    rw [Value.tree_obj_inj]
    refine forall_congr' fun k => ?_
    rw [map_tree_get?_deepMergeDicts _ (distinctKeys_sanitize hkeys)]
  constructor
  · rintro ⟨merged, hsome, hsame⟩
    have h := (htree merged hsome).1 hsame
    exact ⟨fun k _ => h k, h "oauth2"⟩
  · rintro ⟨hrest, hoauth⟩
    refine ⟨_, rfl, (htree _ rfl).2 fun k => ?_⟩
    by_cases hk : k = "oauth2"
    · exact hk ▸ hoauth
    · exact hrest k hk

/-- Sanitized options, merged into defaults and what is there, become what they were exactly if
what is there reaches them. -/
theorem merge_sanitized_iff (hkeys : (Value.obj target).distinctKeys = true) :
    (∃ merged, mergeAuthOptions defaults existing (sanitizeAuthOptions target) = some merged ∧
      (Value.obj merged).tree = (Value.obj target).tree) ↔
      Reached (deepMergeDicts defaults existing) target := by
  by_cases h : ∃ oauth providers, target.get? "oauth2" = some (.obj oauth) ∧
      Dict.get? oauth "providers" = some (.list providers)
  · obtain ⟨oauth, providers, hoauth, hproviders⟩ := h
    exact merge_sanitized_providers hkeys hoauth hproviders
  · exact merge_sanitized_plain hkeys fun oauth providers hoauth hproviders =>
      h ⟨oauth, providers, hoauth, hproviders⟩

end Merge

/-! ## What the order of members does not change -/

section Congr

variable {v w : Value} {ps qs : List Value} {base base' target : Dict Text Value}

theorem exists_obj_of_tree {fs : Dict Text Value} (h : (Value.obj fs).tree = v.tree) :
    ∃ gs, v = .obj gs := by
  cases v <;> simp [Value.tree] at h ⊢

theorem hashKey_congr (h : v.tree = w.tree) : hashKey v = hashKey w := by
  cases v <;> cases w <;> simp_all [Value.tree, hashKey]

theorem truthy_congr (h : v.tree = w.tree) : v.truthy = w.truthy := by
  cases v with
  | obj fs =>
    obtain ⟨gs, rfl⟩ := exists_obj_of_tree h
    have hget := Value.tree_obj_inj.1 h
    have hempty : fs = [] ↔ gs = [] := by
      constructor
      · rintro rfl
        rcases gs with _ | ⟨⟨k, x⟩, gs⟩
        · rfl
        · have := hget k
          simp at this
      · rintro rfl
        rcases fs with _ | ⟨⟨k, x⟩, fs⟩
        · rfl
        · have := hget k
          simp at this
    rw [Value.truthy, Value.truthy, Bool.eq_iff_iff]
    simp [hempty]
  | list vs =>
    cases w with
    | list ws =>
      rw [Value.tree_list, Value.tree_list] at h
      have hlength := congrArg List.length (Tree.arr.inj h)
      rw [List.length_map, List.length_map] at hlength
      cases vs <;> cases ws <;> simp_all [Value.truthy]
    | _ => simp [Value.tree] at h
  | _ => cases w <;> simp_all [Value.tree]

theorem providerName_congr {fs gs : Dict Text Value}
    (h : (Value.obj fs).tree = (Value.obj gs).tree) :
    (providerName fs).tree = (providerName gs).tree := by
  unfold providerName
  rw [← Option.getD_map Value.tree, Value.tree_obj_inj.1 h "name", Option.getD_map]

theorem namedBy_congr (key : HashKey) (h : v.tree = w.tree) :
    (namedBy key v).map (fun fs => (Value.obj fs).tree) =
      (namedBy key w).map fun fs => (Value.obj fs).tree := by
  cases v with
  | obj fs =>
    obtain ⟨gs, rfl⟩ := exists_obj_of_tree h
    have hname := providerName_congr h
    rw [namedBy, namedBy, truthy_congr hname, hashKey_congr hname]
    split
    · exact congrArg some h
    · rfl
  | _ =>
    cases w with
    | obj gs => exact nomatch exists_obj_of_tree h.symm
    | _ => rfl

theorem lastNamed_congr (key : HashKey) (h : ps.map Value.tree = qs.map Value.tree) :
    (Value.obj (lastNamed ps key)).tree = (Value.obj (lastNamed qs key)).tree := by
  have hmap : ∀ {ps qs : List Value}, ps.map Value.tree = qs.map Value.tree →
      (ps.filterMap (namedBy key)).map (fun fs => (Value.obj fs).tree) =
        (qs.filterMap (namedBy key)).map fun fs => (Value.obj fs).tree := by
    intro ps
    induction ps with
    | nil =>
      intro qs h
      rw [List.map_eq_nil_iff.1 h.symm]
    | cons p ps ih =>
      intro qs h
      obtain ⟨q, qs, rfl⟩ := List.exists_cons_of_ne_nil (l := qs) fun hq => by simp [hq] at h
      obtain ⟨hhead, htail⟩ := List.cons.inj h
      have hpq := namedBy_congr key hhead
      rw [List.filterMap_cons, List.filterMap_cons]
      cases hp : namedBy key p with
      | none =>
        rw [hp] at hpq
        rw [Option.map_eq_none_iff.1 hpq.symm]
        exact ih htail
      | some fs =>
        rw [hp] at hpq
        obtain ⟨gs, hgs, hfs⟩ := Option.map_eq_some_iff.1 hpq.symm
        rw [hgs]
        exact congrArg₂ List.cons hfs.symm (ih htail)
  have hlast := congrArg List.getLast? (hmap h)
  rw [List.getLast?_map, List.getLast?_map] at hlast
  unfold lastNamed
  rw [← Option.getD_map (fun fs => (Value.obj fs).tree), hlast, Option.getD_map]

theorem ProviderKept.congr (h : ps.map Value.tree = qs.map Value.tree)
    (hv : ProviderKept ps v) : ProviderKept qs v := by
  cases v with
  | obj fs =>
    obtain ⟨key, hkey, hkept⟩ := hv
    refine ⟨key, hkey, ?_⟩
    rw [Kept, Option.map_some, lastNamed_congr key h] at hkept
    exact hkept
  | _ => exact hv

theorem NamesHashable.congr (h : ps.map Value.tree = qs.map Value.tree) (hps : NamesHashable ps) :
    NamesHashable qs := by
  intro q hq htruthy
  have hmem : (Value.obj q).tree ∈ ps.map Value.tree := h ▸ List.mem_map_of_mem hq
  obtain ⟨p, hp, heq⟩ := List.mem_map.1 hmem
  obtain ⟨fs, rfl⟩ := exists_obj_of_tree heq.symm
  have hname := providerName_congr heq
  rw [← truthy_congr hname] at htruthy
  rw [← hashKey_congr hname]
  exact hps fs hp htruthy

theorem currentProviders_congr (h : v.tree = w.tree) (hv : currentProviders v = some ps) :
    ∃ qs, currentProviders w = some qs ∧ ps.map Value.tree = qs.map Value.tree := by
  cases v with
  | list vs =>
    cases w with
    | list ws =>
      cases hv
      rw [Value.tree_list, Value.tree_list] at h
      exact ⟨ws, rfl, Tree.arr.inj h⟩
    | _ => simp [Value.tree] at h
  | obj fs =>
    obtain ⟨gs, rfl⟩ := exists_obj_of_tree h
    cases hv
    exact ⟨[], rfl, rfl⟩
  | text s =>
    cases hv
    cases w <;> simp_all [Value.tree, currentProviders]
  | _ => cases hv

theorem currentOauth_congr {c c' : Option Value} (h : c.map Value.tree = c'.map Value.tree) :
    (Value.obj (currentOauth c)).tree = (Value.obj (currentOauth c')).tree := by
  rcases c with _ | v <;> rcases c' with _ | w
  · rfl
  · cases h
  · cases h
  · have hvw := Option.some.inj h
    cases v with
    | obj fs =>
      obtain ⟨gs, rfl⟩ := exists_obj_of_tree hvw
      exact hvw
    | _ =>
      cases w with
      | obj gs => exact nomatch exists_obj_of_tree hvw.symm
      | _ => rfl

theorem OauthReached.congr {current current' oauth : Dict Text Value}
    (h : (Value.obj current).tree = (Value.obj current').tree) (hr : OauthReached current oauth ps) :
    OauthReached current' oauth ps := by
  have hk := Value.tree_obj_inj.1 h
  refine ⟨?_, fun k hne hnone => ?_, fun k hmem v hv => ?_, fun k hne hh v hv => ?_⟩
  · obtain ⟨existing, hexisting, hnames, hmatched⟩ := hr.matched
    have hget : ((current.get? "providers").getD (.list [])).tree =
        ((current'.get? "providers").getD (.list [])).tree := by
      rw [← Option.getD_map Value.tree, hk "providers", Option.getD_map]
    obtain ⟨qs, hqs, hmap⟩ := currentProviders_congr hget hexisting
    exact ⟨qs, hqs, hnames.congr hmap, fun p hp => (hmatched p hp).congr hmap⟩
  · have := hk k
    rw [hr.absent k hne hnone] at this
    exact Option.map_eq_none_iff.1 this.symm
  · exact (hk k).symm.trans (hr.credentials k hmem v hv)
  · have hkept := hr.other k hne hh v hv
    rwa [Kept, hk k] at hkept

theorem OauthKept.congr {c c' : Option Value} (h : c.map Value.tree = c'.map Value.tree)
    (hv : OauthKept c v) : OauthKept c' v := by
  unfold OauthKept at hv ⊢
  split at hv
  · split at hv
    · exact hv.congr (currentOauth_congr h)
    · rwa [Kept, h] at hv
  · rwa [Kept, h] at hv

/-- What reaches a target does so in any order of its members. -/
theorem Reached.congr (h : (Value.obj base).tree = (Value.obj base').tree)
    (hr : Reached base target) : Reached base' target := by
  have hk := Value.tree_obj_inj.1 h
  refine ⟨fun k hnone => ?_, fun k hmem v hv => ?_, fun v hv => (hr.oauth2 v hv).congr (hk _),
    fun k hmem hne v hv => ?_⟩
  · have := hk k
    rw [hr.absent k hnone] at this
    exact Option.map_eq_none_iff.1 this.symm
  · rw [← secretKept_iff, ← hk k]
    exact secretKept_iff.2 (hr.tokens k hmem v hv)
  · rw [← covered_iff, ← hk k]
    exact covered_iff.2 (hr.other k hmem hne v hv)

end Congr

end AuthOptions

end PPBase
