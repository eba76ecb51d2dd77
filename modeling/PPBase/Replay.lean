import PPBase.SanitizedMerge

/-!
# Replaying a snapshot on its source

Sanitized options, merged into those they come from, give them back exactly if `KeepsCredentials`
(`replay_iff_keepsCredentials`) : two providers of different names do (`two_names_kept`), two of
the same name do not (`repeated_name_replaced`).
-/

namespace PPBase

namespace AuthOptions

/-- What is stripped from OAuth2 options is found again : for a provider at the last one with its
name, for everything else at its own keys. -/
def KeepsCredentials (options : Dict Text Value) : Prop :=
  match options.get? "oauth2" with
  | none => True
  | some (.obj oauth) =>
    match Dict.get? oauth "providers" with
    | some (.list providers) =>
      (∀ (k : Text) v, k ≠ "providers" → k ∉ oauthCredentialKeys → Dict.get? oauth k = some v →
        Kept (some v) v) ∧ ∀ p ∈ providers, ProviderKept providers p
    | _ => Kept (some (.obj oauth)) (.obj oauth)
  | some v => Kept (some v) v

section Replay

variable {defaults existing : Dict Text Value}

theorem tree_merge_defaults (hkeys : (Value.obj existing).distinctKeys = true)
    (hcovers : (Value.obj defaults).tree.Covers (Value.obj existing).tree) :
    (Value.obj (deepMergeDicts defaults existing)).tree = (Value.obj existing).tree := by
  rw [tree_deepMergeDicts defaults hkeys, Tree.merge_eq_right hcovers]

/-- A list of providers that are kept has names to look them up by. -/
theorem namesHashable_of_kept {providers : List Value}
    (h : ∀ p ∈ providers, ProviderKept providers p) : NamesHashable providers :=
  fun _ hp _ => (h _ hp).imp fun _ h => h.1

theorem reached_self_iff : Reached existing existing ↔ KeepsCredentials existing := by
  have hself : ∀ v, existing.get? "oauth2" = some v →
      (OauthKept (existing.get? "oauth2") v ↔ KeepsCredentials existing) := by
    intro v hv
    unfold OauthKept KeepsCredentials
    rw [hv]
    cases v with
    | obj oauth =>
      cases hproviders : Dict.get? oauth "providers" with
      | none => simp only [hproviders]
      | some w =>
        cases w with
        | list providers =>
          simp only [hproviders]
          constructor
          · intro h
            obtain ⟨qs, hqs, -, hmatched⟩ := h.matched
            rw [currentOauth, hproviders] at hqs
            cases hqs
            refine ⟨fun k v hne hh hv => ?_, hmatched⟩
            have := h.other k hne hh v hv
            rwa [currentOauth, hv] at this
          · rintro ⟨hrest, hmatched⟩
            refine ⟨⟨providers, ?_, namesHashable_of_kept hmatched, hmatched⟩, fun _ _ h => h,
              fun k _ v hv => ?_, fun k hne hh v hv => ?_⟩
            · rw [currentOauth, hproviders]
              rfl
            · rw [currentOauth, hv]
              rfl
            · rw [currentOauth, hv]
              exact hrest k v hne hh hv
        | _ => simp only [hproviders]
    | _ => rfl
  constructor
  · intro h
    cases hv : existing.get? "oauth2" with
    | none =>
      unfold KeepsCredentials
      rw [hv]
      trivial
    | some v => exact (hself v hv).1 (h.oauth2 v hv)
  · intro h
    refine ⟨fun _ h => h, fun k _ v hv => ?_, fun v hv => (hself v hv).2 h, fun k _ _ v hv => ?_⟩
    · rw [hv]
      cases v with
      | obj fs => exact ⟨.refl _, rfl⟩
      | _ => trivial
    · rw [hv]
      rintro d hd
      cases hd
      exact .refl _

end Replay

/-- Sanitized options give back what they come from exactly if they keep its credentials, and
they have no secrets. -/
theorem replay_iff_keepsCredentials (tokenKey : TokenType → Text) (isSuperusers : Bool)
    (existing : Dict Text Value) (hkeys : (Value.obj existing).distinctKeys = true)
    (hcovers : (Value.obj
      (CollectionService.generateDefaultAuthOptions tokenKey isSuperusers)).tree.Covers
        (Value.obj existing).tree) :
    ((∃ merged,
      mergeAuthOptions (CollectionService.generateDefaultAuthOptions tokenKey isSuperusers)
        existing (sanitizeAuthOptions existing) = some merged ∧
      (Value.obj merged).tree = (Value.obj existing).tree) ↔ KeepsCredentials existing) ∧
    ∀ definition options : Dict Text Value,
      (sanitizeCollectionDefinition definition).get? "options" = some (.obj options) →
        NoSecrets options := by
  constructor
  · have htree := tree_merge_defaults hkeys hcovers
    rw [merge_sanitized_iff hkeys, ← reached_self_iff]
    exact ⟨.congr htree, .congr htree.symm⟩
  · intro definition options h
    unfold sanitizeCollectionDefinition at h
    split at h
    · rw [Dict.get?_set_self] at h
      cases h
      exact noSecrets_sanitize _
    · rename_i hne
      exact absurd h (hne options)

/-- Stored options with a list of providers, as they are saved. -/
def savedOptions (providers : List Value) : Dict Text Value :=
  deepMergeDicts (CollectionService.generateDefaultAuthOptions (fun _ => "key") false)
    [("oauth2", .obj [("enabled", .bool true), ("providers", .list providers)])]

/-- A provider with credentials. -/
def provider (name clientId : Text) : Value :=
  .obj [("name", .text name), ("clientId", .text clientId)]

theorem covers_savedOptions {providers : List Value}
    (h : (Value.list providers).distinctKeys = true) :
    (Value.obj (CollectionService.generateDefaultAuthOptions (fun _ => "key") false)).tree.Covers
      (Value.obj (savedOptions providers)).tree := by
  rw [savedOptions, tree_deepMergeDicts]
  · exact Tree.covers_merge _ _
  · simpa [Value.distinctKeys, Value.distinctFields, Dict.keys] using h

/-- Two providers of different names get their credentials back. -/
theorem two_names_kept : KeepsCredentials
    (savedOptions [provider "google" "a.apps", provider "github" "Iv1.b"]) :=
  (replay_iff_keepsCredentials (fun _ => "key") false _ (by decide)
    (covers_savedOptions (by decide))).1.1 ⟨_, by decide, rfl⟩

theorem map_tree_of_savedOptions {ps qs : List Value}
    (h : (Value.obj (savedOptions ps)).tree = (Value.obj (savedOptions qs)).tree) :
    ps.map Value.tree = qs.map Value.tree := by
  have hoauth := Option.some.inj (Value.tree_obj_inj.1 h "oauth2")
  have hproviders : (Value.list ps).tree = (Value.list qs).tree :=
    Option.some.inj (Value.tree_obj_inj.1 hoauth "providers")
  rw [Value.tree_list, Value.tree_list] at hproviders
  exact Tree.arr.inj hproviders

theorem clientId_of_tree {name name' clientId clientId' : Text}
    (h : (provider name clientId).tree = (provider name' clientId').tree) :
    clientId = clientId' := by
  have hclient := Option.some.inj (Value.tree_obj_inj.1 h "clientId")
  exact Value.text.inj (Tree.leaf.inj hclient)

/-- Of two providers of one name, the first gets the credentials of the second. -/
theorem repeated_name_replaced :
    let defaults := CollectionService.generateDefaultAuthOptions (fun _ => "key") false
    let stored := savedOptions [provider "google" "a.apps", provider "google" "b.apps"]
    let replayed := savedOptions [provider "google" "b.apps", provider "google" "b.apps"]
    (Value.obj stored).distinctKeys = true ∧
      (Value.obj defaults).tree.Covers (Value.obj stored).tree ∧
      mergeAuthOptions defaults stored (sanitizeAuthOptions stored) = some replayed ∧
      (Value.obj replayed).tree ≠ (Value.obj stored).tree := by
  refine ⟨by decide, covers_savedOptions (by decide), by decide +kernel, fun h => ?_⟩
  have hclient := clientId_of_tree (List.cons.inj (map_tree_of_savedOptions h)).1
  exact absurd hclient (by decide)

end AuthOptions

end PPBase
