/-
# `AutoDev.Auth.Credentials` — credentials minted with credentials

`create_service_credential_v2` of `backend/api/routers/auth_v2.py`,
`create_service_key` and `authenticate_service_key` of
`backend/auth/service.py`, and the scope check of
`enforce_control_plane_access`.

The endpoint asks one thing of its caller, `service_credential:admin`.  What the
new credential may hold is checked against the roles that the REQUEST names, not
against what the caller holds (`admin_mints_owner`).

A stored credential is its record: the columns `roles` and `scopes` are texts
that are read back to the same roles and scopes.  Instants are microseconds.
-/
import AutoDev.Auth.Roles

namespace AutoDev.Auth

open Execution (PyText)

/-! ## Minting -/

structure CredentialRequest where
  subject : String
  roles : List String
  scopes : List String := []
  expiresInDays : ℤ
  deriving DecidableEq

def CredentialRequest.WellFormed (body : CredentialRequest) : Prop :=
  body.subject ≠ "" ∧ body.roles ≠ [] ∧ 1 ≤ body.expiresInDays ∧ body.expiresInDays ≤ 90

instance (body : CredentialRequest) : Decidable body.WellFormed :=
  inferInstanceAs (Decidable (_ ∧ _ ∧ _ ∧ _))

structure ServiceCredentialRecord where
  keyId : String
  tenantId : String
  subject : String
  secretHash : String
  roles : List Role
  scopes : Finset String
  createdAt : ℤ
  expiresAt : ℤ
  revokedAt : Option ℤ := none
  deriving DecidableEq

/-- `timedelta(days=…)` and `timedelta(minutes=…)` in microseconds. -/
def days (n : ℤ) : ℤ := n * 86400000000

def ttlSlack : ℤ := 5 * 60000000

structure NewKey where
  keyId : String
  secretHash : String
  deriving DecidableEq

def createServiceKey (key : NewKey) (now : ℤ) (tenantId subject : String) (roles : List Role)
    (scopes : Finset String) (expiresAt : ℤ) : Except RoleError ServiceCredentialRecord :=
  if ¬ (days 1 - ttlSlack ≤ expiresAt - now ∧ expiresAt - now ≤ days 90 + ttlSlack) then
    .error .expiryOutOfRange
  else if scopes ≠ ∅ ∧ ¬ scopes ⊆ effectiveScopes roles none then .error .scopesExceedGrants
  else .ok
    { keyId := key.keyId, tenantId, subject, secretHash := key.secretHash, roles, scopes,
      createdAt := now, expiresAt }

def CredentialRequest.normalRoles (py : PyText) (body : CredentialRequest) :
    Except RoleError (List Role) :=
  body.roles.mapM (normalizeRole py)

def CredentialRequest.normalScopes (body : CredentialRequest) : Except RoleError (Finset String) :=
  if body.scopes ≠ [] then normalizeScopes body.scopes else .ok ∅

/-- The readings of the clock: by the endpoint, by `create_service_key`, and when the new key is
presented. -/
structure MintTimes where
  requested : ℤ
  created : ℤ
  presented : ℤ
  deriving DecidableEq

def createServiceCredential (py : PyText) (key : NewKey) (times : MintTimes) (caller : PrincipalV2)
    (body : CredentialRequest) : Except RoleError ServiceCredentialRecord := do
  let roles ← body.normalRoles py
  let scopes ← body.normalScopes
  createServiceKey key times.created caller.tenantId body.subject roles scopes
    (times.requested + days body.expiresInDays)

/-- `authenticate_service_key` with the right secret; `none` is an `InvalidCredentialError`. -/
def ServiceCredentialRecord.authenticate (record : ServiceCredentialRecord) (now : ℤ) :
    Option PrincipalV2 :=
  if record.revokedAt ≠ none ∨ record.expiresAt ≤ now then none
  else some
    { subject := record.subject, tenantId := record.tenantId, roles := record.roles,
      scopes := record.scopes, authMethod := .serviceKey, credentialId := some record.keyId,
      expiresAt := some record.expiresAt }

/-! ## Chains -/

/-- One request of a chain and what the world adds to it. -/
structure Minting where
  body : CredentialRequest
  key : NewKey
  times : MintTimes
  deriving DecidableEq

/-- The principal of the credential that the caller mints; `none` if the request is refused. -/
def Minting.next (py : PyText) (caller : PrincipalV2) (m : Minting) : Option PrincipalV2 :=
  if ¬ m.body.WellFormed then none
  else if "service_credential:admin" ∉ caller.effective then none
  else
    match createServiceCredential py m.key m.times caller m.body with
    | .error _ => none
    | .ok record => record.authenticate m.times.presented

/-- The principals of a chain of credentials, each minted with the one before it. -/
def chain (py : PyText) : PrincipalV2 → List Minting → Option (List PrincipalV2)
  | _, [] => some []
  | p, m :: ms => do
    let q ← m.next py p
    let qs ← chain py q ms
    some (q :: qs)

/-- The request asks for no more than `scopes`: it lists scopes of these, or, listing none, roles
that grant no others. -/
def CredentialRequest.Within (py : PyText) (scopes : Finset String) (body : CredentialRequest) :
    Prop :=
  ∀ roles ∈ (body.normalRoles py).toOption, ∀ asked ∈ body.normalScopes.toOption,
    if asked = ∅ then ∀ role ∈ roles, roleGrants role ⊆ scopes else asked ⊆ scopes

instance (py : PyText) (scopes : Finset String) (body : CredentialRequest) :
    Decidable (body.Within py scopes) :=
  inferInstanceAs (Decidable (∀ roles ∈ _, ∀ asked ∈ _, _))

section Chains

variable {py : PyText} {caller p : PrincipalV2} {m : Minting}

theorem Minting.next_eq_some (h : m.next py caller = some p) :
    ∃ roles scopes, m.body.normalRoles py = .ok roles ∧ m.body.normalScopes = .ok scopes ∧
      (scopes ≠ ∅ → scopes ⊆ granted roles) ∧ p.roles = roles ∧ p.scopes = scopes := by
  unfold Minting.next at h
  split at h
  · cases h
  split at h
  · cases h
  split at h
  · cases h
  rename_i record hrecord
  unfold createServiceCredential at hrecord
  rcases hroles : m.body.normalRoles py with e | roles
  · rw [hroles] at hrecord
    cases hrecord
  rcases hscopes : m.body.normalScopes with e | scopes
  · rw [hroles, hscopes] at hrecord
    cases hrecord
  simp only [hroles, hscopes, bind, Except.bind, createServiceKey] at hrecord
  split at hrecord
  · cases hrecord
  split at hrecord
  · cases hrecord
  rename_i hsub
  cases hrecord
  unfold ServiceCredentialRecord.authenticate at h
  split at h
  · cases h
  cases h
  refine ⟨roles, scopes, rfl, rfl, fun hne => ?_, rfl, rfl⟩
  by_contra hnot
  exact hsub ⟨hne, hnot⟩

theorem Minting.next_subset_iff (h : m.next py caller = some p) (scopes : Finset String) :
    p.effective ⊆ scopes ↔ m.body.Within py scopes := by
  obtain ⟨roles, asked, hroles, hasked, hsub, rfl, rfl⟩ := Minting.next_eq_some h
  have hwithin : m.body.Within py scopes ↔
      if p.scopes = ∅ then ∀ role ∈ p.roles, roleGrants role ⊆ scopes else p.scopes ⊆ scopes := by
    simp [CredentialRequest.Within, hroles, hasked, Except.toOption]
  rw [hwithin, PrincipalV2.effective]
  by_cases hne : p.scopes = ∅
  · rw [if_pos hne, hne, effectiveScopes_empty, granted_subset]
  · rw [if_neg hne, effectiveScopes_of_subset hne (hsub hne)]

/-- Along every chain of credentials the scopes stay inside those of the first principal exactly if
every request of it asks for no more than these. -/
theorem chain_subset_iff (py : PyText) (first : PrincipalV2) (ms : List Minting)
    (minted : List PrincipalV2) (h : chain py first ms = some minted) :
    (∀ p ∈ minted, p.effective ⊆ first.effective) ↔
      ∀ m ∈ ms, m.body.Within py first.effective := by
  -- the bound is that of the first principal, the caller moves along the chain
  suffices haux : ∀ (scopes : Finset String) (ms : List Minting) (caller : PrincipalV2)
      (minted : List PrincipalV2), chain py caller ms = some minted →
      ((∀ p ∈ minted, p.effective ⊆ scopes) ↔ ∀ m ∈ ms, m.body.Within py scopes) from
    haux first.effective ms first minted h
  intro scopes ms
  induction ms with
  | nil =>
    rintro caller minted ⟨⟩
    simp
  | cons m ms ih =>
    intro caller minted h
    obtain ⟨q, hq, h⟩ := Option.bind_eq_some_iff.mp h
    obtain ⟨qs, hqs, h⟩ := Option.bind_eq_some_iff.mp h
    cases h
    rw [List.forall_mem_cons, List.forall_mem_cons, ih q qs hqs, Minting.next_subset_iff hq]

end Chains

/-! ## An administrator and an owner -/

def plainText : PyText := { lower := id, repr := id }

def legacyAdmin : PrincipalV2 :=
  { subject := "legacy", tenantId := "default", roles := [.admin], scopes := ∅,
    authMethod := .legacyPat }

def mintFor (roles : List String) (scopes : List String) : Minting where
  body := { subject := "ci", roles, scopes, expiresInDays := 30 }
  key := { keyId := "k1", secretHash := "h1" }
  times := { requested := 0, created := 0, presented := days 1 }

def narrowChain : List Minting :=
  [mintFor ["admin"] ["service_credential:admin", "run:read"], mintFor ["viewer"] ["run:read"]]

theorem chain_subset_iff_narrow :
    ∃ minted, chain plainText legacyAdmin narrowChain = some minted ∧ minted.length = 2 ∧
      ((∀ p ∈ minted, p.effective ⊆ legacyAdmin.effective) ↔
        ∀ m ∈ narrowChain, m.body.Within plainText legacyAdmin.effective) := by
  have hsome : (chain plainText legacyAdmin narrowChain).isSome = true ∧
      (chain plainText legacyAdmin narrowChain).map List.length = some 2 := by decide +kernel
  obtain ⟨minted, h⟩ := Option.isSome_iff_exists.mp hsome.1
  rw [h] at hsome
  exact ⟨minted, h, Option.some.inj hsome.2, chain_subset_iff _ _ _ _ h⟩

def ownerKey : PrincipalV2 :=
  { subject := "ci", tenantId := "default", roles := [.owner], scopes := ∅,
    authMethod := .serviceKey, credentialId := some "k1", expiresAt := some (days 30) }

/-- The administrator asks for the role `owner` and gets `tenant:owner`. -/
theorem admin_mints_owner :
    chain plainText legacyAdmin [mintFor ["owner"] []] = some [ownerKey] ∧
      "tenant:owner" ∈ ownerKey.effective ∧ "tenant:owner" ∉ legacyAdmin.effective := by
  decide +kernel

end AutoDev.Auth
