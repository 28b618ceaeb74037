/-
# `AutoDev.Auth.Oidc` — from the claims of a token to a principal

`OidcValidator.validate` of `backend/auth/oidc.py`, from the point where the
signature, issuer and audience of the token have been checked.

What a caller is prepared for is `InvalidCredentialError`.  The roles are
normalised inside a `try` that turns a `ValueError` into one.  The SCOPES and the
expiry are not: what they raise escapes (`openid_scope_escapes`).  Nor are scopes
compared with the known ones.

`jwt.decode` is a parameter, by the `PyJWTError`s it raises; so are `str` of a value
that is not a text, and `fromtimestamp`.
-/
import AutoDev.Auth.Roles

namespace AutoDev.Auth

open List

open Execution (PyText)
open Flows (Value Obj)

/-! ## Validation -/

inductive PyError where
  | typeError
  | attributeError
  | valueError (message : String)
  | overflowError
  deriving DecidableEq

inductive ValidateError where
  | invalidCredential (message : String)
  | escaped (error : PyError)
  deriving DecidableEq

structure OidcSettings where
  roleClaim : String := "roles"
  tenantClaim : String := "tenant_id"
  scopeClaim : String := "scope"

structure OidcLibrary where
  py : PyText
  /-- `str(value)`, where the value is not a text. -/
  str : Value → String
  /-- The text of the `PyJWTError`, if there is one. -/
  rejects : Obj → Option String
  /-- `datetime.fromtimestamp(value, tz=timezone.utc)`. -/
  fromtimestamp : Value → Except PyError ℤ

variable (lib : OidcLibrary) (cfg : OidcSettings)

def OidcLibrary.pyStr : Value → String
  | .str s => s
  | v => lib.str v

variable (claims : Obj)

/-- `claims.get(name)`, where it counts as true. -/
def claim? (name : String) : Option Value :=
  (Dict.get? claims name).filter Value.truthy

def roleValues : List Value :=
  match claim? claims cfg.roleClaim with
  | none => []
  | some (.list values) => values
  | some value => [value]

/-- What `normalize_scopes` takes apart: words of a text, members of a list, keys of an object. -/
def scopeItems : Value → Except PyError (List String)
  | .str s => .ok (words s)
  | .list values => values.mapM fun
      | .str s => .ok s
      | _ => .error .attributeError
  | .obj entries => .ok (entries.map Prod.fst)
  | _ => .error .typeError

def claimedScopes : Except PyError (Finset String) :=
  match claim? claims cfg.scopeClaim with
  | none => .ok ∅
  | some value =>
    match scopeItems value with
    | .error e => .error e
    | .ok items =>
      match normalizeScopes items with
      | .error e => .error (.valueError (e.message lib.py))
      | .ok scopes => .ok scopes

def claimedExpiry : Except PyError (Option ℤ) :=
  match Dict.get? claims "exp" with
  | none => .ok none
  | some value => (lib.fromtimestamp value).map some

/-- `OidcValidator.validate`, from the decoded claims on. -/
def validate : Except ValidateError PrincipalV2 :=
  match lib.rejects claims with
  | some exc => .error (.invalidCredential s!"invalid OIDC token: {exc}")
  | none =>
    match claim? claims "sub", claim? claims cfg.tenantClaim with
    | some subject, some tenantId =>
      match (roleValues cfg claims).mapM fun value => normalizeRole lib.py (lib.pyStr value) with
      | .error e => .error (.invalidCredential (e.message lib.py))
      | .ok [] => .error (.invalidCredential "OIDC token missing role claim")
      | .ok roles =>
        match claimedScopes lib cfg claims with
        | .error e => .error (.escaped e)
        | .ok scopes =>
          match claimedExpiry lib claims with
          | .error e => .error (.escaped e)
          | .ok expiresAt =>
            .ok ⟨lib.pyStr subject, lib.pyStr tenantId, roles, scopes, .oidc, none, expiresAt⟩
    | _, _ => .error (.invalidCredential "OIDC token missing sub or tenant claim")

/-! ## Answers to a token -/

def WellAnswered : Prop :=
  match validate lib cfg claims with
  | .ok principal => principal.scopes ⊆ allKnownScopes
  | .error (.invalidCredential _) => True
  | .error (.escaped _) => False

/-- The token is refused before its scopes are looked at. -/
def RefusedEarly : Prop :=
  lib.rejects claims ≠ none ∨ claim? claims "sub" = none ∨ claim? claims cfg.tenantClaim = none ∨
    roleValues cfg claims = [] ∨
    ∃ value ∈ roleValues cfg claims, ∃ e, normalizeRole lib.py (lib.pyStr value) = .error e

/-- The scope claim, where there is one, is a text, a list of texts or an object, and names known
scopes only. -/
def NamesKnownScopes : Prop :=
  ∀ value ∈ claim? claims cfg.scopeClaim, ∃ items, scopeItems value = .ok items ∧
    ∀ item ∈ items, stripped item = "" ∨ stripped item ∈ allKnownScopes

/-- The expiry is a time. -/
def Expires : Prop :=
  ∀ value ∈ Dict.get? claims "exp", ∃ t, lib.fromtimestamp value = .ok t

/-! ## Scopes -/

variable {lib cfg}

theorem isScope_of_known : ∀ scope ∈ allKnownScopes, isScope scope = true := by
  decide +kernel

theorem normalizeScopes_eq_ok {items : List String} {scopes : Finset String} :
    normalizeScopes items = .ok scopes ↔
      (∀ item ∈ items, stripped item ≠ "" → isScope (stripped item) = true) ∧
        scopes = ((items.map stripped).filter (· ≠ "")).dedup.toFinset := by
  have hinvalid : (((items.map stripped).filter (· ≠ "")).dedup.filter (!isScope ·)).mergeSort
        (fun a b => decide (a ≤ b)) = [] ↔
      ∀ item ∈ items, stripped item ≠ "" → isScope (stripped item) = true := by
    rw [← length_eq_zero_iff, length_mergeSort, length_eq_zero_iff,
      filter_eq_nil_iff]
    simp only [mem_dedup, mem_filter, mem_map, decide_eq_true_eq,
      Bool.not_eq_true', Bool.not_eq_false, and_imp, forall_exists_index,
      forall_apply_eq_imp_iff₂]
  simp only [normalizeScopes]
  by_cases h : ∀ item ∈ items, stripped item ≠ "" → isScope (stripped item) = true
  · rw [if_neg (not_not.mpr (hinvalid.mpr h))]
    simp only [Except.ok.injEq]
    exact ⟨fun heq => ⟨h, heq.symm⟩, fun heq => heq.2.symm⟩
  · rw [if_pos fun hnil => h (hinvalid.mp hnil)]
    exact ⟨fun heq => (nomatch heq), fun heq => absurd heq.1 h⟩

theorem claimedScopes_known {claims : Obj} :
    (∃ scopes, claimedScopes lib cfg claims = .ok scopes ∧ scopes ⊆ allKnownScopes) ↔
      NamesKnownScopes cfg claims := by
  unfold claimedScopes NamesKnownScopes
  rcases claim? claims cfg.scopeClaim with _ | value
  · simp
  simp only [Option.mem_some, forall_eq']
  rcases scopeItems value with e | items
  · simp
  simp only [Except.ok.injEq, exists_eq_left']
  constructor
  · rintro ⟨scopes, hok, hsub⟩ item hitem
    rcases hnorm : normalizeScopes items with e | scopes'
    · rw [hnorm] at hok
      cases hok
    rw [hnorm] at hok
    obtain rfl := Except.ok.inj hok
    obtain ⟨-, rfl⟩ := normalizeScopes_eq_ok.mp hnorm
    by_cases hempty : stripped item = ""
    · exact .inl hempty
    · refine .inr (hsub ?_)
      simp only [mem_toFinset, mem_dedup, mem_filter, mem_map,
        decide_eq_true_eq]
      exact ⟨⟨item, hitem, rfl⟩, hempty⟩
  · intro hknown
    have hnorm := normalizeScopes_eq_ok.mpr ⟨fun item hitem hne =>
      isScope_of_known _ ((hknown item hitem).resolve_left hne), rfl⟩
    refine ⟨_, by rw [hnorm], fun scope hscope => ?_⟩
    simp only [mem_toFinset, mem_dedup, mem_filter, mem_map,
      decide_eq_true_eq] at hscope
    obtain ⟨⟨item, hitem, rfl⟩, hne⟩ := hscope
    exact (hknown item hitem).resolve_left hne

theorem claimedExpiry_ok {claims : Obj} :
    (∃ t, claimedExpiry lib claims = .ok t) ↔ Expires lib claims := by
  unfold claimedExpiry Expires
  rcases Dict.get? claims "exp" with _ | value
  · simp
  · simp only [Option.mem_some, forall_eq']
    rcases lib.fromtimestamp value with e | t
    · simp [Except.map]
    · simp [Except.map]

/-! ## Roles -/

theorem mapM_error_iff {ε α β : Type} {f : α → Except ε β} {l : List α} :
    (∃ e, l.mapM f = .error e) ↔ ∃ a ∈ l, ∃ e, f a = .error e := by
  induction l with
  | nil =>
    simp only [mapM_nil, not_mem_nil, false_and, exists_false, iff_false, not_exists]
    exact fun e h => nomatch h
  | cons a l ih =>
    rw [mapM_cons, exists_mem_cons_iff, ← ih]
    rcases hfa : f a with e | b
    · exact ⟨fun _ => .inl ⟨e, rfl⟩, fun _ => ⟨e, rfl⟩⟩
    rcases hl : l.mapM f with e | bs
    · exact ⟨fun _ => .inr ⟨e, rfl⟩, fun _ => ⟨e, rfl⟩⟩
    constructor
    · rintro ⟨e, he⟩
      cases he
    · rintro (⟨e, he⟩ | ⟨e, he⟩)
      · cases he
      · cases he

theorem mapM_eq_ok_nil {ε α β : Type} {f : α → Except ε β} {l : List α} (h : l.mapM f = .ok []) :
    l = [] := by
  cases l with
  | nil => rfl
  | cons a l =>
    rw [mapM_cons] at h
    rcases hfa : f a with e | b
    · rw [hfa] at h
      cases h
    rcases hl : l.mapM f with e | bs
    · rw [hfa, hl] at h
      cases h
    · rw [hfa, hl] at h
      cases h

theorem roles_refused_iff {claims : Obj} :
    (roleValues cfg claims = [] ∨
        ∃ value ∈ roleValues cfg claims, ∃ e, normalizeRole lib.py (lib.pyStr value) = .error e) ↔
      ∀ role roles, (roleValues cfg claims).mapM
        (fun value => normalizeRole lib.py (lib.pyStr value)) ≠ .ok (role :: roles) := by
  rw [← mapM_error_iff]
  rcases h : (roleValues cfg claims).mapM fun value => normalizeRole lib.py (lib.pyStr value)
    with e | roles
  · simp
  cases roles with
  | nil => simp [mapM_eq_ok_nil h]
  | cons role roles =>
    have hne : roleValues cfg claims ≠ [] := by
      intro hnil
      rw [hnil] at h
      cases h
    simp [hne]

/-! ## The answers -/

/-- For every claims: a principal with known scopes or an `InvalidCredentialError`, exactly if the
token is refused early, or its scope claim names known scopes and its expiry is a time. -/
theorem well_answered_iff (lib : OidcLibrary) (cfg : OidcSettings) (claims : Obj) :
    WellAnswered lib cfg claims ↔
      RefusedEarly lib cfg claims ∨ (NamesKnownScopes cfg claims ∧ Expires lib claims) := by
  have hscopes : (∃ scopes, claimedScopes lib cfg claims = .ok scopes ∧ scopes ⊆ allKnownScopes) ↔
      NamesKnownScopes cfg claims := claimedScopes_known
  rw [← hscopes, ← claimedExpiry_ok]
  unfold WellAnswered RefusedEarly validate
  rw [roles_refused_iff]
  rcases lib.rejects claims with _ | exc
  · rcases claim? claims "sub" with _ | subject
    · simp
    rcases claim? claims cfg.tenantClaim with _ | tenantId
    · simp
    rcases (roleValues cfg claims).mapM fun value => normalizeRole lib.py (lib.pyStr value)
      with e | roles
    · simp
    cases roles with
    | nil => simp
    | cons role roles =>
      -- past the roles only the scopes and the expiry are left
      rcases claimedScopes lib cfg claims with e | scopes
      · simp
      · rcases claimedExpiry lib claims with e | expiresAt
        · simp
        · simp
  · simp

def openidClaims : Obj :=
  [("sub", .str "u1"), ("tenant_id", .str "acme"), ("roles", .list [.str "viewer"]),
    ("scope", .str "openid profile"), ("exp", .int 4000000000)]

/-- Libraries that find nothing wrong. -/
def plainLibrary : OidcLibrary :=
  { py := ⟨id, id⟩, str := fun _ => "", rejects := fun _ => none, fromtimestamp := fun _ => .ok 0 }

/-- It is answered with a `ValueError`. -/
theorem openid_scope_escapes :
    (∃ message, validate plainLibrary {} openidClaims = .error (.escaped (.valueError message))) ∧
      ¬ WellAnswered plainLibrary {} openidClaims := by
  obtain ⟨message, hscopes⟩ : ∃ message,
      claimedScopes plainLibrary {} openidClaims = .error (.valueError message) := by
    have hclaim : claim? openidClaims "scope" = some (.str "openid profile") := by decide +kernel
    have hitems : words "openid profile" = ["openid", "profile"] := by decide +kernel
    simp only [claimedScopes, hclaim, scopeItems, hitems]
    rcases hnorm : normalizeScopes ["openid", "profile"] with e | scopes
    · exact ⟨_, rfl⟩
    · have hscope := (normalizeScopes_eq_ok.mp hnorm).1 "openid" mem_cons_self
      exact absurd hscope (by decide +kernel)
  have hroles : ((roleValues {} openidClaims).mapM fun value =>
      normalizeRole plainLibrary.py (plainLibrary.pyStr value)) = .ok [.viewer] := by
    decide +kernel
  have hsub : claim? openidClaims "sub" = some (.str "u1") := by decide +kernel
  have htenant : claim? openidClaims "tenant_id" = some (.str "acme") := by decide +kernel
  have h : validate plainLibrary {} openidClaims = .error (.escaped (.valueError message)) := by
    unfold validate
    rw [hsub, htenant, hroles, hscopes]
    rfl
  refine ⟨⟨message, h⟩, ?_⟩
  unfold WellAnswered
  rw [h]
  exact not_false

end AutoDev.Auth
