/-
# `AutoDev.Auth.Roles` — roles, scopes, and what narrows them

`backend/auth/roles.py` and the principal of `backend/auth/contracts.py`.

A role grants what the role below it grants, and some scopes more.  A principal
may hold less than its roles grant: its `scopes`, if there are any, narrow the
grant.  The empty set of scopes does NOT narrow it to nothing; it stands for
"no narrowing", in the contract as in `effective_scopes`.

Sets of scopes are `Finset`s.  `str.lower` and `repr` are parameters, as in
`AutoDev.Execution.Actions`.
-/
import Mathlib.Data.Finset.Dedup
import Mathlib.Data.Finset.Insert
import Mathlib.Data.Finset.Lattice.Lemmas
import Mathlib.Data.String.Basic
import AutoDev.Execution.Actions

namespace AutoDev.Auth

open Execution (PyText)

/-! ## Roles -/

inductive Role where
  | owner
  | admin
  | maintainer
  | operator
  | viewer
  deriving DecidableEq

def Role.value : Role → String
  | .owner => "owner"
  | .admin => "admin"
  | .maintainer => "maintainer"
  | .operator => "operator"
  | .viewer => "viewer"

def Role.ofValue? (value : String) : Option Role :=
  [Role.owner, .admin, .maintainer, .operator, .viewer].find? (·.value = value)

def roleTierAdditions : List (Role × Finset String) :=
  [ (.viewer, {"auth:self", "session:read", "run:read", "repository:read", "flow:read",
      "agent:read", "skill:read", "plan:read", "plugin:read", "config:read_redacted", "quota:read",
      "policy:read", "secret:use"}),
    (.operator, {"session:write", "run:write", "run:cancel"}),
    (.maintainer, {"flow:write", "flow:execute", "agent:write", "agent:invoke", "skill:write",
      "skill:invoke", "plan:write", "plan:approve", "patch:propose", "patch:review", "patch:apply",
      "mcp:invoke"}),
    (.admin, {"plugin:admin", "config:write_safe", "config:admin", "quota:admin", "policy:admin",
      "secret:manage", "audit:read", "service_credential:admin", "rbac:admin"}),
    (.owner, {"tenant:owner"}) ]

def buildRoleGrants (accumulated : Finset String) :
    List (Role × Finset String) → List (Role × Finset String)
  | [] => []
  | (role, additions) :: rest =>
    (role, accumulated ∪ additions) :: buildRoleGrants (accumulated ∪ additions) rest

def roleGrants (role : Role) : Finset String :=
  ((buildRoleGrants ∅ roleTierAdditions).lookup role).getD ∅

def allKnownScopes : Finset String :=
  (buildRoleGrants ∅ roleTierAdditions).foldl (fun acc grants => acc ∪ grants.2) ∅

/-! ## Errors -/

/-- The `ValueError`s of the role model and of `create_service_key`. -/
inductive RoleError where
  | unknownRole (value : String)
  | invalidScopes (invalid : List String)
  | expiryOutOfRange
  | scopesExceedGrants
  deriving DecidableEq

def RoleError.message (py : PyText) : RoleError → String
  | .unknownRole value =>
    let quoted := py.repr value
    s!"Unknown role: {quoted}"
  | .invalidScopes invalid =>
    let listed := ", ".intercalate invalid
    s!"Invalid scope(s): {listed}"
  | .expiryOutOfRange => "service key expiry must be between 1 and 90 days from now"
  | .scopesExceedGrants => "requested scopes exceed the role's grants"

/-! ## Normal forms -/

def stripped (value : String) : String := .ofList (Flows.strip value.toList)

def normalizeRole (py : PyText) (value : String) : Except RoleError Role :=
  let normalized := py.lower (stripped value)
  if normalized = "author" then .ok .maintainer
  else
    match Role.ofValue? normalized with
    | some role => .ok role
    | none => .error (.unknownRole value)

def isScopeWord : List Char → Bool
  | [] => false
  | c :: cs => decide ('a' ≤ c ∧ c ≤ 'z') &&
      cs.all fun d => decide ('a' ≤ d ∧ d ≤ 'z') || Flows.isAsciiDigit d || d == '_'

def isScope (scope : String) : Bool :=
  match scope.toList.splitOn ':' with
  | [resource, action] => isScopeWord resource && isScopeWord action
  | _ => false

def normalizeScopes (value : List String) : Except RoleError (Finset String) :=
  let scopes := ((value.map stripped).filter (· ≠ "")).dedup
  let invalid := (scopes.filter (!isScope ·)).mergeSort (fun a b => decide (a ≤ b))
  if invalid ≠ [] then .error (.invalidScopes invalid) else .ok scopes.toFinset

def words (value : String) : List String := (Flows.splitWs value.toList).map String.ofList

/-- The union over the roles in `effective_scopes`. -/
def granted (roles : List Role) : Finset String :=
  roles.foldl (fun acc role => acc ∪ roleGrants role) ∅

def effectiveScopes (roles : List Role) (asserted : Option (Finset String)) : Finset String :=
  match asserted with
  | none => granted roles
  | some scopes => if scopes = ∅ then granted roles else granted roles ∩ scopes

/-! ## Principals -/

inductive AuthMethod where
  | local
  | legacyPat
  | oidc
  | serviceKey
  | session
  deriving DecidableEq

structure PrincipalV2 where
  subject : String
  tenantId : String
  roles : List Role
  scopes : Finset String
  authMethod : AuthMethod
  credentialId : Option String := none
  expiresAt : Option ℤ := none
  deriving DecidableEq

def PrincipalV2.effective (p : PrincipalV2) : Finset String := effectiveScopes p.roles (some p.scopes)

/-! ## What is granted -/

theorem mem_foldl_grants {scope : String} : ∀ (roles : List Role) (acc : Finset String),
    scope ∈ roles.foldl (fun acc role => acc ∪ roleGrants role) acc ↔
      scope ∈ acc ∨ ∃ role ∈ roles, scope ∈ roleGrants role
  | [], acc => by simp
  | role :: roles, acc => by
    rw [List.foldl_cons, mem_foldl_grants roles, Finset.mem_union, List.exists_mem_cons_iff, or_assoc]

variable {roles : List Role} {scopes : Finset String}

theorem mem_granted {scope : String} :
    scope ∈ granted roles ↔ ∃ role ∈ roles, scope ∈ roleGrants role := by
  rw [granted, mem_foldl_grants]
  simp

theorem granted_subset :
    granted roles ⊆ scopes ↔ ∀ role ∈ roles, roleGrants role ⊆ scopes := by
  constructor
  · intro h role hrole scope hscope
    exact h (mem_granted.mpr ⟨role, hrole, hscope⟩)
  · intro h scope hscope
    obtain ⟨role, hrole, hmem⟩ := mem_granted.mp hscope
    exact h role hrole hmem

theorem effectiveScopes_empty (roles : List Role) :
    effectiveScopes roles (some ∅) = granted roles := by
  rw [effectiveScopes, if_pos rfl]

theorem effectiveScopes_of_subset (hne : scopes ≠ ∅) (h : scopes ⊆ granted roles) :
    effectiveScopes roles (some scopes) = scopes := by
  rw [effectiveScopes, if_neg hne]
  exact Finset.inter_eq_right.mpr h

end AutoDev.Auth
