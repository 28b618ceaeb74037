/-
# `AutoDev.Environments.Manager` — the ceiling of active environments

`EnvironmentManager` (`backend/environments/manager.py`) over the table
`execution_environments` (`store.py`).  A call is a program: each command is
one statement of the store, one call of the isolation backend or one reading
of the clock, and any number of calls take turns between two of them.

What adds an environment is `create_environment`, and it does not look at the
count: the call looked earlier, and others may have come in between.  Where none
of them inserted a record of the tenant (`Undisturbed`), the count is still no
greater than the one that the call found below the limit.

Instants are stored as ISO-8601 texts, here as microseconds.  The secrets that
a teardown forgets and the artifacts are not modelled here.
-/
import AutoDev.Lib.Interleave
import AutoDev.Lib.Table
import Mathlib.Data.List.TakeWhile

namespace AutoDev.Environments

open Prog Interleave List

/-! ## Profiles, handles and records -/

inductive EnvironmentBackendKind where
  | hardenedContainer
  | unavailable
  deriving DecidableEq

/-- A profile, without the limits and policies that only a backend reads. -/
structure EnvironmentProfile where
  profileId : String := "default"
  envAllowlist : List String := []
  deriving DecidableEq

structure EnvironmentHandle where
  environmentId : String
  runId : String
  tenantId : String
  profile : EnvironmentProfile
  backendKind : EnvironmentBackendKind
  workspacePath : String
  deriving DecidableEq

inductive FinalStatus where
  | tornDown
  | orphaned

inductive EnvironmentStatus where
  | active
  | final (status : FinalStatus)

structure EnvironmentRecord where
  environmentId : String
  runId : String
  tenantId : String
  backendKind : EnvironmentBackendKind
  profileId : String
  workspacePath : String
  status : EnvironmentStatus
  createdAt : ℤ
  expiresAt : ℤ
  tornDownAt : Option ℤ := none

namespace EnvironmentRecord

variable (record : EnvironmentRecord)

def isActive (now : ℤ) : Bool :=
  match record.status with
  | .active => decide (now < record.expiresAt)
  | .final _ => false

def isExpired (before : ℤ) : Bool :=
  match record.status with
  | .active => decide (record.expiresAt ≤ before)
  | .final _ => false

/-- What a record adds to the tenant's count. -/
def tally (tenantId : String) (now : ℤ) (_ : String) (record : EnvironmentRecord) : ℕ :=
  if record.tenantId = tenantId ∧ record.isActive now = true then 1 else 0

def handle : EnvironmentHandle where
  environmentId := record.environmentId
  runId := record.runId
  tenantId := record.tenantId
  profile := { profileId := record.profileId }
  backendKind := record.backendKind
  workspacePath := record.workspacePath

end EnvironmentRecord

/-- The clock and the table, by `environment_id`. -/
structure World where
  now : ℤ
  rows : Table String EnvironmentRecord := ∅

def World.countActive (w : World) (tenantId : String) (now : ℤ) : ℕ :=
  w.rows.total (EnvironmentRecord.tally tenantId now)

/-! ## Commands -/

inductive Cmd where
  | now
  | listExpiredActive (before : ℤ)
  | countActive (tenantId : String) (instant : ℤ)
  | createEnvironment (record : EnvironmentRecord)
  | markStatus (environmentId : String) (status : FinalStatus) (tornDownAt : ℤ)
  | backendProvision (runId tenantId : String) (profile : EnvironmentProfile)
      (workspaceRef : String)
  | backendTeardown (handle : EnvironmentHandle)
  /-- `environment.instance.retired` with a reason, else `environment.instance.provisioned`. -/
  | emitEvent (handle : EnvironmentHandle) (retired : Option String)

abbrev Reply : Cmd → Type
  | .now => ℤ
  | .listExpiredActive _ => List EnvironmentRecord
  | .countActive .. => ℕ
  | .createEnvironment _ | .markStatus .. => Bool
  | .backendProvision .. => Except String EnvironmentHandle
  | .backendTeardown _ => Except String Unit
  | .emitEvent .. => Unit

/-- What an isolation backend answers; an error is an `EnvironmentBackendError`. -/
structure Backend where
  provision : String → String → EnvironmentProfile → String → Except String EnvironmentHandle
  teardown : EnvironmentHandle → Except String Unit

/-- The reply to a command and the table it leaves. -/
def Backend.answer (b : Backend) (w : World) :
    (c : Cmd) → Reply c × Table String EnvironmentRecord
  | .now => (w.now, w.rows)
  | .listExpiredActive before =>
    ((w.rows.entries.map Sigma.snd).filter (·.isExpired before), w.rows)
  | .countActive tenantId instant => (w.countActive tenantId instant, w.rows)
  -- `environment_id` is the primary key
  | .createEnvironment record =>
    match w.rows.lookup record.environmentId with
    | none => (true, w.rows.insert record.environmentId record)
    | some _ => (false, w.rows)
  | .markStatus environmentId status tornDownAt =>
    ((w.rows.lookup environmentId).isSome, w.rows.modify environmentId fun record =>
      { record with status := .final status, tornDownAt := some tornDownAt })
  | .backendProvision runId tenantId profile workspaceRef =>
    (b.provision runId tenantId profile workspaceRef, w.rows)
  | .backendTeardown handle => (b.teardown handle, w.rows)
  | .emitEvent .. => ((), w.rows)

/-- A command takes some time, and the backend answers as it likes. -/
def Sem (c : Cmd) (w : World) (r : Reply c) (w' : World) : Prop :=
  w.now ≤ w'.now ∧ ∃ b : Backend, b.answer w c = (r, w'.rows)

/-! ## The manager -/

abbrev P := Prog Cmd Reply

/-- One statement, reading or call. -/
def issue (c : Cmd) : P (Reply c) := send c

/-- The two settings a manager reads. -/
structure Settings where
  environmentMaxConcurrent : ℕ := 8
  environmentTtlSeconds : ℕ := 1800

inductive EnvironmentError where
  /-- `EnvironmentCapacityExceededError`. -/
  | capacityExceeded (tenantId : String) (limit : ℕ)
  /-- `EnvironmentBackendError`. -/
  | backend (reason : String)
  /-- `sqlite3.IntegrityError`. -/
  | integrity

/-- The two errors by which a batch is refused its environment. -/
def EnvironmentError.Refusal : EnvironmentError → Prop
  | .capacityExceeded .. | .backend _ => True
  | .integrity => False

def teardown (handle : EnvironmentHandle) (reason : String) : P (Except EnvironmentError Unit) := do
  let released : Except String Unit ← issue (.backendTeardown handle)
  match released with
  | .error e => return .error (.backend e)
  | .ok () =>
    let tornDownAt : ℤ ← issue .now
    let status : FinalStatus := if reason ≠ "orphan_reaped" then .tornDown else .orphaned
    let _ ← issue (.markStatus handle.environmentId status tornDownAt)
    issue (.emitEvent handle (some reason))
    return .ok ()

def reapAll : List EnvironmentRecord → P Unit
  | [] => return ()
  | record :: rest => do
    match ← teardown record.handle "orphan_reaped" with
    | .ok () => reapAll rest
    | .error _ =>
      let tornDownAt : ℤ ← issue .now
      let _ ← issue (.markStatus record.environmentId .orphaned tornDownAt)
      reapAll rest

def reapOrphans : P ℕ := do
  let cutoff : ℤ ← issue .now
  let expired : List EnvironmentRecord ← issue (.listExpiredActive cutoff)
  reapAll expired
  return expired.length

def provision (settings : Settings) (runId tenantId workspaceRef : String)
    (profile : Option EnvironmentProfile) : P (Except EnvironmentError EnvironmentHandle) := do
  let _ ← reapOrphans
  let limit := settings.environmentMaxConcurrent
  let now : ℤ ← issue .now
  let active : ℕ ← issue (.countActive tenantId now)
  if active ≥ limit then
    return .error (.capacityExceeded tenantId limit)
  else
    let activeProfile := profile.getD {}
    let provided : Except String EnvironmentHandle ←
      issue (.backendProvision runId tenantId activeProfile workspaceRef)
    match provided with
    | .error e => return .error (.backend e)
    | .ok handle =>
      let createdAt : ℤ ← issue .now
      let now : ℤ ← issue .now
      let created : Bool ← issue (.createEnvironment
        { environmentId := handle.environmentId, runId, tenantId
          backendKind := handle.backendKind, profileId := activeProfile.profileId
          workspacePath := handle.workspacePath, status := .active, createdAt
          expiresAt := now + settings.environmentTtlSeconds * 1000000 })
      if created then
        issue (.emitEvent handle none)
        return .ok handle
      else
        return .error .integrity

inductive ManagerCall where
  | provision (runId tenantId workspaceRef : String) (profile : Option EnvironmentProfile)
  | teardown (handle : EnvironmentHandle) (reason : String)

def ManagerCall.prog (settings : Settings) :
    ManagerCall → P (Except EnvironmentError (Option EnvironmentHandle))
  | .provision runId tenantId workspaceRef profile => do
    return (← Environments.provision settings runId tenantId workspaceRef profile).map some
  | .teardown handle reason => do
    return (← Environments.teardown handle reason).map fun _ => none

abbrev Calls (ι : Type) :=
  Pool Cmd Reply World (Except EnvironmentError (Option EnvironmentHandle)) ι

/-- None of them begun. -/
def calling {ι : Type} (settings : Settings) (calls : ι → ManagerCall) (w : World) :
    Calls ι where
  state := w
  procs i := (calls i).prog settings

/-! ## One command and the count -/

def Inserts (tenantId : String) : Event Cmd Reply → Prop
  | ⟨.createEnvironment record, created⟩ => record.tenantId = tenantId ∧ created = true
  | _ => False

instance (tenantId : String) : DecidablePred (Inserts tenantId)
  | ⟨.createEnvironment _, _⟩ => inferInstanceAs (Decidable (_ ∧ _))
  | ⟨.now, _⟩ | ⟨.listExpiredActive _, _⟩ | ⟨.countActive .., _⟩ | ⟨.markStatus .., _⟩
  | ⟨.backendProvision .., _⟩ | ⟨.backendTeardown _, _⟩ | ⟨.emitEvent .., _⟩ =>
    inferInstanceAs (Decidable False)

variable {tenantId : String} {limit : ℕ} {w w' : World} {c : Cmd} {r : Reply c}

theorem EnvironmentRecord.tally_le_one (now : ℤ) (id : String) (record : EnvironmentRecord) :
    record.tally tenantId now id ≤ 1 := by
  unfold tally
  split_ifs <;> omega

theorem EnvironmentRecord.tally_anti {now later : ℤ} (hle : now ≤ later) (id : String)
    (record : EnvironmentRecord) :
    record.tally tenantId later id ≤ record.tally tenantId now id := by
  have hactive : record.isActive later = true → record.isActive now = true := by
    unfold isActive
    rcases record.status with _ | status
    · simp only [decide_eq_true_eq]
      omega
    · exact fun h => h
  unfold tally
  split_ifs with h h'
  · exact le_rfl
  · exact absurd ⟨h.1, hactive h.2⟩ h'
  · exact Nat.zero_le _
  · exact le_rfl

theorem World.countActive_anti {now later : ℤ} (hle : now ≤ later) (w : World) :
    w.countActive tenantId later ≤ w.countActive tenantId now :=
  Table.total_le_total (fun id record => record.tally_anti hle id) w.rows

theorem Backend.total_answer (b : Backend) (tenantId : String) (w : World) (c : Cmd) :
    (b.answer w c).2.total (EnvironmentRecord.tally tenantId w.now) ≤
      w.countActive tenantId w.now + if Inserts tenantId ⟨c, (b.answer w c).1⟩ then 1 else 0 := by
  cases c with
  | now | listExpiredActive | countActive | backendProvision | backendTeardown | emitEvent =>
    exact Nat.le_add_right _ _
  | createEnvironment record =>
    rcases hnew : w.rows.lookup record.environmentId with _ | old
    swap
    · simp only [answer, hnew]
      exact Nat.le_add_right _ _
    simp only [answer, hnew, World.countActive, Inserts, Table.total_insert]
    have hrest := Table.total_of_none (f := EnvironmentRecord.tally tenantId w.now) hnew
    by_cases ht : record.tenantId = tenantId
    · have hone : record.tally tenantId w.now record.environmentId ≤ 1 :=
        record.tally_le_one w.now record.environmentId
      simp only [ht, and_self, if_true]
      omega
    · have hzero : record.tally tenantId w.now record.environmentId = 0 := if_neg fun h => ht h.1
      simp only [ht, false_and, if_false]
      omega
  | markStatus environmentId status tornDownAt =>
    simp only [answer, World.countActive, Inserts]
    rcases hold : w.rows.lookup environmentId with _ | record
    · rw [Table.modify_of_none hold]
      exact le_rfl
    rw [Table.modify_of_some hold, Table.total_insert]
    have hsplit := Table.total_of_some (f := EnvironmentRecord.tally tenantId w.now) hold
    have hzero : EnvironmentRecord.tally tenantId w.now environmentId
        { record with status := .final status, tornDownAt := some tornDownAt } = 0 :=
      if_neg fun h => by cases h.2
    omega

theorem Sem.countActive_le (h : Sem c w r w') (tenantId : String) :
    w'.countActive tenantId w'.now ≤
      w.countActive tenantId w.now + if Inserts tenantId ⟨c, r⟩ then 1 else 0 := by
  obtain ⟨hle, b, hb⟩ := h
  have hstep := b.total_answer tenantId w c
  rw [hb] at hstep
  exact (w'.countActive_anti hle).trans hstep

theorem Sem.countActive_of_count {instant : ℤ} {n : ℕ}
    (h : Sem (.countActive tenantId instant) w n w') (hle : instant ≤ w'.now) :
    w'.countActive tenantId w'.now ≤ n := by
  obtain ⟨-, b, hb⟩ := h
  obtain ⟨rfl, hrows⟩ := Prod.mk.inj hb
  refine (w'.countActive_anti hle).trans ?_
  rw [World.countActive, ← hrows]
  exact le_rfl

/-! ## What a call has counted, and what it leaves -/

def LeavesEnvironment : Event Cmd Reply → Prop
  | ⟨.backendProvision .., .ok _⟩ => True
  | ⟨.createEnvironment _, created⟩ => created = true
  | _ => False

/-- None so far. -/
def Empty (es : List (Event Cmd Reply)) : Prop := ∀ e ∈ es, ¬ LeavesEnvironment e

def Plain (e : Event Cmd Reply) : Prop :=
  match e.1 with
  | .countActive .. | .createEnvironment _ => False
  | _ => True

def Sweeping (es : List (Event Cmd Reply)) : Prop := ∀ e ∈ es, Plain e ∧ ¬ LeavesEnvironment e

def CountedBelow (tenantId : String) (limit : ℕ) (es : List (Event Cmd Reply)) : Prop :=
  (∃ instant n, ⟨.countActive tenantId instant, n⟩ ∈ es) ∧
    ∀ instant n, ⟨.countActive tenantId instant, n⟩ ∈ es → n < limit

/-- Time goes on. -/
def World.Before (w w' : World) : Prop := w.now ≤ w'.now

/-- The instants a call has counted at are past, and it inserts a record of the tenant only after
it has counted fewer than the limit. -/
structure Checked (tenantId : String) (limit : ℕ) (es : List (Event Cmd Reply)) (w : World) :
    Prop where
  past : ∀ instant n, ⟨.countActive tenantId instant, n⟩ ∈ es → instant ≤ w.now
  counted : ∀ es' record created, es = es' ++ [⟨.createEnvironment record, created⟩] →
    record.tenantId = tenantId → CountedBelow tenantId limit es'

variable {es : List (Event Cmd Reply)} {e : Event Cmd Reply}

theorem World.before_refl (w : World) : w.Before w := le_refl w.now

theorem World.before_trans (w₁ w₂ w₃ : World) (h : w₁.Before w₂) (h' : w₂.Before w₃) :
    w₁.Before w₃ :=
  le_trans h h'

theorem Sweeping.empty (h : Sweeping es) : Empty es := fun e he => (h e he).2

theorem Sweeping.snoc (h : Sweeping es) (he : Plain e ∧ ¬ LeavesEnvironment e) :
    Sweeping (es ++ [e]) :=
  forall_mem_append.mpr ⟨h, forall_mem_singleton.mpr he⟩

theorem Sweeping.checked (h : Sweeping es) (w : World) : Checked tenantId limit es w where
  past _ _ hmem := False.elim (h _ hmem).1
  counted _ record created heq _ :=
    have hlast : ⟨.createEnvironment record, created⟩ ∈ es :=
      heq ▸ mem_append_right _ (mem_singleton_self _)
    False.elim (h _ hlast).1

theorem Checked.later (h : Checked tenantId limit es w) (hle : w.Before w') :
    Checked tenantId limit es w' where
  past instant n hmem := (h.past instant n hmem).trans hle
  counted := h.counted

theorem Checked.snoc (h : Checked tenantId limit es w) (he : Plain e) :
    Checked tenantId limit (es ++ [e]) w where
  past instant n hmem := by
    rcases mem_append.mp hmem with hmem | hmem
    · exact h.past instant n hmem
    · obtain rfl := mem_singleton.mp hmem
      exact False.elim he
  counted es' record created heq _ := by
    obtain ⟨-, hlast⟩ := append_inj' heq rfl
    cases hlast
    exact False.elim he

theorem Sweeping.checked_count (h : Sweeping es) {callTenant : String} {instant : ℤ} {active : ℕ}
    (hle : instant ≤ w.now) :
    Checked tenantId limit (es ++ [⟨.countActive callTenant instant, active⟩]) w where
  past m n hmem := by
    rcases mem_append.mp hmem with hmem | hmem
    · exact False.elim (h _ hmem).1
    · cases mem_singleton.mp hmem
      exact hle
  counted es' record created heq _ := by
    obtain ⟨-, hlast⟩ := append_inj' heq rfl
    cases hlast

theorem Sweeping.countedBelow (h : Sweeping es) {instant : ℤ} {active : ℕ}
    (hfree : active < limit) :
    CountedBelow tenantId limit (es ++ [⟨.countActive tenantId instant, active⟩]) := by
  refine ⟨⟨instant, active, mem_append_right _ (mem_singleton_self _)⟩, fun m n hmem => ?_⟩
  rcases mem_append.mp hmem with hmem | hmem
  · exact False.elim (h _ hmem).1
  · cases mem_singleton.mp hmem
    exact hfree

theorem CountedBelow.snoc (h : CountedBelow tenantId limit es) (he : Plain e) :
    CountedBelow tenantId limit (es ++ [e]) := by
  obtain ⟨⟨instant, n, hcount⟩, hbelow⟩ := h
  refine ⟨⟨instant, n, mem_append_left _ hcount⟩, fun m n hmem => ?_⟩
  rcases mem_append.mp hmem with hmem | hmem
  · exact hbelow m n hmem
  · obtain rfl := mem_singleton.mp hmem
    exact False.elim he

theorem Checked.insert (h : Checked tenantId limit es w) {callTenant : String}
    (hbelow : CountedBelow callTenant limit es) (created : Bool) (record : EnvironmentRecord)
    (hrecord : record.tenantId = callTenant) :
    Checked tenantId limit (es ++ [⟨.createEnvironment record, created⟩]) w where
  past instant n hmem := by
    rcases mem_append.mp hmem with hmem | hmem
    · exact h.past instant n hmem
    · cases mem_singleton.mp hmem
  counted es' record' created' heq ht := by
    obtain ⟨rfl, hlast⟩ := append_inj' heq rfl
    cases hlast
    exact (ht.symm.trans hrecord) ▸ hbelow

/-- Whatever others do, every history is `Checked`. -/
abbrev checking {α : Type} (tenantId : String) (limit : ℕ)
    (Q : List (Event Cmd Reply) → α → World → Prop) :=
  rely (α := α) Sem World.Before (fun _ _ => True) (Checked tenantId limit) Q

section Rules

variable {α : Type} {Q : List (Event Cmd Reply) → α → World → Prop} {f : Reply c → P α}

theorem checking_sweep (hes : Sweeping es) (hc : ∀ r, Plain ⟨c, r⟩ ∧ ¬ LeavesEnvironment ⟨c, r⟩)
    (h : ∀ r w', Sweeping (es ++ [⟨c, r⟩]) →
      checking tenantId limit Q (es ++ [⟨c, r⟩]) (f r) w') :
    checking tenantId limit Q es (issue c >>= f) w :=
  rely_send_bind c fun _ _ r w' _ _ =>
    ⟨fun _ _ => (hes.snoc (hc r)).checked _, h r w' (hes.snoc (hc r))⟩

theorem checking_counted {callTenant : String} (hes : Checked tenantId limit es w)
    (hbelow : CountedBelow callTenant limit es) (hc : ∀ r, Plain ⟨c, r⟩)
    (h : ∀ r w', Checked tenantId limit (es ++ [⟨c, r⟩]) w' →
      CountedBelow callTenant limit (es ++ [⟨c, r⟩]) →
      checking tenantId limit Q (es ++ [⟨c, r⟩]) (f r) w') :
    checking tenantId limit Q es (issue c >>= f) w :=
  rely_send_bind c fun _ h₁ r w' hsem _ =>
    have hes' := ((hes.later h₁).later hsem.1).snoc (hc r)
    ⟨fun _ h₂ => hes'.later h₂, h r w' hes' (hbelow.snoc (hc r))⟩

end Rules

theorem teardown_sweeping (h : Sweeping es) (handle : EnvironmentHandle) (reason : String)
    (w : World) :
    checking tenantId limit (fun es _ _ => Sweeping es) es (teardown handle reason) w := by
  refine checking_sweep h (fun _ => ⟨trivial, id⟩) fun r w h => ?_
  rcases r with e | _
  · exact fun _ _ => h
  · refine checking_sweep h (fun _ => ⟨trivial, id⟩) fun t w h => ?_
    refine checking_sweep h (fun _ => ⟨trivial, id⟩) fun _ w h => ?_
    refine checking_sweep h (fun _ => ⟨trivial, id⟩) fun _ w h => ?_
    exact fun _ _ => h

theorem reapAll_sweeping : ∀ (records : List EnvironmentRecord) {es : List (Event Cmd Reply)},
    Sweeping es → ∀ w, checking tenantId limit (fun es _ _ => Sweeping es) es (reapAll records) w
  | [], _, h, _ => fun _ _ => h
  | record :: rest, es, h, w => by
    refine rely_bind World.before_refl (rely_post ?_ (teardown_sweeping h _ _ w))
    intro es r w h
    rcases r with e | _
    · refine checking_sweep h (fun _ => ⟨trivial, id⟩) fun t w h => ?_
      refine checking_sweep h (fun _ => ⟨trivial, id⟩) fun _ w h => ?_
      exact reapAll_sweeping rest h w
    · exact reapAll_sweeping rest h w

theorem provision_checked (settings : Settings) (runId callTenant workspaceRef : String)
    (profile : Option EnvironmentProfile) (w : World) :
    checking tenantId settings.environmentMaxConcurrent
      (fun es r _ => ∀ e, r = .error e → e.Refusal → Empty es) []
      (provision settings runId callTenant workspaceRef profile) w := by
  have hnil : Sweeping [] := fun e he => absurd he not_mem_nil
  refine rely_bind World.before_refl ?_
  refine checking_sweep hnil (fun _ => ⟨trivial, id⟩) fun cutoff w h => ?_
  refine checking_sweep h (fun _ => ⟨trivial, id⟩) fun expired w h => ?_
  refine rely_bind World.before_refl (rely_post ?_ (reapAll_sweeping expired h w))
  intro es _ w h w' _
  -- the instant of the count is read first
  refine rely_send_bind _ fun w _ instant w' hnow _ => ?_
  have h := h.snoc (e := ⟨.now, instant⟩) ⟨trivial, id⟩
  have hinstant : instant ≤ w'.now := by
    obtain ⟨hle, b, hb⟩ := hnow
    obtain ⟨rfl, -⟩ := Prod.mk.inj hb
    exact hle
  refine ⟨fun _ _ => h.checked _, rely_send_bind _ fun w hw active w₁ hcount _ => ?_⟩
  have hchecked : Checked tenantId settings.environmentMaxConcurrent
      (_ ++ [⟨.countActive callTenant instant, active⟩]) w₁ :=
    h.checked_count ((hinstant.trans hw).trans hcount.1)
  refine ⟨fun _ h₂ => hchecked.later h₂, ?_⟩
  split_ifs with hfull
  · intro _ _ e _ _
    exact forall_mem_append.mpr ⟨h.empty, forall_mem_singleton.mpr id⟩
  have hbelow : CountedBelow callTenant settings.environmentMaxConcurrent
      (_ ++ [⟨.countActive callTenant instant, active⟩]) := h.countedBelow (not_le.mp hfull)
  refine checking_counted hchecked hbelow (fun _ => trivial) fun provided w hchecked hbelow => ?_
  rcases provided with reason | handle
  · intro _ _ e _ _
    refine forall_mem_append.mpr ⟨?_, forall_mem_singleton.mpr id⟩
    exact forall_mem_append.mpr ⟨h.empty, forall_mem_singleton.mpr id⟩
  -- from here on the call returns a handle, or an error that is no refusal
  refine checking_counted hchecked hbelow (fun _ => trivial) fun createdAt w hchecked hbelow => ?_
  refine checking_counted hchecked hbelow (fun _ => trivial) fun expiry w hchecked hbelow => ?_
  refine rely_send_bind _ fun _ h₁ created w hsem _ => ?_
  have hinserted := ((hchecked.later h₁).later hsem.1).insert hbelow created
  refine ⟨fun _ h₂ => (hinserted _ rfl).later h₂, ?_⟩
  split_ifs with hcreated
  · refine rely_send_bind _ fun _ h₁ _ w hsem _ => ⟨fun _ h₂ => ?_, fun _ _ e he => by cases he⟩
    refine Checked.snoc ?_ trivial
    exact (((hinserted _ rfl).later h₁).later hsem.1).later h₂
  · intro _ _ e he hrefusal
    cases he
    cases hrefusal

theorem prog_checked (settings : Settings) (call : ManagerCall) (w : World) :
    checking tenantId settings.environmentMaxConcurrent
      (fun es r _ => ∀ e, r = .error e → e.Refusal → Empty es) [] (call.prog settings) w := by
  cases call with
  | provision runId callTenant workspaceRef profile =>
    refine rely_bind World.before_refl (rely_post ?_
      (provision_checked settings runId callTenant workspaceRef profile w))
    intro es r w h _ _ e he
    rcases r with _ | handle
    · cases he
      exact h e rfl
    · cases he
  | teardown handle reason =>
    refine rely_bind World.before_refl (rely_post ?_
      (teardown_sweeping (fun e he => absurd he not_mem_nil) handle reason w))
    exact fun es r w h _ _ e _ _ => h.empty

/-! ## Every interleaving -/

section Calls

variable {ι : Type} [DecidableEq ι] {settings : Settings} {calls : ι → ManagerCall}

def isCount (tenantId : String) (i : ι) (y : ι × Event Cmd Reply) : Bool :=
  match y.2.1 with
  | .countActive t _ => decide (y.1 = i ∧ t = tenantId)
  | _ => false

/-- What happened since the call has counted, the newest event first. -/
def sinceCount (tenantId : String) (i : ι) (log : List (ι × Event Cmd Reply)) :
    List (ι × Event Cmd Reply) :=
  log.reverse.takeWhile fun y => !isCount tenantId i y

def Undisturbed (tenantId : String) (P : Calls ι) (i : ι) (e : Event Cmd Reply) : Prop :=
  Inserts tenantId e → ∀ y ∈ sinceCount tenantId i P.log, ¬ Inserts tenantId y.2

instance (tenantId : String) (P : Calls ι) (i : ι) (e : Event Cmd Reply) :
    Decidable (Undisturbed tenantId P i e) :=
  inferInstanceAs (Decidable (_ → ∀ y ∈ _, ¬ _))

variable {i : ι}

theorem eq_of_isCount {y : ι × Event Cmd Reply} (h : isCount tenantId i y = true) :
    ∃ instant n, y = (i, ⟨.countActive tenantId instant, n⟩) := by
  obtain ⟨j, c, r⟩ := y
  cases c with
  | countActive t instant =>
    obtain ⟨rfl, rfl⟩ := of_decide_eq_true h
    exact ⟨instant, r, rfl⟩
  | now | listExpiredActive | createEnvironment | markStatus | backendProvision | backendTeardown
  | emitEvent => cases h

theorem exists_count {log : List (ι × Event Cmd Reply)} {instant : ℤ} {n : ℕ}
    (h : (i, ⟨.countActive tenantId instant, n⟩) ∈ log) :
    ∃ before instant n since, log = before ++ (i, ⟨.countActive tenantId instant, n⟩) :: since ∧
      ∀ y ∈ since, y ∈ sinceCount tenantId i log := by
  have hne : log.reverse.dropWhile (fun y => !isCount tenantId i y) ≠ [] := by
    intro hnil
    have hall := dropWhile_eq_nil_iff.mp hnil _ (mem_reverse.mpr h)
    simp [isCount] at hall
  obtain ⟨y, rest, hrest⟩ := exists_cons_of_ne_nil hne
  have hy : isCount tenantId i y = true := by
    have hhead := head_dropWhile_not (fun y => !isCount tenantId i y) hne
    simpa [hrest] using hhead
  obtain ⟨instant, n, rfl⟩ := eq_of_isCount hy
  refine ⟨rest.reverse, instant, n, (sinceCount tenantId i log).reverse, ?_,
    fun y hy => mem_reverse.mp hy⟩
  have hsplit := takeWhile_append_dropWhile (p := fun y => !isCount tenantId i y) (l := log.reverse)
  rw [hrest] at hsplit
  have hlog := congrArg reverse hsplit
  rw [reverse_reverse, reverse_append, reverse_cons, append_assoc, singleton_append] at hlog
  exact hlog.symm

/-- As long as no record of the tenant is inserted, the tenant has no more environments than a call
has counted. -/
def CountsHold (tenantId : String) (P : Calls ι) : Prop :=
  ∀ before i instant n since,
    P.log = before ++ (i, ⟨.countActive tenantId instant, n⟩) :: since →
    (∀ y ∈ since, ¬ Inserts tenantId y.2) → P.state.countActive tenantId P.state.now ≤ n

theorem CountsHold.step {P : Calls ι} (h : CountsHold tenantId P) (i : ι)
    {k : Reply c → Prog Cmd Reply (Except EnvironmentError (Option EnvironmentHandle))}
    (hsem : Sem c P.state r w')
    (hpast : Checked tenantId limit (P.events i ++ [⟨c, r⟩]) w') :
    CountsHold tenantId (P.after i c k r w') := by
  intro before j instant n since hlog hsince
  rcases eq_nil_or_concat since with rfl | ⟨since, y, rfl⟩
  · obtain ⟨-, hlast⟩ := append_inj' hlog rfl
    cases hlast
    exact hsem.countActive_of_count
      (hpast.past _ _ (mem_append_right _ (mem_singleton_self _)))
  · rw [concat_eq_append, ← cons_append, ← append_assoc] at hlog
    obtain ⟨hbefore, hlast⟩ := append_inj' hlog rfl
    cases hlast
    have hno : ¬ Inserts tenantId ⟨c, r⟩ := hsince (i, ⟨c, r⟩) (by simp)
    have hle := hsem.countActive_le tenantId
    rw [if_neg hno] at hle
    exact hle.trans (h before j instant n since hbefore fun y hy => hsince y (by simp [hy]))

theorem calling_checked {g : Calls ι → ι → Event Cmd Reply → Prop} (tenantId : String)
    {w₀ : World} {P : Calls ι} (h : Runs Sem g (calling settings calls w₀) P) (i : ι) :
    Henceforth World.Before
        (Checked tenantId settings.environmentMaxConcurrent (P.events i)) P.state ∧
      checking tenantId settings.environmentMaxConcurrent
        (fun es r _ => ∀ e, r = .error e → e.Refusal → Empty es) (P.events i) (P.procs i)
        P.state :=
  h.rely World.before_trans World.before_refl (fun _ _ _ _ hsem => hsem.1)
    (fun _ _ _ _ _ _ _ => trivial) rfl
    (fun _ w => Sweeping.checked (fun _ he => absurd he not_mem_nil) w)
    (fun i => prog_checked settings (calls i) w₀) i

theorem ceiling_of_undisturbed {w₀ : World} {P : Calls ι}
    (h₀ : w₀.countActive tenantId w₀.now ≤ settings.environmentMaxConcurrent)
    (h : Runs Sem (Undisturbed tenantId) (calling settings calls w₀) P) :
    CountsHold tenantId P ∧
      P.state.countActive tenantId P.state.now ≤ settings.environmentMaxConcurrent := by
  induction h with
  | refl => exact ⟨fun _ _ _ _ _ hlog _ => by simp [calling] at hlog, h₀⟩
  | @step P i c k r w' hruns hprog hsem hg ih =>
    have hnext := (calling_checked tenantId (hruns.step i hprog hsem hg) i).1.here World.before_refl
    rw [events_after_self] at hnext
    refine ⟨ih.1.step i hsem hnext, ?_⟩
    have hle := hsem.countActive_le tenantId
    by_cases hins : Inserts tenantId ⟨c, r⟩
    swap
    · rw [if_neg hins] at hle
      exact hle.trans ih.2
    rw [if_pos hins] at hle
    have hbelow : CountedBelow tenantId settings.environmentMaxConcurrent (P.events i) := by
      cases c with
      | createEnvironment record => exact hnext.counted _ record r rfl hins.1
      | now | listExpiredActive | countActive | markStatus | backendProvision | backendTeardown
      | emitEvent => exact False.elim hins
    obtain ⟨⟨instant, n, hcount⟩, hlt⟩ := hbelow
    obtain ⟨before, instant, n, since, hlog, hsince⟩ := exists_count (mem_events.mp hcount)
    have hn := hlt instant n (mem_events.mpr (by simp [hlog]))
    have hnow := ih.1 before i instant n since hlog fun y hy => hg hins y (hsince y hy)
    exact hle.trans (Nat.succ_le_of_lt (hnow.trans_lt hn))

/-- Of any calls in any order: where no call is disturbed between its count and its INSERT, the
tenant is within its limit in every state and at every instant until the next step; and a call that
was refused has left no environment, in every run. -/
theorem environment_ceiling (settings : Settings) (calls : ι → ManagerCall) (tenantId : String)
    (w₀ : World) (h₀ : w₀.countActive tenantId w₀.now ≤ settings.environmentMaxConcurrent)
    (P : Calls ι) :
    (Runs Sem (Undisturbed tenantId) (calling settings calls w₀) P →
      ∀ t, P.state.now ≤ t →
        P.state.countActive tenantId t ≤ settings.environmentMaxConcurrent) ∧
    (Runs Sem (fun _ _ _ => True) (calling settings calls w₀) P →
      ∀ i e, P.result? i = some (.error e) → e.Refusal → Empty (P.events i)) := by
  constructor
  · intro h t ht
    exact (P.state.countActive_anti ht).trans (ceiling_of_undisturbed h₀ h).2
  · intro h i e he hrefusal
    have hcall := (calling_checked tenantId h i).2
    rw [result?_eq_some.mp he] at hcall
    exact hcall P.state P.state.before_refl e rfl hrefusal

end Calls

/-! ## Two calls that count before either creates -/

def perRun : Backend where
  provision runId tenantId profile workspaceRef :=
    .ok ⟨"env_" ++ runId, runId, tenantId, profile, .hardenedContainer, workspaceRef⟩
  teardown _ := .ok ()

def atOnce (_ : List (Event Cmd Reply)) (c : Cmd) (w : World) : Option (Reply c × World) :=
  some ((perRun.answer w c).1, { w with rows := (perRun.answer w c).2 })

theorem sem_atOnce (es : List (Event Cmd Reply)) (c : Cmd) (w : World) (r : Reply c) (w' : World)
    (h : atOnce es c w = some (r, w')) : Sem c w r w' := by
  cases h
  exact ⟨le_rfl, perRun, rfl⟩

def twoRuns (second : Bool) : ManagerCall :=
  .provision (if second then "run-2" else "run-1") "acme" "/work" none

theorem environment_ceiling_acme : let settings : Settings := { environmentMaxConcurrent := 1 }
    let P := (calling settings twoRuns { now := 0 }).play atOnce
      (replicate 9 false ++ replicate 4 true)
    (∀ t, P.state.now ≤ t → P.state.countActive "acme" t ≤ 1) ∧
      (P.result? true).isSome = true :=
  ⟨(environment_ceiling { environmentMaxConcurrent := 1 } twoRuns "acme" { now := 0 }
      (Nat.zero_le 1) _).1
    (Runs.play sem_atOnce _ .refl (by decide +kernel)),
    by decide +kernel⟩

/-- One place: both runs count before either creates, and two environments are active. -/
theorem count_twice_create_twice :
    ∃ P, Runs Sem (fun _ _ _ => True)
        (calling { environmentMaxConcurrent := 1 } twoRuns { now := 0 }) P ∧
      P.state.countActive "acme" P.state.now = 2 :=
  ⟨_, Runs.play sem_atOnce
    (replicate 4 false ++ replicate 9 true ++ replicate 5 false) .refl
    Pool.meets_of_forall, by decide +kernel⟩

end AutoDev.Environments
