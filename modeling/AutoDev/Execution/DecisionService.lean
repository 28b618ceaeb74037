/-
# `AutoDev.Execution.DecisionService` — human decisions, statement by statement

`DecisionService` of `backend/execution/decisions.py` over the table
`pending_action_decisions` of `backend/execution/policy.py`, at the granularity
of single SQL statements.

All entry points make a decision leave PENDING by ONE statement, an `UPDATE …
WHERE decision_id = ? AND status = 'pending'` that reports whether it changed a
row, and emit `run.human.resolved` directly after an `UPDATE` that did.  The
clock is read TWICE for an expiry, to see that it is due and for the cutoff.

The times are of any linear order: the source compares ISO texts, as texts.
Queries without `ORDER BY` return their rows in any order, and of several newest
decisions of a task any one is returned.
-/
import AutoDev.Execution.Policy
import AutoDev.Events.Runtime
import AutoDev.Lib.Interleave

namespace AutoDev.Execution

def DecisionStatus.value : DecisionStatus → String
  | .pending => "pending"
  | .approved => "approved"
  | .denied => "denied"
  | .timedOut => "timed_out"

end AutoDev.Execution

namespace AutoDev.Decisions

open Prog Interleave Flows Events
open Execution (DecisionStatus PolicyCategory)

/-! ## The table -/

/-- The columns that an `INSERT` gives and no `UPDATE` changes. -/
structure AskedDecision (T : Type) where
  tenantId : String
  runId : String
  taskId : String
  actionId : String
  category : PolicyCategory
  prompt : String
  createdAt : T
  expiresAt : T
  pattern : Option String := none
  deriving DecidableEq

/-- A row of `pending_action_decisions`; its key is the decision id. -/
structure DecisionColumns (T : Type) extends AskedDecision T where
  status : DecisionStatus := .pending
  decidedBy : Option String := none
  decidedAt : Option T := none
  deriving DecidableEq

structure StoredDecision (T : Type) extends DecisionColumns T where
  decisionId : String
  deriving DecidableEq

structure EmittedEvent where
  type : String
  tenantId : String
  partitionKey : String
  data : Obj
  subject : List (String × String)
  deriving DecidableEq

structure DecisionStore (T : Type) where
  rows : Table String (DecisionColumns T) := ∅
  published : List EmittedEvent := []

def DecisionStore.all {T : Type} (s : DecisionStore T) : List (StoredDecision T) :=
  s.rows.entries.map fun e => ⟨e.2, e.1⟩

def DecisionStore.find {T : Type} (s : DecisionStore T) (decisionId : String) :
    Option (StoredDecision T) :=
  (s.rows.lookup decisionId).map fun row => ⟨row, decisionId⟩

/-! ## Statements -/

inductive DecisionCmd (T : Type) where
  | getDecision (decisionId : String)
  | getForTask (runId taskId : String)
  | listPending (tenantId : String)
  | listDue (before : T)
  /-- `UPDATE … SET status, decided_by, decided_at WHERE decision_id = ? AND status = 'pending'`. -/
  | update (decisionId : String) (status : DecisionStatus) (decidedBy : String) (decidedAt : T)
  /-- `INSERT`, with status `pending`. -/
  | insert (decisionId : String) (asked : AskedDecision T)
  | emit (event : EmittedEvent)
  /-- The clock of the service. -/
  | now
  /-- `_now` of the store. -/
  | storeNow
  | uuid4

def DecisionReply {T : Type} : DecisionCmd T → Type
  | .getDecision _ => Option (StoredDecision T)
  | .getForTask _ _ => Option (StoredDecision T)
  | .listPending _ => List (StoredDecision T)
  | .listDue _ => List (StoredDecision T)
  | .update _ _ _ _ => Bool       -- `rowcount > 0`
  | .insert _ _ => Bool           -- `false` when the primary key is taken
  | .emit _ => List String        -- the secret values that were live, which nobody looks at
  | .now => T
  | .storeNow => T
  | .uuid4 => String

section Effect

variable {T : Type} [LinearOrder T]

def DecisionColumns.Of (runId taskId : String) (row : DecisionColumns T) : Prop :=
  row.runId = runId ∧ row.taskId = taskId

/-- What is published of an event, the live secret values given. -/
def EmittedEvent.scrubbed (values : List String) (event : EmittedEvent) : EmittedEvent :=
  { event with data := redactEventData values event.data }

def DecisionColumns.resolved (row : DecisionColumns T) (status : DecisionStatus)
    (decidedBy : String) (decidedAt : T) : DecisionColumns T :=
  { row with status := status, decidedBy := some decidedBy, decidedAt := some decidedAt }

def Pending (decisionId : String) (s : DecisionStore T) : Prop :=
  ∃ row ∈ s.rows.lookup decisionId, row.status = .pending

def Settled (decisionId : String) (s : DecisionStore T) : Prop :=
  ∃ row ∈ s.rows.lookup decisionId, row.status ≠ .pending

instance (decisionId : String) (s : DecisionStore T) : Decidable (Pending decisionId s) := by
  unfold Pending
  infer_instance

instance (decisionId : String) (s : DecisionStore T) : Decidable (Settled decisionId s) := by
  unfold Settled
  infer_instance

def DecisionEffect : (c : DecisionCmd T) → DecisionStore T → DecisionReply c → DecisionStore T → Prop
  | .getDecision decisionId, s, r, s' => r = s.find decisionId ∧ s' = s
  | .getForTask runId taskId, s, r, s' =>
    ((r = none ∧ ∀ d ∈ s.all, ¬ d.Of runId taskId) ∨
      ∃ d ∈ s.all, r = some d ∧ d.Of runId taskId ∧
        ∀ d' ∈ s.all, d'.Of runId taskId → d'.createdAt ≤ d.createdAt) ∧ s' = s
  | .listPending tenantId, s, r, s' =>
    List.Perm r (s.all.filter fun d => d.tenantId = tenantId ∧ d.status = .pending) ∧ s' = s
  | .listDue before, s, r, s' =>
    List.Perm r (s.all.filter fun d => d.status = .pending ∧ d.expiresAt ≤ before) ∧ s' = s
  | .update decisionId status decidedBy decidedAt, s, r, s' =>
    (∃ row ∈ s.rows.lookup decisionId, row.status = .pending ∧ r = true ∧
      s' = { s with rows := s.rows.insert decisionId (row.resolved status decidedBy decidedAt) }) ∨
    (¬ Pending decisionId s ∧ r = false ∧ s' = s)
  | .insert decisionId asked, s, r, s' =>
    (s.rows.lookup decisionId = none ∧ r = true ∧
      s' = { s with rows := s.rows.insert decisionId { asked with } }) ∨
    (s.rows.lookup decisionId ≠ none ∧ r = false ∧ s' = s)
  | .emit event, s, r, s' => s' = { s with published := s.published ++ [event.scrubbed r] }
  | .now, s, _, s' => s' = s
  | .storeNow, s, _, s' => s' = s
  | .uuid4, s, _, s' => s' = s

end Effect

/-! ## The service -/

section Service

variable {T : Type} [LinearOrder T]

inductive DecisionError where
  | notFound (decisionId : String)
  | alreadyResolved (decisionId : String)
  | assertion
  | integrity
  deriving DecidableEq

abbrev DecisionProg (T : Type) := Prog (DecisionCmd T) DecisionReply

def issue (c : DecisionCmd T) : DecisionProg T (DecisionReply c) := send c

def resolvePendingDecision (decisionId : String) (status : DecisionStatus) (decidedBy : String) :
    DecisionProg T Bool := do
  let decidedAt : T ← issue .storeNow
  issue (.update decisionId status decidedBy decidedAt)

def resolvedEvent (tenantId : String) (pending : StoredDecision T) (status : DecisionStatus) :
    EmittedEvent where
  type := "run.human.resolved"
  tenantId := tenantId
  partitionKey := pending.runId
  data := [("stepKey", .str pending.taskId), ("decision", .str status.value)]
  subject := [("runId", pending.runId), ("taskId", pending.taskId)]

def expireEach : List (StoredDecision T) → DecisionProg T (List (StoredDecision T))
  | [] => pure []
  | pending :: due => do
    let ok ← resolvePendingDecision pending.decisionId .timedOut "system:timeout"
    if ok then
      let _ ← issue (.emit (resolvedEvent pending.tenantId pending .timedOut))
      let refreshed : Option (StoredDecision T) ← issue (.getDecision pending.decisionId)
      let expired ← expireEach due
      pure (refreshed.toList ++ expired)
    else expireEach due

def expireBefore (cutoff : T) : DecisionProg T (List (StoredDecision T)) := do
  let due : List (StoredDecision T) ← issue (.listDue cutoff)
  expireEach due

/-- `expire_due`; a cutoff that is missing or empty is the time of the service. -/
def expireDue (moment : Option T) : DecisionProg T (List (StoredDecision T)) := do
  match moment with
  | some cutoff => expireBefore cutoff
  | none =>
    let cutoff : T ← issue .now
    expireBefore cutoff

def maybeExpire (pending : StoredDecision T) : DecisionProg T (StoredDecision T) := do
  if pending.status ≠ .pending then pure pending
  else
    let seen : T ← issue .now
    if seen < pending.expiresAt then pure pending
    else
      let cutoff : T ← issue .now
      let _ ← expireDue (some cutoff)
      let refreshed : Option (StoredDecision T) ← issue (.getDecision pending.decisionId)
      pure (refreshed.getD pending)

/-- `request`; `asked` has the arguments, and its times are overwritten. -/
def request (deadline : T → T) (asked : AskedDecision T) :
    DecisionProg T (Except DecisionError (StoredDecision T)) := do
  let existing : Option (StoredDecision T) ← issue (.getForTask asked.runId asked.taskId)
  match existing with
  | some pending =>
    let decision ← maybeExpire pending
    pure (.ok decision)
  | none =>
    let now : T ← issue .now
    let decisionId : String ← issue .uuid4
    let createdAt : T ← issue .storeNow
    let asked := { asked with createdAt := createdAt, expiresAt := deadline now }
    let stored : Bool ← issue (.insert decisionId asked)
    if stored then
      let _ ← issue (.emit
        { type := "run.human.requested", tenantId := asked.tenantId, partitionKey := asked.runId
          data := [("stepKey", .str asked.taskId), ("prompt", .str asked.prompt)]
          subject := [("runId", asked.runId), ("taskId", asked.taskId)] })
      pure (.ok ⟨{ asked with }, decisionId⟩)
    else pure (.error .integrity)

def getForTask (runId taskId : String) : DecisionProg T (Option (StoredDecision T)) := do
  let existing : Option (StoredDecision T) ← issue (.getForTask runId taskId)
  match existing with
  | some pending =>
    let decision ← maybeExpire pending
    pure (some decision)
  | none => pure none

def resolveFound (tenantId : String) (decision : DecisionStatus) (actor : String)
    (found : StoredDecision T) : DecisionProg T (Except DecisionError (StoredDecision T)) := do
  let pending ← maybeExpire found
  if pending.status ≠ .pending then pure (.error (.alreadyResolved found.decisionId))
  else
    let ok ← resolvePendingDecision found.decisionId decision actor
    if ok then
      let _ ← issue (.emit (resolvedEvent tenantId pending decision))
      let resolved : Option (StoredDecision T) ← issue (.getDecision found.decisionId)
      match resolved with
      | none => pure (.error .assertion)
      | some resolved => pure (.ok resolved)
    else pure (.error (.alreadyResolved found.decisionId))

def resolve (decisionId tenantId : String) (decision : DecisionStatus) (actor : String) :
    DecisionProg T (Except DecisionError (StoredDecision T)) := do
  let found : Option (StoredDecision T) ← issue (.getDecision decisionId)
  match found with
  | none => pure (.error (.notFound decisionId))
  | some pending =>
    if pending.tenantId ≠ tenantId then pure (.error (.notFound decisionId))
    else resolveFound tenantId decision actor pending

def listPending (tenantId : String) : DecisionProg T (List (StoredDecision T)) := do
  let now : T ← issue .now
  let _ ← expireDue (some now)
  issue (.listPending tenantId)

/-! ## Calls -/

inductive DecisionCall (T : Type) where
  | request (asked : AskedDecision T)
  | getForTask (runId taskId : String)
  | resolve (decisionId tenantId : String) (decision : DecisionStatus) (actor : String)
  | expireDue (moment : Option T)
  | listPending (tenantId : String)
  deriving DecidableEq

inductive DecisionOutcome (T : Type) where
  | requested (result : Except DecisionError (StoredDecision T))
  | found (result : Option (StoredDecision T))
  | resolved (result : Except DecisionError (StoredDecision T))
  | listed (result : List (StoredDecision T))
  deriving DecidableEq

def DecisionCall.prog (deadline : T → T) : DecisionCall T → DecisionProg T (DecisionOutcome T)
  | .request asked => do
    let result ← Decisions.request deadline asked
    pure (.requested result)
  | .getForTask runId taskId => do
    let result ← Decisions.getForTask runId taskId
    pure (.found result)
  | .resolve decisionId tenantId decision actor => do
    let result ← Decisions.resolve decisionId tenantId decision actor
    pure (.resolved result)
  | .expireDue moment => do
    let result ← Decisions.expireDue moment
    pure (.listed result)
  | .listPending tenantId => do
    let result ← Decisions.listPending tenantId
    pure (.listed result)

abbrev DecisionPool (T ι : Type) :=
  Pool (DecisionCmd T) DecisionReply (DecisionStore T) (DecisionOutcome T) ι

def decisionCalls {ι : Type} (deadline : T → T) (calls : ι → DecisionCall T)
    (s : DecisionStore T) : DecisionPool T ι where
  state := s
  procs i := (calls i).prog deadline

end Service

end AutoDev.Decisions
