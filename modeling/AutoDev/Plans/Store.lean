/-
# `AutoDev.Plans.Store` — plan documents, tracked steps and their endpoints

`backend/persistence/sqlite_adapter/plan_store.py`, `StepApprovalStore` of
`backend/plans/step_state.py`, and the endpoints over them:
`backend/api/routers/plans.py` and `plan_approval_v2.py`.

A plan document is keyed by its session alone; the tenant is a column that reads
ask for and `upsert_plan` overwrites.  Tracked steps are keyed by session and
index and have no tenant: a request reaches them through the document.

Each statement commits on its own, so that an endpoint which raises half way
leaves what it has written.  The clock is read once per writing statement; a
run's readings are `clock 0`, `clock 1`, ….  The events that transitions emit are
left out: none of these endpoints reads them.
-/
import AutoDev.Lib.Grouped
import AutoDev.Lib.Relational
import AutoDev.Plans.StepState

namespace AutoDev.Plans

open Relational

/-! ## Rows -/

inductive PlanStatus where
  | draft
  | pendingApproval
  | approved
  | rejected
  deriving DecidableEq

structure PlanRow where
  steps : List String
  status : PlanStatus
  updatedAt : String
  tenantId : String
  deriving DecidableEq

/-- A row of `plan_step_state`, without its session and index. -/
structure TrackedStep where
  content : String
  state : StepState
  updatedAt : String
  deriving DecidableEq

structure ApprovalRow where
  sessionId : String
  decision : PlanStatus
  actor : String
  note : String
  createdAt : String
  tenantId : String
  deriving DecidableEq

/-- The three tables, and how often the clock was read. -/
structure PlanStore where
  docs : Table String PlanRow := ∅
  steps : Table (String × ℕ) TrackedStep := ∅
  approvals : List ApprovalRow := []
  ticks : ℕ := 0

def StepState.removable : StepState → Bool
  | .draft | .underReview | .rejected => true
  | _ => false

def StepState.value : StepState → String
  | .draft => "draft"
  | .underReview => "under_review"
  | .approved => "approved"
  | .rejected => "rejected"
  | .executing => "executing"
  | .completed => "completed"

def StepAction.value : StepAction → String
  | .review => "review"
  | .approve => "approve"
  | .reject => "reject"
  | .execute => "execute"
  | .complete => "complete"

/-! ## Errors -/

inductive ApiError where
  | planNotFound (sessionId : String)
  | stepNotFound (sessionId : String) (stepIndex : ℤ)
  /-- The `KeyError` of the step store, whose text is quoted once more. -/
  | stepKeyError (sessionId : String) (stepIndex : ℤ)
  | notEditable (stepIndex : ℤ) (state : StepState)
  | notRemovable (stepIndex : ℤ) (state : StepState)
  | illegal (action : StepAction) (stepIndex : ℤ) (state : StepState)
  | notApproved (stepIndex : ℤ) (state : StepState)
  | noApproved (sessionId : String)
  /-- The `ValueError` of `sqlite_tenant_clause`. -/
  | emptyTenant
  /-- A plan that was just written and is not there. -/
  | lost
  deriving DecidableEq

def ApiError.status : ApiError → ℕ
  | .planNotFound _ | .stepNotFound .. | .stepKeyError .. => 404
  | .notEditable .. | .notRemovable .. | .illegal .. | .notApproved .. | .noApproved _ => 400
  | .emptyTenant | .lost => 500

def ApiError.detail (repr : String → String) : ApiError → String
  | .planNotFound sessionId =>
    let session := repr sessionId
    s!"Plan for session {session} not found."
  | .stepNotFound sessionId stepIndex =>
    let session := repr sessionId
    s!"Step {stepIndex} not found for session {session}."
  | .stepKeyError sessionId stepIndex =>
    let session := repr sessionId
    repr s!"Step {stepIndex} not found for session {session}."
  | .notEditable stepIndex state =>
    let value := repr state.value
    s!"Cannot edit step {stepIndex} in state {value}; only draft/under_review steps are editable."
  | .notRemovable stepIndex state =>
    let value := repr state.value
    s!"Cannot remove step {stepIndex} in state {value}; " ++
      "only draft/under_review/rejected steps can be removed."
  | .illegal action stepIndex state =>
    let name := action.value
    let value := repr state.value
    s!"Cannot {name} step {stepIndex} while it is {value}."
  | .notApproved stepIndex state =>
    let value := repr state.value
    s!"Cannot execute step {stepIndex} in state {value}; only approved steps can be executed."
  | .noApproved sessionId =>
    let session := repr sessionId
    s!"No approved steps to execute for session {session}."
  | .emptyTenant => "tenant_id must be a non-empty string"
  | .lost => "'NoneType' object has no attribute 'session_id'"

abbrev PlanM := Comp PlanStore ApiError

/-! ## Statements -/

structure PlanDocument where
  sessionId : String
  steps : List String
  status : PlanStatus
  updatedAt : String
  deriving DecidableEq

structure StepRecord where
  sessionId : String
  stepIndex : ℕ
  content : String
  state : StepState
  updatedAt : String
  deriving DecidableEq

def rowToRecord (sessionId : String) (row : ℕ × TrackedStep) : StepRecord :=
  ⟨sessionId, row.1, row.2.content, row.2.state, row.2.updatedAt⟩

/-- The row of a step; there are none at negative indices. -/
def PlanStore.row? (s : PlanStore) (sessionId : String) (stepIndex : ℤ) : Option (ℕ × TrackedStep) :=
  match stepIndex with
  | .ofNat i => (s.steps.lookup (sessionId, i)).map fun row => (i, row)
  | .negSucc _ => none

def nextIndex (steps : Table (String × ℕ) TrackedStep) (sessionId : String) : ℕ :=
  ((steps.group sessionId).map fun row => row.1 + 1).foldr max 0

/-- The INSERTs of `ensure_steps`, which leave a row that is there. -/
def seedSteps (sessionId now : String) (contents : List (String × ℕ))
    (steps : Table (String × ℕ) TrackedStep) : Table (String × ℕ) TrackedStep :=
  contents.foldl (fun steps c =>
    match steps.lookup (sessionId, c.2) with
    | some _ => steps
    | none => steps.insert (sessionId, c.2) ⟨c.1, .draft, now⟩) steps

/-- The UPDATEs of `delete_step`: in ascending order, so that each target is vacant. -/
def reindexSteps (sessionId now : String) (rows : List ((ℕ × TrackedStep) × ℕ))
    (steps : Table (String × ℕ) TrackedStep) : Table (String × ℕ) TrackedStep :=
  rows.foldl (fun steps row =>
    if row.1.1 = row.2 then steps
    else (steps.erase (sessionId, row.1.1)).insert (sessionId, row.2)
      { row.1.2 with updatedAt := now }) steps

section Statements

variable (clock : ℕ → String)

def now : PlanM String := Comp.of fun s => (.ok (clock s.ticks), { s with ticks := s.ticks + 1 })

variable (sessionId : String)

def upsertPlan (steps : List String) (tenantId : String) : PlanM Unit := do
  let now ← now clock
  Comp.of fun s => (.ok (), { s with docs := s.docs.insert sessionId ⟨steps, .draft, now, tenantId⟩ })

def getPlan (tenantId : String) : PlanM (Option PlanDocument) :=
  if tenantId = "" then throw .emptyTenant
  else Comp.of fun s =>
    (.ok (((s.docs.lookup sessionId).filter fun row => row.tenantId = tenantId).map fun row =>
      ⟨sessionId, row.steps, row.status, row.updatedAt⟩), s)

def setStatus (status : PlanStatus) (tenantId : String) : PlanM Unit := do
  let now ← now clock
  if tenantId = "" then throw .emptyTenant
  else Comp.of fun s =>
    (.ok (), { s with docs := s.docs.modify sessionId fun row =>
      if row.tenantId = tenantId then { row with status, updatedAt := now } else row })

def appendApproval (decision : PlanStatus) (actor note tenantId : String) : PlanM Unit := do
  let now ← now clock
  Comp.of fun s => (.ok (), { s with
    approvals := s.approvals ++ [⟨sessionId, decision, actor, note, now, tenantId⟩] })

def decidePlan (decision : PlanStatus) (actor note tenantId : String) : PlanM Unit := do
  setStatus clock sessionId decision tenantId
  appendApproval clock sessionId decision actor note tenantId

def listSteps : PlanM (List StepRecord) :=
  Comp.of fun s => (.ok ((s.steps.group sessionId).map (rowToRecord sessionId)), s)

def ensureSteps (contents : List String) : PlanM (List StepRecord) := do
  let now ← now clock
  Comp.of fun s => (.ok (), { s with steps := seedSteps sessionId now contents.zipIdx s.steps })
  listSteps sessionId

variable (stepIndex : ℤ)

def getStep : PlanM (Option (ℕ × TrackedStep)) :=
  Comp.of fun s => (.ok (s.row? sessionId stepIndex), s)

def requireStep (missing : String → ℤ → ApiError) (sessionId : String) (stepIndex : ℤ) :
    PlanM (ℕ × TrackedStep) := do
  match ← getStep sessionId stepIndex with
  | none => throw (missing sessionId stepIndex)
  | some row => pure row

/-- `UPDATE plan_step_state SET … WHERE session_id = ? AND step_index = ?`, of a row that is there. -/
def writeStep (i : ℕ) (row : TrackedStep) : PlanM StepRecord :=
  Comp.of fun s => (.ok (rowToRecord sessionId (i, row)),
    { s with steps := s.steps.insert (sessionId, i) row })

def updateContent (content : String) : PlanM StepRecord := do
  let current ← requireStep .stepKeyError sessionId stepIndex
  if current.2.state.editable then
    let now ← now clock
    writeStep sessionId current.1 { current.2 with content, updatedAt := now }
  else throw (.notEditable stepIndex current.2.state)

def transition (action : StepAction) : PlanM StepRecord := do
  let current ← requireStep .stepKeyError sessionId stepIndex
  match legalTransition current.2.state action with
  | none => throw (.illegal action stepIndex current.2.state)
  | some state =>
    let now ← now clock
    writeStep sessionId current.1 { current.2 with state, updatedAt := now }

def appendStep (content : String) : PlanM StepRecord := do
  let now ← now clock
  Comp.of fun s =>
    let row : TrackedStep := ⟨content, .draft, now⟩
    (.ok (rowToRecord sessionId (nextIndex s.steps sessionId, row)),
      { s with steps := s.steps.insert (sessionId, nextIndex s.steps sessionId) row })

def deleteStep : PlanM Unit := do
  let current ← requireStep .stepKeyError sessionId stepIndex
  if current.2.state.removable then
    Comp.of fun s => (.ok (), { s with steps := s.steps.erase (sessionId, current.1) })
    let now ← now clock
    Comp.of fun s => (.ok (), { s with
      steps := reindexSteps sessionId now (s.steps.group sessionId).zipIdx s.steps })
  else throw (.notRemovable stepIndex current.2.state)

/-! ## Endpoints -/

def rollupPlanState (states : List StepState) : StepState :=
  if states = [] then .draft
  else if .executing ∈ states then .executing
  else if ∀ state ∈ states, state = .completed then .completed
  else if .rejected ∈ states then .rejected
  else if ∀ state ∈ states, state = .approved ∨ state = .completed then .approved
  else if .underReview ∈ states then .underReview
  else .draft

structure PlanV2 where
  sessionId : String
  status : StepState
  steps : List StepRecord
  deriving DecidableEq

def toPlanV2 (records : List StepRecord) : PlanV2 :=
  ⟨sessionId, rollupPlanState (records.map (·.state)), records⟩

inductive Answer where
  | document (plan : PlanDocument)
  | plan (plan : PlanV2)
  | step (step : StepRecord)
  deriving DecidableEq

variable (tenantId : String)

def requirePlan : PlanM PlanDocument := do
  match ← getPlan sessionId tenantId with
  | none => throw (.planNotFound sessionId)
  | some plan => pure plan

def answerPlan : PlanM Answer := do
  match ← getPlan sessionId tenantId with
  | none => throw .lost
  | some plan => pure (.document plan)

def seededRecords : PlanM (List StepRecord) := do
  let plan ← requirePlan sessionId tenantId
  ensureSteps clock sessionId plan.steps

def syncLegacyPlan : PlanM Unit := do
  let records ← listSteps sessionId
  upsertPlan clock sessionId (records.map (·.content)) tenantId

def ensureUnderReview (record : StepRecord) : PlanM StepRecord :=
  if record.state = .draft then transition clock sessionId record.stepIndex .review
  else pure record

def getPlanV2 : PlanM Answer := do
  let records ← seededRecords clock sessionId tenantId
  let records ← records.mapM (ensureUnderReview clock sessionId)
  pure (.plan (toPlanV2 sessionId records))

variable (stepIndex : ℤ)

/-- The step that an endpoint reads or acts upon, under review if it was a draft. -/
def reviewedStep : PlanM StepRecord := do
  let _ ← seededRecords clock sessionId tenantId
  let row ← requireStep .stepNotFound sessionId stepIndex
  ensureUnderReview clock sessionId (rowToRecord sessionId row)

def getPlanStepV2 : PlanM Answer := do
  let record ← reviewedStep clock sessionId tenantId stepIndex
  pure (.step record)

def updatePlanStepV2 (content : String) : PlanM Answer := do
  let _ ← reviewedStep clock sessionId tenantId stepIndex
  let record ← updateContent clock sessionId stepIndex content
  pure (.step record)

def decidePlanStepV2 (action : StepAction) : PlanM Answer := do
  let _ ← reviewedStep clock sessionId tenantId stepIndex
  let record ← transition clock sessionId stepIndex action
  pure (.step record)

def executeTargets (records : List StepRecord) (stepIndices : Option (List ℤ)) :
    Except ApiError (List ℤ) :=
  match stepIndices with
  | some indices => do
    for index in indices do
      match records.find? fun record => (record.stepIndex : ℤ) = index with
      | none => throw (.stepNotFound sessionId index)
      | some record =>
        if record.state ≠ .approved then throw (.notApproved index record.state)
    pure indices
  | none =>
    let approved := (records.filter fun record => record.state = .approved).map
      fun record => (record.stepIndex : ℤ)
    if approved = [] then throw (.noApproved sessionId) else pure approved

def executeSteps : List ℤ → PlanM Unit
  | [] => pure ()
  | index :: indices => do
    let _ ← transition clock sessionId index .execute
    let _ ← transition clock sessionId index .complete
    executeSteps indices

def executeApprovedStepsV2 (stepIndices : Option (List ℤ)) : PlanM Answer := do
  let records ← seededRecords clock sessionId tenantId
  match executeTargets sessionId records stepIndices with
  | .error e => throw e
  | .ok targets =>
    executeSteps clock sessionId targets
    let records ← listSteps sessionId
    pure (.plan (toPlanV2 sessionId records))

def addPlanStepV2 (content : String) : PlanM Answer := do
  let _ ← seededRecords clock sessionId tenantId
  let _ ← appendStep clock sessionId content
  syncLegacyPlan clock sessionId tenantId
  let records ← listSteps sessionId
  pure (.plan (toPlanV2 sessionId records))

def removePlanStepV2 : PlanM Answer := do
  let _ ← seededRecords clock sessionId tenantId
  deleteStep clock sessionId stepIndex
  syncLegacyPlan clock sessionId tenantId
  let records ← listSteps sessionId
  pure (.plan (toPlanV2 sessionId records))

def getPlanDocument : PlanM Answer := do
  let plan ← requirePlan sessionId tenantId
  pure (.document plan)

def putPlan (steps : List String) : PlanM Answer := do
  upsertPlan clock sessionId steps tenantId
  answerPlan sessionId tenantId

def postDecision (decision : PlanStatus) (subject note : String) : PlanM Answer := do
  let _ ← requirePlan sessionId tenantId
  decidePlan clock sessionId decision subject note tenantId
  answerPlan sessionId tenantId

inductive PlanCall where
  | getPlan
  | putPlan (steps : List String)
  | approvePlan (note : String)
  | rejectPlan (note : String)
  | getPlanV2
  | getStepV2 (stepIndex : ℤ)
  | updateStepV2 (stepIndex : ℤ) (content : String)
  | approveStepV2 (stepIndex : ℤ)
  | rejectStepV2 (stepIndex : ℤ)
  | executeApprovedV2 (stepIndices : Option (List ℤ))
  | addStepV2 (content : String)
  | removeStepV2 (stepIndex : ℤ)

structure PlanRequest where
  tenantId : String
  subject : String
  sessionId : String
  call : PlanCall

def PlanRequest.perform (r : PlanRequest) : PlanM Answer :=
  match r.call with
  | .getPlan => getPlanDocument r.sessionId r.tenantId
  | .putPlan steps => Plans.putPlan clock r.sessionId r.tenantId steps
  | .approvePlan note => postDecision clock r.sessionId r.tenantId .approved r.subject note
  | .rejectPlan note => postDecision clock r.sessionId r.tenantId .rejected r.subject note
  | .getPlanV2 => Plans.getPlanV2 clock r.sessionId r.tenantId
  | .getStepV2 i => getPlanStepV2 clock r.sessionId r.tenantId i
  | .updateStepV2 i content => updatePlanStepV2 clock r.sessionId r.tenantId i content
  | .approveStepV2 i => decidePlanStepV2 clock r.sessionId r.tenantId i .approve
  | .rejectStepV2 i => decidePlanStepV2 clock r.sessionId r.tenantId i .reject
  | .executeApprovedV2 indices => executeApprovedStepsV2 clock r.sessionId r.tenantId indices
  | .addStepV2 content => addPlanStepV2 clock r.sessionId r.tenantId content
  | .removeStepV2 i => removePlanStepV2 clock r.sessionId r.tenantId i

def PlanStore.step (s : PlanStore) (r : PlanRequest) : PlanStore := (exec (r.perform clock) s).2

def PlanStore.answers : PlanStore → List PlanRequest → List (Except ApiError Answer)
  | _, [] => []
  | s, r :: rs => (exec (r.perform clock) s).1 :: PlanStore.answers (s.step clock r) rs

end Statements

end AutoDev.Plans
