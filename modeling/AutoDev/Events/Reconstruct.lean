/-
# `AutoDev.Events.Reconstruct` — a run rebuilt from its events

`EventStore.reconstruct_run`: the events of a partition are folded, in order,
into a view of the run.  A `run.step.started` appends a step and makes it the
OPEN step of its key, whatever was open under that key before; a
`run.step.completed` or `run.step.failed` writes to the open step of its key.
The source keeps the step itself in `open_steps`; here it is its position in
the list.

The payloads are what their models leave: texts, integers and floats.
-/
import AutoDev.Events.Store

namespace AutoDev.Events

open Flows

structure StepView where
  stepKey : String
  agent : String
  status : String
  attempt : ℤ
  sequence : ℕ
  error : Option String := none
  deriving DecidableEq

structure StepFold where
  steps : List StepView := []
  openSteps : Dict ℕ := []

namespace StepFold

def start (t : StepFold) (key agent : String) (sequence : ℕ) : StepFold where
  steps := t.steps ++ [⟨key, agent, "running", 1, sequence, none⟩]
  openSteps := Dict.set t.openSteps key t.steps.length

/-- What the end of a step writes to it. -/
def close (status : String) (attempt : ℤ) (error : Option String) (step : StepView) : StepView :=
  { step with
    status := status
    attempt := attempt
    error := error.or step.error }

/-- A step ends; the end of a step that was never started appends one. -/
def finish (t : StepFold) (key status : String) (attempt : ℤ) (error : Option String)
    (sequence : ℕ) : StepFold where
  steps :=
    match Dict.get? t.openSteps key with
    | some i => t.steps.modify i (close status attempt error)
    | none => t.steps ++ [close status attempt error ⟨key, "", "", 1, sequence, none⟩]
  openSteps := t.openSteps

end StepFold

structure Folding where
  status : String := ""
  startedAt : Option ℤ := none
  endedAt : Option ℤ := none
  error : String := ""
  costUsd : PyFloat := .fin 0
  tokens : ℤ := 0
  trail : StepFold := {}

structure RunView where
  runId : String
  status : String
  startedAt : Option ℤ
  endedAt : Option ℤ
  error : String
  costUsd : PyFloat
  tokens : ℤ
  steps : List StepView
  eventCount : ℕ

def textAt (data : Obj) (key default : String) : String :=
  match Dict.get? data key with
  | some (.str t) => t
  | _ => default

def intAt (data : Obj) (key : String) (default : ℤ) : ℤ :=
  match Dict.get? data key with
  | some (.int i) => i
  | _ => default

def floatAt (data : Obj) (key : String) : PyFloat :=
  ((Dict.get? data key).bind Value.num?).getD (.fin 0)

/-- The body of the loop. -/
def Folding.next (f : Folding) (stored : StoredEvent) : Folding :=
  let data := stored.envelope.data
  let key := textAt data "stepKey" ""
  let f := { f with status := (statusByEvent stored.envelope.type).getD f.status }
  match stored.envelope.type with
  | "flow.run.started" => { f with startedAt := some stored.envelope.occurredAt }
  | "run.step.started" =>
    { f with trail := f.trail.start key (textAt data "agent" "") stored.sequence }
  | "run.step.completed" =>
    { f with
      trail := f.trail.finish key (textAt data "status" "completed") (intAt data "attempt" 1) none
        stored.sequence }
  | "run.step.failed" =>
    { f with
      trail := f.trail.finish key "failed" (intAt data "attempt" 1)
        (some (textAt data "error" "")) stored.sequence }
  | "flow.run.completed" =>
    { f with
      endedAt := some stored.envelope.occurredAt
      status := textAt data "status" "completed"
      costUsd := floatAt data "costUsd"
      tokens := intAt data "tokens" 0 }
  | "flow.run.failed" =>
    { f with
      endedAt := some stored.envelope.occurredAt
      error := textAt data "error" "" }
  | _ => f

def EventStore.reconstructRun (s : EventStore) (partitionKey : String) : RunView :=
  let events := s.listEvents partitionKey none
  let f := events.foldl Folding.next {}
  { runId := partitionKey
    status := f.status
    startedAt := f.startedAt
    endedAt := f.endedAt
    error := f.error
    costUsd := f.costUsd
    tokens := f.tokens
    steps := f.trail.steps
    eventCount := events.length }

end AutoDev.Events
