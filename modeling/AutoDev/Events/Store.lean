/-
# `AutoDev.Events.Store` — the durable event store

`backend/events/store.py`: envelopes are appended to their partition with a
sequence number, a projection row per partition is kept beside them, and a
retention purge deletes old events of terminal partitions.  Each write is one
transaction.

The next sequence number is one more than the largest number that is STORED,
which after a purge need not be the largest that was ever given.

ISO-8601 texts of UTC instants compare as the instants they denote; an instant
here is its number of microseconds.
-/
import AutoDev.Lib.Table
import AutoDev.Flows.Value
import Mathlib.Data.List.Sort

namespace AutoDev.Events

/-- `EventEnvelope`, without the fields that are only carried along. -/
structure EventEnvelope where
  eventId : String
  type : String
  tenantId : String
  partitionKey : String
  occurredAt : ℤ
  data : Flows.Obj
  deriving DecidableEq

structure StoredEvent where
  sequence : ℕ
  envelope : EventEnvelope
  storedAt : ℤ

def StoredEvent.partitionKey (e : StoredEvent) : String := e.envelope.partitionKey

structure EventProjection where
  tenantId : String
  status : String
  lastSequence : ℕ
  lastEventType : String
  lastEventAt : ℤ
  counts : Dict ℕ
  updatedAt : ℤ

/-- The rows, in the order they were inserted. -/
structure EventStore where
  events : List StoredEvent := []
  projections : Table String EventProjection := ∅

def statusByEvent : String → Option String
  | "flow.run.started" => some "running"
  | "run.step.started" => some "running"
  | "run.step.completed" => some "running"
  | "run.step.failed" => some "running"
  | "run.human.requested" => some "waiting_human"
  | "run.human.resolved" => some "running"
  | "flow.run.completed" => some "completed"
  | "flow.run.failed" => some "failed"
  | _ => none

def terminalStatuses : List String := ["completed", "failed"]

/-! ## Appending -/

def partition (partitionKey : String) (events : List StoredEvent) : List StoredEvent :=
  events.filter (·.partitionKey = partitionKey)

def maxSequence (partitionKey : String) (events : List StoredEvent) : ℕ :=
  ((partition partitionKey events).map (·.sequence)).foldr max 0

def EventProjection.fold (row : Option EventProjection) (envelope : EventEnvelope)
    (sequence : ℕ) (updatedAt : ℤ) : EventProjection :=
  let counts := row.elim [] (·.counts)
  { tenantId := envelope.tenantId
    status := (statusByEvent envelope.type).getD (row.elim "" (·.status))
    lastSequence := sequence
    lastEventType := envelope.type
    lastEventAt := envelope.occurredAt
    counts := Dict.set counts envelope.type ((Dict.get? counts envelope.type).getD 0 + 1)
    updatedAt := updatedAt }

variable (s : EventStore) (partitionKey : String)

/-- `append`; an event id that is stored already violates the primary key, and the transaction is
rolled back. -/
def EventStore.append (envelope : EventEnvelope) (storedAt : ℤ) : EventStore × Option StoredEvent :=
  if s.events.any fun e => e.envelope.eventId = envelope.eventId then (s, none)
  else
    let sequence := maxSequence envelope.partitionKey s.events + 1
    let stored : StoredEvent := ⟨sequence, envelope, storedAt⟩
    let row := s.projections.lookup envelope.partitionKey
    ({ events := s.events ++ [stored]
       projections := s.projections.insert envelope.partitionKey
         (.fold row envelope sequence storedAt) }, some stored)

/-! ## Reading -/

def EventStore.listEvents (afterSequence : Option ℕ) (tenantId : Option String := none) :
    List StoredEvent :=
  ((partition partitionKey s.events).filter fun e =>
    afterSequence.getD 0 < e.sequence ∧ ∀ t ∈ tenantId, e.envelope.tenantId = t).insertionSort
      fun a b => a.sequence ≤ b.sequence

def EventStore.lastSequence : ℕ :=
  (s.projections.lookup partitionKey).elim 0 (·.lastSequence)

/-! ## Retention -/

def EventStore.Purges (cutoff : ℤ) (e : StoredEvent) : Prop :=
  e.storedAt < cutoff ∧ ∃ row ∈ s.projections.lookup e.partitionKey, row.status ∈ terminalStatuses

instance (s : EventStore) (cutoff : ℤ) : DecidablePred (s.Purges cutoff) := fun e => by
  unfold EventStore.Purges
  infer_instance

/-- `purge_expired`; the result is the number of deleted rows. -/
def EventStore.purgeExpired (retentionDays now : ℤ) : EventStore × ℕ :=
  if retentionDays < 0 then (s, 0)
  else
    let cutoff := now - retentionDays * 86400000000
    ({ s with events := s.events.filter fun e => ¬ s.Purges cutoff e },
      (s.events.filter fun e => s.Purges cutoff e).length)

end AutoDev.Events
