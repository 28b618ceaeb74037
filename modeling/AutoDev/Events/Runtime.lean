/-
# `AutoDev.Events.Runtime` — an event on its way to the bus

`emit_event` of `backend/events/runtime.py`: the payload is scrubbed of every
secret value the process has resolved, then put into an envelope.  The values
are a Python set, so they are taken in SOME order, here that of a list; an
empty value is never registered.

Scrubbing is exact replacement, value by value, and does not know what it is
replacing: a step key or a status that contains a live value is changed like
any other text.  What can be said of the result is `scrub_eq_or_long`: nothing
was changed, or the marker is in it.
-/
import AutoDev.Events.Store
import Mathlib.Data.List.Induction

namespace AutoDev.Events

open Flows List

/-! ## Scrubbing -/

/-- `str.replace` on the characters; the number counts those of an occurrence still to skip. -/
def replaceChars (old new : List Char) : ℕ → List Char → List Char
  | _, [] => []
  | k + 1, _ :: cs => replaceChars old new k cs
  | 0, c :: cs =>
    if old.isPrefixOf (c :: cs) then new ++ replaceChars old new (old.length - 1) cs
    else c :: replaceChars old new 0 cs

def redactedMarker : String := "***REDACTED_SECRET***"

def replaceSecret (text value : String) : String :=
  .ofList (replaceChars value.toList redactedMarker.toList 0 text.toList)

def scrub (values : List String) (text : String) : String := values.foldl replaceSecret text

mutual

def redactStructure (values : List String) : Value → Value
  | .str t => .str (scrub values t)
  | .list xs => .list (redactList values xs)
  | .obj kvs => .obj (redactEventData values kvs)
  | v => v

def redactList (values : List String) : List Value → List Value
  | [] => []
  | v :: vs => redactStructure values v :: redactList values vs

def redactEventData (values : List String) : List (String × Value) → List (String × Value)
  | [] => []
  | (k, v) :: kvs => (k, redactStructure values v) :: redactEventData values kvs

end

theorem replaceChars_eq_or_long (old new : List Char) :
    ∀ cs : List Char, replaceChars old new 0 cs = cs ∨
      new.length ≤ (replaceChars old new 0 cs).length
  | [] => .inl rfl
  | c :: cs => by
    rw [replaceChars]
    split
    · exact .inr (by simp)
    · rcases replaceChars_eq_or_long old new cs with h | h
      · exact .inl (by rw [h])
      · exact .inr (h.trans (by simp))

theorem scrub_eq_or_long (values : List String) (text : String) :
    scrub values text = text ∨ redactedMarker.length ≤ (scrub values text).length := by
  have hstep : ∀ t v, replaceSecret t v = t ∨ redactedMarker.length ≤ (replaceSecret t v).length := by
    intro t v
    rcases replaceChars_eq_or_long v.toList redactedMarker.toList t.toList with h | h
    · exact .inl (by rw [replaceSecret, h, String.ofList_toList])
    · refine .inr ?_
      rw [replaceSecret, String.length_ofList, ← String.length_toList]
      exact h
  induction values using reverseRecOn with
  | nil => exact .inl rfl
  | append_singleton vs v ih =>
    simp only [scrub, foldl_append, foldl_cons, foldl_nil] at ih ⊢
    rcases hstep (vs.foldl replaceSecret text) v with h | h
    · rw [h]
      exact ih
    · exact .inr h

/-! ## Envelopes -/

def emitEvent (values : List String) (eventId type tenantId partitionKey : String)
    (occurredAt : ℤ) (data : Obj) : EventEnvelope where
  eventId := eventId
  type := type
  tenantId := tenantId
  partitionKey := partitionKey
  occurredAt := occurredAt
  data := redactEventData values data

example : scrub ["tool"] "a tool, two tools" =
    "a ***REDACTED_SECRET***, two ***REDACTED_SECRET***s" := by decide +kernel

end AutoDev.Events
