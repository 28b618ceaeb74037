/-
# `AutoDev.Flows.Records` — what the run store holds

`backend/flows/records.py`, with the state document of a run as the engine
writes it (`engine.py`, `pause.py`) and the lifecycle events with their
payloads.  Ids of tenants and flows, triggers and time stamps are left out:
nothing the engine decides reads them.

A step id is a fresh identifier, here a number.  An instant is a rational
number of seconds.  The `nodes` document maps a node id to `{"output": v}`;
the wrapper is put back by `evalState`.
-/
import AutoDev.Flows.Manifest

namespace AutoDev.Flows

inductive RunStatus where
  | pending
  | running
  | waitingHuman
  | completed
  | failed
  deriving DecidableEq

def RunStatus.terminal : RunStatus → Bool
  | .completed | .failed => true
  | _ => false

inductive StepStatus where
  | running
  | completed
  | failed
  | waitingHuman
  deriving DecidableEq

/-- The stop reasons the engine writes, and any other text a record may hold. -/
inductive StopReason where
  | unset
  | completed
  | nodeFailed
  | unsupportedNode
  | budgetExhausted
  | bindingError
  | predicateError
  | noRoute
  | other (text : String)
  deriving DecidableEq

structure Pause where
  nodeId : String
  stepId : Nat
  expiresAt : Option ℚ
  deriving DecidableEq

structure RunState where
  cursor : Option String
  nodes : Dict Value := []
  tokens : PyFloat := .fin 0
  costUsd : PyFloat := .fin 0
  budgetCap : Option FlowBudgets := none
  pause : Option Pause := none
  deriving DecidableEq

structure FlowRunRecord where
  status : RunStatus := .pending
  stopReason : StopReason := .unset
  input : Obj := []
  state : RunState
  output : Option Obj := none
  deriving DecidableEq

structure FlowStepRecord where
  stepId : Nat
  nodeId : String
  nodeType : NodeType
  status : StepStatus := .running
  attempt : Nat
  input : Obj := []
  output : Option Obj := none
  error : String := ""
  deriving DecidableEq

def completedSteps (steps : List FlowStepRecord) : List FlowStepRecord :=
  steps.filter fun s => s.status == .completed

@[simp] theorem completedSteps_append (xs ys : List FlowStepRecord) :
    completedSteps (xs ++ ys) = completedSteps xs ++ completedSteps ys := by
  simp [completedSteps]

theorem completedSteps_eq_nil {xs : List FlowStepRecord} (h : ∀ s ∈ xs, s.status ≠ .completed) :
    completedSteps xs = [] := by
  simpa [completedSteps, List.filter_eq_nil_iff] using h

theorem completedSteps_fails {xs fs : List FlowStepRecord} (h : ∀ f ∈ fs, f.status = .failed) :
    completedSteps (xs ++ fs) = completedSteps xs := by
  have hnil : completedSteps fs = [] := completedSteps_eq_nil fun f hf => by simp [h f hf]
  rw [completedSteps_append, hnil, List.append_nil]

end AutoDev.Flows
