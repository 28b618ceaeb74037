/-
# `AutoDev.Flows.Store` — the run store and the programs over it

`backend/flows/state.py` for ONE run: its row, its steps by sequence and its
ordered events.  Every method of `FlowRunStore` is one transaction, so it is
one command; a program over the store is a `Prog` of such commands, and a
crash or a scheduler can cut it between any two of them.

Besides the store a program asks its surroundings: the two clocks, the
sleeper, and the handlers of the node types the engine does not answer itself.
What these may reply is an `Env`; nothing else about them is assumed.

Step ids are positions.  That is the field `ids` of the store, so a store
where two steps share an id cannot be built.  The field `calls` is a history
variable: the handler calls that returned, in order.  No program reads it.
-/
import AutoDev.Lib.Prog
import AutoDev.Flows.Checkpoint
import Mathlib.Tactic.Simps.Basic

namespace AutoDev.Flows

/-! ## Events -/

inductive FailDetail where
  | binding (nodeId : String) (error : ExprError)
  | handler (message : String)
  | notSerializable (nodeId : String)
  | routing (nodeId : String) (error : ExprError)
  | noRoute (nodeId : String)
  | budget (violation : BudgetViolation)
  | backoff (nodeId : String) (delay : PyFloat) (limit : Int)
  | expired (nodeId : String)
  deriving DecidableEq

inductive FlowEvent where
  | runStarted (entryNodeId : String)
  | stepStarted (nodeId : String) (stepId attempt : Nat)
  | stepFailed (nodeId : String) (stepId attempt : Nat) (reason : StopReason) (error : String)
      (willRetry : Bool)
  | stepCompleted (nodeId : String) (stepId attempt : Nat) (nextNodeId : Option String)
      (reconciled : Bool)
  | runPaused (nodeId : String) (stepId : Nat) (prompt : Option String) (expiresAt : Option ℚ)
  | runResumed (cursor : Option String)
  | runCompleted (output : Obj)
  | runFailed (reason : StopReason) (detail : FailDetail)
  | runReplayed (report : FlowReplayReport)
  | decisionRecorded (nodeId : String) (stepId : Nat) (actor : String) (decision : Obj)
  | timeoutExpired (nodeId : String) (stepId : Nat) (expiresAt : Option ℚ)
  deriving DecidableEq

def FlowEvent.completedStep? : FlowEvent → Option Nat
  | .stepCompleted _ stepId _ _ _ => some stepId
  | _ => none

/-! ## Surroundings -/

/-- The exceptions a handler raises, by how the engine tells them apart. -/
inductive HandlerError where
  | unsupported (message : String)
  | budget (message : String)
  | other (message : String)
  deriving DecidableEq

def HandlerError.message : HandlerError → String
  | .unsupported t | .budget t | .other t => t

def HandlerError.reason : HandlerError → StopReason
  | .unsupported _ => .unsupportedNode
  | .budget _ => .budgetExhausted
  | .other _ => .nodeFailed

/-- What a handler returns: the output after its trip through `json`, `none` when it is not
serializable, and the metrics. -/
structure HandlerOutput where
  output : Option Obj
  tokens : PyFloat := .fin 0
  costUsd : PyFloat := .fin 0
  deriving DecidableEq

abbrev HandlerResult := Except HandlerError HandlerOutput

/-- `NodeContext`, with the services the composite handlers read. -/
structure NodeContext where
  node : FlowNode
  input : Obj
  state : RunState
  budgets : FlowBudgets
  deadline : ℚ

/-- What the surroundings may reply. -/
structure Env where
  invoke : NodeContext → HandlerResult → Prop
  clock : ℚ → Prop
  now : ℚ → Prop

/-! ## The store -/

/-- The arguments of `update_run`; what is absent stays as it is. -/
structure RunPatch where
  status : Option RunStatus := none
  stopReason : Option StopReason := none
  state : Option RunState := none
  output : Option Obj := none

def RunPatch.apply (p : RunPatch) (r : FlowRunRecord) : FlowRunRecord :=
  { r with
    status := p.status.getD r.status
    stopReason := p.stopReason.getD r.stopReason
    state := p.state.getD r.state
    output := p.output.or r.output }

structure RunStore where
  run : Option FlowRunRecord
  steps : List FlowStepRecord
  events : List FlowEvent
  calls : List (NodeContext × HandlerResult)
  ids : steps.map (·.stepId) = List.range steps.length

namespace RunStore

/-- Before `create_run`. -/
def empty : RunStore := ⟨none, [], [], [], rfl⟩

variable (s : RunStore)

def createRun (input : Obj) (state : RunState) : RunStore :=
  { s with run := some { input := input, state := state } }

def updateRun (p : RunPatch) : RunStore := { s with run := s.run.map p.apply }

def newStep (nodeId : String) (type : NodeType) (attempt : Nat) (input : Obj) : FlowStepRecord :=
  { stepId := s.steps.length, nodeId := nodeId, nodeType := type, attempt := attempt,
    input := input }

def createStep (nodeId : String) (type : NodeType) (attempt : Nat) (input : Obj) : RunStore :=
  { s with
    steps := s.steps ++ [s.newStep nodeId type attempt input]
    ids := by simp [s.ids, newStep, List.range_succ] }

end RunStore

def FlowStepRecord.close (st : FlowStepRecord) (status : StepStatus) (output : Option Obj)
    (error : String) : FlowStepRecord :=
  { st with status := status, output := output, error := error }

/-- `UPDATE flow_steps SET …` on the row of `stepId`. -/
def FlowStepRecord.finish (stepId : Nat) (status : StepStatus) (output : Option Obj)
    (error : String) (st : FlowStepRecord) : FlowStepRecord :=
  if st.stepId = stepId then st.close status output error else st

@[simp] theorem FlowStepRecord.finish_stepId (i : Nat) (status : StepStatus) (o : Option Obj)
    (e : String) (st : FlowStepRecord) : (st.finish i status o e).stepId = st.stepId := by
  unfold FlowStepRecord.finish
  split <;> rfl

namespace RunStore

def completeStep (s : RunStore) (stepId : Nat) (status : StepStatus) (output : Option Obj)
    (error : String) : RunStore :=
  { s with
    steps := s.steps.map (FlowStepRecord.finish stepId status output error)
    ids := by
      rw [List.map_map, List.length_map, ← s.ids]
      exact List.map_congr_left fun st _ => by simp }

def appendEvent (s : RunStore) (e : FlowEvent) : RunStore :=
  { s with events := s.events ++ [e] }

def logCall (s : RunStore) (ctx : NodeContext) (r : HandlerResult) : RunStore :=
  { s with calls := s.calls ++ [(ctx, r)] }

/-! What each method changes, and what it leaves alone. -/

attribute [simps] createStep completeStep appendEvent updateRun createRun logCall

theorem row_of_map {s s' : RunStore} {f : FlowRunRecord → FlowRunRecord} {run : FlowRunRecord}
    (h : s'.run = s.run.map f) (hrun : s'.run = some run) : ∃ row, run = f row := by
  obtain ⟨row, -, rfl⟩ := Option.map_eq_some_iff.mp (h ▸ hrun)
  exact ⟨row, rfl⟩

/-! Ids are positions. -/

variable {s : RunStore} {xs : List FlowStepRecord} {st : FlowStepRecord}

theorem ids_nodup (s : RunStore) : (s.steps.map (·.stepId)).Nodup := by
  rw [s.ids]
  exact List.nodup_range

theorem eq_of_stepId {a b : FlowStepRecord} (ha : a ∈ s.steps) (hb : b ∈ s.steps)
    (h : a.stepId = b.stepId) : a = b :=
  List.inj_on_of_nodup_map s.ids_nodup ha hb h

theorem stepId_of_append {ys : List FlowStepRecord} (h : s.steps = xs ++ st :: ys) :
    st.stepId = xs.length := by
  have hid := s.ids
  rw [h, List.map_append, List.map_cons] at hid
  have hget := congrArg (fun l => l[xs.length]?) hid
  simpa using hget

theorem stepId_lt_of_append {ys : List FlowStepRecord} (h : s.steps = xs ++ ys) (hst : st ∈ xs) :
    st.stepId < xs.length := by
  obtain ⟨l, r, rfl⟩ := List.append_of_mem hst
  have hid : st.stepId = l.length :=
    stepId_of_append (show s.steps = l ++ st :: (r ++ ys) by simp [h])
  simp [hid]

theorem finish_of_lt {i : Nat} {t : StepStatus} {o : Option Obj} {e : String}
    (h : ∀ st ∈ xs, st.stepId ≠ i) : xs.map (FlowStepRecord.finish i t o e) = xs := by
  conv_rhs => rw [← List.map_id xs]
  exact List.map_congr_left fun st hst => by simp [FlowStepRecord.finish, h st hst]

theorem steps_completeStep_last (h : s.steps = xs ++ [st]) (t : StepStatus) (o : Option Obj)
    (e : String) :
    (s.completeStep st.stepId t o e).steps
      = xs ++ [st.close t o e] := by
  have hid : st.stepId = xs.length := stepId_of_append h
  have hlt : ∀ x ∈ xs, x.stepId ≠ st.stepId := fun x hx => by
    have := stepId_lt_of_append h hx
    omega
  rw [completeStep_steps, h, List.map_append, finish_of_lt hlt]
  simp [FlowStepRecord.finish]

theorem completedSteps_completeStep {o : Option Obj} {e : String} (h : s.steps = xs ++ [st])
    (hst : st.status ≠ .completed) :
    completedSteps (s.completeStep st.stepId .completed o e).steps
      = completedSteps s.steps ++ [st.close .completed o e] := by
  rw [steps_completeStep_last h, h]
  simp [completedSteps, FlowStepRecord.close, hst]

end RunStore

/-! ## Commands -/

/-- One call of the store or of the surroundings. -/
inductive Cmd where
  | createRun (input : Obj) (state : RunState)
  | getRun
  | listWaiting
  | updateRun (patch : RunPatch)
  | createStep (nodeId : String) (type : NodeType) (attempt : Nat) (input : Obj)
  | completeStep (stepId : Nat) (status : StepStatus) (output : Option Obj) (error : String)
  | listSteps
  | appendEvent (event : FlowEvent)
  | listEvents
  | clock
  | now
  | sleep (delay : PyFloat)
  | invoke (ctx : NodeContext)

/-- What a call returns. -/
abbrev Reply : Cmd → Type
  | .createRun _ _ => FlowRunRecord
  | .getRun => Option FlowRunRecord
  | .listWaiting => List FlowRunRecord
  | .createStep _ _ _ _ => FlowStepRecord
  | .listSteps => List FlowStepRecord
  | .listEvents => List FlowEvent
  | .clock | .now => ℚ
  | .invoke _ => HandlerResult
  | _ => Unit

/-- What a call may return, and the store it leaves. -/
def Sem (env : Env) : (c : Cmd) → RunStore → Reply c → RunStore → Prop
  | .createRun i st, s, r, s' => r = { input := i, state := st } ∧ s' = s.createRun i st
  | .getRun, s, r, s' => r = s.run ∧ s' = s
  | .listWaiting, s, r, s' => r = s.run.toList.filter (·.status == .waitingHuman) ∧ s' = s
  | .updateRun p, s, r, s' => r = () ∧ s' = s.updateRun p
  | .createStep n t a i, s, r, s' => r = s.newStep n t a i ∧ s' = s.createStep n t a i
  | .completeStep i t o e, s, r, s' => r = () ∧ s' = s.completeStep i t o e
  | .listSteps, s, r, s' => r = s.steps ∧ s' = s
  | .appendEvent e, s, r, s' => r = () ∧ s' = s.appendEvent e
  | .listEvents, s, r, s' => r = s.events ∧ s' = s
  | .clock, s, r, s' => env.clock r ∧ s' = s
  | .now, s, r, s' => env.now r ∧ s' = s
  | .sleep _, s, r, s' => r = () ∧ s' = s
  | .invoke ctx, s, r, s' => env.invoke ctx r ∧ s' = s.logCall ctx r

/-- A program over the store. -/
abbrev P := Prog Cmd Reply

def createRun (input : Obj) (state : RunState) : P FlowRunRecord :=
  Prog.send (Cmd.createRun input state)
def getRun : P (Option FlowRunRecord) := Prog.send Cmd.getRun
def listWaiting : P (List FlowRunRecord) := Prog.send Cmd.listWaiting
def updateRun (patch : RunPatch) : P Unit := Prog.send (Cmd.updateRun patch)
def createStep (nodeId : String) (type : NodeType) (attempt : Nat) (input : Obj) :
    P FlowStepRecord := Prog.send (Cmd.createStep nodeId type attempt input)
def completeStep (stepId : Nat) (status : StepStatus) (output : Option Obj) (error : String) :
    P Unit := Prog.send (Cmd.completeStep stepId status output error)
def listSteps : P (List FlowStepRecord) := Prog.send Cmd.listSteps
def appendEvent (event : FlowEvent) : P Unit := Prog.send (Cmd.appendEvent event)
def listEvents : P (List FlowEvent) := Prog.send Cmd.listEvents
def clock : P ℚ := Prog.send Cmd.clock
def now : P ℚ := Prog.send Cmd.now
def sleep (delay : PyFloat) : P Unit := Prog.send (Cmd.sleep delay)
def invoke (ctx : NodeContext) : P HandlerResult := Prog.send (Cmd.invoke ctx)

/-! ## One rule for each command -/

section Rules

variable {env : Env} {I : RunStore → Prop} {s : RunStore}

open Prog

@[simp] theorem wp_createRun {Q : FlowRunRecord → RunStore → Prop} {i : Obj} {st : RunState} :
    wp (Sem env) I Q (createRun i st) s ↔
      I (s.createRun i st) ∧ Q { input := i, state := st } (s.createRun i st) :=
  wp_send_det rfl

@[simp] theorem wp_getRun {Q : Option FlowRunRecord → RunStore → Prop} :
    wp (Sem env) I Q getRun s ↔ I s ∧ Q s.run s :=
  wp_send_det rfl

@[simp] theorem wp_listWaiting {Q : List FlowRunRecord → RunStore → Prop} :
    wp (Sem env) I Q listWaiting s ↔
      I s ∧ Q (s.run.toList.filter (·.status == .waitingHuman)) s :=
  wp_send_det rfl

variable {Q : Unit → RunStore → Prop}

@[simp] theorem wp_updateRun {p : RunPatch} :
    wp (Sem env) I Q (updateRun p) s ↔ I (s.updateRun p) ∧ Q () (s.updateRun p) :=
  wp_send_det rfl

@[simp] theorem wp_createStep {Q : FlowStepRecord → RunStore → Prop} {n : String} {t : NodeType}
    {a : Nat} {i : Obj} :
    wp (Sem env) I Q (createStep n t a i) s ↔
      I (s.createStep n t a i) ∧ Q (s.newStep n t a i) (s.createStep n t a i) :=
  wp_send_det rfl

@[simp] theorem wp_completeStep {i : Nat} {t : StepStatus} {o : Option Obj} {e : String} :
    wp (Sem env) I Q (completeStep i t o e) s ↔
      I (s.completeStep i t o e) ∧ Q () (s.completeStep i t o e) :=
  wp_send_det rfl

@[simp] theorem wp_listSteps {Q : List FlowStepRecord → RunStore → Prop} :
    wp (Sem env) I Q listSteps s ↔ I s ∧ Q s.steps s :=
  wp_send_det rfl

@[simp] theorem wp_appendEvent {e : FlowEvent} :
    wp (Sem env) I Q (appendEvent e) s ↔ I (s.appendEvent e) ∧ Q () (s.appendEvent e) :=
  wp_send_det rfl

@[simp] theorem wp_listEvents {Q : List FlowEvent → RunStore → Prop} :
    wp (Sem env) I Q listEvents s ↔ I s ∧ Q s.events s :=
  wp_send_det rfl

@[simp] theorem wp_clock {Q : ℚ → RunStore → Prop} :
    wp (Sem env) I Q clock s ↔ ∀ t, env.clock t → I s ∧ Q t s :=
  wp_send_ask rfl

@[simp] theorem wp_now {Q : ℚ → RunStore → Prop} :
    wp (Sem env) I Q now s ↔ ∀ t, env.now t → I s ∧ Q t s :=
  wp_send_ask rfl

@[simp] theorem wp_sleep {d : PyFloat} : wp (Sem env) I Q (sleep d) s ↔ I s ∧ Q () s :=
  wp_send_det rfl

@[simp] theorem wp_invoke {Q : HandlerResult → RunStore → Prop} {ctx : NodeContext} :
    wp (Sem env) I Q (invoke ctx) s ↔
      ∀ r, env.invoke ctx r → I (s.logCall ctx r) ∧ Q r (s.logCall ctx r) :=
  wp_send_ask rfl

end Rules

/-! ## Evaluation with fixed surroundings -/

/-- Surroundings that answer. -/
structure Oracle where
  invoke : NodeContext → HandlerResult
  clock : ℚ := 0
  now : ℚ := 0

def Oracle.env (o : Oracle) : Env where
  invoke ctx r := r = o.invoke ctx
  clock t := t = o.clock
  now t := t = o.now

/-- The answer to a command. -/
def Oracle.ans (o : Oracle) : (c : Cmd) → RunStore → Reply c × RunStore
  | .createRun i st, s => ({ input := i, state := st }, s.createRun i st)
  | .getRun, s => (s.run, s)
  | .listWaiting, s => (s.run.toList.filter (·.status == .waitingHuman), s)
  | .updateRun p, s => ((), s.updateRun p)
  | .createStep n t a i, s => (s.newStep n t a i, s.createStep n t a i)
  | .completeStep i t r e, s => ((), s.completeStep i t r e)
  | .listSteps, s => (s.steps, s)
  | .appendEvent e, s => ((), s.appendEvent e)
  | .listEvents, s => (s.events, s)
  | .clock, s => (o.clock, s)
  | .now, s => (o.now, s)
  | .sleep _, s => ((), s)
  | .invoke ctx, s => (o.invoke ctx, s.logCall ctx (o.invoke ctx))

theorem Oracle.sem_ans (o : Oracle) (c : Cmd) (s : RunStore) :
    Sem o.env c s (o.ans c s).1 (o.ans c s).2 := by
  cases c <;> exact ⟨rfl, rfl⟩

theorem Oracle.exec (o : Oracle) {α : Type} {p : P α} {s : RunStore} :
    Prog.Exec (Sem o.env) p s (Prog.run o.ans p s).1 (Prog.run o.ans p s).2 :=
  Prog.exec_run o.sem_ans p s

/-- Handlers that return one small output, and clocks that stand still. -/
def steadyOracle : Oracle := { invoke := fun _ => .ok { output := some [("ok", .bool true)] } }

end AutoDev.Flows
