/-
# `AutoDev.Flows.Engine` — the flow engine

`backend/flows/engine.py`, `backend/flows/activation.py` and
`backend/flows/pause.py` as programs over the run store, commit by commit.
The manifest a run resolves to does not change, so it is an argument.

Two node types are answered inside the engine, as `build_default_handlers`
registers them: `conditional`, which only routes, and `human`, which pauses.
The five others ask the surroundings (`invoke`).

The three places that leave a completed node — `_activate_node`,
`_reconcile_crash_window` and the human service — repeat one sequence: route,
fail the run if that fails, else checkpoint the state and append
`run.step.completed`.  It is `leaveNode` here.

Events on the process bus, traces and log lines are left out: nothing reads
them back.
-/
import AutoDev.Flows.Store

namespace AutoDev.Flows

structure EngineConfig where
  /-- Python's `str`, for interpolated templates. -/
  strOf : Value → String
  /-- `datetime.isoformat`. -/
  isoformat : ℚ → String := fun _ => ""
  /-- `max_steps_per_run`. -/
  maxSteps : Nat := 1000

def demoConfig : EngineConfig := { strOf := Value.typeName }

inductive RunError where
  | unknownRun
  | invalidInput (errors : List InputError)
  | noEntry
  | terminal (status : RunStatus)
  | notTerminal (status : RunStatus)
  | vanished
  | unknownNode (nodeId : String)
  | noAttempt (nodeId : String)
  | stepCap
  deriving DecidableEq

abbrev RunResult := Except RunError FlowRunRecord

/-! ## Stopping -/

def reload : P RunResult := do
  match ← getRun with
  | some r => pure (.ok r)
  | none => pure (.error .vanished)

def failRun (state : RunState) (reason : StopReason) (detail : FailDetail) : P RunResult := do
  updateRun { status := some .failed, stopReason := some reason, state := some state }
  appendEvent (.runFailed reason detail)
  reload

def pauseRun (node : FlowNode) (step : FlowStepRecord) (state : RunState) (output : Obj)
    (expiresAt : Option ℚ) : P RunResult := do
  completeStep step.stepId .waitingHuman (some output) ""
  updateRun { status := some .waitingHuman,
              state := some { state with pause := some ⟨node.id, step.stepId, expiresAt⟩ } }
  appendEvent (.runPaused node.id step.stepId node.prompt expiresAt)
  reload

/-- What an activation leaves: the run stopped, or the state to go on with. -/
inductive Activation where
  | stop (result : RunResult)
  | next (state : RunState)

def leaveNode (m : FlowManifest) (runInput : Obj) (node : FlowNode) (step : FlowStepRecord)
    (state : RunState) (reconciled : Bool) : P Activation := do
  match selectNextNode m node (evalState runInput state.nodes) with
  | .error (.predicate e) =>
    let r ← failRun state .predicateError (.routing node.id e)
    pure (.stop r)
  | .error (.noRoute i) =>
    let r ← failRun state .noRoute (.noRoute i)
    pure (.stop r)
  | .ok next =>
    let state := { state with cursor := next }
    updateRun { state := some state }
    appendEvent (.stepCompleted node.id step.stepId step.attempt next reconciled)
    pure (.next state)

/-! ## One activation -/

inductive NodeOutcome where
  | completed (output : HandlerOutput)
  | waitingHuman (output : Obj) (expiresAt : Option ℚ)

variable (cfg : EngineConfig)

def humanRequest (node : FlowNode) (expiresAt : Option ℚ) : Obj :=
  [("prompt", (node.prompt.map Value.str).getD .null),
   ("form", (node.form.map Value.obj).getD .null),
   ("expiresAt", (expiresAt.map fun t => Value.str (cfg.isoformat t)).getD .null)]

def callHandler (ctx : NodeContext) : P (Except HandlerError NodeOutcome) :=
  match ctx.node.type with
  | .conditional => pure (.ok (.completed { output := some [] }))
  | .human =>
    match ctx.node.timeoutSec with
    | none => pure (.ok (.waitingHuman (humanRequest cfg ctx.node none) none))
    | some t => do
      let current ← now
      let expiresAt := some (current + (t : ℚ))
      pure (.ok (.waitingHuman (humanRequest cfg ctx.node expiresAt) expiresAt))
  | _ => do
    match ← invoke ctx with
    | .ok out => pure (.ok (.completed out))
    | .error e => pure (.error e)

/-- What the attempts leave: the run stopped, or a step with its outcome. -/
inductive Attempted where
  | stop (result : RunResult)
  | outcome (step : FlowStepRecord) (outcome : NodeOutcome)

/-- The loop over the attempts; `left` counts those still allowed, `attempt` is the next. -/
def attemptLoop (policy : FlowRetryPolicy) (ctx : NodeContext) : Nat → Nat → P Attempted
  | 0, _ => pure (.stop (.error (.noAttempt ctx.node.id)))
  | left + 1, attempt => do
    let step ← createStep ctx.node.id ctx.node.type attempt ctx.input
    appendEvent (.stepStarted ctx.node.id step.stepId step.attempt)
    match ← callHandler cfg ctx with
    | .ok outcome => pure (.outcome step outcome)
    | .error e =>
      let willRetry := e.reason == .nodeFailed && decide (attempt < policy.maxAttempts)
      completeStep step.stepId .failed none e.message
      appendEvent (.stepFailed ctx.node.id step.stepId step.attempt e.reason e.message willRetry)
      if willRetry = false then
        let r ← failRun ctx.state e.reason (.handler e.message)
        pure (.stop r)
      else
        let delay := backoffDelay policy attempt
        let t ← clock
        if overshoots t delay ctx.deadline then
          let r ← failRun ctx.state .budgetExhausted
            (.backoff ctx.node.id delay ctx.budgets.maxWallClockSec)
          pure (.stop r)
        else
          sleep delay
          attemptLoop policy ctx left (attempt + 1)

def RunState.record (state : RunState) (nodeId : String) (output : Obj) (out : HandlerOutput) :
    RunState :=
  { state with
    nodes := Dict.set state.nodes nodeId (.obj output)
    tokens := state.tokens.add out.tokens
    costUsd := state.costUsd.add out.costUsd }

/-- The end of an activation whose handler returned. -/
def settleOutcome (m : FlowManifest) (runInput : Obj) (node : FlowNode) (state : RunState)
    (step : FlowStepRecord) : NodeOutcome → P Activation
  | .waitingHuman output expiresAt => do
    let r ← pauseRun node step state output expiresAt
    pure (.stop r)
  | .completed out =>
    match out.output with
    | none => do
      completeStep step.stepId .failed none "node output is not JSON-serializable"
      let r ← failRun state .nodeFailed (.notSerializable node.id)
      pure (.stop r)
    | some output => do
      completeStep step.stepId .completed (some output) ""
      leaveNode m runInput node step (state.record node.id output out) false

variable (cfg : EngineConfig) (m : FlowManifest)

def activateNode (runInput : Obj) (node : FlowNode) (state : RunState) (budgets : FlowBudgets)
    (deadline : ℚ) : P Activation := do
  match renderBindings cfg.strOf node runInput state.nodes with
  | .error e =>
    let r ← failRun state .bindingError (.binding node.id e)
    pure (.stop r)
  | .ok input =>
    let policy := node.retries.getD m.defaults.retries
    let ctx : NodeContext := ⟨node, input, state, budgets, deadline⟩
    match ← attemptLoop cfg policy ctx (max policy.maxAttempts 1) 1 with
    | .stop r => pure (.stop r)
    | .outcome step outcome => settleOutcome m runInput node state step outcome

/-! ## The run loop -/

structure Session where
  runInput : Obj
  budgets : FlowBudgets
  started : ℚ

variable (ses : Session)

def Session.deadline : ℚ := ses.started + (ses.budgets.maxWallClockSec : ℚ)

def Session.check (state : RunState) (t : ℚ) (activations : Nat) : Option BudgetViolation :=
  budgetViolation ses.budgets state.tokens state.costUsd (t - ses.started) activations cfg.maxSteps

/-- The end of `_run_loop`: the last budget check, then completion. -/
def finishRun (state : RunState) : P RunResult := do
  let t ← clock
  match ses.check cfg state t 0 with
  | some v => failRun state .budgetExhausted (.budget v)
  | none =>
    let output := finalOutput m state.nodes
    updateRun { status := some .completed, stopReason := some .completed, state := some state,
                output := some output }
    appendEvent (.runCompleted output)
    reload

/-- The loop of `_run_loop`; `left` counts the activations the step cap still allows.  A node
id is never empty, so the cursor is falsy only when it is absent. -/
def walkFrom : Nat → RunState → P RunResult
  | left, state =>
    match state.cursor with
    | none => finishRun cfg m ses state
    | some cursor => do
      let t ← clock
      match ses.check cfg state t (cfg.maxSteps - left) with
      | some v => failRun state .budgetExhausted (.budget v)
      | none =>
        match m.node? cursor with
        | none => pure (.error (.unknownNode cursor))
        | some node =>
          match left with
          | 0 => pure (.error .stepCap)
          | left + 1 => do
            match ← activateNode cfg m ses.runInput node state ses.budgets
              ses.deadline with
            | .stop r => pure r
            | .next state' => walkFrom left state'

def runLoop (run : FlowRunRecord) (budgetCap : Option FlowBudgets) : P RunResult := do
  updateRun { status := some .running }
  let budgets := effectiveBudgets m.budgets run.state.budgetCap budgetCap
  let started ← clock
  walkFrom cfg m ⟨run.input, budgets, started⟩ cfg.maxSteps run.state

/-! ## The public calls -/

def startRun (input : Obj) (execute : Bool) (budgetCap : Option FlowBudgets) : P RunResult := do
  let errors := validateRunInput m input
  if errors ≠ [] then pure (.error (.invalidInput errors))
  else
    match m.entryNode? with
    | none => pure (.error .noEntry)
    | some entry => do
      let run ← createRun input { cursor := some entry.id, budgetCap := budgetCap }
      appendEvent (.runStarted entry.id)
      if execute then runLoop cfg m run none else pure (.ok run)

def executeRun (budgetCap : Option FlowBudgets) : P RunResult := do
  match ← getRun with
  | none => pure (.error .unknownRun)
  | some run => if run.status.terminal then pure (.ok run) else runLoop cfg m run budgetCap

def failRunning : List FlowStepRecord → P Unit
  | [] => pure ()
  | st :: rest =>
    if st.status = .running then do
      completeStep st.stepId .failed none "interrupted: attempt superseded by resume"
      failRunning rest
    else failRunning rest

def routedStepIds (events : List FlowEvent) : List Nat := events.filterMap (·.completedStep?)

def lastCompletedOf (nodeId : String) (steps : List FlowStepRecord) : Option FlowStepRecord :=
  ((completedSteps steps).filter (·.nodeId == nodeId)).getLast?

def reconcileCrashWindow (run : FlowRunRecord) : P RunResult := do
  match run.state.cursor with
  | none => pure (.ok run)
  | some cursor =>
    match lastCompletedOf cursor (← listSteps) with
    | none => pure (.ok run)
    | some last =>
      let events ← listEvents
      if last.stepId ∈ routedStepIds events then pure (.ok run)
      else
        match m.node? cursor with
        | none => pure (.error (.unknownNode cursor))
        | some node =>
          let output := (last.output.map Value.obj).getD .null
          let state := { run.state with nodes := Dict.set run.state.nodes node.id output }
          match ← leaveNode m run.input node last state true with
          | .stop r => pure r
          | .next _ => reload

def resumeRun : P RunResult := do
  match ← getRun with
  | none => pure (.error .unknownRun)
  | some run =>
    if run.status.terminal then pure (.error (.terminal run.status))
    else
      failRunning (← listSteps)
      match ← reconcileCrashWindow m run with
      | .error e => pure (.error e)
      | .ok run =>
        if run.status.terminal then pure (.ok run)
        else
          appendEvent (.runResumed run.state.cursor)
          executeRun cfg m none

def replayRun : P (Except RunError FlowReplayReport) := do
  match ← getRun with
  | none => pure (.error .unknownRun)
  | some run =>
    if run.status.terminal = false then pure (.error (.notTerminal run.status))
    else
      match replayDecisionPath cfg.strOf m run.replayView (← listSteps) with
      | none => pure (.error (.unknownNode ""))
      | some report =>
        appendEvent (.runReplayed report)
        pure (.ok report)

end AutoDev.Flows
