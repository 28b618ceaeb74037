/-
# `AutoDev.Flows.Human` — decisions and expiries of human waits

`backend/flows/human.py` over the run store.  A decision completes the waiting
step, merges its `edits` into earlier outputs, clears the pause and leaves the
node by ordinary routing; an expiry completes it with `{"timedOut": true}` and
leaves by the `on: timeout` edge.  Both then execute the run.

Neither call compares anything when it writes: what it read at the start
(`waitingContext`) is what it goes by.
-/
import AutoDev.Flows.Engine

namespace AutoDev.Flows

/-- `FlowHumanError` and its subclasses, and what the engine raises through them. -/
inductive HumanError where
  | unknownRun
  | notWaiting (status : RunStatus)
  | noWaitingStep
  | unknownNode (nodeId : String)
  | expired
  | invalidDecision (errors : List InputError)
  | editsNotObject
  | editNotObject (target : String)
  | editsHumanNode
  | editsUnknownNode (target : String)
  | engine (error : RunError)
  deriving DecidableEq

abbrev HumanResult := Except HumanError FlowRunRecord

def HumanResult.ofRun : RunResult → HumanResult
  | .ok r => .ok r
  | .error e => .error (.engine e)

/-! ## What a call goes by -/

/-- `_waiting_step`: the step the pause names, else the last waiting one. -/
def waitingStep? (stepId : Option Nat) (steps : List FlowStepRecord) : Option FlowStepRecord :=
  match stepId with
  | some i => steps.reverse.find? (·.stepId == i)
  | none => steps.reverse.find? (·.status == .waitingHuman)

theorem waitingStep?_last (xs : List FlowStepRecord) (st : FlowStepRecord) :
    waitingStep? (some st.stepId) (xs ++ [st]) = some st := by
  simp [waitingStep?]

def RunState.waitingNodeId (state : RunState) : String :=
  ((state.pause.map (·.nodeId)).or state.cursor).getD "None"

structure Waiting where
  run : FlowRunRecord
  node : FlowNode
  step : FlowStepRecord

variable (m : FlowManifest)

def waitingPlace (run : FlowRunRecord) : P (Except HumanError Waiting) := do
  match m.node? run.state.waitingNodeId with
  | none => pure (.error (.unknownNode run.state.waitingNodeId))
  | some node =>
    match waitingStep? (run.state.pause.map (·.stepId)) (← listSteps) with
    | none => pure (.error .noWaitingStep)
    | some step => pure (.ok ⟨run, node, step⟩)

def waitingContext : P (Except HumanError Waiting) := do
  match ← getRun with
  | none => pure (.error .unknownRun)
  | some run =>
    if run.status ≠ .waitingHuman then pure (.error (.notWaiting run.status))
    else waitingPlace m run

def pauseExpired (run : FlowRunRecord) (moment : Option ℚ) : P Bool := do
  match run.state.pause.bind (·.expiresAt) with
  | none => pure false
  | some t =>
    match moment with
    | some t' => pure (decide (t ≤ t'))
    | none => do
      let t' ← now
      pure (decide (t ≤ t'))

/-! ## Edits -/

def mergeOutput (nodes : Dict Value) (target : String) (patch : Obj) : Dict Value :=
  let output : Obj := match Dict.get? nodes target with
    | some (.obj o) => o
    | _ => []
  Dict.set nodes target (.obj (Dict.update output patch))

def applyEditList (human : FlowNode) : Obj → Dict Value → Except HumanError (Dict Value)
  | [], nodes => .ok nodes
  | (target, patch) :: rest, nodes =>
    match patch with
    | .obj kvs =>
      if target = human.id then .error .editsHumanNode
      else
        match m.node? target with
        | none => .error (.editsUnknownNode target)
        | some _ => applyEditList human rest (mergeOutput nodes target kvs)
    | _ => .error (.editNotObject target)

def applyEdits (human : FlowNode) (nodes : Dict Value) (edits : Option Value) :
    Except HumanError (Dict Value) :=
  match edits with
  | none | some .null => .ok nodes
  | some (.obj kvs) => applyEditList m human kvs nodes
  | some _ => .error .editsNotObject

/-! ## Decisions -/

/-- The state after a human node completed with `output` over the outputs `nodes`. -/
def RunState.decided (state : RunState) (nodes : Dict Value) (nodeId : String) (output : Obj) :
    RunState :=
  { state with nodes := Dict.set nodes nodeId (.obj output), pause := none }

variable (cfg : EngineConfig) (m : FlowManifest)

def resumeDecided (w : Waiting) (state : RunState) : P HumanResult := do
  match ← leaveNode m w.run.input w.node w.step state false with
  | .stop r => pure (HumanResult.ofRun r)
  | .next _ =>
    let r ← executeRun cfg m none
    pure (HumanResult.ofRun r)

def timeoutTarget? (node : FlowNode) : Option String :=
  node.onTimeout.or
    (((m.edgesFrom node.id).find? fun e => e.on == some "timeout").map (·.target))

theorem timeoutTarget_edge {m : FlowManifest} (hm : m.Valid) {t : String} {node : FlowNode}
    (hn : node ∈ m.nodes) (h : timeoutTarget? m node = some t) :
    ∃ e ∈ m.edgesFrom node.id, e.on = some "timeout" ∧ e.target = t := by
  have hok := hm.graphOk.timeouts node hn
  unfold timeoutTarget? at h
  unfold TimeoutOk at hok
  rcases hto : node.onTimeout with _ | t'
  · rw [hto, Option.none_or, Option.map_eq_some_iff] at h
    obtain ⟨e, he, rfl⟩ := h
    exact ⟨e, List.mem_of_find?_eq_some he, by simpa using List.find?_some he, rfl⟩
  rw [hto, Option.some_or, Option.some.injEq] at h
  subst h
  split at hok
  · exact hok.1 t' hto
  · rw [hto] at hok
    cases hok

theorem timeoutTarget_known {m : FlowManifest} (hm : m.Valid) {i t : String} {node : FlowNode}
    (hn : m.node? i = some node) (h : timeoutTarget? m node = some t) :
    ∃ n, m.node? t = some n := by
  obtain ⟨e, he, -, rfl⟩ := timeoutTarget_edge hm (FlowManifest.node?_mem hn) h
  exact hm.edge_target (List.mem_filter.mp he).1

def timedOutOutput : Obj := [("timedOut", .bool true)]

def routeTimeout (w : Waiting) : P HumanResult := do
  completeStep w.step.stepId .completed (some timedOutOutput) ""
  let state := w.run.state.decided w.run.state.nodes w.node.id timedOutOutput
  appendEvent (.timeoutExpired w.node.id w.step.stepId (w.run.state.pause.bind (·.expiresAt)))
  match timeoutTarget? m w.node with
  | none =>
    let r ← failRun state .noRoute (.expired w.node.id)
    pure (HumanResult.ofRun r)
  | some target =>
    updateRun { state := some { state with cursor := some target } }
    appendEvent (.stepCompleted w.node.id w.step.stepId w.step.attempt (some target) false)
    let r ← executeRun cfg m none
    pure (HumanResult.ofRun r)

def checkDecision (w : Waiting) (decision : Obj) : Except HumanError (Dict Value) :=
  let errors := validateDecision w.node.form decision
  if errors ≠ [] then .error (.invalidDecision errors)
  else applyEdits m w.node w.run.state.nodes (Dict.get? decision "edits")

def recordDecision (w : Waiting) (decision : Obj) (actor : String) (nodes : Dict Value) :
    P HumanResult := do
  completeStep w.step.stepId .completed (some decision) ""
  appendEvent (.decisionRecorded w.node.id w.step.stepId actor decision)
  resumeDecided cfg m w (w.run.state.decided nodes w.node.id decision)

def decideRun (decision : Obj) (actor : String) : P HumanResult := do
  match ← waitingContext m with
  | .error e => pure (.error e)
  | .ok w =>
    if ← pauseExpired w.run none then
      match ← routeTimeout cfg m w with
      | .error e => pure (.error e)
      | .ok _ => pure (.error .expired)
    else
      match checkDecision m w decision with
      | .error e => pure (.error e)
      | .ok nodes => recordDecision cfg m w decision actor nodes

/-! ## Expiries -/

/-- The loop of `expire_due`; the result counts the runs that were routed. -/
def expireRuns (moment : Option ℚ) : List FlowRunRecord → Nat → P (Except HumanError Nat)
  | [], n => pure (.ok n)
  | run :: rest, n => do
    if ← pauseExpired run moment then
      match ← waitingPlace m run with
      | .error e => pure (.error e)
      | .ok w =>
        match ← routeTimeout cfg m w with
        | .error e => pure (.error e)
        | .ok _ => expireRuns moment rest (n + 1)
    else expireRuns moment rest n

def expireDue (moment : Option ℚ) : P (Except HumanError Nat) := do
  expireRuns cfg m moment (← listWaiting) 0

def reviewStore : RunStore :=
  (Prog.run steadyOracle.ans (startRun demoConfig reviewFlow [] true none) .empty).2

def decidedStore (decision : Obj) : RunStore :=
  (Prog.run steadyOracle.ans (decideRun demoConfig reviewFlow decision "reviewer") reviewStore).2

def expiredStore : RunStore :=
  (Prog.run steadyOracle.ans (expireDue demoConfig reviewFlow (some 60)) reviewStore).2

def editDraft : Obj := [("edits", .obj [("draft", .obj [("ok", .bool false)])])]

end AutoDev.Flows
