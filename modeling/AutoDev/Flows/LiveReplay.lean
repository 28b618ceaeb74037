/-
# `AutoDev.Flows.LiveReplay` — what the engine records, replay reproduces

Live execution and replay are two interpreters of one graph.  At the head of the
run loop the completed steps of the store are a decision path to the state the
loop holds in memory.

A human wait is left by three routes, and only one of them is the derivation
replay knows: a decision that changes no earlier output.  `DecisionAgrees` and
`TimeoutAgrees` say when the two other routes happen to agree with it.
-/
import AutoDev.Flows.Effects

namespace AutoDev.Flows

open Prog Option

variable {env : Env} {cfg : EngineConfig} {m : FlowManifest}

/-! ## Records that replay -/

variable (cfg m)

def OnPath (runInput : Obj) (steps : List FlowStepRecord) (nodes : Dict Value)
    (cursor : Option String) : Prop :=
  DecisionPath cfg.strOf m runInput (.init m) (completedSteps steps) ⟨nodes, cursor⟩

/-- The records of a stopped run that replay accepts. -/
def Replayable (run : FlowRunRecord) (steps : List FlowStepRecord) : Prop :=
  OnPath cfg m run.input steps run.state.nodes run.state.cursor ∨
  ∃ init last b, completedSteps steps = init ++ [last] ∧
    DecisionPath cfg.strOf m run.input (.init m) init b ∧
    RoutingFails cfg.strOf m run.input b last ∧ run.stopReason.routing = true ∧
    run.state.cursor = some last.nodeId

def AtPause (run : FlowRunRecord) (steps : List FlowStepRecord) : Prop :=
  ∃ node xs st e, steps = xs ++ [st] ∧ m.node? node.id = some node ∧ node.type = .human ∧
    st.status = .waitingHuman ∧ st.nodeId = node.id ∧
    run.state.pause = some ⟨node.id, st.stepId, e⟩ ∧ run.state.cursor = some node.id ∧
    OnPath cfg m run.input xs run.state.nodes run.state.cursor ∧
    InputMatches cfg.strOf node run.input run.state.nodes st

/-- What a call leaves of a run's records. -/
def Recorded (s : RunStore) : Prop :=
  ∀ run, s.run = some run →
    (run.status.terminal = true → Replayable cfg m run s.steps) ∧
    (run.status = .waitingHuman → AtPause cfg m run s.steps)

variable {cfg m}

theorem Replayable.replays {run : FlowRunRecord} {steps : List FlowStepRecord} (hm : m.Valid)
    (h : Replayable cfg m run steps) :
    replayDecisionPath cfg.strOf m run.replayView steps =
      some ⟨true, (completedSteps steps).map (·.nodeId), (completedSteps steps).map (·.nodeId),
        []⟩ := by
  obtain ⟨entry, hentry⟩ := hm.entry
  rcases h with hp | ⟨init, last, b, hs, hp, hf, hstop, hcur⟩
  · exact replay_of_path hentry hp rfl
  · exact replay_of_failure hentry hs hp hf hstop (congrArg cursorValue hcur)

/-! ## One activation -/

structure LoopInv (cfg : EngineConfig) (m : FlowManifest) (runInput : Obj) (state : RunState)
    (s : RunStore) : Prop where
  path : OnPath cfg m runInput s.steps state.nodes state.cursor
  known : ∀ c, state.cursor = some c → ∃ node, m.node? c = some node
  row : ∃ run, s.run = some run ∧ run.input = runInput

section

variable {a : ActivationArgs} {input output : Obj} {st : FlowStepRecord} {out : HandlerOutput}
  (h : Completed env a s s' input st output out)

include h

theorem Activates.of_completed (hc : a.state.cursor = some a.node.id)
    (hn : a.m.node? a.node.id = some a.node) :
    Activates a.cfg.strOf a.m a.runInput ⟨a.state.nodes, a.state.cursor⟩ st a.node := by
  obtain ⟨hid, hin, -, -⟩ := h.step
  refine ⟨by simp [hc, hid], by rw [hid]; exact hn, inputMatches_iff.mpr ⟨input, h.rendered, ?_⟩⟩
  rw [hin]
  exact Obj.pyEq_refl input

theorem foldOutput_of_completed :
    foldOutput a.state.nodes st = (a.state.record a.node.id output out).nodes := by
  obtain ⟨hid, -, -, ho⟩ := h.step
  simp [foldOutput, RunState.record, hid, ho]

end

section Loop

variable {ses : Session} {state state' : RunState} {s s' : RunStore} {node : FlowNode}
  {r : RunResult} (hi : LoopInv cfg m ses.runInput state s)
  (hc : state.cursor = some c) (hn : m.node? c = some node)
include hi hc hn

theorem LoopInv.next (hm : m.Valid)
    (h : ActivationEffect env (ses.activation cfg m node state) s (.next state') s') :
    LoopInv cfg m ses.runInput state' s' := by
  obtain rfl := FlowManifest.node?_id hn
  cases h with
  | @advanced _ input st output out next hcomp hsel hrun =>
    have hstep : DecisionStep cfg.strOf m ses.runInput ⟨state.nodes, state.cursor⟩ st
        ⟨(state.record node.id output out).nodes, next⟩ :=
      ⟨node, .of_completed hcomp hc hn, (foldOutput_of_completed hcomp).symm, hsel⟩
    refine ⟨?_, ?_, ?_⟩
    · unfold OnPath
      rw [hcomp.completedSteps]
      exact hi.path.snoc hstep
    · exact selectNextNode_known hm hsel
    · obtain ⟨run, hrow, hin⟩ := hi.row
      have hrow' := hrun.trans (congrArg (Option.map _) hrow)
      exact ⟨_, hrow', hin⟩

theorem LoopInv.stop
    (h : ActivationEffect env (ses.activation cfg m node state) s (.stop r) s') :
    Recorded cfg m s' := by
  obtain rfl := FlowManifest.node?_id hn
  obtain ⟨row, hrow, hin⟩ := hi.row
  intro run hrun'
  cases h with
  | failed reason hsteps hrou hrun =>
    obtain ⟨fs, hfs, hfail⟩ := hsteps
    rw [hrun, hrow] at hrun'
    cases hrun'
    refine ⟨fun _ => Or.inl ?_, nofun⟩
    unfold OnPath
    rw [hfs, completedSteps_fails hfail, FlowRunRecord.fail, hin]
    exact hi.path
  | @paused _ input st e hren hhum hex hst hsteps hrun =>
    obtain ⟨fs, hfs, hfail⟩ := hsteps
    obtain ⟨hid, hinp, hstat, -⟩ := hst
    rw [hrun, hrow] at hrun'
    cases hrun'
    refine ⟨nofun, fun _ => ⟨node, s.steps ++ fs, st, e, hfs, hn, hhum, hstat, hid,
      rfl, hc, ?_, ?_⟩⟩
    · unfold OnPath
      rw [completedSteps_fails hfail, FlowRunRecord.wait, hin]
      exact hi.path
    · refine inputMatches_iff.mpr ⟨input, by simpa [FlowRunRecord.wait, hin] using hren, ?_⟩
      rw [hinp]
      exact Obj.pyEq_refl input
  | @misrouted _ input st output out err reason hcomp hsel hrou hrun =>
    rw [hrun, hrow] at hrun'
    cases hrun'
    refine ⟨fun _ => Or.inr ⟨completedSteps s.steps, st, ⟨state.nodes, state.cursor⟩, ?_, ?_, ?_,
      hrou, ?_⟩, nofun⟩
    · exact hcomp.completedSteps
    · rw [FlowRunRecord.fail, hin]
      exact hi.path
    · rw [FlowRunRecord.fail, hin]
      refine ⟨node, err, .of_completed hcomp hc hn, ?_⟩
      rw [← foldOutput_of_completed hcomp] at hsel
      exact hsel
    · simp [FlowRunRecord.fail, RunState.record, hcomp.step.1, hc]

end Loop

theorem LoopInv.recorded {runInput : Obj} {state : RunState} {s s' : RunStore}
    {f : FlowRunRecord → FlowRunRecord} (hi : LoopInv cfg m runInput state s)
    (hf : ∀ run, (f run).input = run.input ∧ (f run).state = state ∧
      (f run).status ≠ .waitingHuman)
    (hsteps : s'.steps = s.steps) (hrun : s'.run = s.run.map f) : Recorded cfg m s' := by
  obtain ⟨row, hrow, hin⟩ := hi.row
  intro run hrun'
  rw [hrun, hrow] at hrun'
  cases hrun'
  obtain ⟨h₁, h₂, h₃⟩ := hf row
  refine ⟨fun _ => Or.inl ?_, fun h => absurd h h₃⟩
  rw [h₁, h₂, hsteps, hin]
  exact hi.path

theorem loopInv_rule (hm : m.Valid) (ses : Session) :
    LoopRule env cfg m ses (LoopInv cfg m ses.runInput) fun _ s => Recorded cfg m s where
  known hi hc := hi.known _ hc
  budget v hi := hi.recorded (f := FlowRunRecord.fail _ _)
    (fun _ => ⟨rfl, rfl, by simp [FlowRunRecord.fail]⟩) rfl rfl
  complete t hi _ _ := hi.recorded (f := FlowRunRecord.complete _ _)
    (fun _ => ⟨rfl, rfl, by simp [FlowRunRecord.complete]⟩) rfl rfl
  stop hi hc hn h := hi.stop hc hn h
  next hi hc hn h := hi.next hc hn hm h

/-! ## Runs that only `start_run` drives -/

theorem startRun_recorded (hm : m.Valid) (input : Obj) (execute : Bool) (cap : Option FlowBudgets) :
    Ends env (fun _ s => Recorded cfg m s) (startRun cfg m input execute cap) .empty := by
  refine startRun_ends hm (fun _ run h => by cases h) fun entry hentry hknown =>
    ⟨fun run h => ?_, ?_⟩
  · cases h
    exact ⟨nofun, nofun⟩
  refine runLoop_ends (LoopInv cfg m input) (fun started => loopInv_rule hm _)
    ⟨?_, hknown, _, rfl, rfl⟩
  have : PathState.init m = ⟨[], some entry.id⟩ := by simp [PathState.init, hentry]
  unfold OnPath
  rw [this]
  exact .nil

/-- Replay never raises a false alarm on a run that `start_run` drives to its end: whatever
the handlers return or raise, whatever the retries and the budgets, and whatever the stop
reason, the persisted records replay without a divergence. -/
theorem startRun_replays (hm : m.Valid) {input : Obj} {cap : Option FlowBudgets} {r : RunResult}
    {s : RunStore} {run : FlowRunRecord}
    (h : Exec (Sem env) (startRun cfg m input true cap) .empty r s) (hrun : s.run = some run)
    (hterm : run.status.terminal = true) :
    ∃ report, replayDecisionPath cfg.strOf m run.replayView s.steps = some report ∧
      report.deterministic = true ∧ report.replayedSequence = report.recordedSequence := by
  have hrec := h.of_wp (startRun_recorded hm input true cap)
  exact ⟨_, ((hrec run hrun).1 hterm).replays hm, rfl, rfl⟩

/-- The store after a run that the check lets go on at once. -/
def contentStore : RunStore :=
  (Prog.run steadyOracle.ans (startRun demoConfig loopFlow [] true none) .empty).2

def contentRun : FlowRunRecord :=
  let ok : Obj := [("ok", .bool true)]
  { status := .completed, stopReason := .completed
    state := { cursor := none, nodes := [("start", .obj ok), ("work", .obj ok), ("check", .obj ok),
      ("done", .obj ok)] }
    output := some ok }

theorem contentStore_run : contentStore.run = some contentRun := by decide +kernel

theorem startRun_replays_content :
    (completedSteps contentStore.steps).map (·.nodeId) = ["start", "work", "check", "done"] ∧
    ∃ report, replayDecisionPath Value.typeName loopFlow ⟨[], .completed, .null⟩
        contentStore.steps = some report ∧
      report.deterministic = true ∧ report.replayedSequence = report.recordedSequence :=
  ⟨by decide +kernel, startRun_replays loopFlow_valid steadyOracle.exec contentStore_run rfl⟩

/-! ## Runs that passed through human nodes -/

variable (env m)

def EditsAgree (run : FlowRunRecord) (node : FlowNode) (decision : Obj) : Prop :=
  ∀ nodes, applyEdits m node run.state.nodes (Dict.get? decision "edits") = .ok nodes →
    nodes = run.state.nodes

/-- The timeout route of a wait is the one ordinary routing takes over `{"timedOut": true}`:
the same target, or none and ordinary routing fails as well. -/
def TimeoutAgrees (run : FlowRunRecord) (node : FlowNode) : Prop :=
  let routed := selectNextNode m node
    (evalState run.input (Dict.set run.state.nodes node.id (.obj timedOutOutput)))
  match timeoutTarget? m node with
  | some target => routed = .ok (some target)
  | none => ∃ err, routed = .error err

/-- What a `decide` call on the store has to meet: its edits agree, and so does the timeout
route if the call can find the wait expired. -/
def DecisionAgrees (s : RunStore) (decision : Obj) : Prop :=
  ∀ run node, s.run = some run → run.status = .waitingHuman →
    m.node? run.state.waitingNodeId = some node →
    EditsAgree m run node decision ∧ (Due env run none → TimeoutAgrees m run node)

def ExpiryAgrees (s : RunStore) (moment : Option ℚ) : Prop :=
  ∀ run node, s.run = some run → run.status = .waitingHuman →
    m.node? run.state.waitingNodeId = some node → Due env run moment → TimeoutAgrees m run node

variable {env m}

/-- What is asked of each call of the human service before it is made. -/
structure CallGuard where
  decide : Env → RunStore → Obj → Prop
  expire : Env → RunStore → Option ℚ → Prop

def CallGuard.any : CallGuard := ⟨fun _ _ _ => True, fun _ _ _ => True⟩

/-- Calls that agree with ordinary routing over the recorded outputs. -/
def CallGuard.agrees (m : FlowManifest) : CallGuard :=
  ⟨fun env s d => DecisionAgrees env m s d, fun env s moment => ExpiryAgrees env m s moment⟩

/-- The stores reached by `start_run` and then guarded calls of the human service, in any order.
Every call may find other surroundings. -/
inductive HumanRun (cfg : EngineConfig) (m : FlowManifest) (g : CallGuard) : RunStore → Prop
  | start {env : Env} {input : Obj} {execute : Bool} {cap : Option FlowBudgets} {r : RunResult}
      {s : RunStore} : Exec (Sem env) (startRun cfg m input execute cap) .empty r s →
      HumanRun cfg m g s
  | decide {env : Env} {d : Obj} {actor : String} {r : HumanResult} {s s' : RunStore} :
      HumanRun cfg m g s → g.decide env s d →
      Exec (Sem env) (decideRun cfg m d actor) s r s' → HumanRun cfg m g s'
  | expire {env : Env} {moment : Option ℚ} {r : Except HumanError Nat} {s s' : RunStore} :
      HumanRun cfg m g s → g.expire env s moment →
      Exec (Sem env) (expireDue cfg m moment) s r s' → HumanRun cfg m g s'

section Leave

variable {s : RunStore} {w : Waiting}

variable {run : FlowRunRecord} {xs : List FlowStepRecord}

theorem AtPause.place {steps : List FlowStepRecord} {node : FlowNode} {step : FlowStepRecord}
    (h : AtPause cfg m run steps) (hn : m.node? run.state.waitingNodeId = some node)
    (hst : waitingStep? (run.state.pause.map (·.stepId)) steps = some step) :
    ∃ xs, steps = xs ++ [step] ∧ m.node? node.id = some node ∧
      Activates cfg.strOf m run.input ⟨run.state.nodes, run.state.cursor⟩ step node ∧
      run.state.cursor = some node.id ∧
      OnPath cfg m run.input xs run.state.nodes run.state.cursor := by
  obtain ⟨node', xs, st, e, hsteps, hn', -, -, hid, hp, hc, hpath, hin⟩ := h
  have hw : run.state.waitingNodeId = node'.id := by simp [RunState.waitingNodeId, hp]
  rw [hw, hn'] at hn
  cases hn
  rw [hp, hsteps] at hst
  obtain rfl := some.inj ((waitingStep?_last xs st).symm.trans hst)
  exact ⟨xs, hsteps, hn', ⟨by rw [hc, hid], by rw [hid]; exact hn', hin⟩, hc, hpath⟩

/-- The records once the waiting step of a pause is completed with `output`: the step is the next
activation of the decision path, and the row still waits. -/
structure ClosedPause (cfg : EngineConfig) (m : FlowManifest) (w : Waiting) (output : Obj)
    (xs : List FlowStepRecord) (s : RunStore) : Prop where
  run : s.run = some w.run
  stands : w.run.status.terminal = false
  path : OnPath cfg m w.run.input xs w.run.state.nodes w.run.state.cursor
  completed : completedSteps s.steps
    = completedSteps xs ++ [w.step.close .completed (some output) ""]
  activates : Activates cfg.strOf m w.run.input ⟨w.run.state.nodes, w.run.state.cursor⟩
    (w.step.close .completed (some output) "") w.node
  folds : foldOutput w.run.state.nodes (w.step.close .completed (some output) "")
    = Dict.set w.run.state.nodes w.node.id (.obj output)

theorem AtPause.closed (output : Obj) (e : FlowEvent) (hp : AtPause cfg m w.run s.steps)
    (hw : w.Met m s) :
    ∃ xs, ClosedPause cfg m w output xs
      ((s.completeStep w.step.stepId .completed (some output) "").appendEvent e) := by
  obtain ⟨xs, hsteps, -, hact, hcur, hpath⟩ := hp.place hw.node hw.step
  refine ⟨xs, hw.row, hw.open, hpath, ?_, hact, ?_⟩
  · rw [RunStore.appendEvent_steps, RunStore.steps_completeStep_last hsteps, completedSteps_append]
    simp [completedSteps, FlowStepRecord.close]
  · rw [← some.inj (hact.1.symm.trans hcur)]
    rfl

theorem execute_recorded (hm : m.Valid) (hrun : s.run = some run)
    (hterm : run.status.terminal = false)
    (hpath : OnPath cfg m run.input s.steps run.state.nodes run.state.cursor)
    (hknown : ∀ c, run.state.cursor = some c → ∃ node, m.node? c = some node) :
    Ends env (fun _ s' => Recorded cfg m s') (executeRun cfg m none) s := by
  refine executeRun_open hrun hterm (runLoop_ends (LoopInv cfg m run.input)
    (fun started => loopInv_rule hm _) ⟨hpath, hknown, ?_⟩)
  exact ⟨_, congrArg (Option.map _) hrun, rfl⟩

section

variable {output : Obj} {s₁ : RunStore} (h : ClosedPause cfg m w output xs s₁)
include h

theorem ClosedPause.fail {state : RunState} {reason : StopReason} {detail : FailDetail}
    {err : RouteError} (hrou : reason.routing = true)
    (hsel : selectNextNode m w.node (evalState w.run.input
      (Dict.set w.run.state.nodes w.node.id (.obj output))) = .error err)
    (hcur : state.cursor = w.run.state.cursor) :
    Recorded cfg m (s₁.fail state reason detail) := by
  intro run hrun
  rw [RunStore.run_fail, h.run] at hrun
  cases hrun
  refine ⟨fun _ => Or.inr ⟨completedSteps xs, _, ⟨w.run.state.nodes, w.run.state.cursor⟩,
    h.completed, h.path, ⟨w.node, err, h.activates, ?_⟩, hrou, hcur.trans h.activates.1⟩,
    nofun⟩
  rw [h.folds]
  exact hsel

theorem ClosedPause.goesOn (hm : m.Valid) {next : Option String} {s₂ : RunStore}
    (hsel : selectNextNode m w.node (evalState w.run.input
      (Dict.set w.run.state.nodes w.node.id (.obj output))) = .ok next)
    (hsteps : s₂.steps = s₁.steps)
    (hrun : s₂.run = s₁.run.map (FlowRunRecord.checkpoint
      { w.run.state.decided w.run.state.nodes w.node.id output with cursor := next })) :
    Ends env (fun _ s' => Recorded cfg m s') (executeRun cfg m none) s₂ := by
  refine execute_recorded hm (hrun.trans (congrArg (Option.map _) h.run)) h.stands ?_ ?_
  · unfold OnPath
    rw [hsteps, h.completed]
    refine h.path.snoc ⟨w.node, h.activates, ?_, hsel⟩
    rw [h.folds]
    rfl
  · exact selectNextNode_known hm hsel

end

theorem recordDecision_recorded (hm : m.Valid) {d : Obj} {actor : String} (hw : w.Met m s)
    (hp : AtPause cfg m w.run s.steps) :
    Ends env (fun _ s' => Recorded cfg m s')
      (recordDecision cfg m w d actor w.run.state.nodes) s := by
  simp only [recordDecision, resumeDecided, wp_bind, wp_completeStep, wp_appendEvent, true_and]
  obtain ⟨xs, h⟩ := hp.closed d (.decisionRecorded w.node.id w.step.stepId actor d) hw
  refine wp_leaveNode (fun err reason detail hsel hrou => ⟨trivial, trivial, ?_⟩)
    fun next hsel => ⟨trivial, trivial, ?_⟩
  · exact h.fail hrou hsel rfl
  · simp only [wp_bind]
    exact wp_post (h.goesOn hm hsel rfl rfl) fun r s' h => h

theorem routeTimeout_recorded (hm : m.Valid) (hw : w.Met m s) (hp : AtPause cfg m w.run s.steps)
    (hagree : TimeoutAgrees m w.run w.node) :
    Ends env (fun _ s' => Recorded cfg m s') (routeTimeout cfg m w) s := by
  simp only [routeTimeout, wp_bind, wp_completeStep, wp_appendEvent, true_and]
  obtain ⟨xs, h⟩ := hp.closed timedOutOutput (.timeoutExpired w.node.id w.step.stepId
    (w.run.state.pause.bind (·.expiresAt))) hw
  unfold TimeoutAgrees at hagree
  rcases ht : timeoutTarget? m w.node with _ | target
  · rw [ht] at hagree
    obtain ⟨err, herr⟩ := hagree
    simp only [wp_bind]
    exact wp_failRun (h.fail rfl herr rfl)
  · rw [ht] at hagree
    simp only [wp_bind, wp_updateRun, wp_appendEvent, true_and]
    exact wp_post (h.goesOn hm hagree rfl rfl) fun r s' h => h

end Leave

theorem HumanRun.recorded (hm : m.Valid) {s : RunStore} (h : HumanRun cfg m (.agrees m) s) :
    Recorded cfg m s := by
  induction h with
  | start h => exact h.of_wp (startRun_recorded hm _ _ _)
  | @decide env d actor r s s' _ hagree h ih =>
    refine h.of_wp (wp_decideRun (I := fun _ => True) (Q := fun _ s' => Recorded cfg m s') trivial
      (fun _ => ih) ?_ ?_)
    · intro w hw hdue
      refine wp_post (routeTimeout_recorded hm hw ((ih _ hw.row).2 hw.status)
        ((hagree _ _ hw.row hw.status hw.node).2 hdue)) fun _ _ h _ => h
    · intro w nodes hw hed
      rw [(hagree _ _ hw.row hw.status hw.node).1 nodes hed]
      exact recordDecision_recorded hm hw ((ih _ hw.row).2 hw.status)
  | @expire env moment r s s' _ hagree h ih =>
    refine h.of_wp (wp_expireDue (I := fun _ => True) trivial ih fun w hw hdue => ?_)
    exact routeTimeout_recorded hm hw ((ih _ hw.row).2 hw.status)
      (hagree _ _ hw.row hw.status hw.node hdue)

def RunStore.replayReport (cfg : EngineConfig) (m : FlowManifest) (s : RunStore) :
    Option FlowReplayReport :=
  s.run.bind fun run => replayDecisionPath cfg.strOf m run.replayView s.steps

/-- Replay agrees with live execution on every run through human nodes whose decisions and
expiries agree with ordinary routing over the recorded outputs. -/
theorem humanRun_replays (hm : m.Valid) {s : RunStore} {run : FlowRunRecord}
    (h : HumanRun cfg m (.agrees m) s) (hrun : s.run = some run)
    (hterm : run.status.terminal = true) :
    ∃ report, s.replayReport cfg m = some report ∧ report.deterministic = true := by
  have hrep := ((h.recorded hm run hrun).1 hterm).replays hm
  exact ⟨_, by rw [RunStore.replayReport, hrun]; exact hrep, rfl⟩

/-! A draft that is reviewed without edits replays.  With an edit of the draft, what was
published is not what replay renders; without a review in time, the run went where ordinary
routing does not. -/

theorem reviewStore_run {g : CallGuard} : HumanRun demoConfig reviewFlow g reviewStore :=
  .start steadyOracle.exec

theorem humanRun_replays_review :
    ∃ report, (decidedStore []).replayReport demoConfig reviewFlow = some report ∧
      report.deterministic = true := by
  have hrow : (decidedStore []).run.map (·.status) = some .completed := by decide +kernel
  obtain ⟨run, hrun, hst⟩ := map_eq_some_iff.mp hrow
  have hexec : Exec (Sem steadyOracle.env) (decideRun demoConfig reviewFlow [] "reviewer")
      reviewStore _ (decidedStore []) := steadyOracle.exec
  refine humanRun_replays reviewFlow_valid (.decide reviewStore_run ?_ hexec) hrun
    (by rw [hst]; rfl)
  -- a decision without edits, made before the wait is due
  intro run node hrun' _ _
  refine ⟨fun nodes h => (Except.ok.inj h).symm, fun hdue => ?_⟩
  obtain ⟨e, t, he, rfl, hle⟩ := hdue
  have hpause : reviewStore.run.map (fun r => r.state.pause.bind (·.expiresAt)) = some (some 60) := by
    decide +kernel
  rw [hrun', map_some, he] at hpause
  cases hpause
  exact absurd hle (by decide +kernel)

theorem review_diverges :
    (∃ s, HumanRun demoConfig reviewFlow .any s ∧ s.run.map (·.status) = some .completed ∧
      (s.replayReport demoConfig reviewFlow).map (·.deterministic) = some false ∧
      s = decidedStore editDraft) ∧
    (∃ s, HumanRun demoConfig reviewFlow .any s ∧ s.run.map (·.status) = some .completed ∧
      (s.replayReport demoConfig reviewFlow).map (·.deterministic) = some false ∧
      s = expiredStore) :=
  ⟨⟨_, .decide reviewStore_run trivial steadyOracle.exec, by decide +kernel,
      by decide +kernel, rfl⟩,
    ⟨_, .expire reviewStore_run trivial steadyOracle.exec, by decide +kernel,
      by decide +kernel, rfl⟩⟩

end AutoDev.Flows
