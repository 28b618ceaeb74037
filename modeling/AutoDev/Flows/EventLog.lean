/-
# `AutoDev.Flows.EventLog` — a run and the view rebuilt from its events

`reconstruct_run` is to give back a run that has ended: its status, and its
steps one by one.  There are three places where a step ends and nothing is heard
of it: the human service completes a decided or expired step, an output that is
not serializable fails its step, and a routing error leaves its step completed.

`Told` is the invariant: the events are a journal whose lines are the steps of
the run, and the only lines without an end are those of human steps.  It breaks
at the two other places, which both end the run (`Broken`).
-/
import AutoDev.Flows.Ledger
import AutoDev.Flows.LiveReplay
import AutoDev.Flows.Publish

namespace AutoDev.Flows

open Prog Events List Option

variable {env : Env} {cfg : EngineConfig} {m : FlowManifest} {s s' : RunStore}

/-! ## Steps that are told -/

def StepStatus.terminal : StepStatus → Bool
  | .completed | .failed => true
  | _ => false

/-- The line of a step: of a human one no end is heard, of any other its own. -/
structure Agrees (line : StepLine) (st : FlowStepRecord) : Prop where
  node : line.1 = st.nodeId
  human : st.nodeType = .human → line.2 = none
  other : st.nodeType ≠ .human → line.2 = some (st.attempt, st.status) ∧ st.status.terminal = true

/-- The output of a call survives the trip through `json`. -/
def Serializes (call : NodeContext × HandlerResult) : Prop :=
  ∀ out, call.2 = .ok out → out.output ≠ none

instance : DecidablePred Serializes := fun call =>
  match h : call.2 with
  | .error _ => isTrue fun _ hout => nomatch h.symm.trans hout
  | .ok out => decidable_of_iff (out.output ≠ none)
      ⟨fun hne _ hout => (Except.ok.inj (h.symm.trans hout)) ▸ hne, fun hs => hs out h⟩

variable (m)

def RoutesOn (runInput : Obj) (nodes : Dict Value) (steps : List FlowStepRecord) : Prop :=
  ∀ st node, (completedSteps steps).getLast? = some st → st.nodeType ≠ .human →
    m.node? st.nodeId = some node →
    ∃ next, selectNextNode m node (evalState runInput nodes) = .ok next

instance (m : FlowManifest) (runInput : Obj) (nodes : Dict Value) (steps : List FlowStepRecord) :
    Decidable (RoutesOn m runInput nodes steps) :=
  decidable_of_iff
    (∀ st ∈ (completedSteps steps).getLast?, st.nodeType ≠ .human →
      ∀ node ∈ m.node? st.nodeId,
        (selectNextNode m node (evalState runInput nodes)).toOption.isSome = true)
    ⟨fun h st node hst hty hn => by
        have := h st hst hty node hn
        rcases hsel : selectNextNode m node (evalState runInput nodes) with e | next
        · rw [hsel] at this
          cases this
        · exact ⟨next, rfl⟩,
      fun h st hst hty node hn => by
        obtain ⟨next, hsel⟩ := h st node hst hty hn
        rw [hsel]
        rfl⟩

variable (s)

structure Told : Prop where
  lines : ∃ ls, Journal m s.events ls ∧ List.Forall₂ Agrees ls s.steps
  serial : ∀ call ∈ s.calls, Serializes call
  types : ∀ st ∈ s.steps, ∀ node, m.node? st.nodeId = some node → node.type = st.nodeType

/-- Nothing in the run escapes its events: no human step, no output that is not serializable, no
completed step without a route. -/
structure Plain : Prop where
  human : ∀ st ∈ s.steps, st.nodeType ≠ .human
  serial : ∀ call ∈ s.calls, Serializes call
  routes : ∀ run, s.run = some run → RoutesOn m run.input run.state.nodes s.steps

/-- The run ended and its last step was not heard to end. -/
structure Broken : Prop where
  lines : ∃ ls, Journal m s.events ls ∧ ls.length = s.steps.length ∧ ∃ l ∈ ls, l.2 = none
  notPlain : ¬ Plain m s
  ended : ∀ run, s.run = some run → run.status.terminal = true

structure Settled : Prop where
  told : Told m s
  routes : ∀ run, s.run = some run → RoutesOn m run.input run.state.nodes s.steps
  ended : ∀ run, s.run = some run → run.status.terminal = true →
    ∃ es e, s.events = es ++ [e] ∧ e.ends = some run.status

/-- What a call leaves. -/
def Closing : Prop := Settled m s ∨ Broken m s

variable {s}

structure LoopTold (runInput : Obj) (state : RunState) (s : RunStore) : Prop where
  told : Told m s
  routes : RoutesOn m runInput state.nodes s.steps
  known : KnownCursor m state
  row : ∃ run, s.run = some run ∧ run.input = runInput

variable {m}

theorem completedSteps_getLast? {xs : List FlowStepRecord} {st : FlowStepRecord}
    (h : st.status = .completed) : (completedSteps (xs ++ [st])).getLast? = some st := by
  simp [completedSteps, h]

section Grow

variable {runInput : Obj} {state : RunState} {st : FlowStepRecord} {line : StepLine}

theorem Told.nothing {e : FlowEvent} (h : Told m s) (hev : s'.events = s.events ++ [e])
    (he : m.hears e = .nothing) (hsteps : s'.steps = s.steps) (hcalls : s'.calls = s.calls) :
    Told m s' := by
  obtain ⟨⟨ls, hj, hl⟩, hserial, htypes⟩ := h
  exact ⟨⟨ls, hev ▸ hj.nothing e he, hsteps ▸ hl⟩, hcalls ▸ hserial, hsteps ▸ htypes⟩

theorem Told.step {ls : List StepLine} (h : Told m s)
    (hj : Journal m s'.events (ls ++ [line])) (hl : List.Forall₂ Agrees ls s.steps)
    (hsteps : s'.steps = s.steps ++ [st]) (hagree : Agrees line st)
    (hserial : ∀ call ∈ s'.calls, Serializes call)
    (htype : ∀ node, m.node? st.nodeId = some node → node.type = st.nodeType) : Told m s' := by
  refine ⟨⟨_, hj, ?_⟩, hserial, ?_⟩
  · rw [hsteps]
    exact rel_append hl (.cons hagree .nil)
  · rw [hsteps]
    exact forall_mem_append.mpr ⟨h.types, forall_mem_singleton.mpr htype⟩

variable (h : LoopTold m runInput state s)
include h

theorem LoopTold.settled {f : FlowRunRecord → FlowRunRecord} {e : FlowEvent} {status : RunStatus}
    (hrun : s'.run = s.run.map f)
    (hf : ∀ run, (f run).input = run.input ∧ (f run).state.nodes = state.nodes ∧
      (f run).status = status) (hev : s'.events = s.events ++ [e]) (he : e.ends = some status)
    (hsteps : s'.steps = s.steps) (hcalls : s'.calls = s.calls) : Settled m s' := by
  have hquiet : m.hears e = .nothing := by cases e <;> cases he <;> rfl
  obtain ⟨row, hrow, rfl⟩ := h.row
  have hrun' : ∀ run, s'.run = some run → run = f row := by
    intro run hr
    rw [hrun, hrow] at hr
    exact (some.inj hr).symm
  refine ⟨h.told.nothing hev hquiet hsteps hcalls, fun run hr => ?_, fun run hr _ => ?_⟩
  · rw [hrun' run hr, (hf row).1, (hf row).2.1, hsteps]
    exact h.routes
  · rw [hrun' run hr, (hf row).2.2]
    exact ⟨_, _, hev, he⟩

theorem LoopTold.fail (reason : StopReason)
    (detail : FailDetail) : Closing m (s.fail state reason detail) :=
  .inl (h.settled rfl (fun _ => ⟨rfl, rfl, rfl⟩) rfl rfl rfl rfl)

theorem LoopTold.complete (output : Obj) :
    Closing m (s.complete state output) :=
  .inl (h.settled rfl (fun _ => ⟨rfl, rfl, rfl⟩) rfl rfl rfl rfl)

theorem LoopTold.keep (htold : Told m s') (hrun : s'.run = s.run) (hcs : completedSteps s'.steps = completedSteps s.steps) :
    LoopTold m runInput state s' := by
  refine ⟨htold, ?_, h.known, hrun ▸ h.row⟩
  intro st node hst
  rw [hcs] at hst
  exact h.routes st node hst

end Grow

/-! ## The attempts -/

structure RetriedTold (m : FlowManifest) (s s' : RunStore) : Prop where
  told : Told m s'
  run : s'.run = s.run
  completed : completedSteps s'.steps = completedSteps s.steps

inductive AttemptTold (env : Env) (cfg : EngineConfig) (m : FlowManifest) (ctx : NodeContext)
    (s : RunStore) : Attempted → RunStore → Prop
  | stopped {s₁ : RunStore} (reason : StopReason) (detail : FailDetail) : RetriedTold m s s₁ →
      AttemptTold env cfg m ctx s (.stop (s₁.fail ctx.state reason detail).loaded)
        (s₁.fail ctx.state reason detail)
  | answered {s₁ s' : RunStore} {attempt : Nat} {out : NodeOutcome} : RetriedTold m s s₁ →
      Called env cfg ctx ((s₁.createStep ctx.node.id ctx.node.type attempt ctx.input).appendEvent
        (.stepStarted ctx.node.id s₁.steps.length attempt)) (.ok out) s' →
      AttemptTold env cfg m ctx s
        (.outcome (s₁.newStep ctx.node.id ctx.node.type attempt ctx.input) out) s'

theorem retriedTold_once {ctx : NodeContext} {attempt : Nat} {e : HandlerError}
    (hn : m.node? ctx.node.id = some ctx.node) (h : Told m s) (again : Bool)
    (hc : Called env cfg ctx (s.attempting ctx attempt) (.error e) s') :
    RetriedTold m s ((s'.completeStep s.steps.length .failed none e.message).appendEvent
      (.stepFailed ctx.node.id s.steps.length attempt e.reason e.message again)) := by
  cases hc with
  | raised _ hhuman _ =>
    set st := s.newStep ctx.node.id ctx.node.type attempt ctx.input
    have hlast := RunStore.steps_completeStep_last
      (show ((s.attempting ctx attempt).logCall ctx (.error e)).steps = s.steps ++ [st] from rfl)
      .failed none e.message
    obtain ⟨ls, hj, hl⟩ := h.lines
    have hj' := (hj.starts (.stepStarted ctx.node.id s.steps.length attempt) rfl).ends
      (.stepFailed ctx.node.id s.steps.length attempt e.reason e.message again) rfl
    refine ⟨h.step hj' hl hlast ?_ ?_ ?_, rfl, ?_⟩
    · exact ⟨rfl, fun hty => absurd hty hhuman, fun _ => ⟨rfl, rfl⟩⟩
    · refine forall_mem_append.mpr ⟨h.serial, forall_mem_singleton.mpr ?_⟩
      rintro out ⟨⟩
    · intro node hnode
      cases hn.symm.trans hnode
      rfl
    · exact (congrArg completedSteps hlast).trans
        (completedSteps_fails (by simp [FlowStepRecord.close]))

theorem attemptTold_rule (ctx : NodeContext) (hn : m.node? ctx.node.id = some ctx.node) :
    AttemptRule env cfg ctx (RetriedTold m s) (AttemptTold env cfg m ctx s) where
  answered := fun hJ hc => .answered hJ hc
  raised := fun again hJ hc => by
    have h := retriedTold_once hn hJ.told again hc
    exact ⟨h.told, h.run.trans hJ.run, h.completed.trans hJ.completed⟩
  stopped := fun reason detail hJ _ => .stopped reason detail hJ

/-! ## One activation -/

def ActivationTold (m : FlowManifest) (runInput : Obj) : Activation → RunStore → Prop
  | .stop _, s => Closing m s
  | .next state, s => LoopTold m runInput state s

section Activation

variable {runInput : Obj} {state : RunState} {ctx : NodeContext} {s₁ : RunStore} {attempt : ℕ}

/-- The store when a handler is called. -/
abbrev RunStore.opened (s : RunStore) (ctx : NodeContext) (attempt : ℕ) : RunStore :=
  (s.createStep ctx.node.id ctx.node.type attempt ctx.input).appendEvent
    (.stepStarted ctx.node.id s.steps.length attempt)

theorem LoopTold.broken {nodeId : String} {st : FlowStepRecord} {e : FlowEvent}
    (h : LoopTold m runInput state s₁) (hsteps : s'.steps = s₁.steps ++ [st])
    (hev : s'.events = s₁.events ++ [.stepStarted nodeId s₁.steps.length attempt] ++ [e])
    (he : m.hears e = .nothing) (hplain : ¬ Plain m s')
    (hended : ∀ run, s'.run = some run → run.status.terminal = true) : Broken m s' := by
  obtain ⟨ls, hj, hl⟩ := h.told.lines
  have hj' := (hj.starts (.stepStarted nodeId s₁.steps.length attempt) rfl).nothing e he
  refine ⟨⟨_, hev ▸ hj', ?_, _, mem_append_right _ (mem_singleton.mpr rfl), rfl⟩, hplain,
    hended⟩
  rw [hsteps, length_append, length_append, hl.length_eq]
  rfl

theorem LoopTold.paused (h : LoopTold m runInput state s₁) (hn : m.node? ctx.node.id = some ctx.node)
    (hhuman : ctx.node.type = .human) (output : Obj) (e : Option ℚ) :
    Ends env (ActivationTold m runInput)
      (settleOutcome m runInput ctx.node state
        (s₁.newStep ctx.node.id ctx.node.type attempt ctx.input) (.waitingHuman output e))
      (s₁.opened ctx attempt) := by
  simp only [settleOutcome, pauseRun, wp_bind, wp_completeStep, wp_updateRun, wp_appendEvent,
    wp_reload, true_and]
  have hlast := RunStore.steps_completeStep_last (s := s₁.opened ctx attempt) rfl .waitingHuman
    (some output) ""
  obtain ⟨ls, hj, hl⟩ := h.told.lines
  have hj' := (hj.starts (.stepStarted ctx.node.id s₁.steps.length attempt) rfl).nothing
    (.runPaused ctx.node.id (s₁.newStep ctx.node.id ctx.node.type attempt ctx.input).stepId
      ctx.node.prompt e) rfl
  obtain ⟨row, hrow, rfl⟩ := h.row
  refine .inl ⟨h.told.step hj' hl hlast ?_ h.told.serial ?_, fun run hr => ?_, fun run hr ht => ?_⟩
  · exact ⟨rfl, fun _ => rfl, fun hty => absurd hhuman hty⟩
  · intro node hnode
    cases hn.symm.trans hnode
    rfl
  · change Option.map _ s₁.run = _ at hr
    rw [hrow] at hr
    cases hr
    intro st node hst
    refine h.routes st node (Eq.trans (congrArg getLast? ?_) hst)
    refine Eq.symm ((congrArg completedSteps hlast).trans ?_)
    simp [completedSteps, FlowStepRecord.close]
  · change Option.map _ s₁.run = _ at hr
    rw [hrow] at hr
    cases hr
    cases ht

structure Returned (ctx : NodeContext) (out : HandlerOutput) (s s' : RunStore) : Prop where
  steps : s'.steps = s.steps
  events : s'.events = s.events
  run : s'.run = s.run
  notHuman : ctx.node.type ≠ .human
  calls : ∀ call ∈ s'.calls, call ∈ s.calls ∨ call = (ctx, .ok out)
  logged : out.output = none → (ctx, .ok out) ∈ s'.calls

theorem Called.returned_completed {out : HandlerOutput}
    (h : Called env cfg ctx s (.ok (.completed out)) s') : Returned ctx out s s' := by
  cases h with
  | conditional ht =>
    exact ⟨rfl, rfl, rfl, by simp [ht], fun call hc => .inl hc, fun hnone => (by cases hnone)⟩
  | returned _ hh _ =>
    exact ⟨rfl, rfl, rfl, hh, fun call hc => by simpa using hc, fun _ => by simp⟩

theorem LoopTold.returned {out : HandlerOutput} (hm : m.Valid) (h : LoopTold m runInput state s₁)
    (hn : m.node? ctx.node.id = some ctx.node)
    (hr : Returned ctx out (s₁.opened ctx attempt) s) :
    Ends env (ActivationTold m runInput)
      (settleOutcome m runInput ctx.node state
        (s₁.newStep ctx.node.id ctx.node.type attempt ctx.input) (.completed out)) s := by
  set st := s₁.newStep ctx.node.id ctx.node.type attempt ctx.input with hst
  have hsteps : s.steps = s₁.steps ++ [st] := hr.steps
  have hev : s.events = s₁.events ++ [.stepStarted ctx.node.id s₁.steps.length attempt] := hr.events
  obtain ⟨row, hrow, hinput⟩ := h.row
  have hrow' : s.run = some row := hr.run.trans hrow
  have htype : ∀ node, m.node? ctx.node.id = some node → node.type = ctx.node.type := by
    intro node hnode
    cases hn.symm.trans hnode
    rfl
  rcases hout : out.output with _ | output
  · simp only [settleOutcome, hout, wp_bind, wp_completeStep, true_and]
    refine wp_failRun (.inr (h.broken
      (RunStore.steps_completeStep_last hsteps _ _ _) (congrArg (· ++ [_]) hev) rfl ?_ ?_))
    · exact fun hplain => hplain.serial _ (hr.logged hout) out rfl hout
    intro run hrun
    change Option.map _ s.run = _ at hrun
    rw [hrow'] at hrun
    cases hrun
    rfl
  · simp only [settleOutcome, hout, wp_bind, wp_completeStep, true_and]
    have hlast := RunStore.steps_completeStep_last hsteps .completed (some output) ""
    have hcs : (completedSteps (s.completeStep st.stepId .completed (some output) "").steps).getLast?
        = some (st.close .completed (some output) "") := by
      rw [hlast]
      exact completedSteps_getLast? rfl
    refine wp_leaveNode (fun err reason d hsel hro => ⟨trivial, trivial, ?_⟩)
      fun next hsel => ⟨trivial, trivial, ?_⟩
    · refine .inr (h.broken hlast (congrArg (· ++ [_]) hev) rfl ?_ ?_)
      · intro hplain
        obtain ⟨next, hnext⟩ := hplain.routes
          (FlowRunRecord.fail (state.record ctx.node.id output out) reason row)
          (congrArg (Option.map _) hrow') _ ctx.node hcs hr.notHuman hn
        rw [show (FlowRunRecord.fail (state.record ctx.node.id output out) reason row).input
          = runInput from hinput] at hnext
        cases hsel.symm.trans hnext
      · intro run hrun
        change Option.map _ s.run = _ at hrun
        rw [hrow'] at hrun
        cases hrun
        rfl
    · obtain ⟨ls, hj, hl⟩ := h.told.lines
      have hheard : m.hears (.stepCompleted ctx.node.id st.stepId st.attempt next false)
          = .ends ctx.node.id attempt .completed := by
        simp [FlowManifest.hears, FlowManifest.heard, FlowManifest.isHuman, hn, hr.notHuman, hst,
          RunStore.newStep]
      have hj' := (hj.starts (.stepStarted ctx.node.id s₁.steps.length attempt) rfl).ends _ hheard
      refine ⟨h.told.step (hev ▸ hj') hl hlast ?_ ?_ htype, ?_, knownCursor_of_route hm hsel,
        _, congrArg (Option.map _) hrow', hinput⟩
      · exact ⟨rfl, fun hty => absurd hty hr.notHuman, fun _ => ⟨rfl, rfl⟩⟩
      · intro call hcall
        rcases hr.calls call hcall with hcall | rfl
        · exact h.told.serial call hcall
        · rintro out' ⟨⟩
          simp [hout]
      · intro st' node hst' _ hnode
        cases hcs.symm.trans hst'
        cases hn.symm.trans hnode
        exact ⟨next, hsel⟩

theorem LoopTold.activation (hm : m.Valid) {node : FlowNode} (h : LoopTold m runInput state s)
    (hn : m.node? node.id = some node) (budgets : FlowBudgets) (deadline : ℚ) :
    Ends env (ActivationTold m runInput)
      (activateNode cfg m runInput node state budgets deadline) s := by
  unfold activateNode
  rcases renderBindings cfg.strOf node runInput state.nodes with err | input
  · simp only [wp_bind]
    exact wp_failRun (h.fail _ _)
  simp only [wp_bind]
  refine wp_post ((attemptTold_rule _ hn).loop (by omega) (by omega) ⟨h.told, rfl, rfl⟩)
    fun att s' hatt => ?_
  cases hatt with
  | stopped reason detail hre => exact (h.keep hre.told hre.run hre.completed).fail _ _
  | @answered s₁ _ attempt out hre hc =>
    have h₁ := h.keep hre.told hre.run hre.completed
    cases out with
    | completed out => exact h₁.returned hm hn hc.returned_completed
    | waitingHuman output e =>
      cases hc with
      | human ht _ => exact h₁.paused hn ht _ e

end Activation

/-! ## The loop and the calls -/

theorem finishRun_told {ses : Session} {state : RunState} (h : LoopTold m ses.runInput state s) :
    Ends env (fun _ s' => Closing m s') (finishRun cfg m ses state) s := by
  simp only [finishRun, wp_bind, wp_clock]
  intro t _
  refine ⟨trivial, ?_⟩
  rcases ses.check cfg state t 0 with _ | v
  · simp only [wp_bind, wp_updateRun, wp_appendEvent, wp_reload, true_and]
    exact h.complete _
  · exact wp_failRun (h.fail _ _)

theorem runLoop_told (hm : m.Valid) {run : FlowRunRecord} {cap : Option FlowBudgets}
    (h : LoopTold m run.input run.state s) :
    Ends env (fun _ s' => Closing m s') (runLoop cfg m run cap) s := by
  simp only [runLoop, wp_bind, wp_updateRun, wp_clock, true_and]
  intro started _
  refine wp_walkFrom (fun _ => LoopTold m run.input) (fun _ => trivial) ?_ ?_ ?_ ?_ _ ?_
  · exact fun v hi => wp_failRun (hi.fail _ _)
  · exact fun hi _ => finishRun_told hi
  · intro n state s c hi hc hn
    obtain ⟨node, hnode⟩ := hi.known c hc
    cases hn.symm.trans hnode
  · intro n state s c node hi hc hn
    obtain rfl := FlowManifest.node?_id hn
    refine wp_post (hi.activation hm hn _ _) fun a s' ha => ⟨?_, ?_⟩
    · rintro r rfl
      exact ha
    · rintro state' rfl
      exact ha
  · obtain ⟨row, hrow, hinput⟩ := h.row
    exact ⟨⟨h.told.lines, h.told.serial, h.told.types⟩, h.routes, h.known, _,
      congrArg (Option.map _) hrow, hinput⟩

theorem startRun_told (hm : m.Valid) {input : Obj} {execute : Bool} {cap : Option FlowBudgets} :
    Ends env (fun _ s' => Closing m s') (startRun cfg m input execute cap) .empty := by
  refine startRun_ends hm (fun _ => .inl ⟨⟨⟨[], .nil, .nil⟩, fun c hc => (by cases hc),
    fun st hst => (by cases hst)⟩, fun run hr => (by cases hr), fun run hr => (by cases hr)⟩)
    fun entry _ hknown => ?_
  have htold : Told m (.started input entry cap) :=
    ⟨⟨[], Journal.nil.nothing (.runStarted entry.id) rfl, .nil⟩, fun c hc => (by cases hc),
      fun st hst => (by cases hst)⟩
  have hroutes : ∀ nodes, RoutesOn m input nodes (RunStore.started input entry cap).steps :=
    fun nodes st node hst => (by cases hst)
  refine ⟨.inl ⟨htold, fun run hr => ?_, fun run hr ht => ?_⟩,
    runLoop_told hm ⟨htold, hroutes _, hknown, _, rfl, rfl⟩⟩
  · cases hr
    exact hroutes _
  · cases hr
    cases ht


section Human

variable {w : Waiting}

/-- A human step is completed: no end is heard, neither of it nor of its routing. -/
structure Answered (m : FlowManifest) (w : Waiting) (s : RunStore) : Prop where
  told : Told m s
  routes : ∀ runInput nodes, RoutesOn m runInput nodes s.steps
  silent : ∀ i a next, m.hears (.stepCompleted w.node.id i a next false) = .nothing
  run : s.run = some w.run

theorem answered (hL : Ledger m s) (h : Told m s) (hw : w.Met m s) (output : Obj) {e : FlowEvent}
    (he : m.hears e = .nothing) :
    Answered m w ((s.completeStep w.step.stepId .completed (some output) "").appendEvent e) := by
  obtain ⟨xs, hsteps, hstat, hid, -⟩ := hL.place hw
  obtain ⟨ls, hj, hl⟩ := h.lines
  have hlast : ((s.completeStep w.step.stepId .completed (some output) "").appendEvent e).steps
      = xs ++ [w.step.close .completed (some output) ""] :=
    RunStore.steps_completeStep_last hsteps .completed (some output) ""
  have hls : List.Forall₂ Agrees (ls.take xs.length ++ ls.drop xs.length) (xs ++ [w.step]) := by
    rw [take_append_drop, ← hsteps]
    exact hl
  obtain ⟨line, hdrop⟩ : ∃ line, ls.drop xs.length = [line] := by
    refine length_eq_one_iff.mp ?_
    rw [length_drop, hl.length_eq, hsteps]
    simp
  have hagree : Agrees line w.step := by
    have := forall₂_drop_append _ _ _ (take_append_drop xs.length ls ▸ hls)
    rw [hdrop] at this
    cases this with
    | cons h _ => exact h
  -- a step that waits is a human one, since any other has ended
  have hhuman : w.step.nodeType = .human := by
    by_contra hne
    have := (hagree.other hne).2
    rw [hstat] at this
    cases this
  have hnode : m.node? w.step.nodeId = some w.node := by
    rw [hid, FlowManifest.node?_id hw.node]
    exact hw.node
  have htype := h.types w.step (by simp [hsteps]) w.node hnode
  refine ⟨⟨⟨ls, hj.nothing e he, ?_⟩, h.serial, fun st hmem => ?_⟩, fun i nodes st node hs hne => ?_,
    fun i a next => ?_, hw.row⟩
  · rw [hlast, ← take_append_drop xs.length ls, hdrop]
    exact rel_append (forall₂_take_append _ _ _ (hsteps ▸ hl))
      (.cons ⟨hagree.node, hagree.human, fun hne => absurd hhuman hne⟩ .nil)
  · rw [hlast] at hmem
    rcases mem_append.mp hmem with hmem | hmem
    · exact h.types st (by simp [hsteps, hmem])
    · rw [mem_singleton.mp hmem]
      exact h.types w.step (by simp [hsteps])
  · rw [hlast] at hs
    cases (completedSteps_getLast? rfl).symm.trans hs
    exact absurd hhuman hne
  · have : m.isHuman w.node.id = true := by
      rw [FlowManifest.isHuman, ← hid, hnode]
      simp [htype, hhuman]
    simp [FlowManifest.hears, FlowManifest.heard, this]

theorem Answered.loop {state : RunState} (h : Answered m w s) (hknown : KnownCursor m state)
    {i a : ℕ} {next : Option String} :
    LoopTold m w.run.input state ((s.updateRun { state := some state }).appendEvent
      (.stepCompleted w.node.id i a next false)) :=
  ⟨h.told.nothing rfl (h.silent i a next) rfl rfl, h.routes _ _, hknown, _,
    congrArg (Option.map _) h.run, rfl⟩

theorem Answered.fail {state : RunState} (h : Answered m w s) (hknown : KnownCursor m state)
    (reason : StopReason) (detail : FailDetail) : Closing m (s.fail state reason detail) :=
  LoopTold.fail ⟨h.told, h.routes _ _, hknown, w.run, h.run, rfl⟩ reason detail

theorem told_answer (hm : m.Valid) (hL : Ledger m s) (h : Told m s) (hw : w.Met m s) :
    AnswerRule env cfg m w s (Closing m) := by
  have ha : ∀ {output e}, e.answers = true → Answered m w (s.answer w output e) := fun {_ e} he =>
    answered hL h hw _ (by
      cases e <;> first | rfl | cases he)
  refine ⟨fun {nodes output e} reason d he => ?_, fun he hknown =>
    runLoop_told hm ((ha he).loop hknown)⟩
  have hknown : KnownCursor m (w.run.state.decided nodes w.node.id output) := hL.known _ hw.row
  exact (ha he).fail hknown _ _

end Human

def FlowCall.ByHuman : FlowCall → RunStore → Prop
  | .decide _ _, _ | .expire _, _ => True
  | _, _ => False

theorem Closing.told {w : Waiting} (h : Closing m s) (hrun : s.run = some w.run)
    (hw : w.run.status = .waitingHuman) : Told m s := by
  rcases h with h | h
  · exact h.told
  · have := h.ended _ hrun
    rw [hw] at this
    cases this

theorem FlowCall.closing (hm : m.Valid) {c : FlowCall} (hg : c.ByHuman s) (hL : Ledger m s)
    (h : Closing m s) (hc : c.Runs env cfg m s s') : Closing m s' := by
  cases c with
  | decide d actor =>
    obtain ⟨r, hc⟩ := hc
    exact hc.of_wp (decideRun_answers hm h fun w hw =>
      told_answer hm hL (h.told hw.row hw.status) hw)
  | expire moment =>
    obtain ⟨r, hc⟩ := hc
    exact hc.of_wp (expireDue_answers hm h fun w hw =>
      told_answer hm hL (h.told hw.row hw.status) hw)
  | _ => cases hg

theorem Reached.closing (hm : m.Valid) (h : Reached cfg m FlowCall.ByHuman s) : Closing m s := by
  induction h with
  | start h => exact h.of_wp (startRun_told hm)
  | call hs hg hc ih => exact FlowCall.closing hm hg (hs.ledger hm) ih hc

/-! ## The view of a run that has ended -/

structure SameStep (v : StepView) (st : FlowStepRecord) : Prop where
  node : v.stepKey = st.nodeId
  attempt : v.attempt = st.attempt
  status : v.status = st.status.text
  ended : st.status.terminal = true

structure Reconstructs (view : RunView) (run : FlowRunRecord) (steps : List FlowStepRecord) :
    Prop where
  status : view.status = run.status.text
  steps : List.Forall₂ SameStep view.steps steps

/-- The end of the run is announced as it is: a completed run has a token total that is a number,
and its status is not scrubbed. -/
def Announced (p : Publisher) (run : FlowRunRecord) (events : List FlowEvent) : Prop :=
  run.status = .completed → (run.state.tokens.toInt?).isSome ∧
    p.shown (events.length - 1) "completed" = "completed"

theorem StepStatus.text_of_terminal {st : StepStatus} (h : st.terminal = true) :
    st.text = "completed" ∨ st.text = "failed" := by
  cases st with
  | completed => exact .inl rfl
  | failed => exact .inr rfl
  | _ => cases h

theorem ended_of_sameStep {vs : List StepView} {steps : List FlowStepRecord}
    (h : List.Forall₂ SameStep vs steps) :
    ∀ v ∈ vs, v.status = "completed" ∨ v.status = "failed" := by
  induction h with
  | nil => exact fun v hv => (by cases hv)
  | @cons v st vs sts hs _ ih =>
    refine forall_mem_cons.mpr ⟨?_, ih⟩
    rw [hs.status]
    exact StepStatus.text_of_terminal hs.ended

theorem Told.steps_iff {p : Publisher} {t : StepFold} {ls : List StepLine}
    (hl : List.Forall₂ Agrees ls s.steps) (hv : Views p m s.events ls t) :
    List.Forall₂ SameStep t.steps s.steps ↔
      (∀ st ∈ s.steps, st.nodeType ≠ .human) ∧ Legible p m s.events := by
  obtain ⟨hlen, hget⟩ := forall₂_iff_get.mp hl
  constructor
  · intro h
    obtain ⟨hlen', hget'⟩ := forall₂_iff_get.mp h
    have hall := ended_of_sameStep h
    have hended : List.Forall₂ EndedAs t.steps ls := by
      refine forall₂_iff_get.mpr ⟨hlen'.trans hlen.symm, fun i h₁ h₂ => ?_⟩
      have h₃ : i < s.steps.length := hlen ▸ h₂
      exact ⟨(hget' i h₁ h₃).node.trans (hget i h₂ h₃).node.symm, hall _ (get_mem _ _)⟩
    refine ⟨fun st hst hhuman => ?_, hv.legible_of_ended hended⟩
    obtain ⟨i, rfl⟩ := mem_iff_get.mp hst
    have hi : i.val < ls.length := by omega
    exact hv.all_heard hended.length_eq hall _ (get_mem ls ⟨i.val, hi⟩)
      ((hget i.val hi i.isLt).human hhuman)
  · rintro ⟨hhuman, hleg⟩
    have hr := hv.renders hleg
    refine forall₂_iff_get.mpr ⟨hr.length.trans hlen, fun i h₁ h₂ => ?_⟩
    have hi : i < ls.length := hr.length ▸ h₁
    have hshow : Shows (t.steps.get ⟨i, h₁⟩) (ls.get ⟨i, hi⟩) :=
      hr.shows (getElem?_eq_getElem h₁) (getElem?_eq_getElem hi)
    have hagree := hget i hi h₂
    obtain ⟨hline, hterm⟩ := hagree.other (hhuman _ (get_mem _ _))
    obtain ⟨hattempt, hstatus⟩ := hshow.ended hline
    exact ⟨hshow.key.trans hagree.node, hattempt, hstatus, hterm⟩

/-- The fold of its stored envelopes gives back a run that has ended if and only if nothing in the
run escaped its events and no text of them was changed. -/
theorem reconstructs_iff (hm : m.Valid) (h : Reached cfg m FlowCall.ByHuman s)
    {run : FlowRunRecord} (hrun : s.run = some run) (hterm : run.status.terminal = true)
    {p : Publisher} {es : EventStore}
    (hstored : (es.listEvents p.runId none).map (·.envelope) = p.published m run.state s.events) :
    Reconstructs (es.reconstructRun p.runId) run s.steps ↔
      Plain m s ∧ Legible p m s.events ∧ Announced p run s.events := by
  rcases h.closing hm with hset | hbroken
  · obtain ⟨ls, hj, hl⟩ := hset.told.lines
    obtain ⟨evs, e, hev, he⟩ := hset.ended run hrun hterm
    have hsteps := Told.steps_iff hl (hj.views hstored)
    have hstatus := status_of_ends he (hev ▸ hstored)
    have hann : Announced p run s.events ↔ (run.status = .completed →
        (run.state.tokens.toInt?).isSome ∧ p.shown evs.length "completed" = "completed") := by
      simp [Announced, hev]
    constructor
    · rintro ⟨h₁, h₂⟩
      obtain ⟨hhuman, hleg⟩ := hsteps.mp h₂
      exact ⟨⟨hhuman, hset.told.serial, hset.routes⟩, hleg, hann.mpr (hstatus.mp h₁)⟩
    · rintro ⟨hplain, hleg, ha⟩
      exact ⟨hstatus.mpr (hann.mp ha), hsteps.mpr ⟨hplain.human, hleg⟩⟩
  · obtain ⟨ls, hj, hlen, l, hl, hnone⟩ := hbroken.lines
    constructor
    · rintro ⟨-, h₂⟩
      exact absurd hnone ((hj.views hstored).all_heard (h₂.length_eq.trans hlen.symm)
        (ended_of_sameStep h₂) l hl)
    · exact fun h => absurd h.1 hbroken.notPlain

def demoPublisher : Publisher where
  runId := "run"
  tenantId := "default"
  live _ := []
  eventId k := .ofList (replicate k 'e')
  occurredAt k := k
  describe _ := "failed"

def storeAll (envelopes : List EventEnvelope) : EventStore :=
  envelopes.foldl (fun es e => (es.append e 0).1) {}

def RunStore.logged (m : FlowManifest) (s : RunStore) : EventStore :=
  storeAll (s.run.elim [] fun run => demoPublisher.published m run.state s.events)

theorem reconstructs_iff_content :
    contentStore.run = some contentRun ∧
      Reconstructs ((contentStore.logged loopFlow).reconstructRun "run") contentRun
        contentStore.steps := by
  have hstored : ((contentStore.logged loopFlow).listEvents demoPublisher.runId none).map
      (·.envelope) = demoPublisher.published loopFlow contentRun.state contentStore.events := by
    decide +kernel
  have hplain : Plain loopFlow contentStore :=
    ⟨by decide +kernel, by decide +kernel,
      show ∀ r ∈ contentStore.run, RoutesOn _ _ _ _ by decide +kernel⟩
  have hreach : Reached demoConfig loopFlow FlowCall.ByHuman contentStore :=
    .start steadyOracle.exec
  have hiff := reconstructs_iff loopFlow_valid hreach contentStore_run rfl hstored
  have hshown : ∀ k text, demoPublisher.shown k text = text := fun _ _ => rfl
  have htokens : (contentRun.state.tokens.toInt?).isSome = true := by decide +kernel
  exact ⟨contentStore_run,
    hiff.mpr ⟨hplain, fun _ _ _ _ _ => hshown _ _, fun _ => ⟨htokens, hshown _ _⟩⟩⟩

/-- A decided review: the run completes, all its envelopes are stored, and the view shows the
review still running. -/
theorem decided_step_stays_running :
    Reached demoConfig reviewFlow FlowCall.ByHuman (decidedStore []) ∧
    ∃ run, (decidedStore []).run = some run ∧ run.status = .completed ∧
      (((decidedStore []).logged reviewFlow).listEvents "run" none).map (·.envelope)
        = demoPublisher.published reviewFlow run.state (decidedStore []).events ∧
      (decidedStore []).steps.map (fun st => (st.nodeId, st.status))
        = [("draft", .completed), ("review", .completed), ("publish", .completed)] ∧
      (((decidedStore []).logged reviewFlow).reconstructRun "run").steps.map
          (fun v => (v.stepKey, v.status))
        = [("draft", "completed"), ("review", "running"), ("publish", "completed")] ∧
      ¬ Reconstructs (((decidedStore []).logged reviewFlow).reconstructRun "run") run
        (decidedStore []).steps := by
  have hreach : Reached demoConfig reviewFlow FlowCall.ByHuman reviewStore :=
    .start steadyOracle.exec
  refine ⟨.call (c := .decide [] "reviewer") hreach trivial
    ⟨_, steadyOracle.exec⟩, ?_⟩
  obtain ⟨run, hrun⟩ : ∃ run, (decidedStore []).run = some run :=
    isSome_iff_exists.mp (by decide +kernel)
  have hstatus : ∀ r ∈ (decidedStore []).run, r.status = .completed := by decide +kernel
  have hstored : ∀ r ∈ (decidedStore []).run,
      (((decidedStore []).logged reviewFlow).listEvents "run" none).map (·.envelope)
        = demoPublisher.published reviewFlow r.state (decidedStore []).events := by
    decide +kernel
  have hview : (((decidedStore []).logged reviewFlow).reconstructRun "run").steps.map
        (fun v => (v.stepKey, v.status))
      = [("draft", "completed"), ("review", "running"), ("publish", "completed")] := by
    decide +kernel
  refine ⟨run, hrun, hstatus run hrun, hstored run hrun, by decide +kernel, hview, fun h => ?_⟩
  have hmem : ("review", "running") ∈
      (((decidedStore []).logged reviewFlow).reconstructRun "run").steps.map
        (fun v => (v.stepKey, v.status)) := by
    rw [hview]
    decide
  obtain ⟨v, hv, heq⟩ := mem_map.mp hmem
  have hrunning : v.status = "running" := congrArg Prod.snd heq
  rcases ended_of_sameStep h.steps v hv with h' | h' <;>
    exact absurd (hrunning.symm.trans h') (by decide)

end AutoDev.Flows
