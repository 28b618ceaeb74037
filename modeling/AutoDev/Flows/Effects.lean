/-
# `AutoDev.Flows.Effects` — what the engine's programs do to the store

One inversion lemma for each piece of the engine.  It says once which rows a
piece appends, how it leaves the run row and which handler calls it makes;
everything that is proved about whole runs goes through these lemmas, and the
programs are not unfolded again.

An activation has five ends (`ActivationEffect`): the run failed before the
node produced an output, it paused, the node completed and routing failed, or
the node completed and the run goes on.  In every one of them the steps
appended before the last are failed attempts of the same node.
-/
import AutoDev.Flows.Human

namespace AutoDev.Flows

open Prog List RunStore

/-! ## Small programs -/

/-- The answer of `reload`. -/
def RunStore.loaded (s : RunStore) : RunResult :=
  match s.run with
  | some r => .ok r
  | none => .error .vanished

variable (state : RunState)

def FlowRunRecord.fail (reason : StopReason) (r : FlowRunRecord) : FlowRunRecord :=
  { r with status := .failed, stopReason := reason, state := state }

def FlowRunRecord.checkpoint (r : FlowRunRecord) : FlowRunRecord :=
  { r with state := state }

def FlowRunRecord.wait (p : Pause) (r : FlowRunRecord) : FlowRunRecord :=
  { r with status := .waitingHuman, state := { state with pause := some p } }

def FlowRunRecord.complete (output : Obj) (r : FlowRunRecord) : FlowRunRecord :=
  { r with status := .completed, stopReason := .completed, state := state, output := some output }

namespace RunStore

/-- The two writes of `_fail_run`. -/
def fail (s : RunStore) (state : RunState) (reason : StopReason) (detail : FailDetail) :
    RunStore :=
  (s.updateRun { status := some .failed, stopReason := some reason, state := some state }).appendEvent
    (.runFailed reason detail)

section

variable (s : RunStore) (st : RunState) (r : StopReason) (d : FailDetail)

@[simp] theorem run_fail : (s.fail st r d).run = s.run.map (FlowRunRecord.fail st r) := rfl

@[simp] theorem steps_fail : (s.fail st r d).steps = s.steps := rfl

@[simp] theorem routed_fail : routedStepIds (s.fail st r d).events = routedStepIds s.events := by
  simp [fail, routedStepIds, FlowEvent.completedStep?]

end

/-- The two writes that leave a completed node. -/
def leave (s : RunStore) (node : FlowNode) (step : FlowStepRecord) (state : RunState)
    (reconciled : Bool) : RunStore :=
  (s.updateRun { state := some state }).appendEvent
    (.stepCompleted node.id step.stepId step.attempt state.cursor reconciled)

section

variable (s : RunStore) (n : FlowNode) (t : FlowStepRecord) (st : RunState) (b : Bool)

@[simp] theorem run_leave : (s.leave n t st b).run = s.run.map (FlowRunRecord.checkpoint st) := rfl

@[simp] theorem routed_leave :
    routedStepIds (s.leave n t st b).events = routedStepIds s.events ++ [t.stepId] := by
  simp [leave, routedStepIds, FlowEvent.completedStep?]

end

end RunStore

section

variable {env : Env} {I : RunStore → Prop} {s : RunStore}

@[simp] theorem wp_reload {Q : RunResult → RunStore → Prop} :
    wp (Sem env) I Q reload s ↔ I s ∧ Q s.loaded s := by
  simp only [reload, wp_bind, wp_getRun, RunStore.loaded]
  cases s.run <;> simp

theorem wp_failRun {Q : RunResult → RunStore → Prop} {st : RunState} {r : StopReason}
    {d : FailDetail} (hQ : Q (s.fail st r d).loaded (s.fail st r d))
    (hI : I (s.updateRun { status := some .failed, stopReason := some r, state := some st })
      := by exact trivial) (hI' : I (s.fail st r d) := by exact trivial) :
    wp (Sem env) I Q (failRun st r d) s := by
  simp only [failRun, wp_bind, wp_updateRun, wp_appendEvent, wp_reload]
  exact ⟨hI, hI', hI', hQ⟩

theorem wp_leaveNode {Q : Activation → RunStore → Prop} {m : FlowManifest} {i : Obj}
    {node : FlowNode} {step : FlowStepRecord} {st : RunState} {b : Bool}
    (hfail : ∀ err reason d, selectNextNode m node (evalState i st.nodes) = .error err →
      reason.routing = true →
      I (s.updateRun { status := some .failed, stopReason := some reason, state := some st }) ∧
      I (s.fail st reason d) ∧ Q (.stop (s.fail st reason d).loaded) (s.fail st reason d))
    (hnext : ∀ next, selectNextNode m node (evalState i st.nodes) = .ok next →
      I (s.updateRun { state := some { st with cursor := next } }) ∧
      I (s.leave node step { st with cursor := next } b) ∧
      Q (.next { st with cursor := next }) (s.leave node step { st with cursor := next } b)) :
    wp (Sem env) I Q (leaveNode m i node step st b) s := by
  unfold leaveNode
  rcases hsel : selectNextNode m node (evalState i st.nodes) with (e | j) | next
  · obtain ⟨h₁, h₂, h₃⟩ := hfail _ .predicateError (.routing node.id e) hsel rfl
    simp only [wp_bind]
    exact wp_failRun h₃ h₁ h₂
  · obtain ⟨h₁, h₂, h₃⟩ := hfail _ .noRoute (.noRoute j) hsel rfl
    simp only [wp_bind]
    exact wp_failRun h₃ h₁ h₂
  · simp only [wp_bind, wp_updateRun, wp_appendEvent]
    exact hnext next hsel

/-! ## Handlers -/

/-- The expiry a human node computes. -/
def Expiry (env : Env) (node : FlowNode) (e : Option ℚ) : Prop :=
  match node.timeoutSec with
  | none => e = none
  | some t => ∃ current, env.now current ∧ e = some (current + (t : ℚ))

inductive Called (env : Env) (cfg : EngineConfig) (ctx : NodeContext) (s : RunStore) :
    Except HandlerError NodeOutcome → RunStore → Prop
  | conditional : ctx.node.type = .conditional →
      Called env cfg ctx s (.ok (.completed { output := some [] })) s
  | human {e : Option ℚ} : ctx.node.type = .human → Expiry env ctx.node e →
      Called env cfg ctx s (.ok (.waitingHuman (humanRequest cfg ctx.node e) e)) s
  | returned {out : HandlerOutput} : ctx.node.type ≠ .conditional → ctx.node.type ≠ .human →
      env.invoke ctx (.ok out) →
      Called env cfg ctx s (.ok (.completed out)) (s.logCall ctx (.ok out))
  | raised {e : HandlerError} : ctx.node.type ≠ .conditional → ctx.node.type ≠ .human →
      env.invoke ctx (.error e) → Called env cfg ctx s (.error e) (s.logCall ctx (.error e))

theorem wp_callHandler {Q : Except HandlerError NodeOutcome → RunStore → Prop} {cfg : EngineConfig}
    {ctx : NodeContext} (hs : I s) (h : ∀ r s', Called env cfg ctx s r s' → I s' ∧ Q r s') :
    wp (Sem env) I Q (callHandler cfg ctx) s := by
  unfold callHandler
  cases ht : ctx.node.type with
  | conditional => exact (h _ _ (.conditional ht)).2
  | human =>
    cases hto : ctx.node.timeoutSec with
    | none => exact (h _ _ (.human ht (by simp [Expiry, hto]))).2
    | some t =>
      simp only [wp_bind, wp_now, pure_eq, wp_ret]
      exact fun n hn => ⟨hs, (h _ _ (.human ht (by simpa [Expiry, hto] using hn))).2⟩
  | agent | skill | tool | subflow | map =>
    have h₁ : ctx.node.type ≠ .conditional := by simp [ht]
    have h₂ : ctx.node.type ≠ .human := by simp [ht]
    simp only [wp_bind, wp_invoke]
    rintro (e | out) hr
    · exact h _ _ (.raised h₁ h₂ hr)
    · exact h _ _ (.returned h₁ h₂ hr)

end

/-! ## Attempts -/

section Complete

variable {env : Env}

/-- Complete runs: nothing is asked of the states in between. -/
abbrev Ends (env : Env) {α : Type} (Q : α → RunStore → Prop) (p : P α) (s : RunStore) : Prop :=
  wp (Sem env) (fun _ => True) Q p s

/-- Failed attempts: they append failed steps and calls that raised. -/
structure Retried (ctx : NodeContext) (s s' : RunStore) : Prop where
  run : s'.run = s.run
  routed : routedStepIds s'.events = routedStepIds s.events
  steps : ∃ fs, s'.steps = s.steps ++ fs ∧ ∀ f ∈ fs, f.status = .failed
  calls : ∃ es : List HandlerError, s'.calls = s.calls ++ es.map fun e => (ctx, .error e)

theorem Retried.refl (ctx : NodeContext) (s : RunStore) : Retried ctx s s :=
  ⟨rfl, rfl, ⟨[], by simp⟩, ⟨[], by simp⟩⟩

theorem Retried.trans {ctx : NodeContext} {s₁ s₂ s₃ : RunStore} (h : Retried ctx s₁ s₂)
    (h' : Retried ctx s₂ s₃) : Retried ctx s₁ s₃ := by
  obtain ⟨r₁, e₁, ⟨fs₁, hs₁, hf₁⟩, es₁, hc₁⟩ := h
  obtain ⟨r₂, e₂, ⟨fs₂, hs₂, hf₂⟩, es₂, hc₂⟩ := h'
  exact ⟨r₂.trans r₁, e₂.trans e₁,
    ⟨fs₁ ++ fs₂, by simp [hs₂, hs₁], forall_mem_append.mpr ⟨hf₁, hf₂⟩⟩,
    ⟨es₁ ++ es₂, by simp [hc₂, hc₁]⟩⟩

inductive AttemptEffect (env : Env) (cfg : EngineConfig) (ctx : NodeContext) (s : RunStore) :
    Attempted → RunStore → Prop
  | stopped {s₁ s' : RunStore} (reason : StopReason) : Retried ctx s s₁ →
      reason.routing = false → s'.steps = s₁.steps → s'.calls = s₁.calls →
      s'.run = s₁.run.map (FlowRunRecord.fail ctx.state reason) →
      routedStepIds s'.events = routedStepIds s₁.events →
      AttemptEffect env cfg ctx s (.stop s'.loaded) s'
  | answered {s₁ : RunStore} (s₂ : RunStore) {s' : RunStore} {attempt : Nat} {out : NodeOutcome} :
      Retried ctx s s₁ →
      s₂.steps = s₁.steps ++ [s₁.newStep ctx.node.id ctx.node.type attempt ctx.input] →
      s₂.run = s₁.run → s₂.calls = s₁.calls →
      routedStepIds s₂.events = routedStepIds s₁.events → Called env cfg ctx s₂ (.ok out) s' →
      AttemptEffect env cfg ctx s
        (.outcome (s₁.newStep ctx.node.id ctx.node.type attempt ctx.input) out) s'

variable {cfg : EngineConfig} {s s' : RunStore} {m : FlowManifest} {ses : Session}
    {Q : RunResult → RunStore → Prop} {state : RunState} {cap : Option FlowBudgets}

theorem retried_once {ctx : NodeContext} {attempt : Nat} {e : HandlerError} {ev : FlowEvent}
    (ev' : FlowEvent) (hev : ev.completedStep? = none) (hev' : ev'.completedStep? = none)
    (hc : Called env cfg ctx ((s.createStep ctx.node.id ctx.node.type attempt ctx.input).appendEvent
      ev) (.error e) s') :
    Retried ctx s ((s'.completeStep s.steps.length .failed none e.message).appendEvent ev') := by
  cases hc with
  | raised _ _ hi =>
    set st := s.newStep ctx.node.id ctx.node.type attempt ctx.input with hst
    have hlast : (((s.createStep ctx.node.id ctx.node.type attempt ctx.input).appendEvent
        ev).logCall ctx (.error e)).steps = s.steps ++ [st] := rfl
    exact ⟨by simp, by simp [routedStepIds, hev, hev'],
      ⟨_, steps_completeStep_last hlast .failed none e.message,
        by simp [FlowStepRecord.close]⟩,
      ⟨[e], by simp⟩⟩

theorem HandlerError.reason_ne (e : HandlerError) : e.reason ≠ .bindingError := by
  cases e <;> simp [HandlerError.reason]

theorem HandlerError.reason_routing (e : HandlerError) : e.reason.routing = false := by
  cases e <;> rfl

abbrev RunStore.attempting (s : RunStore) (ctx : NodeContext) (attempt : Nat) : RunStore :=
  (s.createStep ctx.node.id ctx.node.type attempt ctx.input).appendEvent
    (.stepStarted ctx.node.id s.steps.length attempt)

theorem wp_attemptLoop {Q : Attempted → RunStore → Prop} {policy : FlowRetryPolicy}
    {ctx : NodeContext} {left attempt : Nat}
    (h₁ : I (s.createStep ctx.node.id ctx.node.type attempt ctx.input))
    (h₂ : I (s.attempting ctx attempt))
    (hok : ∀ out s', Called env cfg ctx (s.attempting ctx attempt) (.ok out) s' →
      I s' ∧ Q (.outcome (s.newStep ctx.node.id ctx.node.type attempt ctx.input) out) s')
    (herr : ∀ e s', Called env cfg ctx (s.attempting ctx attempt) (.error e) s' →
      I s' ∧ I (s'.completeStep s.steps.length .failed none e.message) ∧ ∀ again s₁,
        s₁ = (s'.completeStep s.steps.length .failed none e.message).appendEvent
          (.stepFailed ctx.node.id s.steps.length attempt e.reason e.message again) →
        I s₁ ∧ (∀ reason d, reason.routing = false → reason ≠ .bindingError →
            wp (Sem env) I (fun r => Q (.stop r)) (failRun ctx.state reason d) s₁) ∧
          (attempt < policy.maxAttempts →
            wp (Sem env) I Q (attemptLoop cfg policy ctx left (attempt + 1)) s₁)) :
    wp (Sem env) I Q (attemptLoop cfg policy ctx (left + 1) attempt) s := by
  simp only [attemptLoop, wp_bind, wp_createStep, wp_appendEvent]
  refine ⟨h₁, h₂, wp_callHandler h₂ fun r s' hc => ?_⟩
  cases r with
  | ok out => exact hok out s' hc
  | error e =>
    obtain ⟨h₃, h₄, h⟩ := herr e s' hc
    obtain ⟨h₅, hfail, hnext⟩ := h _ _ rfl
    simp only [wp_bind, wp_completeStep, wp_appendEvent]
    refine ⟨h₃, h₄, h₅, ?_⟩
    split
    · exact wp_bind.mpr (hfail _ _ e.reason_routing e.reason_ne)
    rename_i hw
    simp only [wp_bind, wp_clock]
    intro t _
    refine ⟨h₅, ?_⟩
    split
    · exact wp_bind.mpr (hfail _ _ rfl (by simp))
    · simp only [wp_bind, wp_sleep]
      exact ⟨h₅, hnext (by simp at hw; exact hw.2)⟩

/-- What an induction over the attempts asks: an attempt that raised keeps `J`, and from `J` both
ends of the loop give `Q`. -/
structure AttemptRule (env : Env) (cfg : EngineConfig) (ctx : NodeContext) (J : RunStore → Prop)
    (Q : Attempted → RunStore → Prop) : Prop where
  answered : ∀ {s s' : RunStore} {attempt : Nat} {out : NodeOutcome}, J s →
    Called env cfg ctx (s.attempting ctx attempt) (.ok out) s' →
    Q (.outcome (s.newStep ctx.node.id ctx.node.type attempt ctx.input) out) s'
  raised : ∀ {s s' : RunStore} {attempt : Nat} {e : HandlerError} (again : Bool), J s →
    Called env cfg ctx (s.attempting ctx attempt) (.error e) s' →
    J ((s'.completeStep s.steps.length .failed none e.message).appendEvent
      (.stepFailed ctx.node.id s.steps.length attempt e.reason e.message again))
  stopped : ∀ {s : RunStore} (reason : StopReason) (detail : FailDetail), J s →
    reason.routing = false →
    Q (.stop (s.fail ctx.state reason detail).loaded) (s.fail ctx.state reason detail)

/-- The attempt loop.  The two counters always add up to one more than the attempts allowed,
so the loop does not run out before the last attempt is refused a retry. -/
theorem AttemptRule.loop {policy : FlowRetryPolicy} {ctx : NodeContext} {J : RunStore → Prop}
    {Q : Attempted → RunStore → Prop} (rule : AttemptRule env cfg ctx J Q) :
    ∀ {left attempt : Nat} {s : RunStore}, left + attempt = max policy.maxAttempts 1 + 1 →
      1 ≤ left → J s → Ends env Q (attemptLoop cfg policy ctx left attempt) s
  | 0, _, _, _, h, _ => by omega
  | left + 1, attempt, s, hsum, _, hJ => by
    refine wp_attemptLoop trivial trivial (fun out s' hc => ⟨trivial, rule.answered hJ hc⟩)
      fun e s' hc => ⟨trivial, trivial, fun again s₁ hs₁ => ?_⟩
    subst hs₁
    have hre := rule.raised again hJ hc
    exact ⟨trivial, fun _ _ hr _ => wp_failRun (rule.stopped _ _ hre hr),
      fun _ => rule.loop (by omega) (by omega) hre⟩

theorem attemptEffect_rule (ctx : NodeContext) :
    AttemptRule env cfg ctx (Retried ctx s) (AttemptEffect env cfg ctx s) where
  answered := fun hJ hc => by
    refine .answered _ hJ ?_ ?_ ?_ ?_ hc
    · rfl
    · rfl
    · rfl
    · simp [routedStepIds, FlowEvent.completedStep?]
  raised := fun _ hJ hc => hJ.trans (retried_once _ rfl rfl hc)
  stopped := fun reason _ hJ hr =>
    .stopped reason hJ hr rfl rfl rfl (routed_fail _ _ _ _)

/-! ## Activations -/

/-- The step of an activation once it has left status `running`. -/
def FlowStepRecord.Of (node : FlowNode) (input : Obj) (status : StepStatus) (output : Option Obj)
    (st : FlowStepRecord) : Prop :=
  st.nodeId = node.id ∧ st.input = input ∧ st.status = status ∧ st.output = output

structure ActivationArgs where
  cfg : EngineConfig
  m : FlowManifest
  runInput : Obj
  node : FlowNode
  state : RunState
  budgets : FlowBudgets
  deadline : ℚ

def ActivationArgs.ctx (a : ActivationArgs) (input : Obj) : NodeContext :=
  ⟨a.node, input, a.state, a.budgets, a.deadline⟩

def ActivationArgs.prog (a : ActivationArgs) : P Activation :=
  activateNode a.cfg a.m a.runInput a.node a.state a.budgets a.deadline

structure Completed (env : Env) (a : ActivationArgs) (s s' : RunStore) (input : Obj)
    (st : FlowStepRecord) (output : Obj) (out : HandlerOutput) : Prop where
  rendered : renderBindings a.cfg.strOf a.node a.runInput a.state.nodes = .ok input
  notHuman : a.node.type ≠ .human
  serialized : out.output = some output
  step : st.Of a.node input .completed (some output)
  steps : ∃ fs, s'.steps = s.steps ++ fs ++ [st] ∧ ∀ f ∈ fs, f.status = .failed
  calls : ∃ es : List HandlerError,
    (a.node.type = .conditional ∧ out = { output := some [] } ∧
      s'.calls = s.calls ++ es.map (fun e => (a.ctx input, .error e))) ∨
    (a.node.type ≠ .conditional ∧ env.invoke (a.ctx input) (.ok out) ∧
      s'.calls = s.calls ++ es.map (fun e => (a.ctx input, .error e)) ++ [(a.ctx input, .ok out)])

theorem Completed.completedSteps {a : ActivationArgs} {input output : Obj} {st : FlowStepRecord}
    {out : HandlerOutput} (h : Completed env a s s' input st output out) :
    completedSteps s'.steps = completedSteps s.steps ++ [st] := by
  obtain ⟨fs, hfs, hfail⟩ := h.steps
  rw [hfs, completedSteps_append, completedSteps_fails hfail]
  simp [AutoDev.Flows.completedSteps, h.step.2.2.1]

inductive ActivationEffect (env : Env) (a : ActivationArgs) (s : RunStore) :
    Activation → RunStore → Prop
  | failed {s' : RunStore} (reason : StopReason) :
      (∃ fs, s'.steps = s.steps ++ fs ∧ ∀ f ∈ fs, f.status = .failed) →
      reason.routing = false → s'.run = s.run.map (FlowRunRecord.fail a.state reason) →
      routedStepIds s'.events = routedStepIds s.events →
      ActivationEffect env a s (.stop s'.loaded) s'
  | paused {s' : RunStore} {input : Obj} (st : FlowStepRecord) {e : Option ℚ} :
      renderBindings a.cfg.strOf a.node a.runInput a.state.nodes = .ok input →
      a.node.type = .human → Expiry env a.node e →
      st.Of a.node input .waitingHuman (some (humanRequest a.cfg a.node e)) →
      (∃ fs, s'.steps = s.steps ++ fs ++ [st] ∧ ∀ f ∈ fs, f.status = .failed) →
      s'.run = s.run.map (FlowRunRecord.wait a.state ⟨a.node.id, st.stepId, e⟩) →
      routedStepIds s'.events = routedStepIds s.events →
      (∃ es : List HandlerError, s'.calls = s.calls ++ es.map fun e => (a.ctx input, .error e)) →
      ActivationEffect env a s (.stop s'.loaded) s'
  | misrouted {s' : RunStore} {input : Obj} {st : FlowStepRecord} {output : Obj}
      {out : HandlerOutput} {err : RouteError} {reason : StopReason} :
      Completed env a s s' input st output out →
      selectNextNode a.m a.node (evalState a.runInput (a.state.record a.node.id output out).nodes)
        = .error err → reason.routing = true →
      s'.run = s.run.map (FlowRunRecord.fail (a.state.record a.node.id output out) reason) →
      routedStepIds s'.events = routedStepIds s.events →
      ActivationEffect env a s (.stop s'.loaded) s'
  | advanced {s' : RunStore} {input : Obj} {st : FlowStepRecord} {output : Obj}
      {out : HandlerOutput} {next : Option String} :
      Completed env a s s' input st output out →
      selectNextNode a.m a.node (evalState a.runInput (a.state.record a.node.id output out).nodes)
        = .ok next →
      s'.run = s.run.map (FlowRunRecord.checkpoint
        { a.state.record a.node.id output out with cursor := next }) →
      routedStepIds s'.events = routedStepIds s.events ++ [st.stepId] →
      ActivationEffect env a s (.next { a.state.record a.node.id output out with cursor := next }) s'

theorem completed_of_answered {a : ActivationArgs} {s₁ s₂ s₃ : RunStore} {input : Obj}
    {attempt : Nat} {output : Obj} {out : HandlerOutput}
    (hren : renderBindings a.cfg.strOf a.node a.runInput a.state.nodes = .ok input)
    (hre : Retried (a.ctx input) s s₁)
    (hsteps : s₂.steps = s₁.steps ++ [s₁.newStep a.node.id a.node.type attempt input])
    (hcalls : s₂.calls = s₁.calls)
    (hc : Called env a.cfg (a.ctx input) s₂ (.ok (.completed out)) s₃)
    (hout : out.output = some output)
    (hs' : s'.steps = (s₃.completeStep (s₁.newStep a.node.id a.node.type attempt input).stepId
      .completed (some output) "").steps) (hc' : s'.calls = s₃.calls) :
    Completed env a s s' input
      ((s₁.newStep a.node.id a.node.type attempt input).close .completed (some output) "")
      output out := by
  obtain ⟨-, -, ⟨fs, hfs, hfail⟩, es, hes⟩ := hre
  have hs₃ : s₃.steps = s₂.steps := by cases hc <;> rfl
  refine ⟨hren, ?_, hout, ⟨rfl, rfl, rfl, rfl⟩, ⟨fs, ?_, hfail⟩, es, ?_⟩
  · intro hh
    cases hc with
    | conditional h => exact absurd (h.symm.trans hh) (by simp)
    | returned _ h => exact h hh
  · rw [hs', steps_completeStep_last (hs₃.trans hsteps), hfs]
  · cases hc with
    | conditional h => exact Or.inl ⟨h, rfl, by rw [hc', hcalls, hes]⟩
    | returned h _ hi => exact Or.inr ⟨h, hi, by rw [hc', logCall_calls, hcalls, hes]⟩

/-- What a call returned, if it could be stored. -/
def answer? : NodeContext × HandlerResult → Option (NodeContext × HandlerOutput)
  | (ctx, .ok out) => if out.output.isSome then some (ctx, out) else none
  | (_, .error _) => none

def answeredCalls (calls : List (NodeContext × HandlerResult)) :
    List (NodeContext × HandlerOutput) := calls.filterMap answer?

section

variable (calls : List (NodeContext × HandlerResult)) (ctx : NodeContext)

theorem answeredCalls_errors (es : List HandlerError) :
    answeredCalls (calls ++ es.map fun e => (ctx, .error e)) = answeredCalls calls := by
  have hnil : (es.map fun e => (ctx, Except.error e)).filterMap answer? = [] := by
    rw [filterMap_eq_nil_iff]
    exact forall_mem_map.mpr fun _ _ => rfl
  rw [answeredCalls, filterMap_append, hnil, append_nil]
  rfl

variable {out : HandlerOutput}

theorem answeredCalls_stored {o : Obj} (h : out.output = some o) :
    answeredCalls (calls ++ [(ctx, .ok out)]) = answeredCalls calls ++ [(ctx, out)] := by
  simp [answeredCalls, answer?, h]

theorem answeredCalls_unstorable (h : out.output = none) :
    answeredCalls (calls ++ [(ctx, .ok out)]) = answeredCalls calls := by
  simp [answeredCalls, answer?, h]

end

theorem Retried.answered {ctx : NodeContext} (h : Retried ctx s s') :
    answeredCalls s'.calls = answeredCalls s.calls := by
  obtain ⟨es, hes⟩ := h.calls
  rw [hes, answeredCalls_errors]

theorem activateNode_ends (a : ActivationArgs) (s : RunStore) :
    Ends env (fun r s' => ActivationEffect env a s r s' ∧
      (answeredCalls s'.calls = answeredCalls s.calls ∨
        ∃ st, completedSteps s'.steps = completedSteps s.steps ++ [st])) a.prog s := by
  unfold ActivationArgs.prog activateNode
  rcases hren : renderBindings a.cfg.strOf a.node a.runInput a.state.nodes with err | input
  · simp only [wp_bind]
    exact wp_failRun ⟨.failed .bindingError ⟨[], by simp, by simp⟩ rfl rfl
      (routed_fail _ _ _ _), .inl rfl⟩
  simp only [wp_bind]
  refine wp_post ((attemptEffect_rule _).loop (by omega) (by omega) (.refl _ _)) fun att s' hatt => ?_
  cases hatt with
  | stopped reason hre hrou hst hca hrun hev =>
    refine ⟨?_, .inl ((congrArg answeredCalls hca).trans hre.answered)⟩
    obtain ⟨hr, he, ⟨fs, hfs, hfail⟩, -⟩ := hre
    exact .failed reason ⟨fs, by rw [hst, hfs], hfail⟩ hrou (by rw [hrun, hr]) (hev.trans he)
  | @answered s₁ s₂ _ attempt out hre hsteps hrun hcalls hev hc =>
    have hs' : s'.steps = s₂.steps := by cases hc <;> rfl
    have he' : routedStepIds s'.events = routedStepIds s.events := by
      have : s'.events = s₂.events := by cases hc <;> rfl
      rw [this, hev, hre.routed]
    have hr' : s'.run = s.run := by cases hc <;> simp [hrun, hre.run]
    have hlast := hs'.trans hsteps
    have hans := (congrArg answeredCalls hcalls).trans hre.answered
    cases out with
    | waitingHuman o e =>
      obtain ⟨-, -, ⟨fs, hfs, hfail⟩, es, hes⟩ := hre
      cases hc with
      | human ht hex =>
        simp only [settleOutcome, pauseRun, wp_bind, wp_completeStep, wp_updateRun,
          wp_appendEvent, wp_reload, true_and]
        refine ⟨.paused ((s₁.newStep a.node.id a.node.type attempt input).close .waitingHuman
          (some (humanRequest a.cfg a.node e)) "") hren ht hex ⟨rfl, rfl, rfl, rfl⟩
          ⟨fs, ?_, hfail⟩ (congrArg (Option.map _) hr') ?_ ⟨es, hcalls.trans hes⟩, .inl hans⟩
        · exact (steps_completeStep_last hlast _ _ _).trans (by rw [hfs])
        · simpa [routedStepIds, FlowEvent.completedStep?] using he'
    | completed out =>
      rcases hout : out.output with _ | output
      · simp only [settleOutcome, hout, wp_bind, wp_completeStep, true_and]
        obtain ⟨-, -, ⟨fs, hfs, hfail⟩, -⟩ := hre
        refine wp_failRun ⟨.failed .nodeFailed
          ⟨fs ++ [(s₁.newStep a.node.id a.node.type attempt input).close .failed none
            "node output is not JSON-serializable"], ?_, ?_⟩ rfl (congrArg (Option.map _) hr')
          ((routed_fail _ _ _ _).trans he'), .inl ?_⟩
        · exact (steps_completeStep_last hlast _ _ _).trans (by rw [hfs]; simp)
        · exact forall_mem_append.mpr ⟨hfail, forall_mem_singleton.mpr rfl⟩
        · change answeredCalls s'.calls = _
          cases hc with
          | conditional _ => cases hout
          | returned _ _ _ =>
            rw [logCall_calls, answeredCalls_unstorable _ _ hout]
            exact hans
      · simp only [settleOutcome, hout, wp_bind, wp_completeStep, true_and]
        have hcomp : ∀ {s₄ : RunStore}, _ → _ → Completed env a s s₄ input _ output out :=
          fun hs₄ hc₄ => completed_of_answered hren hre hsteps hcalls hc hout hs₄ hc₄
        refine wp_leaveNode (fun err reason d hsel hro => ⟨trivial, trivial, ?_⟩)
          fun next hsel => ⟨trivial, trivial, ?_⟩
        · exact ⟨.misrouted (hcomp rfl rfl) hsel hro (congrArg (Option.map _) hr')
            ((routed_fail _ _ _ _).trans he'), .inr ⟨_, (hcomp rfl rfl).completedSteps⟩⟩
        · exact ⟨.advanced (hcomp rfl rfl) hsel (congrArg (Option.map _) hr')
            ((routed_leave _ _ _ _ _).trans (congrArg (· ++ [_]) he')),
            .inr ⟨_, (hcomp rfl rfl).completedSteps⟩⟩

theorem activateNode_effect (a : ActivationArgs) (s : RunStore) :
    Ends env (ActivationEffect env a s) a.prog s :=
  wp_post (activateNode_ends a s) fun _ _ h => h.1

/-! ## The run loop -/

def RunStore.complete (s : RunStore) (state : RunState) (output : Obj) : RunStore :=
  (s.updateRun { status := some .completed, stopReason := some .completed, state := some state,
                 output := some output }).appendEvent (.runCompleted output)

abbrev Session.activation (cfg : EngineConfig) (m : FlowManifest) (ses : Session) (node : FlowNode)
    (state : RunState) : ActivationArgs :=
  ⟨cfg, m, ses.runInput, node, state, ses.budgets, ses.deadline⟩

structure LoopRule (env : Env) (cfg : EngineConfig) (m : FlowManifest) (ses : Session)
    (inv : RunState → RunStore → Prop) (Q : RunResult → RunStore → Prop) : Prop where
  known : ∀ {state s c}, inv state s → state.cursor = some c → ∃ node, m.node? c = some node
  budget : ∀ {state s} v, inv state s →
    Q (s.fail state .budgetExhausted (.budget v)).loaded (s.fail state .budgetExhausted (.budget v))
  complete : ∀ {state s} t, inv state s → state.cursor = none → ses.check cfg state t 0 = none →
    Q (s.complete state (finalOutput m state.nodes)).loaded
      (s.complete state (finalOutput m state.nodes))
  stop : ∀ {state s c node r s'}, inv state s → state.cursor = some c → m.node? c = some node →
    ActivationEffect env (ses.activation cfg m node state) s (.stop r) s' → Q r s'
  next : ∀ {state s c node state' s'}, inv state s → state.cursor = some c →
    m.node? c = some node →
    ActivationEffect env (ses.activation cfg m node state) s (.next state') s' → inv state' s'

variable {inv : RunState → RunStore → Prop} {run : FlowRunRecord} {next : Option String}
    {node : FlowNode}

theorem finishRun_ends (h : LoopRule env cfg m ses inv Q) (hi : inv state s)
    (hc : state.cursor = none) : Ends env Q (finishRun cfg m ses state) s := by
  simp only [finishRun, wp_bind, wp_clock]
  intro t _
  refine ⟨trivial, ?_⟩
  rcases hv : ses.check cfg state t 0 with _ | v
  · simp only [wp_bind, wp_updateRun, wp_appendEvent, wp_reload, true_and]
    exact h.complete t hi hc hv
  · exact wp_failRun (h.budget v hi)

theorem wp_walkFrom {I : RunStore → Prop} (inv : Nat → RunState → RunStore → Prop)
    (hI : ∀ {n state s}, inv n state s → I s) (hbudget : ∀ {n state s} v, inv n state s →
      wp (Sem env) I Q (failRun state .budgetExhausted (.budget v)) s)
    (hfinish : ∀ {n state s}, inv n state s → state.cursor = none →
      wp (Sem env) I Q (finishRun cfg m ses state) s)
    (hlost : ∀ {n state s c}, inv n state s → state.cursor = some c → m.node? c = none →
      Q (.error (.unknownNode c)) s)
    (hact : ∀ {n state s c node}, inv (n + 1) state s → state.cursor = some c →
      m.node? c = some node → wp (Sem env) I
        (fun a s' => (∀ r, a = .stop r → Q r s') ∧ ∀ state', a = .next state' → inv n state' s')
        (ses.activation cfg m node state).prog s) :
    ∀ (left : Nat) {state : RunState} {s : RunStore}, inv left state s →
      wp (Sem env) I Q (walkFrom cfg m ses left state) s
  | left, state, s, hi => by
    unfold walkFrom
    rcases hc : state.cursor with _ | c
    · exact hfinish hi hc
    simp only [wp_bind, wp_clock]
    intro t _
    refine ⟨hI hi, ?_⟩
    rcases hv : ses.check cfg state t (cfg.maxSteps - left) with _ | v
    · rcases hn : m.node? c with _ | node
      · exact hlost hi hc hn
      cases left with
      | zero => exact absurd (budgetViolation_eq_none.mp hv).2.2.2 (by simp)
      | succ left =>
        simp only [wp_bind]
        refine wp_post (hact hi hc hn) fun a s' ha => ?_
        cases a with
        | stop r => exact ha.1 r rfl
        | next state' =>
          exact wp_walkFrom inv hI hbudget hfinish hlost hact left (ha.2 state' rfl)
    · exact hbudget v hi

theorem walkFrom_ends (h : LoopRule env cfg m ses inv Q) (left : Nat) (hi : inv state s) :
    Ends env Q (walkFrom cfg m ses left state) s := by
  refine wp_walkFrom (fun _ => inv) (fun _ => trivial) ?_ ?_ ?_ ?_ left hi
  · exact fun v hi => wp_failRun (h.budget v hi)
  · exact fun hi hc => finishRun_ends h hi hc
  · intro n state s c hi hc hn
    obtain ⟨node, hnode⟩ := h.known hi hc
    cases hn.symm.trans hnode
  · intro n state s c node hi hc hn
    refine wp_post (activateNode_effect _ _) fun a s' ha => ⟨?_, ?_⟩
    · rintro r rfl
      exact h.stop hi hc hn ha
    · rintro state' rfl
      exact h.next hi hc hn ha

theorem runLoop_ends (inv : RunState → RunStore → Prop)
    (h : ∀ started, LoopRule env cfg m
      ⟨run.input, effectiveBudgets m.budgets run.state.budgetCap cap, started⟩ inv Q)
    (hi : inv run.state (s.updateRun { status := some .running })) :
    Ends env Q (runLoop cfg m run cap) s := by
  simp only [runLoop, wp_bind, wp_updateRun, wp_clock, true_and]
  exact fun started _ => walkFrom_ends (h started) _ hi

theorem wp_executeRun {I : RunStore → Prop} (hI : I s)
    (hnone : s.run = none → Q (.error .unknownRun) s)
    (hterm : ∀ run, s.run = some run → run.status.terminal = true → Q (.ok run) s)
    (hloop : ∀ run, s.run = some run → run.status.terminal = false →
      wp (Sem env) I Q (runLoop cfg m run cap) s) :
    wp (Sem env) I Q (executeRun cfg m cap) s := by
  simp only [executeRun, wp_bind, wp_getRun]
  refine ⟨hI, ?_⟩
  rcases hrun : s.run with _ | run
  · exact hnone hrun
  dsimp only
  split
  · exact hterm run hrun ‹_›
  · rename_i hnt
    exact hloop run hrun (Bool.eq_false_iff.mpr hnt)

theorem executeRun_open (hrun : s.run = some run) (hnt : run.status.terminal = false)
    (hloop : Ends env Q (runLoop cfg m run cap) s) :
    Ends env Q (executeRun cfg m cap) s := by
  refine wp_executeRun trivial (fun h => ?_) (fun run' h ht => ?_) fun run' h _ => ?_
  · cases hrun.symm.trans h
  · cases hrun.symm.trans h
    cases hnt.symm.trans ht
  · cases hrun.symm.trans h
    exact hloop

def KnownCursor (m : FlowManifest) (state : RunState) : Prop :=
  ∀ c, state.cursor = some c → ∃ node, m.node? c = some node

theorem selectNextNode_known (hm : m.Valid) {st : Value} (h : selectNextNode m node st = .ok next) :
    ∀ c, next = some c → ∃ node, m.node? c = some node := by
  rintro c rfl
  obtain ⟨e, he, rfl⟩ := selectNextNode_mem h
  exact hm.edge_target he

theorem knownCursor_of_route (hm : m.Valid) {st : Value} (h : selectNextNode m node st = .ok next) :
    KnownCursor m { state with cursor := next } :=
  selectNextNode_known hm h

theorem knownCursor_of_timeout (hm : m.Valid) {i target : String} (hn : m.node? i = some node)
    (h : timeoutTarget? m node = some target) :
    KnownCursor m { state with cursor := some target } := by
  intro c hc
  cases hc
  exact timeoutTarget_known hm hn h

def RunStore.started (input : Obj) (entry : FlowNode) (cap : Option FlowBudgets) : RunStore :=
  (RunStore.empty.createRun input { cursor := some entry.id, budgetCap := cap }).appendEvent
    (.runStarted entry.id)

theorem startRun_ends (hm : m.Valid) {input : Obj} {execute : Bool}
    (hinvalid : ∀ e, Q (.error (.invalidInput e)) .empty)
    (hcreated : ∀ entry : FlowNode, m.entryNode? = some entry →
      KnownCursor m { cursor := some entry.id, budgetCap := cap } →
      Q (.ok { input := input, state := { cursor := some entry.id, budgetCap := cap } })
        (.started input entry cap) ∧
      Ends env Q (runLoop cfg m
        { input := input, state := { cursor := some entry.id, budgetCap := cap } } none)
        (.started input entry cap)) : Ends env Q (startRun cfg m input execute cap) .empty := by
  unfold startRun
  dsimp only
  split
  · exact hinvalid _
  obtain ⟨entry, hentry⟩ := hm.entry
  simp only [hentry, wp_bind, wp_createRun, wp_appendEvent, true_and]
  obtain ⟨hok, hloop⟩ := hcreated entry hentry fun c hc => by
    cases hc
    exact FlowManifest.Valid.node_of_mem
      (mem_map_of_mem (FlowManifest.entryNode?_mem hentry))
  cases execute with
  | false => exact hok
  | true => exact hloop

theorem loaded_rule (hm : m.Valid) (h : ∀ s : RunStore, Q s.loaded s) :
    LoopRule env cfg m ses (fun state _ => KnownCursor m state) Q where
  known hi hc := hi _ hc
  budget _ _ := h _
  complete _ _ _ _ := h _
  stop _ _ _ he := by cases he <;> exact h _
  next _ _ _ he := by
    cases he with
    | advanced _ hsel _ _ => exact knownCursor_of_route hm hsel

end Complete

/-! ## The human service -/

section

variable {env : Env} {I : RunStore → Prop} {s : RunStore} {m : FlowManifest}

/-- The instants a call with `moment` may go by: `moment`, or what the clock may show. -/
def Env.At (env : Env) : Option ℚ → ℚ → Prop
  | some t', t => t = t'
  | none, t => env.now t

/-- The wait of a run may be found due. -/
def Due (env : Env) (run : FlowRunRecord) (moment : Option ℚ) : Prop :=
  ∃ e t, run.state.pause.bind (·.expiresAt) = some e ∧ env.At moment t ∧ e ≤ t

/-- The wait of a run is due, whatever the clock shows. -/
def Overdue (env : Env) (run : FlowRunRecord) (moment : Option ℚ) : Prop :=
  ∃ e, run.state.pause.bind (·.expiresAt) = some e ∧ ∀ t, env.At moment t → e ≤ t

variable {moment : Option ℚ} {run : FlowRunRecord} {cfg : EngineConfig}

theorem wp_pauseExpired {Q : Bool → RunStore → Prop} (hI : I s)
    (hno : ¬ Overdue env run moment → Q false s) (hyes : Due env run moment → Q true s) :
    wp (Sem env) I Q (pauseExpired run moment) s := by
  unfold pauseExpired
  rcases he : run.state.pause.bind (·.expiresAt) with _ | e
  · refine hno ?_
    rintro ⟨e, he', -⟩
    cases he.symm.trans he'
  have hdue : ∀ t, env.At moment t → Q (decide (e ≤ t)) s := by
    intro t ht
    by_cases hle : e ≤ t
    · simpa [hle] using hyes ⟨e, t, he, ht, hle⟩
    have hnot : ¬ Overdue env run moment := by
      rintro ⟨e', he', hall⟩
      cases he.symm.trans he'
      exact hle (hall t ht)
    simpa [hle] using hno hnot
  rcases moment with _ | t'
  · simp only [wp_bind, wp_now]
    exact fun t ht => ⟨hI, hdue t ht⟩
  · exact hdue t' rfl

theorem wp_waitingPlace {Q : Except HumanError Waiting → RunStore → Prop} (hI : I s)
    (herr : ∀ e, Q (.error e) s)
    (hok : ∀ node step, m.node? run.state.waitingNodeId = some node →
      waitingStep? (run.state.pause.map (·.stepId)) s.steps = some step →
      Q (.ok ⟨run, node, step⟩) s) :
    wp (Sem env) I Q (waitingPlace m run) s := by
  unfold waitingPlace
  rcases hn : m.node? run.state.waitingNodeId with _ | node
  · exact herr _
  simp only [wp_bind, wp_listSteps]
  refine ⟨hI, ?_⟩
  cases hst : waitingStep? (run.state.pause.map (·.stepId)) s.steps with
  | none => simpa only [hst, pure_eq, wp_ret] using herr _
  | some step => simpa only [hst, pure_eq, wp_ret] using hok node step hn hst

/-- What the service found of a waiting run. -/
structure Waiting.Met (m : FlowManifest) (w : Waiting) (s : RunStore) : Prop where
  row : s.run = some w.run
  status : w.run.status = .waitingHuman
  node : m.node? w.run.state.waitingNodeId = some w.node
  step : waitingStep? (w.run.state.pause.map (·.stepId)) s.steps = some w.step

theorem Waiting.Met.open {w : Waiting} (h : w.Met m s) : w.run.status.terminal = false := by
  rw [h.status]
  rfl

theorem wp_waitingContext {Q : Except HumanError Waiting → RunStore → Prop} (hI : I s)
    (herr : ∀ e, Q (.error e) s) (hok : ∀ w : Waiting, w.Met m s → Q (.ok w) s) :
    wp (Sem env) I Q (waitingContext m) s := by
  simp only [waitingContext, wp_bind, wp_getRun]
  refine ⟨hI, ?_⟩
  rcases hrun : s.run with _ | run
  · exact herr _
  dsimp only
  split
  · exact herr _
  · rename_i hst
    exact wp_waitingPlace hI herr fun node step hn hs =>
      hok ⟨run, node, step⟩ ⟨hrun, not_not.mp hst, hn, hs⟩

theorem wp_decideRun {d : Obj} {actor : String} {Q : HumanResult → RunStore → Prop} (hI : I s)
    (herr : ∀ e, Q (.error e) s)
    (htimeout : ∀ w : Waiting, w.Met m s → Due env w.run none →
      wp (Sem env) I (fun _ s' => ∀ e, Q (.error e) s') (routeTimeout cfg m w) s)
    (hrecord : ∀ (w : Waiting) nodes, w.Met m s →
      applyEdits m w.node w.run.state.nodes (Dict.get? d "edits") = .ok nodes →
      wp (Sem env) I Q (recordDecision cfg m w d actor nodes) s) :
    wp (Sem env) I Q (decideRun cfg m d actor) s := by
  simp only [decideRun, wp_bind]
  refine wp_waitingContext hI herr fun w hw => ?_
  simp only [wp_bind]
  refine wp_pauseExpired hI (fun _ => ?_) fun hdue => ?_
  · simp only [Bool.false_eq_true, if_false]
    rcases hck : checkDecision m w d with e | nodes
    · exact herr e
    refine hrecord w nodes hw ?_
    unfold checkDecision at hck
    dsimp only at hck
    split at hck
    · cases hck
    · exact hck
  · simp only [if_true, wp_bind]
    refine wp_post (htimeout w hw hdue) fun r s' hQ => ?_
    rcases r with e | r
    · exact hQ e
    · exact hQ .expired

theorem wp_expireDue {Q : RunStore → Prop} (hI : I s) (hsame : Q s)
    (htimeout : ∀ w : Waiting, w.Met m s → Due env w.run moment →
      wp (Sem env) I (fun _ s' => Q s') (routeTimeout cfg m w) s) :
    wp (Sem env) I (fun _ s' => Q s') (expireDue cfg m moment) s := by
  simp only [expireDue, wp_bind, wp_listWaiting]
  refine ⟨hI, ?_⟩
  rcases hrun : s.run with _ | run
  · exact hsame
  by_cases hw : run.status = .waitingHuman
  · simp only [Option.toList_some, filter_cons, hw, beq_self_eq_true, if_true,
      filter_nil, expireRuns, wp_bind]
    refine wp_pauseExpired hI (fun _ => ?_) fun hdue => ?_
    · exact hsame
    simp only [if_true, wp_bind]
    refine wp_waitingPlace hI (fun e => hsame) fun node step hn hst => ?_
    simp only [wp_bind]
    refine wp_post (htimeout ⟨run, node, step⟩ ⟨hrun, hw, hn, hst⟩ hdue) fun r s' hQ => ?_
    rcases r with e | r
    · exact hQ
    · exact hQ
  · have : (run.status == .waitingHuman) = false := by simpa using hw
    simp only [Option.toList_some, filter_cons, this, Bool.false_eq_true, if_false,
      filter_nil, expireRuns]
    exact hsame

/-- The two events of an answered wait. -/
def FlowEvent.answers : FlowEvent → Bool
  | .decisionRecorded .. | .timeoutExpired .. => true
  | _ => false

/-- The human step is completed, and the event says by what. -/
def RunStore.answer (s : RunStore) (w : Waiting) (output : Obj) (e : FlowEvent) : RunStore :=
  (s.completeStep w.step.stepId .completed (some output) "").appendEvent e

theorem RunStore.routed_answer {w : Waiting} {output : Obj} {e : FlowEvent} (he : e.answers = true) :
    routedStepIds (s.answer w output e).events = routedStepIds s.events := by
  cases e <;> simp [FlowEvent.answers] at he <;>
    simp [RunStore.answer, routedStepIds, FlowEvent.completedStep?]

/-- What `I` needs of an answer, given by a decision or by the timeout: the run fails, or it is
checkpointed behind the human node and executed. -/
structure AnswerRule (env : Env) (cfg : EngineConfig) (m : FlowManifest) (w : Waiting)
    (s : RunStore) (I : RunStore → Prop) : Prop where
  fail : ∀ {nodes output e} reason d, e.answers = true →
    I ((s.answer w output e).fail (w.run.state.decided nodes w.node.id output) reason d)
  route : ∀ {nodes output e next}, e.answers = true →
    KnownCursor m { w.run.state.decided nodes w.node.id output with cursor := next } →
    Ends env (fun _ s' => I s')
      (runLoop cfg m (FlowRunRecord.checkpoint
        { w.run.state.decided nodes w.node.id output with cursor := next } w.run) none)
      ((s.answer w output e).leave w.node w.step
        { w.run.state.decided nodes w.node.id output with cursor := next } false)

section Answers

variable {cfg : EngineConfig} {w : Waiting}

variable {actor : String}

theorem recordDecision_answers (hm : m.Valid) {d : Obj} {nodes : Dict Value} (hw : w.Met m s)
    (h : AnswerRule env cfg m w s I) :
    Ends env (fun _ s' => I s') (recordDecision cfg m w d actor nodes) s := by
  simp only [recordDecision, resumeDecided, wp_bind, wp_completeStep, wp_appendEvent, true_and]
  refine wp_leaveNode (fun err reason d _ _ => ⟨trivial, trivial, h.fail _ _ rfl⟩)
    fun next hsel => ⟨trivial, trivial, ?_⟩
  simp only [wp_bind]
  exact wp_post (executeRun_open (congrArg (Option.map _) hw.row) hw.open
    (h.route rfl (knownCursor_of_route hm hsel))) fun _ _ h => h

theorem routeTimeout_answers (hm : m.Valid) (hw : w.Met m s) (h : AnswerRule env cfg m w s I) :
    Ends env (fun _ s' => I s') (routeTimeout cfg m w) s := by
  simp only [routeTimeout, wp_bind, wp_completeStep, wp_appendEvent, true_and]
  rcases ht : timeoutTarget? m w.node with _ | target
  · simp only [wp_bind]
    exact wp_failRun (h.fail _ _ rfl)
  · simp only [wp_bind, wp_updateRun, wp_appendEvent, true_and]
    exact wp_post (executeRun_open (congrArg (Option.map _) hw.row) hw.open
      (h.route rfl (knownCursor_of_timeout hm hw.node ht))) fun _ _ h => h

theorem decideRun_answers (hm : m.Valid) {d : Obj} (hI : I s)
    (h : ∀ w, w.Met m s → AnswerRule env cfg m w s I) :
    Ends env (fun _ s' => I s') (decideRun cfg m d actor) s := by
  refine wp_decideRun trivial (fun _ => hI) (fun w hw _ => ?_) fun w nodes hw _ => ?_
  · exact wp_post (routeTimeout_answers hm hw (h w hw)) fun _ _ h _ => h
  · exact recordDecision_answers hm hw (h w hw)

theorem expireDue_answers (hm : m.Valid) (hI : I s)
    (h : ∀ w, w.Met m s → AnswerRule env cfg m w s I) :
    Ends env (fun _ s' => I s') (expireDue cfg m moment) s :=
  wp_expireDue trivial hI fun w hw _ => routeTimeout_answers hm hw (h w hw)

end Answers

end

end AutoDev.Flows
