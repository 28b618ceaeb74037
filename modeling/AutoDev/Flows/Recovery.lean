/-
# `AutoDev.Flows.Recovery` — crashes and resumes follow the course

A crash leaves the store as some prefix of a program's commits left it.
Relative to the course of the run (`Flows.Course`) such a store is in one of
three conditions:

  * SETTLED — the completed steps are those of the course up to a place `p`,
    and the stored state is the state at `p`;
  * in the WINDOW — one more step is completed, the one the course completes
    at `p`, but the stored state is still the state at `p`;
  * OVER — the course has halted and the row says how.

Every commit of the engine keeps to these three (`Course.Mid`), and whatever
starts in one of them and is not cut again ends in OVER.

`resume_run` tells SETTLED from WINDOW by the missing `run.step.completed`
event.  The event is a commit of its own, after the checkpoint, and a crash
between the two loses it for good.  Once a loop brings the cursor back to that
node, its old step is taken for the window of a step that never ran.
`WindowIsLast` excludes exactly that.
-/
import AutoDev.Flows.Course
import AutoDev.Flows.Resume

namespace AutoDev.Flows

open Prog List Option

/-! ## Stores that look the same -/

def FlowStepRecord.mark (st : FlowStepRecord) : String × Option Obj := (st.nodeId, st.output)

def traceOf (steps : List FlowStepRecord) : List (String × Option Obj) :=
  (completedSteps steps).map FlowStepRecord.mark

structure Same (s s' : RunStore) : Prop where
  run : s'.run = s.run
  completed : completedSteps s'.steps = completedSteps s.steps
  routed : routedStepIds s'.events = routedStepIds s.events

namespace Same

variable {s s₁ s₂ : RunStore}

theorem refl (s : RunStore) : Same s s := ⟨rfl, rfl, rfl⟩

theorem trans (h : Same s s₁) (h' : Same s₁ s₂) : Same s s₂ :=
  ⟨h'.run.trans h.run, h'.completed.trans h.completed, h'.routed.trans h.routed⟩

theorem appendEvent (s : RunStore) {e : FlowEvent} (h : e.completedStep? = none) :
    Same s (s.appendEvent e) :=
  ⟨rfl, rfl, by simp [routedStepIds, h]⟩

theorem createStep (s : RunStore) (n : String) (t : NodeType) (a : Nat) (i : Obj) :
    Same s (s.createStep n t a i) :=
  ⟨rfl, by simp [completedSteps, RunStore.newStep], rfl⟩

theorem logCall (s : RunStore) (c : NodeContext) (r : HandlerResult) : Same s (s.logCall c r) :=
  ⟨rfl, rfl, rfl⟩

theorem of_superseded (h : Superseded s s₁) : Same s s₁ :=
  ⟨h.run, h.completed, by rw [h.events]⟩

theorem completeStep {xs : List FlowStepRecord} {st : FlowStepRecord} {t : StepStatus}
    {o : Option Obj} {e : String} (h : s.steps = xs ++ [st]) (hst : st.status ≠ .completed)
    (ht : t ≠ .completed) : Same s (s.completeStep st.stepId t o e) := by
  refine ⟨rfl, ?_, rfl⟩
  rw [RunStore.steps_completeStep_last h, h]
  simp [completedSteps, FlowStepRecord.close, hst, ht]

end Same

/-- If the last completed step of the cursor node has no event, it is the last completed step
of the run.  This is asked of a run that can be resumed. -/
def WindowIsLast (s : RunStore) : Prop :=
  ∀ run c last, s.run = some run → run.status.terminal = false → CrashWindow run s c last →
    (completedSteps s.steps).getLast? = some last

theorem CrashWindow.same {s s' : RunStore} {run : FlowRunRecord} {c : String}
    {last : FlowStepRecord} (hs : Same s s') (h : CrashWindow run s' c last) :
    CrashWindow run s c last := by
  refine ⟨h.cursor, ?_, ?_⟩
  · rw [lastCompletedOf, ← hs.completed]
    exact h.isLast
  · rw [← hs.routed]
    exact h.unrouted

/-! ## Surroundings a course can rely on -/

namespace Course

variable (w : Course)

def budgets : FlowBudgets :=
  effectiveBudgets w.m.budgets w.row.state.budgetCap none

/-- The token count once the activations `us` have been charged. -/
def tokens (us : List (String × HandlerOutput)) : PyFloat :=
  us.foldl (fun x e => x.add e.2.tokens) w.row.state.tokens

/-- The cost once the activations `us` have been charged. -/
def costUsd (us : List (String × HandlerOutput)) : PyFloat :=
  us.foldl (fun x e => x.add e.2.costUsd) w.row.state.costUsd

/-- Handlers answer as the course says, and no session lasts too long. -/
structure Answers (env : Env) : Prop where
  invoke : ∀ ctx r, env.invoke ctx r → r = w.outcome ctx.node.id ctx.input
  clock : ∀ t t', env.clock t → env.clock t' → t' - t ≤ (w.budgets.maxWallClockSec : ℚ)

/-- The budgets and the step cap are not hit.  A crash can lose the charge of an activation,
so the charges that count are those of any of the activations. -/
structure Ample : Prop where
  cap : 0 < w.cfg.maxSteps
  steps : ∀ {t p c}, w.To t p → p.cursor = some c → t.length < w.cfg.maxSteps
  tokens : ∀ {t p us}, w.To t p → us.Sublist t →
    (PyFloat.fin w.budgets.maxTokens).lt (w.tokens us) = false
  cost : ∀ {t p us}, w.To t p → us.Sublist t → w.budgets.maxCostUsd.lt (w.costUsd us) = false

/-! ## The three conditions -/

variable (t : List (String × HandlerOutput)) (p : PathState)

structure StateAt (state : RunState) : Prop where
  nodes : state.nodes = p.nodes
  cursor : state.cursor = p.cursor
  cap : state.budgetCap = w.row.state.budgetCap
  pause : state.pause ≠ none → w.visit p = .pauses
  spent : ∃ us, us.Sublist t ∧ state.tokens = w.tokens us ∧ state.costUsd = w.costUsd us

/-- The store holds the state at a place of the course, and `xs` are the steps up to it. -/
structure At (xs : List FlowStepRecord) (state : RunState) (s : RunStore) : Prop where
  reach : w.To t p
  doc : w.StateAt t p state
  row : ∃ run, s.run = some run ∧ run.state = state ∧ run.input = w.row.input ∧
    run.output = w.row.output ∧ run.status.terminal = false
  marks : xs.map FlowStepRecord.mark = w.trace t
  routed : ∀ i ∈ routedStepIds s.events, i ∈ xs.map (·.stepId)
  kept : w.unbroken → ∀ st ∈ xs.dropLast, st.stepId ∈ routedStepIds s.events

/-- The store is settled at the place: all its completed steps are accounted for. -/
abbrev Here (state : RunState) (s : RunStore) : Prop := w.At t p (completedSteps s.steps) state s

def Clear (xs : List FlowStepRecord) (s : RunStore) : Prop :=
  w.unbroken → ∀ st ∈ xs, st.stepId ∈ routedStepIds s.events

def Completes (p : PathState) (c : String) (out : HandlerOutput) : Prop :=
  (∃ next, w.visit p = .moves c out next) ∨ ∃ nodes, w.visit p = .misrouted c out nodes

def Settled (s : RunStore) : Prop :=
  ∃ t p state, w.Here t p state s

def Window (s : RunStore) : Prop :=
  ∃ t p state xs st c out, completedSteps s.steps = xs ++ [st] ∧ w.At t p xs state s ∧
    st.mark = (c, out.output) ∧ w.Completes p c out ∧ w.Clear xs s

def output (status : RunStatus) (nodes : Dict Value) : Option Obj :=
  if status = .completed then some (finalOutput w.m nodes) else w.row.output

/-- OVER: the course has halted as the row says, and only a waiting run has a pause. -/
def Over (s : RunStore) : Prop :=
  ∃ run, s.run = some run ∧ w.Halts (traceOf s.steps) run.state.place run.status ∧
    run.output = w.output run.status run.state.nodes ∧
    (run.state.pause ≠ none ↔ run.status = .waitingHuman)

/-- What a cut leaves once the run exists. -/
def Mid (s : RunStore) : Prop :=
  w.Settled s ∨ w.Window s ∨ w.Over s ∧ ∀ run, s.run = some run → run.status.terminal = true

variable {w : Course} {t : List (String × HandlerOutput)} {p : PathState}
  {xs : List FlowStepRecord} {state : RunState} {s s' : RunStore}

theorem At.same (h : w.At t p xs state s) (hs : Same s s') : w.At t p xs state s' :=
  ⟨h.reach, h.doc, by rw [hs.run]; exact h.row, h.marks, by rw [hs.routed]; exact h.routed,
    by rw [hs.routed]; exact h.kept⟩

theorem Clear.same (h : w.Clear xs s) (hs : Same s s') : w.Clear xs s' := by
  intro hu st hst
  rw [hs.routed]
  exact h hu st hst

theorem Clear.same_settled (h : w.Clear (completedSteps s.steps) s) (hs : Same s s') :
    w.Clear (completedSteps s'.steps) s' := by
  rw [hs.completed]
  exact h.same hs

theorem Clear.dropLast (h : w.Clear xs s) :
    w.unbroken → ∀ st ∈ xs.dropLast, st.stepId ∈ routedStepIds s.events :=
  fun hu st hst => h hu st (dropLast_subset _ hst)

theorem At.settled (h : w.Here t p state s) : w.Mid s :=
  .inl ⟨t, p, state, h⟩

theorem At.same_settled (h : w.Here t p state s) (hs : Same s s') :
    w.Here t p state s' := by
  rw [Here, hs.completed]
  exact h.same hs

theorem At.place (h : w.At t p xs state s) : state.place = p := by
  rw [RunState.place, h.doc.nodes, h.doc.cursor]

theorem At.pause_none (h : w.At t p xs state s) (hv : w.visit p ≠ .pauses) :
    state.pause = none := by
  by_contra hp
  exact hv (h.doc.pause hp)

theorem At.over {f : FlowRunRecord → FlowRunRecord} {status : RunStatus} {q : PathState}
    (h : w.At t p xs state s) (hrun : s'.run = s.run.map f)
    (hh : w.Halts (traceOf s'.steps) q status)
    (hf : ∀ run, run.output = w.row.output → (f run).status = status ∧ (f run).state.place = q ∧
      (f run).output = w.output status q.nodes ∧
      ((f run).state.pause ≠ none ↔ status = .waitingHuman)) : w.Over s' := by
  obtain ⟨run, hr, -, -, ho, -⟩ := h.row
  obtain ⟨rfl, rfl, h₃, h₄⟩ := hf run ho
  rw [hr] at hrun
  exact ⟨f run, hrun, hh, h₃, h₄⟩

theorem At.over_fail {reason : StopReason} {state' : RunState} (h : w.At t p xs state s)
    (hrun : s'.run = s.run.map (FlowRunRecord.fail state' reason))
    (hh : w.Halts (traceOf s'.steps) state'.place .failed) (hp : state'.pause = none) :
    w.Over s' ∧ ∀ run, s'.run = some run → run.status.terminal = true := by
  refine ⟨h.over hrun hh fun run ho => ⟨rfl, rfl, ?_, ?_⟩, fun run hr => ?_⟩
  · simpa [output, FlowRunRecord.fail] using ho
  · simp [FlowRunRecord.fail, hp]
  · obtain ⟨row, rfl⟩ := RunStore.row_of_map hrun hr
    rfl

/-! ## One visit -/

section Visit

variable {c : String} {node : FlowNode} {input output : Obj} {out : HandlerOutput}

section Visit

variable (hc : p.cursor = some c) (hn : w.m.node? c = some node)

include hc hn

theorem visit_of_error {e : ExprError}
    (hr : renderBindings w.cfg.strOf node w.row.input p.nodes = .error e) :
    w.visit p = .refused .bindingError := by
  simp [visit, hc, hn, hr]

variable (hr : renderBindings w.cfg.strOf node w.row.input p.nodes = .ok input)

include hr

theorem visit_of_human (hh : node.type = .human) : w.visit p = .pauses := by
  simp [visit, hc, hn, hr, hh]

variable (hh : node.type ≠ .human)

include hh

theorem visit_of_raised {e : HandlerError} (ha : w.answer node input = .error e) :
    w.visit p = .refused e.reason := by
  simp [visit, hc, hn, hr, hh, ha]

variable (ha : w.answer node input = .ok out)

include ha

theorem visit_of_unserializable (ho : out.output = none) : w.visit p = .refused .nodeFailed := by
  simp [visit, hc, hn, hr, hh, ha, ho]

variable (ho : out.output = some output)

include ho

theorem visit_of_misrouted {e : RouteError} (hs : selectNextNode w.m node
      (evalState w.row.input (Dict.set p.nodes node.id (.obj output))) = .error e) :
    w.visit p = .misrouted node.id out (Dict.set p.nodes node.id (.obj output)) := by
  simp [visit, hc, hn, hr, hh, ha, ho, hs]

theorem visit_of_moves {next : Option String} (hs : selectNextNode w.m node
      (evalState w.row.input (Dict.set p.nodes node.id (.obj output))) = .ok next) :
    w.visit p = .moves node.id out ⟨Dict.set p.nodes node.id (.obj output), next⟩ := by
  simp [visit, hc, hn, hr, hh, ha, ho, hs]

end Visit

theorem Completes.inv (h : w.Completes p c out) :
    ∃ node output, p.cursor = some c ∧ w.m.node? c = some node ∧
      (∃ input, w.answer node input = .ok out) ∧ out.output = some output ∧
      ((∃ next, selectNextNode w.m node
          (evalState w.row.input (Dict.set p.nodes c (.obj output))) = .ok next ∧
        w.visit p = .moves c out ⟨Dict.set p.nodes c (.obj output), next⟩) ∨
       (∃ e, selectNextNode w.m node
          (evalState w.row.input (Dict.set p.nodes c (.obj output))) = .error e) ∧
        w.visit p = .misrouted c out (Dict.set p.nodes c (.obj output))) := by
  have hv : (∃ next, w.visit p = .moves c out next) ∨
    ∃ nodes, w.visit p = .misrouted c out nodes := h
  rcases hc : p.cursor with _ | c'
  · simp [visit, hc] at hv
  rcases hn : w.m.node? c' with _ | node
  · simp [visit, hc, hn] at hv
  obtain rfl := FlowManifest.node?_id hn
  rcases hr : renderBindings w.cfg.strOf node w.row.input p.nodes with e | input
  · simp [visit_of_error hc hn hr] at hv
  by_cases hh : node.type = .human
  · simp [visit_of_human hc hn hr hh] at hv
  rcases ha : w.answer node input with e | out'
  · simp [visit_of_raised hc hn hr hh ha] at hv
  rcases ho : out'.output with _ | output
  · simp [visit_of_unserializable hc hn hr hh ha ho] at hv
  rcases hs : selectNextNode w.m node
    (evalState w.row.input (Dict.set p.nodes node.id (.obj output))) with e | next
  · have hvis := visit_of_misrouted hc hn hr hh ha ho hs
    simp only [hvis, reduceCtorEq, exists_false, Visit.misrouted.injEq, false_or] at hv
    obtain ⟨_, rfl, rfl, -⟩ := hv
    exact ⟨node, output, rfl, hn, ⟨_, ha⟩, ho, .inr ⟨⟨e, hs⟩, hvis⟩⟩
  · have hvis := visit_of_moves hc hn hr hh ha ho hs
    simp only [hvis, reduceCtorEq, exists_false, Visit.moves.injEq, or_false] at hv
    obtain ⟨_, rfl, rfl, -⟩ := hv
    exact ⟨node, output, rfl, hn, ⟨_, ha⟩, ho, .inl ⟨next, hs, hvis⟩⟩

end Visit

/-! ## Leaving a completed node -/

section Leave

variable {env : Env} {st step : FlowStepRecord} {c : String} {out : HandlerOutput} {output : Obj}
  {node : FlowNode} {state' : RunState}

structure LeftWith (w : Course) (t : List (String × HandlerOutput)) (p : PathState) (c : String)
    (out : HandlerOutput) (output : Obj) (state state' : RunState) : Prop where
  nodes : state'.nodes = Dict.set p.nodes c (.obj output)
  cursor : state'.cursor = state.cursor
  cap : state'.budgetCap = state.budgetCap
  pause : state'.pause = state.pause
  spent : ∃ us, us.Sublist (t ++ [(c, out)]) ∧ state'.tokens = w.tokens us ∧
    state'.costUsd = w.costUsd us

variable (h : w.At t p xs state s) (hclear : w.Clear xs s)
  (hx : completedSteps s.steps = xs ++ [st]) (hmark : st.mark = (c, out.output))
include h hclear hx hmark

theorem At.checkpoint {next : Option String}
    (hv : w.visit p = .moves c out ⟨Dict.set p.nodes c (.obj output), next⟩)
    (hl : w.LeftWith t p c out output state state') :
    w.At (t ++ [(c, out)]) ⟨Dict.set p.nodes c (.obj output), next⟩ (completedSteps s.steps)
      { state' with cursor := next } (s.updateRun { state := some { state' with cursor := next } }) := by
  have hpause : state'.pause = none := hl.pause.trans (h.pause_none (by rw [hv]; simp))
  refine ⟨h.reach.snoc hv, ⟨hl.nodes, rfl, hl.cap.trans h.doc.cap, fun hp => absurd hpause hp,
    hl.spent⟩, ?_, ?_, fun i hi => ?_, ?_⟩
  · obtain ⟨run, hr, -, hi, ho, hs⟩ := h.row
    exact ⟨_, congrArg (Option.map _) hr, rfl, hi, ho, hs⟩
  · rw [hx, map_append, h.marks, trace_snoc]
    simp [hmark]
  · rw [hx, map_append]
    exact mem_append_left _ (h.routed i hi)
  · rw [hx, dropLast_concat]
    exact hclear

/-- From the window, routing ends the course or settles the store at the next place. -/
theorem wp_leave {b : Bool}
    (hcomp : w.Completes p c out) (hn : w.m.node? c = some node) (hout : out.output = some output)
    (hl : w.LeftWith t p c out output state state') (hstep : step.stepId = st.stepId) :
    wp (Sem env) w.Mid (fun a s' => match a with
      | .stop r => (w.Over s' ∧ ∀ run, s'.run = some run → run.status.terminal = true) ∧
          r = s'.loaded
      | .next state'' => ∃ next, w.visit p = .moves c out next ∧
          w.Here (t ++ [(c, out)]) next state'' s' ∧ w.Clear (completedSteps s'.steps) s')
      (leaveNode w.m w.row.input node step state' b) s := by
  obtain ⟨node', output', hc, hn', -, hout', hroute⟩ := hcomp.inv
  cases hn.symm.trans hn'
  cases hout.symm.trans hout'
  rw [← hl.nodes] at hroute
  refine wp_leaveNode (fun err reason d hsel _ => ?_) fun next hsel => ?_
  · -- no edge is taken: the run fails with the node completed
    rcases hroute with ⟨next, hok, -⟩ | ⟨-, hv⟩
    · cases hsel.symm.trans hok
    have hhalt : w.Halts (traceOf s.steps) state'.place .failed := by
      have := Halts.misrouted h.reach hv
      rwa [← hmark, ← h.marks, ← map_singleton, ← map_append, ← hx, ← h.doc.cursor,
        ← hl.cursor] at this
    have hpause : state'.pause = none := hl.pause.trans (h.pause_none (by rw [hv]; simp))
    have hfail := h.over_fail (show (s.fail state' reason d).run = _ from rfl) hhalt hpause
    exact ⟨.inr (.inr hfail), .inr (.inr hfail), hfail, rfl⟩
  · rcases hroute with ⟨next', hok, hv⟩ | ⟨⟨e, he⟩, -⟩
    · cases hsel.symm.trans hok
      rw [hl.nodes] at hv
      have hset := h.checkpoint hclear hx hmark hv hl
      set s₁ := s.leave node step { state' with cursor := next } b with hs₁
      -- the new event is about the step just completed
      have hev : routedStepIds s₁.events = routedStepIds s.events ++ [st.stepId] := by
        rw [hs₁, RunStore.routed_leave, hstep]
      have hall : w.Clear (completedSteps s.steps) s₁ := by
        intro hu
        rw [hx, hev]
        exact forall_mem_append.mpr ⟨fun st' h' => mem_append_left _ (hclear hu st' h'), by simp⟩
      have hdone : w.At (t ++ [(c, out)]) ⟨Dict.set p.nodes c (.obj output), next⟩
          (completedSteps s.steps) { state' with cursor := next } s₁ := by
        refine ⟨hset.reach, hset.doc, hset.row, hset.marks, ?_, hall.dropLast⟩
        rw [hev]
        exact forall_mem_append.mpr ⟨hset.routed, by simp [hx]⟩
      exact ⟨hset.settled, At.settled hdone, _, hv, hdone, hall⟩
    · cases hsel.symm.trans he

end Leave

/-! ## One activation -/

section Activate

variable {env : Env} {c : String} {node : FlowNode}

def Gives (w : Course) (node : FlowNode) (input : Obj) (r : Except HandlerError NodeOutcome) : Prop :=
  (node.type = .human ∧ ∃ o e, r = .ok (.waitingHuman o e)) ∨
  (node.type ≠ .human ∧ ((∃ out, w.answer node input = .ok out ∧ r = .ok (.completed out)) ∨
    ∃ e, w.answer node input = .error e ∧ r = .error e))

theorem Answers.called (ha : w.Answers env) {ctx : NodeContext}
    {r : Except HandlerError NodeOutcome} (h : Called env w.cfg ctx s r s') :
    Same s s' ∧ s'.steps = s.steps ∧ w.Gives ctx.node ctx.input r := by
  cases h with
  | conditional ht =>
    exact ⟨.refl _, rfl, .inr ⟨by simp [ht], .inl ⟨_, by simp [answer, ht], rfl⟩⟩⟩
  | human ht _ => exact ⟨.refl _, rfl, .inl ⟨ht, _, _, rfl⟩⟩
  | returned h₁ h₂ hi =>
    have ho := ha.invoke _ _ hi
    exact ⟨.logCall _ _ _, rfl, .inr ⟨h₂, .inl ⟨_, by simp [answer, h₁, ho], rfl⟩⟩⟩
  | raised h₁ h₂ hi =>
    have ho := ha.invoke _ _ hi
    exact ⟨.logCall _ _ _, rfl, .inr ⟨h₂, .inr ⟨_, by simp [answer, h₁, ho], rfl⟩⟩⟩

def Activated (w : Course) (t : List (String × HandlerOutput)) (p : PathState) (c : String) :
    Activation → RunStore → Prop
  | .stop _, s' => w.Over s'
  | .next state', s' => ∃ out next, w.visit p = .moves c out next ∧
      w.At (t ++ [(c, out)]) next (completedSteps s'.steps) state' s' ∧
      w.Clear (completedSteps s'.steps) s'

variable {ys : List FlowStepRecord} {st : FlowStepRecord} {out : HandlerOutput}

theorem wp_settle_pause {o : Obj} {e : Option ℚ} (h : w.Here t p state s)
    (hs : s.steps = ys ++ [st]) (hst : st.status = .running) (hv : w.visit p = .pauses) :
    wp (Sem env) w.Mid (w.Activated t p c)
      (settleOutcome w.m w.row.input node state st (.waitingHuman o e)) s := by
  have h₁ : w.At t p _ state (s.completeStep st.stepId .waitingHuman (some o) "") :=
    h.same_settled (.completeStep hs (by simp [hst]) (by simp))
  set s₁ := s.completeStep st.stepId .waitingHuman (some o) "" with hs₁
  simp only [settleOutcome, pauseRun, wp_bind, wp_completeStep, wp_updateRun, wp_appendEvent,
    wp_reload, ← hs₁]
  let paused : RunState := { state with pause := some ⟨node.id, st.stepId, e⟩ }
  have h₂ : w.At t p (completedSteps s₁.steps) paused
      (s₁.updateRun { status := some .waitingHuman, state := some paused }) := by
    obtain ⟨run, hr, -, hi, ho, -⟩ := h₁.row
    exact ⟨h₁.reach, ⟨h₁.doc.nodes, h₁.doc.cursor, h₁.doc.cap, fun _ => hv, h₁.doc.spent⟩,
      ⟨_, congrArg (Option.map _) hr, rfl, hi, ho, rfl⟩, h₁.marks, h₁.routed, h₁.kept⟩
  have h₃ := h₂.same (.appendEvent _ (e := .runPaused node.id st.stepId node.prompt e) rfl)
  refine ⟨h₁.settled, At.settled h₂, .inl ⟨_, _, _, h₃⟩, .inl ⟨_, _, _, h₃⟩, ?_⟩
  have hhalt := Halts.pauses h₁.reach hv
  rw [← h₁.marks, ← h₁.place] at hhalt
  refine h₁.over (f := FlowRunRecord.wait state ⟨node.id, st.stepId, e⟩) rfl hhalt
    fun run ho => ⟨rfl, rfl, ?_, ?_⟩
  · simpa [Course.output, FlowRunRecord.wait] using ho
  · simp [FlowRunRecord.wait]

theorem wp_refuse {reason reason' : StopReason} {d : FailDetail} (h : w.Here t p state s)
    (hv : w.visit p = .refused reason') :
    wp (Sem env) w.Mid (fun _ s' => w.Over s') (failRun state reason d) s := by
  have hhalt := Halts.refused h.reach hv
  rw [← h.marks, ← h.place] at hhalt
  have hfail := h.over_fail (show (s.fail state reason d).run = _ from rfl) hhalt
    (h.pause_none (by rw [hv]; simp))
  exact wp_failRun hfail.1 (.inr (.inr hfail)) (.inr (.inr hfail))

theorem At.record {output : Obj} (h : w.At t p xs state s) :
    w.LeftWith t p c out output state (state.record c output out) := by
  obtain ⟨us, hsub, ht, hcost⟩ := h.doc.spent
  refine ⟨by simp [RunState.record, h.doc.nodes], rfl, rfl, rfl, us ++ [(c, out)],
    hsub.append_right _, ?_, ?_⟩
  · simp [RunState.record, tokens, ht]
  · simp [RunState.record, costUsd, hcost]

theorem wp_settle_completed {input : Obj} (h : w.Here t p state s)
    (hclear : w.Clear (completedSteps s.steps) s) (hs : s.steps = ys ++ [st])
    (hst : st.status = .running) (hid : st.nodeId = c) (hc : p.cursor = some c)
    (hn : w.m.node? c = some node)
    (hr : renderBindings w.cfg.strOf node w.row.input p.nodes = .ok input) (hh : node.type ≠ .human)
    (ha : w.answer node input = .ok out) :
    wp (Sem env) w.Mid (w.Activated t p c)
      (settleOutcome w.m w.row.input node state st (.completed out)) s := by
  obtain rfl := FlowManifest.node?_id hn
  rcases ho : out.output with _ | output
  · simp only [settleOutcome, ho, wp_bind, wp_completeStep]
    have h₁ := h.same_settled (.completeStep hs (by simp [hst]) (t := .failed) (by simp)
      (o := none) (e := "node output is not JSON-serializable"))
    exact ⟨h₁.settled, wp_refuse h₁ (visit_of_unserializable hc hn hr hh ha ho)⟩
  simp only [settleOutcome, ho, wp_bind, wp_completeStep]
  set s₁ := s.completeStep st.stepId .completed (some output) "" with hs₁
  have hx : completedSteps s₁.steps = completedSteps s.steps ++
    [st.close .completed (some output) ""] := RunStore.completedSteps_completeStep hs (by simp [hst])
  have h₁ : w.At t p (completedSteps s.steps) state s₁ :=
    ⟨h.reach, h.doc, h.row, h.marks, h.routed, h.kept⟩
  have hmark : (st.close .completed (some output) "").mark = (node.id, out.output) := by
    rw [ho, ← hid]
    rfl
  have hcomp : w.Completes p node.id out := by
    rcases hsel : selectNextNode w.m node
      (evalState w.row.input (Dict.set p.nodes node.id (.obj output))) with e | next
    · exact .inr ⟨_, visit_of_misrouted hc hn hr hh ha ho hsel⟩
    · exact .inl ⟨_, visit_of_moves hc hn hr hh ha ho hsel⟩
  refine ⟨.inr (.inl ⟨t, p, state, _, _, _, _, hx, h₁, hmark, hcomp, hclear⟩), ?_⟩
  refine wp_post (wp_leave h₁ hclear hx hmark hcomp hn ho h.record rfl) fun a s' ha => ?_
  cases a with
  | stop r => exact ha.1.1
  | next state' => exact ⟨_, ha⟩

/-- What the attempts of an activation leave. -/
def Attempts (w : Course) (t : List (String × HandlerOutput)) (p : PathState) (ctx : NodeContext) :
    Attempted → RunStore → Prop
  | .stop _, s' => w.Over s'
  | .outcome st outcome, s' => w.At t p (completedSteps s'.steps) ctx.state s' ∧
      w.Clear (completedSteps s'.steps) s' ∧ (∃ ys, s'.steps = ys ++ [st]) ∧
      st.status = .running ∧ st.nodeId = ctx.node.id ∧ w.Gives ctx.node ctx.input (.ok outcome)

/-- The attempts: a handler that raises always raises, so the run fails in the end, whether the
attempts or the wall clock give out first. -/
theorem wp_attempts (ha : w.Answers env) {policy : FlowRetryPolicy} (ctx : NodeContext)
    (hc : p.cursor = some c) (hn : w.m.node? c = some ctx.node)
    (hr : renderBindings w.cfg.strOf ctx.node w.row.input p.nodes = .ok ctx.input) :
    ∀ {left attempt : Nat} {s : RunStore}, left + attempt = max policy.maxAttempts 1 + 1 →
      1 ≤ left → w.Here t p ctx.state s → w.Clear (completedSteps s.steps) s →
      wp (Sem env) w.Mid (w.Attempts t p ctx) (attemptLoop w.cfg policy ctx left attempt) s
  | 0, _, _, _, hleft, _, _ => by omega
  | left + 1, attempt, s, hsum, _, h, hclear => by
    have hs₁ : Same s _ := .createStep s ctx.node.id ctx.node.type attempt ctx.input
    have hs₂ : Same s (s.attempting ctx attempt) := hs₁.trans (.appendEvent _ rfl)
    refine wp_attemptLoop (h.same_settled hs₁).settled (h.same_settled hs₂).settled
      (fun outcome s' hcall => ?_) fun e s' hcall => ?_
    · obtain ⟨hsame, hsteps, hres⟩ := ha.called hcall
      have hs₃ := hs₂.trans hsame
      have h₃ := h.same_settled hs₃
      exact ⟨h₃.settled, h₃, hclear.same_settled hs₃, ⟨_, hsteps⟩, rfl, rfl, hres⟩
    obtain ⟨hsame, hsteps, hres⟩ := ha.called hcall
    have hv : w.visit p = .refused e.reason := by
      rcases hres with ⟨-, o, x, hbad⟩ | ⟨hh, ⟨out, -, hbad⟩ | ⟨e', hans, he⟩⟩
      · cases hbad
      · cases hbad
      · cases he
        exact visit_of_raised hc hn hr hh hans
    have hs₃ := hs₂.trans hsame
    have hs₄ := hs₃.trans (.completeStep hsteps (by simp [RunStore.newStep]) (t := .failed)
      (by simp) (o := none) (e := e.message))
    refine ⟨(h.same_settled hs₃).settled, (h.same_settled hs₄).settled, fun again s₅ hs₅ => ?_⟩
    have hs : Same s s₅ := hs₅ ▸ hs₄.trans (.appendEvent _ rfl)
    have h₅ := h.same_settled hs
    exact ⟨h₅.settled, fun _ _ _ _ => wp_refuse h₅ hv, fun _ =>
      wp_attempts ha ctx hc hn hr (by omega) (by omega) h₅ (hclear.same_settled hs)⟩

theorem wp_activate (ha : w.Answers env) {budgets : FlowBudgets} {deadline : ℚ}
    (h : w.Here t p state s) (hclear : w.Clear (completedSteps s.steps) s) (hc : p.cursor = some c)
    (hn : w.m.node? c = some node) :
    wp (Sem env) w.Mid (w.Activated t p c)
      (activateNode w.cfg w.m w.row.input node state budgets deadline) s := by
  unfold activateNode
  rw [h.doc.nodes]
  rcases hr : renderBindings w.cfg.strOf node w.row.input p.nodes with e | input
  · simp only [wp_bind]
    exact wp_refuse h (visit_of_error hc hn hr)
  simp only [wp_bind]
  have hid := FlowManifest.node?_id hn
  refine wp_post (wp_attempts ha ⟨node, input, state, budgets, deadline⟩ hc hn hr
    (by omega) (by omega) h hclear) fun a s' hatt => ?_
  cases a with
  | stop r => exact hatt
  | outcome st outcome =>
    obtain ⟨h', hclear', ⟨ys, hys⟩, hrun, hstid, hgives⟩ := hatt
    rcases hgives with ⟨hh, o, e, ho⟩ | ⟨hh, ⟨out, hans, ho⟩ | ⟨e, -, ho⟩⟩
    · cases ho
      exact wp_settle_pause h' hys hrun (visit_of_human hc hn hr hh)
    · cases ho
      exact wp_settle_completed h' hclear' hys hrun (hstid.trans hid) hc hn hr hh hans
    · cases ho

end Activate

/-! ## A session -/

section Session

variable {env : Env}

theorem At.check_none (hamp : w.Ample) (ha : w.Answers env) (h : w.At t p xs state s)
    {started now : ℚ} (hst : env.clock started) (hnow : env.clock now) {n : Nat}
    (hn : n < w.cfg.maxSteps) :
    Session.check w.cfg ⟨w.row.input, w.budgets, started⟩ state now n = none := by
  obtain ⟨us, hsub, ht, hcost⟩ := h.doc.spent
  rw [Session.check, budgetViolation_eq_none, ht, hcost]
  exact ⟨ha.clock _ _ hst hnow, hamp.tokens h.reach hsub, hamp.cost h.reach hsub, hn⟩

theorem wp_finish (hamp : w.Ample) (ha : w.Answers env) {started : ℚ} (hst : env.clock started)
    (h : w.Here t p state s) (hc : p.cursor = none) :
    wp (Sem env) w.Mid (fun _ s' => w.Over s')
      (finishRun w.cfg w.m ⟨w.row.input, w.budgets, started⟩ state) s := by
  simp only [finishRun, wp_bind, wp_clock]
  intro now hnow
  refine ⟨h.settled, ?_⟩
  rw [h.check_none hamp ha hst hnow hamp.cap]
  simp only [wp_bind, wp_updateRun, wp_appendEvent, wp_reload]
  have hv : w.visit p = .finished := by simp [visit, hc]
  have hhalt := Halts.finished h.reach hv
  rw [← h.marks, ← h.place] at hhalt
  have hover : w.Over (s.complete state (finalOutput w.m state.nodes)) :=
    h.over (f := FlowRunRecord.complete state (finalOutput w.m state.nodes)) rfl hhalt
      fun run _ => ⟨rfl, rfl, by simp [Course.output, FlowRunRecord.complete],
        by simp [FlowRunRecord.complete, h.pause_none (show w.visit p ≠ .pauses by rw [hv]; simp)]⟩
  have hterm : ∀ run, (s.complete state (finalOutput w.m state.nodes)).run = some run →
      run.status.terminal = true := by
    intro run hr
    obtain ⟨row, -, rfl⟩ := map_eq_some_iff.mp hr
    rfl
  exact ⟨.inr (.inr ⟨hover, hterm⟩), .inr (.inr ⟨hover, hterm⟩), .inr (.inr ⟨hover, hterm⟩), hover⟩

theorem To.known (hm : w.m.Valid) (hstart : ∀ c, w.origin.cursor = some c → ∃ n, w.m.node? c = some n)
    (h : w.To t p) {c : String} (hc : p.cursor = some c) : ∃ n, w.m.node? c = some n := by
  cases h with
  | nil => exact hstart c hc
  | @snoc _ b _ e _ hmove =>
    have hv := move_eq_some.mp hmove
    obtain ⟨node, output, -, -, -, -, hroute⟩ := Completes.inv (.inl ⟨_, hv⟩)
    rcases hroute with ⟨next, hsel, hv'⟩ | ⟨-, hv'⟩
    · cases hv.symm.trans hv'
      exact selectNextNode_known hm hsel c hc
    · cases hv.symm.trans hv'

/-- What a course needs so that sessions can follow it. -/
structure Sound (w : Course) : Prop where
  valid : w.m.Valid
  start : ∀ c, w.origin.cursor = some c → ∃ n, w.m.node? c = some n
  ample : w.Ample

/-- The loop follows the course to its end.  The activations of this session are among those of
the course, so the step cap is not reached. -/
theorem wp_walk (hw : w.Sound) (ha : w.Answers env) {started : ℚ} (hst : env.clock started) :
    ∀ (left : Nat) {t : List (String × HandlerOutput)} {p : PathState} {state : RunState}
      {s : RunStore}, w.Here t p state s →
      w.Clear (completedSteps s.steps) s → w.cfg.maxSteps - left ≤ t.length →
      wp (Sem env) w.Mid (fun _ s' => w.Over s')
        (walkFrom w.cfg w.m ⟨w.row.input, w.budgets, started⟩ left state) s
  | left, t, p, state, s, h, hclear, hlen => by
    unfold walkFrom
    rw [h.doc.cursor]
    rcases hc : p.cursor with _ | c
    · exact wp_finish hw.ample ha hst h hc
    have hlt := hw.ample.steps h.reach hc
    obtain ⟨node, hn⟩ := h.reach.known hw.valid hw.start hc
    simp only [wp_bind, wp_clock]
    intro now hnow
    refine ⟨h.settled, ?_⟩
    rw [h.check_none hw.ample ha hst hnow (by omega)]
    cases left with
    | zero => omega
    | succ left =>
      simp only [hn, wp_bind]
      refine wp_post (wp_activate ha h hclear hc hn) fun a s' hact => ?_
      cases a with
      | stop r => exact hact
      | next state' =>
        obtain ⟨out, next, -, h', hclear'⟩ := hact
        exact wp_walk hw ha hst left h' hclear'
          (by rw [length_append, length_singleton]; omega)

variable (hw : w.Sound) (ha : w.Answers env) (h : w.Here t p state s)
  (hclear : w.Clear (completedSteps s.steps) s)
include hw ha h hclear

theorem wp_runLoop {run : FlowRunRecord} (hrun : s.run = some run) :
    wp (Sem env) w.Mid (fun _ s' => w.Over s') (runLoop w.cfg w.m run none) s := by
  obtain ⟨row, hr, rfl, hi, ho, -⟩ := h.row
  cases hrun.symm.trans hr
  have h₁ : w.At t p (completedSteps s.steps) run.state
      (s.updateRun { status := some .running }) :=
    ⟨h.reach, h.doc, ⟨_, congrArg (Option.map _) hrun, rfl, hi, ho, rfl⟩, h.marks, h.routed, h.kept⟩
  simp only [runLoop, wp_bind, wp_updateRun, wp_clock]
  refine ⟨At.settled h₁, fun started hst =>
    ⟨At.settled h₁, ?_⟩⟩
  rw [hi, h.doc.cap]
  exact wp_walk hw ha hst _ h₁ hclear (by omega)

theorem wp_execute :
    wp (Sem env) w.Mid (fun _ s' => w.Over s') (executeRun w.cfg w.m none) s := by
  obtain ⟨run, hrun, -, -, -, hnt⟩ := h.row
  simp only [executeRun, wp_bind, wp_getRun, hrun, hnt]
  exact ⟨h.settled, wp_runLoop hw ha h hclear hrun⟩

end Session

/-! ## Resuming -/

section Resume

variable {env : Env} {run : FlowRunRecord} {c : String} {last : FlowStepRecord}

theorem completed_ids_nodup (s : RunStore) : ((completedSteps s.steps).map (·.stepId)).Nodup :=
  s.ids_nodup.sublist (filter_sublist.map _)

theorem wp_echo {node : FlowNode} {b : Bool} (h : w.Here t p state s)
    (hlast : last ∈ completedSteps s.steps)
    (hset : Dict.set p.nodes c ((last.output.map Value.obj).getD .null) = p.nodes)
    (hsel : selectNextNode w.m node (evalState w.row.input p.nodes) = .ok p.cursor) :
    wp (Sem env) w.Mid (fun a s' => match a with
      | .stop _ => False
      | .next _ => w.Here t p state s')
      (leaveNode w.m w.row.input node last (state.folded c last) b) s := by
  have hfold : state.folded c last = state := by
    rw [RunState.folded, h.doc.nodes, hset, ← h.doc.nodes]
  have hcur : { state with cursor := p.cursor } = state := by rw [← h.doc.cursor]
  rw [hfold]
  have hstate : selectNextNode w.m node (evalState w.row.input state.nodes) = .ok p.cursor := by
    rw [h.doc.nodes]
    exact hsel
  refine wp_leaveNode (fun err _ _ herr _ => ?_) fun next hnext => ?_
  · cases hstate.symm.trans herr
  cases hstate.symm.trans hnext
  rw [hcur]
  have h₁ : w.At t p (completedSteps s.steps) state (s.updateRun { state := some state }) := by
    obtain ⟨row, hr, -, hi, ho, hs⟩ := h.row
    exact ⟨h.reach, h.doc, ⟨_, congrArg (Option.map _) hr, rfl, hi, ho, hs⟩, h.marks, h.routed,
      h.kept⟩
  have h₂ : w.At t p (completedSteps s.steps) state (s.leave node last state b) := by
    refine ⟨h₁.reach, h₁.doc, h₁.row, h₁.marks, ?_, fun hu st hst => ?_⟩
    · rw [RunStore.routed_leave]
      exact forall_mem_append.mpr ⟨h₁.routed, forall_mem_singleton.mpr (mem_map_of_mem hlast)⟩
    · rw [RunStore.routed_leave]
      exact mem_append_left _ (h.kept hu st hst)
  exact ⟨At.settled h₁, At.settled h₂, h₂⟩

/-- If the step before the course is folded in again, nothing changes. -/
def EchoesAtStart (w : Course) (s : RunStore) : Prop :=
  ∀ run c last, s.run = some run → run.status.terminal = false → CrashWindow run s c last →
    traceOf s.steps = w.prior → w.origin.cursor = some c →
    ∃ node, w.m.node? c = some node ∧
      Dict.set w.origin.nodes c ((last.output.map Value.obj).getD .null) = w.origin.nodes ∧
      selectNextNode w.m node (evalState w.row.input w.origin.nodes) = .ok w.origin.cursor

theorem At.echoes (hq : w.EchoesAtStart s) (h : w.Here t p state s) (hrun : s.run = some run)
    (hcw : CrashWindow run s c last) (hc : p.cursor = some c)
    (hl : (completedSteps s.steps).getLast? = some last) :
    ∃ node, w.m.node? c = some node ∧
      Dict.set p.nodes c ((last.output.map Value.obj).getD .null) = p.nodes ∧
      selectNextNode w.m node (evalState w.row.input p.nodes) = .ok p.cursor := by
  have hmark : (w.trace t).getLast? = some (c, last.output) := by
    rw [← h.marks, getLast?_map, hl, ← lastCompletedOf_nodeId hcw.isLast]
    rfl
  rcases eq_nil_or_concat t with rfl | ⟨t', e, rfl⟩
  · -- the step was completed before the course started
    have hp : p = w.origin := by
      have hreach := h.reach
      exact (Trail.eq_of_length .nil hreach rfl).2.symm
    subst hp
    obtain ⟨row, hr, -, -, -, hnt⟩ := h.row
    cases hrun.symm.trans hr
    exact hq run c last hrun hnt hcw (by simpa [traceOf, trace] using h.marks) hc
  · obtain ⟨c', out⟩ := e
    rw [concat_eq_append, trace_snoc, getLast?_append, getLast?_singleton,
      some_or, some.injEq, Prod.mk.injEq] at hmark
    obtain ⟨rfl, ho⟩ := hmark
    have hreach := h.reach
    rw [concat_eq_append] at hreach
    obtain ⟨p', -, hv⟩ := hreach.last
    obtain ⟨node, output, -, hn, -, hout, hroute⟩ := Completes.inv (.inl ⟨_, hv⟩)
    rcases hroute with ⟨next, hsel, hv'⟩ | ⟨-, hv'⟩
    · cases hv.symm.trans hv'
      refine ⟨node, hn, ?_, hsel⟩
      rw [← ho, hout]
      exact Dict.set_get? (by rw [Dict.get?_set]; simp)
    · cases hv.symm.trans hv'

/-- What `resume_run` does with the record that reconciliation returned. -/
def Continues (w : Course) (env : Env) (r : RunResult) (s : RunStore) : Prop :=
  match r with
  | .error _ => w.Over s
  | .ok run => (run.status.terminal = true → w.Over s) ∧
      (run.status.terminal = false → w.Mid (s.appendEvent (.runResumed run.state.cursor)) ∧
        wp (Sem env) w.Mid (fun _ s' => w.Over s') (executeRun w.cfg w.m none)
          (s.appendEvent (.runResumed run.state.cursor)))

section Settled

variable (hw : w.Sound) (ha : w.Answers env) (hcut : ¬ w.unbroken) (h : w.Here t p state s)
  (hrun : s.run = some run)
include hw ha hcut h hrun

theorem At.continues :
    w.Continues env (.ok run) s := by
  obtain ⟨row, hr, -, -, -, hnt⟩ := h.row
  cases hrun.symm.trans hr
  have h' := h.same_settled (.appendEvent s (e := .runResumed run.state.cursor) rfl)
  refine ⟨fun ht => ?_, fun _ => ⟨h'.settled, wp_execute hw ha h' fun hu => absurd hu hcut⟩⟩
  cases hnt.symm.trans ht

theorem wp_reconcile_settled (hq : w.EchoesAtStart s)
    (hg : ∀ c last, CrashWindow run s c last → (completedSteps s.steps).getLast? = some last) :
    wp (Sem env) w.Mid (w.Continues env) (reconcileCrashWindow w.m run) s := by
  obtain ⟨row, hr, hst, hi, -, -⟩ := h.row
  cases hrun.symm.trans hr
  refine wp_reconcile h.settled (fun _ => h.continues hw ha hcut hrun) fun c last hcw => ?_
  have hc : p.cursor = some c := by rw [← h.doc.cursor, ← hst]; exact hcw.cursor
  have hl := hg c last hcw
  obtain ⟨node, hn, hset, hsel⟩ := h.echoes hq hrun hcw hc hl
  refine ⟨node, hn, ?_⟩
  rw [hst, hi]
  refine wp_post (wp_echo h (mem_of_getLast? hl) hset hsel) fun a s' ha' => ?_
  cases a with
  | stop r => exact ha'.elim
  | next _ =>
    obtain ⟨row', hr', -⟩ := ha'.row
    refine ⟨ha'.settled, ?_⟩
    rw [RunStore.loaded, hr']
    exact ha'.continues hw ha hcut hr'

end Settled

variable {xs : List FlowStepRecord} {st : FlowStepRecord} {out : HandlerOutput}

section Window

variable (h : w.At t p xs state s) (hmark : st.mark = (c, out.output))
include h hmark

theorem At.window (hx : completedSteps s.steps = xs ++ [st]) : lastCompletedOf c s.steps = some st ∧
      st.stepId ∉ routedStepIds s.events := by
  have hid : st.nodeId = c := congrArg Prod.fst hmark
  constructor
  · simp [lastCompletedOf, hx, hid]
  · intro hin
    have hnodup := completed_ids_nodup s
    rw [hx, map_append, nodup_append] at hnodup
    exact hnodup.2.2 _ (h.routed _ hin) _ (by simp) rfl

theorem At.folded {output : Obj} (hout : out.output = some output) : w.LeftWith t p c out output state (state.folded c st) := by
  obtain ⟨us, hsub, ht, hcost⟩ := h.doc.spent
  refine ⟨?_, rfl, rfl, rfl, us, hsub.trans (sublist_append_left _ _), ht, hcost⟩
  have ho : st.output = some output := (congrArg Prod.snd hmark).trans hout
  simp [RunState.folded, h.doc.nodes, ho]

theorem wp_reconcile_window (hw : w.Sound) (hcut : ¬ w.unbroken) (ha : w.Answers env)
    (hx : completedSteps s.steps = xs ++ [st]) (hcomp : w.Completes p c out) (hrun : s.run = some run) :
    wp (Sem env) w.Mid (w.Continues env) (reconcileCrashWindow w.m run) s := by
  obtain ⟨row, hr, hst, hi, -, hnt⟩ := h.row
  cases hrun.symm.trans hr
  obtain ⟨node, output, hc, hn, -, hout, -⟩ := hcomp.inv
  have hcur : run.state.cursor = some c := by rw [hst, h.doc.cursor]; exact hc
  obtain ⟨hlast, hun⟩ := h.window hmark hx
  have hclear : w.Clear xs s := fun hu => absurd hu hcut
  have hmid : w.Mid s := .inr (.inl ⟨t, p, state, xs, st, c, out, hx, h, hmark, hcomp, hclear⟩)
  refine wp_reconcile hmid (fun hno => absurd ⟨hcur, hlast, hun⟩ (hno c st)) fun c' last hcw => ?_
  cases hcur.symm.trans hcw.cursor
  cases hlast.symm.trans hcw.isLast
  refine ⟨node, hn, ?_⟩
  rw [hst, hi]
  refine wp_post (wp_leave h hclear hx hmark hcomp hn hout (h.folded hmark hout) rfl)
    fun a s' ha' => ?_
  cases a with
  | stop r =>
    obtain ⟨⟨hover, hterm⟩, rfl⟩ := ha'
    obtain ⟨row', hr', -⟩ := id hover
    rw [RunStore.loaded, hr']
    exact ⟨fun _ => hover, fun hf => by cases (hterm row' hr').symm.trans hf⟩
  | next _ =>
    obtain ⟨next, -, h', -⟩ := ha'
    obtain ⟨row', hr', -⟩ := h'.row
    refine ⟨h'.settled, ?_⟩
    rw [RunStore.loaded, hr']
    exact h'.continues hw ha hcut hr'

end Window

theorem Mid.row (h : w.Mid s) :
    ∃ run, s.run = some run ∧ (run.status.terminal = true → w.Over s) := by
  rcases h with ⟨t, p, state, h⟩ | ⟨t, p, state, xs, st, c, out, hx, h, -⟩ | ⟨hover, -⟩
  case inr.inr =>
    obtain ⟨run, hr, -⟩ := id hover
    exact ⟨run, hr, fun _ => hover⟩
  all_goals
    obtain ⟨run, hr, -, -, -, hnt⟩ := h.row
    exact ⟨run, hr, fun ht => by cases hnt.symm.trans ht⟩

theorem wp_resume (hw : w.Sound) (hcut : ¬ w.unbroken) (hq : w.EchoesAtStart s) (ha : w.Answers env)
    (hmid : w.Mid s) (hg : WindowIsLast s) :
    wp (Sem env) w.Mid (fun _ s' => w.Over s') (resumeRun w.cfg w.m) s := by
  obtain ⟨row, hr, hclosed⟩ := hmid.row
  refine wp_resumeRun hmid (fun hnone => ?_) (fun run hrun hterm => ?_)
    fun run s' hrun hnt hsup => ?_
  · cases hnone.symm.trans hr
  · cases hrun.symm.trans hr
    exact hclosed hterm
  · have hsame := Same.of_superseded hsup
    have hrun' : s'.run = some run := hsame.run.trans hrun
    have hcont : w.Mid s' ∧ wp (Sem env) w.Mid (w.Continues env) (reconcileCrashWindow w.m run) s' := by
      rcases hmid with ⟨t, p, state, h⟩ | ⟨t, p, state, xs, st, c, out, hx, h, hmark, hcomp, hcl⟩ |
        ⟨-, hterm⟩
      · have h' := h.same_settled hsame
        have hq' : w.EchoesAtStart s' := by
          intro row c last hrow hnt' hcw htr
          refine hq row c last (hsame.run.symm.trans hrow) hnt' (hcw.same hsame) ?_
          rw [← htr, traceOf, traceOf, hsame.completed]
        refine ⟨h'.settled, wp_reconcile_settled hw ha hcut h' hrun' hq' fun c last hcw => ?_⟩
        rw [hsame.completed]
        exact hg run c last hrun hnt (hcw.same hsame)
      · have h' := h.same hsame
        have hx' := hsame.completed.trans hx
        exact ⟨.inr (.inl ⟨t, p, state, xs, st, c, out, hx', h', hmark, hcomp, hcl.same hsame⟩),
          wp_reconcile_window h' hmark hw hcut ha hx' hcomp hrun'⟩
      · cases (hterm run hrun).symm.trans hnt
    refine ⟨hcont.1, wp_post hcont.2 fun r s'' h => ?_⟩
    cases r with
    | error _ | ok _ => exact h

end Resume

/-! ## Crashes -/

section Crash

variable {cfg : EngineConfig} {m : FlowManifest} {outcome : String → Obj → HandlerResult}
  {input : Obj} {cap : Option FlowBudgets} {env : Env}

def ofStart (cfg : EngineConfig) (m : FlowManifest) (outcome : String → Obj → HandlerResult)
    (input : Obj) (cap : Option FlowBudgets) : Course where
  cfg := cfg
  m := m
  outcome := outcome
  row := { input := input, state := { cursor := m.entryNode?.map (·.id), budgetCap := cap } }

theorem ofStart_echoes : (ofStart cfg m outcome input cap).EchoesAtStart s := by
  intro run c last _ _ hcw htr _
  have hnil : completedSteps s.steps = [] := map_eq_nil_iff.mp htr
  have hlast := hcw.isLast
  simp [lastCompletedOf, hnil] at hlast

section Start

variable (hm : m.Valid) (hamp : (ofStart cfg m outcome input cap).Ample)

include hm hamp

theorem ofStart_sound :
    (ofStart cfg m outcome input cap).Sound where
  valid := hm
  start c hc := by
    obtain ⟨entry, hentry⟩ := hm.entry
    have : entry.id = c := by simpa [ofStart, origin, hentry] using hc
    subst this
    exact FlowManifest.Valid.node_of_mem
      (mem_map_of_mem (FlowManifest.entryNode?_mem hentry))
  ample := hamp

theorem wp_startRun
    (ha : (ofStart cfg m outcome input cap).Answers env) (hv : validateRunInput m input = []) :
    wp (Sem env) (ofStart cfg m outcome input cap).Mid
      (fun _ s => (ofStart cfg m outcome input cap).Over s) (startRun cfg m input true cap) .empty := by
  obtain ⟨entry, hentry⟩ := hm.entry
  simp only [startRun, hv, ne_eq, not_true_eq_false, if_false, hentry, wp_bind, wp_createRun,
    wp_appendEvent, if_true]
  set s₁ := RunStore.empty.createRun input { cursor := some entry.id, budgetCap := cap } with hs₁
  have h₁ : (ofStart cfg m outcome input cap).At [] (ofStart cfg m outcome input cap).origin
      (completedSteps s₁.steps) { cursor := some entry.id, budgetCap := cap } s₁ := by
    refine ⟨.nil, ⟨rfl, ?_, rfl, fun h => absurd rfl h, [], .slnil, rfl, rfl⟩,
      ⟨_, rfl, rfl, rfl, rfl, rfl⟩, rfl, fun i hi => ?_, fun hu => hu.elim⟩
    · simp [ofStart, origin, hentry]
    · cases hi
  have h₂ := h₁.same_settled (.appendEvent s₁ (e := .runStarted entry.id) rfl)
  exact ⟨h₁.settled, h₂.settled, wp_runLoop (ofStart_sound hm hamp) ha h₂
    (fun hu => hu.elim) rfl⟩

end Start

/-- Stores left by a schedule of crashes: `start_run` is cut once the run exists, and so is every
`resume_run` after it; `g` is asked of the store before each resume. -/
inductive Crashed (w : Course) (g : RunStore → Prop) : RunStore → Prop
  | start {env : Env} {rest : P RunResult} {s : RunStore} : w.Answers env →
      Steps (Sem env) (startRun w.cfg w.m w.row.input true w.row.state.budgetCap) .empty rest s →
      s.run ≠ none → Crashed w g s
  | resume {env : Env} {rest : P RunResult} {s s' : RunStore} : Crashed w g s → g s →
      w.Answers env → Steps (Sem env) (resumeRun w.cfg w.m) s rest s' → Crashed w g s'

theorem Crashed.accepted {g : RunStore → Prop} (h : Crashed w g s) :
    validateRunInput w.m w.row.input = [] := by
  induction h with
  | start _ h hs =>
    by_contra hv
    simp only [startRun, ne_eq, hv, not_false_eq_true, if_true] at h
    cases h
    exact hs rfl
  | resume _ _ _ _ ih => exact ih

theorem Crashed.mid (hm : m.Valid) (hamp : (ofStart cfg m outcome input cap).Ample)
    (h : Crashed (ofStart cfg m outcome input cap) WindowIsLast s) :
    (ofStart cfg m outcome input cap).Mid s := by
  have hv := h.accepted
  induction h with
  | start ha h hs =>
    have hwp := wp_mono (J := fun s => s.run = none ∨ (ofStart cfg m outcome input cap).Mid s)
      (fun _ h => Or.inr h) (fun _ _ h => h) (wp_startRun hm hamp ha hv)
    exact ((h.of_wp (.inl rfl) hwp).1).resolve_left hs
  | resume _ hg ha h ih =>
    exact (h.of_wp ih (wp_resume (ofStart_sound hm hamp) id ofStart_echoes ha ih hg)).1

end Crash

end Course

/-- Crash recovery is exact as long as every resume finds the window at the end.  The run that
was crashed any number of times and resumed ends with the completed activations, the outputs and
the output of the run that was not. -/
theorem crash_recovery_exact {cfg : EngineConfig} {m : FlowManifest}
    {outcome : String → Obj → HandlerResult} {input : Obj} {cap : Option FlowBudgets} (hm : m.Valid)
    (hamp : (Course.ofStart cfg m outcome input cap).Ample) {env env₀ : Env}
    (ha₀ : (Course.ofStart cfg m outcome input cap).Answers env₀) {r₀ r : RunResult}
    {s₀ s s' : RunStore} (h₀ : Exec (Sem env₀) (startRun cfg m input true cap) .empty r₀ s₀)
    (hs : (Course.ofStart cfg m outcome input cap).Crashed WindowIsLast s) (hg : WindowIsLast s)
    (ha : (Course.ofStart cfg m outcome input cap).Answers env)
    (h : Exec (Sem env) (resumeRun cfg m) s r s') :
    traceOf s'.steps = traceOf s₀.steps ∧
    s'.run.map (·.state.nodes) = s₀.run.map (·.state.nodes) ∧
    s'.run.map (·.output) = s₀.run.map (·.output) := by
  have hover₀ : (Course.ofStart cfg m outcome input cap).Over s₀ :=
    h₀.of_wp (Course.wp_startRun hm hamp ha₀ hs.accepted)
  have hover : (Course.ofStart cfg m outcome input cap).Over s' := by
    have hwp := Course.wp_resume (Course.ofStart_sound hm hamp) id Course.ofStart_echoes ha
      (hs.mid hm hamp) hg
    exact h.of_wp hwp
  obtain ⟨run₀, hr₀, hh₀, ho₀, -⟩ := hover₀
  obtain ⟨run, hr, hh, ho, -⟩ := hover
  obtain ⟨htr, hq, hst⟩ := hh.unique hh₀
  have hn : run.state.nodes = run₀.state.nodes := congrArg PathState.nodes hq
  refine ⟨htr, ?_, ?_⟩
  · rw [hr, hr₀, map_some, map_some, hn]
  · rw [hr, hr₀, map_some, map_some, ho, ho₀, hst, hn]

/-! ## A loop, crashed twice

The first crash loses the event of the first `work`; the second falls when the loop has brought
the cursor back to `work`.  The resume takes the first `work` for a window and goes on with
`check`, which runs a second time on the first round's result. -/

section Loop

theorem Course.To.charges {w : Course} {t : List (String × HandlerOutput)} {p : PathState}
    (hfree : ∀ c i out, w.outcome c i = .ok out → out.tokens = .fin 0 ∧ out.costUsd = .fin 0)
    (h : w.To t p) : ∀ e ∈ t, e.2.tokens = .fin 0 ∧ e.2.costUsd = .fin 0 := by
  induction h with
  | nil => intro e he; cases he
  | @snoc t b _ e _ hmove ih =>
    refine forall_mem_append.mpr ⟨ih, forall_mem_singleton.mpr ?_⟩
    obtain ⟨node, -, -, -, ⟨input, ho⟩, -⟩ :=
      Course.Completes.inv (.inl ⟨_, Course.move_eq_some.mp hmove⟩)
    unfold Course.answer at ho
    split at ho
    · rw [← Except.ok.inj ho]
      exact ⟨rfl, rfl⟩
    · exact hfree _ _ _ ho

theorem PyFloat.foldl_add_zero {α : Type} {f : α → PyFloat} (x : PyFloat) :
    ∀ {us : List α}, (∀ u ∈ us, f u = .fin 0) → us.foldl (fun x u => x.add (f u)) x = x
  | [], _ => rfl
  | u :: us, h => by
    rw [foldl_cons, h u mem_cons_self, PyFloat.add_fin_zero]
    exact foldl_add_zero x fun v hv => h v (mem_cons_of_mem _ hv)

theorem Course.ample_of_free {w : Course}
    (hfree : ∀ c i out, w.outcome c i = .ok out → out.tokens = .fin 0 ∧ out.costUsd = .fin 0)
    {n : Nat} (hhalt : w.move (Trail.follow w.move n w.origin).2 = none)
    (hlen : (Trail.follow w.move n w.origin).1.length < w.cfg.maxSteps)
    (htok : (PyFloat.fin w.budgets.maxTokens).lt w.row.state.tokens = false)
    (hcost : w.budgets.maxCostUsd.lt w.row.state.costUsd = false) : w.Ample where
  cap := by omega
  steps h _ := Nat.lt_of_le_of_lt
    ((Trail.of_follow w.move w.origin n).length_le_of_halt hhalt h) hlen
  tokens h hsub := by
    rw [Course.tokens, PyFloat.foldl_add_zero _ fun u hu => (h.charges hfree u (hsub.subset hu)).1]
    exact htok
  cost h hsub := by
    rw [Course.costUsd, PyFloat.foldl_add_zero _ fun u hu => (h.charges hfree u (hsub.subset hu)).2]
    exact hcost

def loopOutcome (nodeId : String) (input : Obj) : HandlerOutput :=
  match nodeId with
  | "work" => { output := some [("last", .bool (Dict.get? input "again" == some (.bool true)))] }
  | "check" => { output := some [("again", .bool (Dict.get? input "last" == some (.bool false)))] }
  | _ => { output := some [] }

def loopOracle : Oracle := { invoke := fun ctx => .ok (loopOutcome ctx.node.id ctx.input) }

def loopCourse : Course :=
  .ofStart demoConfig loopFlow (fun nodeId input => .ok (loopOutcome nodeId input)) [] none

theorem loopCourse_ample : loopCourse.Ample := by
  refine Course.ample_of_free (n := 6) (fun c i out ho => ?_) ?_ ?_ ?_ ?_
  · obtain rfl : loopOutcome c i = out := Except.ok.inj ho
    unfold loopOutcome
    split <;> exact ⟨rfl, rfl⟩
  · have : (loopCourse.move (Trail.follow loopCourse.move 6 loopCourse.origin).2).isNone = true := by
      decide +kernel
    exact isNone_iff_eq_none.mp this
  · decide +kernel
  · decide +kernel
  · decide +kernel

theorem loopOracle_answers : loopCourse.Answers loopOracle.env where
  invoke ctx r h := h
  clock t t' h h' := by
    rw [show t = 0 from h, show t' = 0 from h']
    decide +kernel

def loopStore : RunStore :=
  (Prog.run loopOracle.ans (startRun demoConfig loopFlow [] true none) .empty).2

def loopCut (n : Nat) : RunStore :=
  (Prog.runN loopOracle.ans n (startRun demoConfig loopFlow [] true none) .empty).2

/-- The loop, cut before the event of the first `work`, resumed, and cut when the cursor is back. -/
def loopCutTwice : RunStore :=
  (Prog.runN loopOracle.ans 14 (resumeRun demoConfig loopFlow) (loopCut 17)).2

def loopResumed (s : RunStore) : RunStore :=
  (Prog.run loopOracle.ans (resumeRun demoConfig loopFlow) s).2

theorem loopCut_crashed {g : RunStore → Prop} {n : Nat} (h : (loopCut n).run ≠ none) :
    loopCourse.Crashed g (loopCut n) :=
  .start loopOracle_answers (steps_runN loopOracle.sem_ans _ _ _) h

theorem crash_recovery_exact_loop :
    traceOf (loopResumed (loopCut 16)).steps = traceOf loopStore.steps := by
  have hlast : WindowIsLast (loopCut 16) := by
    intro run c last hrun _ hcw
    have hcur : (loopCut 16).run.map (·.state.cursor) = some (some "work") := by decide +kernel
    rw [hrun, map_some, hcw.cursor] at hcur
    cases hcur
    have hl : lastCompletedOf "work" (loopCut 16).steps
        = (completedSteps (loopCut 16).steps).getLast? := by decide +kernel
    exact hl.symm.trans hcw.isLast
  have hcut : (loopCut 16).run ≠ none := by decide +kernel
  exact (crash_recovery_exact loopFlow_valid loopCourse_ample loopOracle_answers
    loopOracle.exec (loopCut_crashed hcut) hlast loopOracle_answers
    loopOracle.exec).1

/-- Cut twice, it is not. -/
theorem lost_event_repeats_check :
    loopFlow.Valid ∧ (∀ n ∈ loopFlow.nodes, n.type ≠ .human) ∧ loopCourse.Ample ∧
    loopCourse.Answers loopOracle.env ∧
    (∃ r, Exec (Sem loopOracle.env) (startRun demoConfig loopFlow [] true none) .empty r loopStore) ∧
    loopCourse.Crashed (fun _ => True) loopCutTwice ∧
    (∃ r, Exec (Sem loopOracle.env) (resumeRun demoConfig loopFlow) loopCutTwice r
      (loopResumed loopCutTwice)) ∧
    (completedSteps loopStore.steps).map (·.nodeId)
      = ["start", "work", "check", "work", "check", "done"] ∧
    (completedSteps (loopResumed loopCutTwice).steps).map (·.nodeId)
      = ["start", "work", "check", "check", "work", "check", "done"] := by
  have hcut : (loopCut 17).run ≠ none := by decide +kernel
  exact ⟨loopFlow_valid, by decide, loopCourse_ample, loopOracle_answers,
    ⟨_, loopOracle.exec⟩,
    .resume (loopCut_crashed hcut) trivial loopOracle_answers (steps_runN loopOracle.sem_ans _ _ _),
    ⟨_, loopOracle.exec⟩, by decide +kernel, by decide +kernel⟩

end Loop

end AutoDev.Flows
