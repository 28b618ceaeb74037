/-
# `AutoDev.Flows.Ledger` — completed steps and their events

`resume_run` reads the event log: a completed step without a
`run.step.completed` event is taken for the work of a crash.  Over complete
calls the log is in order.  Every event names a completed step, and as long as
the run can go on every completed step has its event (`Ledger`); so a resume
that does not follow a crash finds no window.  A waiting run waits at its last
step.

This holds for ANY sequence of complete calls, also for those that execute or
resume a waiting run.
-/
import AutoDev.Flows.Waiting

namespace AutoDev.Flows

open Prog List

variable {env : Env} {cfg : EngineConfig} {m : FlowManifest} {s s' : RunStore}

/-! ## The ledger -/

def EventsKnown (s : RunStore) : Prop :=
  ∀ i ∈ routedStepIds s.events, i ∈ (completedSteps s.steps).map (·.stepId)

def StepsRouted (s : RunStore) : Prop :=
  ∀ st ∈ completedSteps s.steps, st.stepId ∈ routedStepIds s.events

def PausedLast (run : FlowRunRecord) (steps : List FlowStepRecord) : Prop :=
  ∃ xs st e, steps = xs ++ [st] ∧ st.status = .waitingHuman ∧
    run.state.pause = some ⟨st.nodeId, st.stepId, e⟩ ∧ run.state.cursor = some st.nodeId

structure Ledger (m : FlowManifest) (s : RunStore) : Prop where
  events : EventsKnown s
  known : ∀ run, s.run = some run → KnownCursor m run.state
  routed : ∀ run, s.run = some run → run.status.terminal = false → StepsRouted s
  paused : ∀ run, s.run = some run → run.status = .waitingHuman → PausedLast run s.steps

structure LoopLedger (m : FlowManifest) (state : RunState) (s : RunStore) : Prop where
  events : EventsKnown s
  routed : StepsRouted s
  known : KnownCursor m state

section Grow

variable {st : FlowStepRecord}

section

variable (hs : completedSteps s'.steps = completedSteps s.steps)
  (he : routedStepIds s'.events = routedStepIds s.events)
include hs he

theorem EventsKnown.append (h : EventsKnown s) : EventsKnown s' := by
  intro i hi
  rw [hs]
  exact h i (he ▸ hi)

theorem StepsRouted.append (h : StepsRouted s) : StepsRouted s' := by
  intro st hst
  rw [he]
  exact h st (hs ▸ hst)

end

variable (hs : completedSteps s'.steps = completedSteps s.steps ++ [st])
include hs

theorem EventsKnown.complete (h : EventsKnown s)
    (he : routedStepIds s'.events = routedStepIds s.events) : EventsKnown s' := by
  intro i hi
  rw [hs, map_append]
  exact mem_append_left _ (h i (he ▸ hi))

variable (he : routedStepIds s'.events = routedStepIds s.events ++ [st.stepId])
include he

theorem EventsKnown.route (h : EventsKnown s) : EventsKnown s' := by
  unfold EventsKnown
  rw [hs, he, map_append]
  exact forall_mem_append.mpr ⟨fun i hi => mem_append_left _ (h i hi), by simp⟩

theorem StepsRouted.route (h : StepsRouted s) : StepsRouted s' := by
  unfold StepsRouted
  rw [hs, he]
  exact forall_mem_append.mpr ⟨fun st' h' => mem_append_left _ (h st' h'), by simp⟩

end Grow

/-! ## The loop -/

section Loop

variable {ses : Session} {state state' : RunState} {node : FlowNode} {c : String} {r : RunResult}

theorem LoopLedger.stopped {f : FlowRunRecord → FlowRunRecord} {state' : RunState}
    (hi : LoopLedger m state s)
    (hf : ∀ run, (f run).state = state' ∧ (f run).status.terminal = true)
    (hcur : state'.cursor = state.cursor) (hrun : s'.run = s.run.map f)
    (hev : EventsKnown s') : Ledger m s' := by
  have hrow : ∀ run, s'.run = some run → run.state = state' ∧ run.status.terminal = true := by
    intro run h
    obtain ⟨row, rfl⟩ := RunStore.row_of_map hrun h
    exact hf row
  refine ⟨hev, fun run h c hc => ?_, fun run h hnt => ?_, fun run h hw => ?_⟩
  · rw [(hrow run h).1, hcur] at hc
    exact hi.known c hc
  · cases hnt.symm.trans (hrow run h).2
  · have ht := (hrow run h).2
    rw [hw] at ht
    cases ht

theorem LoopLedger.stop (hi : LoopLedger m state s) (hc : state.cursor = some c)
    (hn : m.node? c = some node)
    (h : ActivationEffect env (ses.activation cfg m node state) s (.stop r) s') : Ledger m s' := by
  obtain rfl := FlowManifest.node?_id hn
  cases h with
  | failed reason hsteps _ hrun hev =>
    obtain ⟨fs, hfs, hfail⟩ := hsteps
    exact hi.stopped (f := FlowRunRecord.fail _ _) (fun _ => ⟨rfl, rfl⟩) rfl hrun
      (hi.events.append (by rw [hfs, completedSteps_fails hfail]) hev)
  | @misrouted _ input st output out err reason hcomp _ _ hrun hev =>
    exact hi.stopped (f := FlowRunRecord.fail (state.record node.id output out) reason)
      (fun _ => ⟨rfl, rfl⟩) rfl hrun (hi.events.complete hcomp.completedSteps hev)
  | @paused _ input st e _ _ _ hst hsteps hrun hev =>
    obtain ⟨fs, hfs, hfail⟩ := hsteps
    obtain ⟨hid, -, hstat, -⟩ := hst
    have hcs : completedSteps s'.steps = completedSteps s.steps := by
      rw [hfs, completedSteps_append, completedSteps_fails hfail]
      simp [completedSteps, hstat]
    have hrow : ∀ run, s'.run = some run →
        run.state = { state with pause := some ⟨node.id, st.stepId, e⟩ } := by
      intro run h
      obtain ⟨row, rfl⟩ := RunStore.row_of_map hrun h
      rfl
    refine ⟨hi.events.append hcs hev, fun run h c' hc' => ?_,
      fun run h _ => hi.routed.append hcs hev, fun run h _ => ?_⟩
    · rw [hrow run h] at hc'
      exact hi.known c' hc'
    · exact ⟨s.steps ++ fs, st, e, hfs, hstat, by rw [hrow run h, hid],
        by rw [hrow run h, hid]; exact hc⟩

theorem LoopLedger.next (hm : m.Valid) (hi : LoopLedger m state s)
    (h : ActivationEffect env (ses.activation cfg m node state) s (.next state') s') :
    LoopLedger m state' s' := by
  cases h with
  | advanced hcomp hsel _ hev =>
    exact ⟨hi.events.route hcomp.completedSteps hev, hi.routed.route hcomp.completedSteps hev,
      knownCursor_of_route hm hsel⟩

end Loop

theorem loopLedger_rule (hm : m.Valid) (ses : Session) :
    LoopRule env cfg m ses (LoopLedger m) fun _ s => Ledger m s where
  known hi hc := hi.known _ hc
  budget v hi := hi.stopped (f := FlowRunRecord.fail _ _) (fun _ => ⟨rfl, rfl⟩) rfl rfl
    (hi.events.append (by rfl) (RunStore.routed_fail _ _ _ _))
  complete t hi _ _ := hi.stopped (f := FlowRunRecord.complete _ _) (fun _ => ⟨rfl, rfl⟩) rfl rfl
    (hi.events.append (by rfl) (by simp [RunStore.complete, routedStepIds, FlowEvent.completedStep?]))
  stop hi hc hn h := hi.stop hc hn h
  next hi _ _ h := hi.next hm h

/-! ## The calls -/

section Calls

variable {run : FlowRunRecord} {w : Waiting}

theorem runLoop_ledger (hm : m.Valid) {cap : Option FlowBudgets} (hi : LoopLedger m run.state s) :
    Ends env (fun _ s' => Ledger m s') (runLoop cfg m run cap) s :=
  runLoop_ends (LoopLedger m) (fun _ => loopLedger_rule hm _) ⟨hi.events, hi.routed, hi.known⟩

theorem PausedLast.place {node : FlowNode} {step : FlowStepRecord} (h : PausedLast run s.steps)
    (hn : m.node? run.state.waitingNodeId = some node)
    (hst : waitingStep? (run.state.pause.map (·.stepId)) s.steps = some step) :
    ∃ xs, s.steps = xs ++ [step] ∧ step.status = .waitingHuman ∧ step.nodeId = node.id ∧
      run.state.cursor = some node.id := by
  obtain ⟨xs, st, e, hsteps, hstat, hp, hc⟩ := h
  have hid : node.id = st.nodeId := by
    have := FlowManifest.node?_id hn
    rw [this, RunState.waitingNodeId, hp]
    rfl
  rw [hp, hsteps] at hst
  obtain rfl := Option.some.inj ((waitingStep?_last xs st).symm.trans hst)
  exact ⟨xs, hsteps, hstat, hid.symm, by rw [hid]; exact hc⟩

theorem Ledger.place (hL : Ledger m s) (hw : w.Met m s) :
    ∃ xs, s.steps = xs ++ [w.step] ∧ w.step.status = .waitingHuman ∧ w.step.nodeId = w.node.id ∧
      w.run.state.cursor = some w.node.id :=
  (hL.paused _ hw.row hw.status).place hw.node hw.step

theorem Ledger.completed_answer (hL : Ledger m s) (hw : w.Met m s) (output : Obj) (e : FlowEvent) :
    completedSteps (s.answer w output e).steps =
      completedSteps s.steps ++ [w.step.close .completed (some output) ""] := by
  obtain ⟨xs, hsteps, hstat, -, -⟩ := hL.place hw
  exact RunStore.completedSteps_completeStep hsteps (by simp [hstat])

/-- What `I` needs of the calls from a store whose ledger is in order. -/
structure CallRule (env : Env) (cfg : EngineConfig) (m : FlowManifest) (s : RunStore)
    (I : RunStore → Prop) : Prop where
  execute : ∀ run cap, s.run = some run → run.status.terminal = false →
    Ends env (fun _ s' => I s') (runLoop cfg m run cap) s
  resume : ∀ run s₁, s.run = some run → run.status.terminal = false → Superseded s s₁ →
    Ends env (fun _ s' => I s') (runLoop cfg m run none)
      (s₁.appendEvent (.runResumed run.state.cursor))
  answer : ∀ w, w.Met m s → AnswerRule env cfg m w s I
  replay : ∀ s', s'.run = s.run → s'.steps = s.steps →
    routedStepIds s'.events = routedStepIds s.events → s'.calls = s.calls → I s'

theorem resumeRun_unbroken {I : RunStore → Prop} (hL : Ledger m s) (hI : I s)
    (hrule : CallRule env cfg m s I) :
    Ends env (fun _ s' => I s') (resumeRun cfg m) s := by
  refine wp_resumeRun trivial (fun _ => hI) (fun _ _ _ => hI) fun run s₁ hrun hnt hsup => ?_
  have hrun₁ : s₁.run = some run := hsup.run.trans hrun
  refine ⟨trivial, wp_reconcile trivial (fun _ => ⟨fun h => ?_, fun _ => ⟨trivial, ?_⟩⟩) ?_⟩
  · cases h.symm.trans hnt
  · exact executeRun_open hrun₁ hnt (hrule.resume run s₁ hrun hnt hsup)
  · intro c last hcw
    have hrouted : StepsRouted s₁ :=
      (hL.routed run hrun hnt).append hsup.completed (by rw [hsup.events])
    refine absurd ?_ hcw.unrouted
    exact hrouted last (mem_filter.mp (mem_of_getLast? hcw.isLast)).1

theorem FlowCall.keeps (hm : m.Valid) {c : FlowCall} {I : RunStore → Prop} (hL : Ledger m s)
    (hI : I s) (hrule : CallRule env cfg m s I) (h : c.Runs env cfg m s s') : I s' := by
  cases c with
  | execute cap =>
    obtain ⟨r, h⟩ := h
    exact h.of_wp (wp_executeRun trivial (fun _ => hI) (fun _ _ _ => hI)
      fun run hrun hnt => hrule.execute run cap hrun hnt)
  | resume =>
    obtain ⟨r, h⟩ := h
    exact h.of_wp (resumeRun_unbroken hL hI hrule)
  | decide d actor =>
    obtain ⟨r, h⟩ := h
    exact h.of_wp (decideRun_answers hm hI hrule.answer)
  | expire moment =>
    obtain ⟨r, h⟩ := h
    exact h.of_wp (expireDue_answers hm hI hrule.answer)
  | replay =>
    obtain ⟨r, h⟩ := h
    rcases h.of_wp replayRun_keeps with rfl | ⟨report, rfl⟩
    · exact hI
    · exact hrule.replay _ rfl rfl (by simp [routedStepIds, FlowEvent.completedStep?]) rfl

theorem ledger_answer (hm : m.Valid) (hL : Ledger m s) (hw : w.Met m s) :
    AnswerRule env cfg m w s (Ledger m) := by
  have hi : LoopLedger m w.run.state s :=
    ⟨hL.events, hL.routed _ hw.row hw.open, hL.known _ hw.row⟩
  refine ⟨fun {nodes output e} reason d he => ?_, fun {nodes output e next} he hknown => ?_⟩
  · refine hi.stopped (f := FlowRunRecord.fail (w.run.state.decided nodes w.node.id output) reason)
      (fun _ => ⟨rfl, rfl⟩) rfl rfl ?_
    exact hL.events.complete (hL.completed_answer hw output e)
      ((RunStore.routed_fail _ _ _ _).trans (RunStore.routed_answer he))
  have hev := (RunStore.routed_leave (s.answer w output e) w.node w.step
    { w.run.state.decided nodes w.node.id output with cursor := next } false).trans
    (congrArg (· ++ [_]) (RunStore.routed_answer he))
  have hcs := hL.completed_answer hw output e
  exact runLoop_ledger hm ⟨hL.events.route hcs hev, hi.routed.route hcs hev, hknown⟩

theorem ledger_calls (hm : m.Valid) (hL : Ledger m s) : CallRule env cfg m s (Ledger m) where
  execute run cap hrun hnt :=
    runLoop_ledger hm ⟨hL.events, hL.routed run hrun hnt, hL.known run hrun⟩
  resume run s₁ hrun hnt hsup := by
    have hev : routedStepIds (s₁.appendEvent (.runResumed run.state.cursor)).events =
        routedStepIds s.events := by
      simp [routedStepIds, FlowEvent.completedStep?, hsup.events]
    exact runLoop_ledger hm ⟨hL.events.append hsup.completed hev,
      (hL.routed run hrun hnt).append hsup.completed hev, hL.known run hrun⟩
  answer w hw := ledger_answer hm hL hw
  replay s' hrun hsteps hev _ := by
    refine ⟨hL.events.append (by rw [hsteps]) hev, fun run h => ?_, fun run h hnt => ?_,
      fun run h hw => ?_⟩
    · exact hL.known run (hrun.symm.trans h)
    · exact (hL.routed run (hrun.symm.trans h) hnt).append (by rw [hsteps]) hev
    · rw [hsteps]
      exact hL.paused run (hrun.symm.trans h) hw

theorem startRun_ledger (hm : m.Valid) {input : Obj} {execute : Bool} {cap : Option FlowBudgets} :
    Ends env (fun _ s' => Ledger m s') (startRun cfg m input execute cap) .empty := by
  refine startRun_ends hm (fun _ => ⟨fun i hi => (by cases hi), fun run h => (by cases h),
    fun run h => (by cases h), fun run h => (by cases h)⟩) fun entry _ hknown => ?_
  have hi : LoopLedger m { cursor := some entry.id, budgetCap := cap } (.started input entry cap) :=
    ⟨nofun, nofun, hknown⟩
  refine ⟨⟨hi.events, fun run h => ?_, fun run h _ => hi.routed, fun run h hw => ?_⟩,
    runLoop_ledger hm hi⟩
  · cases h
    exact hknown
  · cases h
    cases hw

end Calls

theorem Reached.ledger (hm : m.Valid) {g : FlowCall → RunStore → Prop} (h : Reached cfg m g s) :
    Ledger m s := by
  induction h with
  | start h => exact h.of_wp (startRun_ledger hm)
  | call _ _ h ih => exact FlowCall.keeps hm ih ih (ledger_calls hm ih) h

end AutoDev.Flows
