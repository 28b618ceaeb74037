/-
# `AutoDev.Flows.HumanRecovery` — crashes while a human node is left

`decide` and `expire_due` leave a human node with four commits: the step, the
event of the decision or of the expiry, the checkpoint, and the event of the
route.  A crash BEFORE the checkpoint leaves the row as the call found it, and
`resume_run` routes again: without the edits, by ordinary edges, and with the
pause still in the state.  A crash AT or AFTER it leaves a store on the course of
the exit (`HumanExit.course`).

One exception remains.  A timeout may lead back to its own node.  If the crash
takes the event of that route, the step looks like a window of the cursor node
and is routed by ordinary edges after all.
-/
import AutoDev.Flows.Ledger
import AutoDev.Flows.Recovery

namespace AutoDev.Flows

open Prog List Option

/-! ## A course that has been cut -/

namespace Course

variable {w : Course} {s : RunStore}

def cut (w : Course) : Course := { w with unbroken := False }

theorem Halts.cut {tr : List (String × Option Obj)} {q : PathState} {e : RunStatus}
    (h : w.Halts tr q e) : w.cut.Halts tr q e := by
  cases h with
  | finished ht hv => exact .finished ht hv
  | refused ht hv => exact .refused ht hv
  | misrouted ht hv => exact .misrouted ht hv
  | pauses ht hv => exact .pauses ht hv

theorem At.cut {t : List (String × HandlerOutput)} {p : PathState} {xs : List FlowStepRecord}
    {state : RunState} (h : w.At t p xs state s) : w.cut.At t p xs state s :=
  ⟨h.reach, ⟨h.doc.nodes, h.doc.cursor, h.doc.cap, h.doc.pause, h.doc.spent⟩, h.row, h.marks,
    h.routed, fun hu => hu.elim⟩

theorem Over.cut (h : w.Over s) : w.cut.Over s := by
  obtain ⟨run, hr, hh, ho, hp⟩ := h
  exact ⟨run, hr, hh.cut, ho, hp⟩

theorem Mid.cut (h : w.Mid s) : w.cut.Mid s := by
  rcases h with ⟨t, p, state, h⟩ | ⟨t, p, state, xs, st, c, out, hx, h, hmark, hcomp, -⟩ |
    ⟨hover, hterm⟩
  · exact .inl ⟨t, p, state, h.cut⟩
  · exact .inr (.inl ⟨t, p, state, xs, st, c, out, hx, h.cut, hmark, hcomp, fun hu => hu.elim⟩)
  · exact .inr (.inr ⟨hover.cut, hterm⟩)

theorem Sound.cut (h : w.Sound) : w.cut.Sound :=
  ⟨h.valid, h.start, ⟨h.ample.cap, h.ample.steps, h.ample.tokens, h.ample.cost⟩⟩

theorem Answers.cut {env : Env} (h : w.Answers env) : w.cut.Answers env := ⟨h.invoke, h.clock⟩

/-- In a run that was not cut before, only the last completed step can lack its event. -/
theorem Mid.windowIsLast (hu : w.unbroken) (h : w.Mid s) : WindowIsLast s := by
  intro run c last hrun hnt hcw
  have hmem : last ∈ completedSteps s.steps :=
    (mem_filter.mp (mem_of_getLast? hcw.isLast)).1
  have key : ∀ {xs : List FlowStepRecord} {st : FlowStepRecord}, completedSteps s.steps = xs ++ [st] →
      (∀ st ∈ xs, st.stepId ∈ routedStepIds s.events) →
      (completedSteps s.steps).getLast? = some last := by
    intro xs st hx hall
    rw [hx] at hmem ⊢
    rcases mem_append.mp hmem with hl | hl
    · exact absurd (hall last hl) hcw.unrouted
    · simp [mem_singleton.mp hl]
  rcases h with ⟨t, p, state, h⟩ | ⟨t, p, state, xs, st, c', out, hx, h, -, -, hclear⟩ | ⟨-, hterm⟩
  · rcases eq_nil_or_concat (completedSteps s.steps) with hnil | ⟨xs, st, hx⟩
    · rw [hnil] at hmem
      cases hmem
    · rw [concat_eq_append] at hx
      refine key hx fun st' hst' => h.kept hu st' ?_
      rwa [hx, dropLast_concat]
  · exact key hx (hclear hu)
  · cases (hterm run hrun).symm.trans hnt

end Course

/-! ## The exits of a human node -/

/-- How a human node is left: by a decision, over outputs that its edits may have changed, or by
its timeout. -/
inductive HumanExit where
  | decided (decision : Obj) (nodes : Dict Value)
  | expired

namespace HumanExit

def output : HumanExit → Obj
  | decided decision _ => decision
  | expired => timedOutOutput

variable (m : FlowManifest) (pl : Waiting)

/-- The outputs before that of the human step is set. -/
def nodes : HumanExit → Dict Value
  | decided _ nodes => nodes
  | expired => pl.run.state.nodes

def state (x : HumanExit) : RunState :=
  pl.run.state.decided (x.nodes pl) pl.node.id x.output

def ordinary (x : HumanExit) : Except RouteError (Option String) :=
  selectNextNode m pl.node (evalState pl.run.input (x.state pl).nodes)

def route? : HumanExit → Option (Option String)
  | decided decision nodes => ((decided decision nodes).ordinary m pl).toOption
  | expired => (timeoutTarget? m pl.node).map some

/-- The steps completed when the node is left. -/
def prior (s : RunStore) (x : HumanExit) : List (String × Option Obj) :=
  traceOf s.steps ++ [(pl.node.id, some x.output)]

/-- The course of an exit: it starts in the state that the exit checkpoints. -/
def course (cfg : EngineConfig) (m : FlowManifest) (outcome : String → Obj → HandlerResult)
    (pl : Waiting) (s : RunStore) (x : HumanExit) : Course where
  cfg := cfg
  m := m
  outcome := outcome
  row := { pl.run with state := { x.state pl with cursor := (x.route? m pl).getD none } }
  prior := x.prior pl s
  unbroken := StepsRouted s

end HumanExit

structure AwaitsHuman (m : FlowManifest) (s : RunStore) (pl : Waiting) : Prop where
  run : s.run = some pl.run
  status : pl.run.status = .waitingHuman
  cursor : pl.run.state.cursor = some pl.node.id
  node : m.node? pl.run.state.waitingNodeId = some pl.node
  found : waitingStep? (pl.run.state.pause.map (·.stepId)) s.steps = some pl.step
  last : ∃ xs, s.steps = xs ++ [pl.step]
  waits : pl.step.status = .waitingHuman
  nodeId : pl.step.nodeId = pl.node.id
  pause : pl.run.state.pause ≠ none
  events : EventsKnown s

theorem Ledger.awaits {m : FlowManifest} {s : RunStore} {pl : Waiting} (hL : Ledger m s)
    (hrun : s.run = some pl.run) (hw : pl.run.status = .waitingHuman)
    (hn : m.node? pl.run.state.waitingNodeId = some pl.node)
    (hst : waitingStep? (pl.run.state.pause.map (·.stepId)) s.steps = some pl.step) :
    AwaitsHuman m s pl := by
  have hp := hL.paused _ hrun hw
  obtain ⟨xs, hsteps, hstat, hid, hc⟩ := hp.place hn hst
  obtain ⟨_, _, _, -, -, hpause, -⟩ := hp
  exact ⟨hrun, hw, hc, hn, hst, ⟨xs, hsteps⟩, hstat, hid, by rw [hpause]; simp, hL.events⟩

/-! ## The commits of an exit -/

section Exit

variable {env : Env} {cfg : EngineConfig} {m : FlowManifest}
  {outcome : String → Obj → HandlerResult} {pl : Waiting} {x : HumanExit} {s s' s₂ : RunStore}
  {next : Option String}

/-- The human step is completed; row and routes are as before. -/
structure Stepped (pl : Waiting) (x : HumanExit) (s s₂ : RunStore) : Prop where
  run : s₂.run = s.run
  completed : completedSteps s₂.steps
    = completedSteps s.steps ++ [pl.step.close .completed (some x.output) ""]
  routed : routedStepIds s₂.events = routedStepIds s.events

variable (hm : m.Valid) (hw : AwaitsHuman m s pl)

include hw

theorem AwaitsHuman.stepped (x : HumanExit) {e : FlowEvent}
    (he : e.completedStep? = none) :
    Stepped pl x s ((s.completeStep pl.step.stepId .completed (some x.output) "").appendEvent e) := by
  obtain ⟨xs, hsteps⟩ := hw.last
  exact ⟨rfl, RunStore.completedSteps_completeStep hsteps (by simp [hw.waits]), by
    simp [routedStepIds, he]⟩

theorem Stepped.trace (h : Stepped pl x s s₂) : traceOf s₂.steps = x.prior pl s := by
  rw [traceOf, h.completed, map_append, HumanExit.prior, ← hw.nodeId]
  rfl

theorem Stepped.saved (h : Stepped pl x s s₂) (hr : x.route? m pl = some next) :
    (x.course cfg m outcome pl s).At [] (x.course cfg m outcome pl s).origin
      (completedSteps s₂.steps) { x.state pl with cursor := next }
      (s₂.updateRun { state := some { x.state pl with cursor := next } }) := by
  have hrun : s₂.run = some pl.run := h.run.trans hw.run
  refine ⟨.nil, ⟨rfl, ?_, rfl, fun hp => absurd rfl hp, [], .slnil, rfl, rfl⟩,
    ⟨_, congrArg (Option.map _) hrun, rfl, rfl, rfl, ?_⟩, ?_, fun i hi => ?_, fun hu st hst => ?_⟩
  · simp [Course.origin, HumanExit.course, hr]
  · change pl.run.status.terminal = false
    rw [hw.status]
    rfl
  · have htr := h.trace hw
    simpa [Course.trace, HumanExit.course, traceOf] using htr
  · have hi' : i ∈ routedStepIds s.events := h.routed ▸ hi
    rw [h.completed, map_append]
    exact mem_append_left _ (hw.events i hi')
  · rw [h.completed, dropLast_concat] at hst
    change st.stepId ∈ routedStepIds s₂.events
    rw [h.routed]
    exact hu st hst

theorem Stepped.left (h : Stepped pl x s s₂) (hr : x.route? m pl = some next) :
    (x.course cfg m outcome pl s).At [] (x.course cfg m outcome pl s).origin
      (completedSteps s₂.steps) { x.state pl with cursor := next }
      (s₂.leave pl.node pl.step { x.state pl with cursor := next } false) ∧
    (x.course cfg m outcome pl s).Clear (completedSteps s₂.steps)
      (s₂.leave pl.node pl.step { x.state pl with cursor := next } false) := by
  have hset : (x.course cfg m outcome pl s).At [] _ _ _ _ := h.saved hw hr
  set s₃ := s₂.leave pl.node pl.step { x.state pl with cursor := next } false with hs₃
  have hev : routedStepIds s₃.events = routedStepIds s₂.events ++ [pl.step.stepId] :=
    RunStore.routed_leave _ _ _ _ _
  have hclear : (x.course cfg m outcome pl s).Clear (completedSteps s₂.steps) s₃ := by
    intro hu
    rw [h.completed, hev, h.routed]
    exact forall_mem_append.mpr
      ⟨fun st hst => mem_append_left _ (hu st hst), by simp [FlowStepRecord.close]⟩
  refine ⟨⟨hset.reach, hset.doc, hset.row, hset.marks, ?_, hclear.dropLast⟩, hclear⟩
  rw [hev]
  exact forall_mem_append.mpr ⟨hset.routed, by simp [h.completed, FlowStepRecord.close]⟩

def HumanExit.Failed (pl : Waiting) (s : RunStore) (x : HumanExit) (s' : RunStore) : Prop :=
  ∃ run, s'.run = some run ∧ run.status = .failed ∧ run.state = x.state pl ∧
    run.output = pl.run.output ∧ traceOf s'.steps = x.prior pl s

theorem Stepped.failed (h : Stepped pl x s s₂) {reason : StopReason}
    (hrun : s'.run = s₂.run.map (FlowRunRecord.fail (x.state pl) reason))
    (hsteps : s'.steps = s₂.steps) : x.Failed pl s s' := by
  rw [h.run, hw.run] at hrun
  exact ⟨_, hrun, rfl, rfl, rfl, by rw [hsteps]; exact h.trace hw⟩

section

variable (cfg : EngineConfig) (m : FlowManifest) (outcome : String → Obj → HandlerResult)
  (pl : Waiting) (s : RunStore) (x : HumanExit) (s' : RunStore)

/-- What a crash at or after the checkpoint leaves. -/
def HumanExit.Saved : Prop :=
  match x.route? m pl with
  | some _ => (x.course cfg m outcome pl s).Mid s'
  | none => x.Failed pl s s'

/-- What the call leaves in the end. -/
def HumanExit.Done : Prop :=
  match x.route? m pl with
  | some _ => (x.course cfg m outcome pl s).cut.Over s'
  | none => x.Failed pl s s'

/-- What a crash anywhere in the call leaves. -/
def HumanExit.Within : Prop :=
  s'.run = s.run ∨ x.Saved cfg m outcome pl s s'

end

omit hw in
theorem HumanExit.saved_of_mid (hr : x.route? m pl = some next)
    (h : (x.course cfg m outcome pl s).Mid s') : x.Saved cfg m outcome pl s s' := by
  rw [HumanExit.Saved, hr]
  exact h

theorem Stepped.stuck (h : Stepped pl x s s₂) (hr : x.route? m pl = none) (reason : StopReason)
    (d : FailDetail) :
    x.Within cfg m outcome pl s (s₂.updateRun
      { status := some .failed, stopReason := some reason, state := some (x.state pl) }) ∧
    x.Within cfg m outcome pl s (s₂.fail (x.state pl) reason d) ∧
    x.Done cfg m outcome pl s (s₂.fail (x.state pl) reason d) := by
  simp only [HumanExit.Within, HumanExit.Saved, HumanExit.Done, hr]
  exact ⟨.inr (h.failed hw rfl rfl), .inr (h.failed hw rfl rfl), h.failed hw rfl rfl⟩

theorem Stepped.within (h : Stepped pl x s s₂) (hr : x.route? m pl = some next) :
    x.Within cfg m outcome pl s (s₂.updateRun { state := some { x.state pl with cursor := next } }) ∧
    x.Within cfg m outcome pl s
      (s₂.leave pl.node pl.step { x.state pl with cursor := next } false) := by
  refine ⟨.inr (HumanExit.saved_of_mid hr ?_), .inr (HumanExit.saved_of_mid hr ?_)⟩
  · exact Course.At.settled (h.saved hw hr)
  · exact Course.At.settled (h.left hw hr).1

omit hw in
theorem HumanExit.ordinary_of_route {d : Obj} {nodes : Dict Value}
    (hr : (HumanExit.decided d nodes).route? m pl = some next) :
    (HumanExit.decided d nodes).ordinary m pl = .ok next := by
  rcases hsel : (HumanExit.decided d nodes).ordinary m pl with e | n
  · rw [HumanExit.route?, hsel] at hr
    cases hr
  · rw [HumanExit.route?, hsel] at hr
    cases hr
    rfl

include hm

theorem HumanExit.course_sound (hamp : (x.course cfg m outcome pl s).Ample) :
    (x.course cfg m outcome pl s).Sound where
  valid := hm
  start c hc := by
    have hroute : (x.route? m pl).getD none = some c := hc
    have hr : x.route? m pl = some (some c) := by simpa [getD_eq_iff] using hroute
    cases x with
    | decided d nodes =>
      have hknown : KnownCursor m { pl.run.state with cursor := some c } :=
        knownCursor_of_route hm (HumanExit.ordinary_of_route hr)
      exact hknown c rfl
    | expired =>
      obtain ⟨target, ht, hc'⟩ := map_eq_some_iff.mp hr
      cases hc'
      exact timeoutTarget_known hm hw.node ht
  ample := hamp

/-! ## The call -/

theorem wp_execute_exit (hamp : (x.course cfg m outcome pl s).Ample)
    (ha : (x.course cfg m outcome pl s).Answers env) (h : Stepped pl x s s₂) (hr : x.route? m pl = some next) :
    wp (Sem env) (x.Within cfg m outcome pl s) (fun _ s' => x.Done cfg m outcome pl s s')
      (executeRun cfg m none)
      (s₂.leave pl.node pl.step { x.state pl with cursor := next } false) := by
  obtain ⟨hat, hclear⟩ : (x.course cfg m outcome pl s).At [] _ _ _ _ ∧ _ := h.left hw hr
  have hwp := Course.wp_execute (s := s₂.leave pl.node pl.step { x.state pl with cursor := next }
    false) (HumanExit.course_sound hm hw hamp) ha hat hclear
  refine wp_mono (fun s' hmid => .inr (HumanExit.saved_of_mid hr hmid)) (fun _ s' hover => ?_) hwp
  rw [HumanExit.Done, hr]
  exact hover.cut

theorem wp_resumeDecided {d : Obj} {nodes : Dict Value}
    (hamp : ((HumanExit.decided d nodes).course cfg m outcome pl s).Ample)
    (ha : ((HumanExit.decided d nodes).course cfg m outcome pl s).Answers env)
    (h : Stepped pl (.decided d nodes) s s₂) :
    wp (Sem env) ((HumanExit.decided d nodes).Within cfg m outcome pl s)
      (fun _ s' => (HumanExit.decided d nodes).Done cfg m outcome pl s s')
      (resumeDecided cfg m pl ((HumanExit.decided d nodes).state pl)) s₂ := by
  simp only [resumeDecided, wp_bind]
  refine wp_leaveNode (fun err reason detail hsel _ => ?_) fun next hsel => ?_
  · have hr : (HumanExit.decided d nodes).route? m pl = none := by
      rw [HumanExit.route?, HumanExit.ordinary, hsel]
      rfl
    exact h.stuck hw hr reason detail
  have hr : (HumanExit.decided d nodes).route? m pl = some next := by
    rw [HumanExit.route?, HumanExit.ordinary, hsel]
    rfl
  refine ⟨(h.within hw hr).1, (h.within hw hr).2, ?_⟩
  simp only [wp_bind]
  exact wp_post (wp_execute_exit hm hw hamp ha h hr) fun _ _ hd => hd

theorem wp_routeTimeout
    (hamp : (HumanExit.expired.course cfg m outcome pl s).Ample)
    (ha : (HumanExit.expired.course cfg m outcome pl s).Answers env) :
    wp (Sem env) (HumanExit.expired.Within cfg m outcome pl s)
      (fun _ s' => HumanExit.expired.Done cfg m outcome pl s s') (routeTimeout cfg m pl) s := by
  simp only [routeTimeout, wp_bind, wp_completeStep, wp_appendEvent]
  refine ⟨.inl rfl, .inl rfl, ?_⟩
  have h := hw.stepped .expired (e := .timeoutExpired pl.node.id pl.step.stepId
    (pl.run.state.pause.bind (·.expiresAt))) rfl
  rcases ht : timeoutTarget? m pl.node with _ | target
  · have hr : HumanExit.expired.route? m pl = none := by rw [HumanExit.route?, ht]; rfl
    simp only [wp_bind]
    obtain ⟨h₁, h₂, h₃⟩ := h.stuck hw hr .noRoute (.expired pl.node.id)
    exact wp_failRun h₃ h₁ h₂
  · have hr : HumanExit.expired.route? m pl = some (some target) := by
      rw [HumanExit.route?, ht]
      rfl
    simp only [wp_bind, wp_updateRun, wp_appendEvent]
    exact ⟨(h.within hw hr).1, (h.within hw hr).2,
      wp_post (wp_execute_exit hm hw hamp ha h hr) fun _ _ hd => hd⟩

def FlowCall.Cuts (env : Env) (cfg : EngineConfig) (m : FlowManifest) (s s' : RunStore) :
    FlowCall → Prop
  | .execute cap => ∃ rest, Steps (Sem env) (executeRun cfg m cap) s rest s'
  | .resume => ∃ rest, Steps (Sem env) (resumeRun cfg m) s rest s'
  | .decide d actor => ∃ rest, Steps (Sem env) (decideRun cfg m d actor) s rest s'
  | .expire moment => ∃ rest, Steps (Sem env) (expireDue cfg m moment) s rest s'
  | .replay => ∃ rest, Steps (Sem env) (replayRun cfg m) s rest s'

/-- The call leaves the node by the exit: a valid decision before the wait is due, or a call that
finds it due. -/
def FlowCall.Exits (env : Env) (m : FlowManifest) (pl : Waiting) : FlowCall → HumanExit → Prop
  | .decide d _, .decided d' nodes =>
    d' = d ∧ ¬ Due env pl.run none ∧ checkDecision m pl d = .ok nodes
  | .decide _ _, .expired => Overdue env pl.run none
  | .expire moment, .expired => Overdue env pl.run moment
  | _, _ => False

variable (hamp : (x.course cfg m outcome pl s).Ample)
  (ha : (x.course cfg m outcome pl s).Answers env)

omit hm in
theorem AwaitsHuman.wp_place {I : RunStore → Prop}
    {Q : Except HumanError Waiting → RunStore → Prop} (hI : I s) (hQ : Q (.ok pl) s) :
    wp (Sem env) I Q (waitingPlace m pl.run) s := by
  simp only [waitingPlace, hw.node, wp_bind, wp_listSteps, hw.found]
  exact ⟨hI, hQ⟩

include hamp ha

theorem AwaitsHuman.wp_decideRun {d : Obj} {actor : String}
    (hx : (FlowCall.decide d actor).Exits env m pl x) :
    wp (Sem env) (x.Within cfg m outcome pl s) (fun _ s' => x.Done cfg m outcome pl s s')
      (decideRun cfg m d actor) s := by
  have hI : x.Within cfg m outcome pl s s := .inl rfl
  simp only [decideRun, waitingContext, wp_bind, wp_getRun, hw.run, hw.status, ne_eq,
    not_true_eq_false, if_false]
  refine ⟨hI, hw.wp_place hI ?_⟩
  simp only [wp_bind]
  cases x with
  | decided d' nodes =>
    obtain ⟨rfl, hnot, hck⟩ := hx
    refine wp_pauseExpired hI (fun _ => ?_) fun hdue => absurd hdue hnot
    simp only [Bool.false_eq_true, if_false, hck, recordDecision, wp_bind, wp_completeStep,
      wp_appendEvent]
    exact ⟨.inl rfl, .inl rfl, wp_resumeDecided hm hw hamp ha (hw.stepped (.decided d' nodes) rfl)⟩
  | expired =>
    refine wp_pauseExpired hI (fun hnot => absurd hx hnot) fun _ => ?_
    simp only [if_true, wp_bind]
    refine wp_post (wp_routeTimeout hm hw hamp ha) fun r s' hd => ?_
    cases r with
    | error _ | ok _ => exact hd

theorem AwaitsHuman.wp_expireDue {moment : Option ℚ}
    (hx : (FlowCall.expire moment).Exits env m pl x) :
    wp (Sem env) (x.Within cfg m outcome pl s) (fun _ s' => x.Done cfg m outcome pl s s')
      (expireDue cfg m moment) s := by
  have hI : x.Within cfg m outcome pl s s := .inl rfl
  cases x with
  | decided d nodes => exact hx.elim
  | expired =>
    simp only [expireDue, wp_bind, wp_listWaiting, hw.run, toList_some, filter_cons,
      hw.status, beq_self_eq_true, if_true, filter_nil, expireRuns]
    refine ⟨hI, wp_pauseExpired hI (fun hnot => absurd hx hnot) fun _ => ?_⟩
    simp only [if_true, wp_bind]
    refine hw.wp_place hI ?_
    simp only [wp_bind]
    refine wp_post (wp_routeTimeout hm hw hamp ha) fun r s' hd => ?_
    cases r with
    | error _ | ok _ => exact hd

theorem AwaitsHuman.on_course {c : FlowCall} (hx : c.Exits env m pl x) :
    (∀ s', c.Runs env cfg m s s' → x.Done cfg m outcome pl s s') ∧
      ∀ s', c.Cuts env cfg m s s' → x.Within cfg m outcome pl s s' := by
  cases c with
  | decide d actor =>
    have hwp := hw.wp_decideRun hm hamp ha hx
    exact ⟨fun _ ⟨_, h⟩ => h.of_wp hwp, fun _ ⟨_, h⟩ => (h.of_wp (.inl rfl) hwp).1⟩
  | expire moment =>
    have hwp := hw.wp_expireDue hm hamp ha hx
    exact ⟨fun _ ⟨_, h⟩ => h.of_wp hwp, fun _ ⟨_, h⟩ => (h.of_wp (.inl rfl) hwp).1⟩
  | execute _ | resume | replay => exact hx.elim

/-! ## The resume -/

/-- Past the checkpoint, `resume_run` needs no more than this.  A timeout that leads back to its
own node, and whose event is not written, is where ordinary routing leads too.  If events were
missing before the call, the window is still the last completed step. -/
structure HumanExit.Recoverable (m : FlowManifest) (pl : Waiting) (s : RunStore) (x : HumanExit)
    (s₁ : RunStore) : Prop where
  loops : ∀ last, x = .expired → timeoutTarget? m pl.node = some pl.node.id →
    lastCompletedOf pl.node.id s₁.steps = some last → last.stepId ∉ routedStepIds s₁.events →
    x.ordinary m pl = .ok (some pl.node.id)
  log : ¬ StepsRouted s → WindowIsLast s₁

variable {s₀ s₁ : RunStore}

omit hm hamp ha in
theorem HumanExit.Recoverable.echoes (hrec : x.Recoverable m pl s s₁)
    (hlast : WindowIsLast s₁) : (x.course cfg m outcome pl s).cut.EchoesAtStart s₁ := by
  intro run c last hrun hnt hcw htr hc
  have hprior : traceOf s₁.steps = x.prior pl s := htr
  -- the step is the last of the run, so it is the human one
  have hmark : last.mark = (pl.node.id, some x.output) := by
    have hl := congrArg getLast? hprior
    rw [traceOf, getLast?_map, hlast run c last hrun hnt hcw, HumanExit.prior,
      getLast?_append, getLast?_singleton, some_or, map_some] at hl
    exact Option.some.inj hl
  obtain rfl : pl.node.id = c :=
    (congrArg Prod.fst hmark).symm.trans (lastCompletedOf_nodeId hcw.isLast)
  have hout : last.output = some x.output := congrArg Prod.snd hmark
  have hroute : (x.route? m pl).getD none = some pl.node.id := hc
  refine ⟨pl.node, ?_, ?_, ?_⟩
  · rw [FlowManifest.node?_id hw.node]
    exact hw.node
  · rw [hout]
    exact Dict.set_get? (by
      change Dict.get? (Dict.set (x.nodes pl) pl.node.id (.obj x.output)) pl.node.id = _
      rw [Dict.get?_set]
      simp)
  · have hord : x.ordinary m pl = .ok (some pl.node.id) := by
      have hr : x.route? m pl = some (some pl.node.id) := by
        simpa [getD_eq_iff] using hroute
      cases x with
      | decided d nodes => exact HumanExit.ordinary_of_route hr
      | expired =>
        obtain ⟨target, ht, htc⟩ := map_eq_some_iff.mp hr
        cases htc
        exact hrec.loops last rfl ht hcw.isLast hcw.unrouted
    exact hord.trans (congrArg Except.ok hc.symm)

theorem resumeRun_done (hrec : x.Recoverable m pl s s₁) (h : x.Saved cfg m outcome pl s s₁) :
    Ends env (fun _ s' => x.Done cfg m outcome pl s s') (resumeRun cfg m) s₁ := by
  rcases hr : x.route? m pl with _ | next
  · rw [HumanExit.Saved, hr] at h
    obtain ⟨run, hrun, hfail, -⟩ := id h
    refine wp_resumeRun trivial (fun hnone => ?_) (fun _ _ _ => ?_) fun run' _ hrun' hnt _ => ?_
    · cases hrun.symm.trans hnone
    · rw [HumanExit.Done, hr]
      exact h
    · cases hrun.symm.trans hrun'
      rw [hfail] at hnt
      cases hnt
  · rw [HumanExit.Saved, hr] at h
    have hlast : WindowIsLast s₁ := by
      by_cases hlog : StepsRouted s
      · exact h.windowIsLast hlog
      · exact hrec.log hlog
    have hwp := Course.wp_resume (HumanExit.course_sound hm hw hamp).cut id (hrec.echoes hw hlast)
      ha.cut h.cut hlast
    refine wp_mono (fun _ _ => trivial) (fun _ s' hover => ?_) hwp
    rw [HumanExit.Done, hr]
    exact hover

omit hm hw hamp ha

/-- The two runs ended alike, and a pause is left only by a run that waits. -/
structure Recovered (s₀ s' : RunStore) : Prop where
  steps : traceOf s'.steps = traceOf s₀.steps
  status : s'.run.map (·.status) = s₀.run.map (·.status)
  nodes : s'.run.map (·.state.nodes) = s₀.run.map (·.state.nodes)
  cursor : s'.run.map (·.state.cursor) = s₀.run.map (·.state.cursor)
  output : s'.run.map (·.output) = s₀.run.map (·.output)
  pause : ∀ run, s'.run = some run → (run.state.pause ≠ none ↔ run.status = .waitingHuman)

theorem Recovered.of_rows {run run₀ : FlowRunRecord} (hrun : s'.run = some run)
    (hrun₀ : s₀.run = some run₀) (htr : traceOf s'.steps = traceOf s₀.steps)
    (hst : run.status = run₀.status) (hn : run.state.nodes = run₀.state.nodes)
    (hc : run.state.cursor = run₀.state.cursor) (ho : run.output = run₀.output)
    (hp : run.state.pause ≠ none ↔ run.status = .waitingHuman) : Recovered s₀ s' := by
  refine ⟨htr, ?_, ?_, ?_, ?_, fun run' hrun' => by cases hrun.symm.trans hrun'; exact hp⟩
  all_goals rw [hrun, hrun₀, map_some, map_some]
  exacts [congrArg some hst, congrArg some hn, congrArg some hc, congrArg some ho]

theorem HumanExit.Done.recovered (h₀ : x.Done cfg m outcome pl s s₀)
    (h : x.Done cfg m outcome pl s s') : Recovered s₀ s' := by
  rcases hr : x.route? m pl with _ | next
  · rw [HumanExit.Done, hr] at h₀ h
    obtain ⟨run₀, hrun₀, hst₀, hs₀, ho₀, htr₀⟩ := h₀
    obtain ⟨run, hrun, hst, hs, ho, htr⟩ := h
    have hs' : run.state = run₀.state := hs.trans hs₀.symm
    refine .of_rows hrun hrun₀ (htr.trans htr₀.symm) (hst.trans hst₀.symm) (congrArg _ hs')
      (congrArg _ hs') (ho.trans ho₀.symm) ?_
    rw [hs, hst]
    simp [HumanExit.state, RunState.decided]
  · rw [HumanExit.Done, hr] at h₀ h
    obtain ⟨run₀, hrun₀, hh₀, ho₀, -⟩ := h₀
    obtain ⟨run, hrun, hh, ho, hp⟩ := h
    obtain ⟨htr, hq, hst⟩ := hh.unique hh₀
    have hn : run.state.nodes = run₀.state.nodes := congrArg PathState.nodes hq
    refine .of_rows hrun hrun₀ htr hst hn (congrArg PathState.cursor hq) ?_ hp
    rw [ho, ho₀, hst, hn]

/-! ## The pause before the checkpoint

Nothing but the checkpoint of an exit removes a pause: a resume carries it along. -/

def HasPause (s : RunStore) : Prop := ∀ run, s.run = some run → run.state.pause ≠ none

theorem HasPause.of_map {f : FlowRunRecord → FlowRunRecord} (h : s'.run = s.run.map f)
    (hf : ∀ run, (f run).state.pause ≠ none) : HasPause s' := by
  intro run hrun
  obtain ⟨row, rfl⟩ := RunStore.row_of_map h hrun
  exact hf row

def CarriesPause (m : FlowManifest) (state : RunState) (_ : RunStore) : Prop :=
  state.pause ≠ none ∧ KnownCursor m state

theorem carriesPause_rule (hm : m.Valid) (ses : Session) :
    LoopRule env cfg m ses (CarriesPause m) fun _ s => HasPause s where
  known hi hc := hi.2 _ hc
  budget v hi := .of_map rfl fun _ => hi.1
  complete t hi _ _ := .of_map rfl fun _ => hi.1
  stop hi _ _ h := by
    cases h with
    | failed _ _ _ hrun _ | misrouted _ _ _ hrun _ => exact .of_map hrun fun _ => hi.1
    | paused st _ _ _ _ _ hrun _ => exact .of_map hrun fun _ => by simp [FlowRunRecord.wait]
  next hi _ _ h := by
    cases h with
    | advanced _ hsel _ _ => exact ⟨hi.1, knownCursor_of_route hm hsel⟩

variable (hm : m.Valid) (hp : HasPause s)
  (hk : ∀ run, s.run = some run → KnownCursor m run.state)
include hm hp hk

theorem executeRun_pause :
    Ends env (fun _ s' => HasPause s') (executeRun cfg m none) s :=
  wp_executeRun trivial (fun _ => hp) (fun _ _ _ => hp) fun run hrun _ =>
    runLoop_ends (CarriesPause m) (fun _ => carriesPause_rule hm _) ⟨hp run hrun, hk run hrun⟩

theorem resumeRun_pause :
    Ends env (fun _ s' => HasPause s') (resumeRun cfg m) s := by
  refine wp_resumeRun trivial (fun _ => hp) (fun _ _ _ => hp) fun run s₁ hrun hnt hsup => ?_
  have hrun₁ : s₁.run = some run := hsup.run.trans hrun
  have hp₁ : HasPause s₁ := fun row hrow => hp row (hsup.run.symm.trans hrow)
  refine ⟨trivial, wp_reconcile trivial (fun _ => ⟨fun _ => hp₁, fun _ => ⟨trivial, ?_⟩⟩) ?_⟩
  · exact executeRun_pause hm hp₁ fun row hrow => hk row (hsup.run.symm.trans hrow)
  intro c last hcw
  obtain ⟨node, hn⟩ := hk run hrun c hcw.cursor
  refine ⟨node, hn, wp_leaveNode (fun err reason d _ _ => ⟨trivial, trivial, ?_⟩)
    fun next hsel => ⟨trivial, trivial, trivial, ?_⟩⟩
  · -- the run failed: the record returned is terminal
    have hfail : HasPause (s₁.fail (run.state.folded c last) reason d) :=
      .of_map rfl fun _ => hp run hrun
    simp only [RunStore.loaded, RunStore.run_fail, hrun₁, map_some]
    refine ⟨fun _ => hfail, fun hopen => ?_⟩
    cases hopen
  · have hleft : HasPause (s₁.leave node last { run.state.folded c last with cursor := next } true) :=
      .of_map rfl fun _ => hp run hrun
    simp only [RunStore.loaded, RunStore.run_leave, hrun₁, map_some]
    refine ⟨fun _ => hleft, fun _ => ⟨trivial, executeRun_pause hm hleft fun row hrow => ?_⟩⟩
    obtain ⟨row', -, rfl⟩ := map_eq_some_iff.mp hrow
    exact knownCursor_of_route hm hsel

end Exit

/-! ## Exact recovery -/

/-- A call that leaves a human node is cut, and the run is resumed.  Past the checkpoint the
resumed run ends as the call would have ended; before it, the pause stays, so the two can end alike
only if the run waits again. -/
theorem human_recovery_exact {cfg : EngineConfig} {m : FlowManifest}
    {outcome : String → Obj → HandlerResult} (hm : m.Valid) {s s₀ s₁ s' : RunStore} {pl : Waiting}
    (hw : AwaitsHuman m s pl) {c : FlowCall} {x : HumanExit} {env₀ env₁ env : Env}
    (hx₀ : c.Exits env₀ m pl x) (hx₁ : c.Exits env₁ m pl x)
    (hamp : (x.course cfg m outcome pl s).Ample)
    (ha₀ : (x.course cfg m outcome pl s).Answers env₀)
    (ha₁ : (x.course cfg m outcome pl s).Answers env₁)
    (ha : (x.course cfg m outcome pl s).Answers env)
    (h₀ : c.Runs env₀ cfg m s s₀) (h₁ : c.Cuts env₁ cfg m s s₁) (hrec : x.Recoverable m pl s s₁)
    {r : RunResult} (h : Exec (Sem env) (resumeRun cfg m) s₁ r s') :
    (s₁.run ≠ s.run → Recovered s₀ s') ∧
    (s₁.run = s.run → Recovered s₀ s' → ∀ run, s'.run = some run → run.status = .waitingHuman) := by
  constructor
  · intro hsaved
    have hmid := ((hw.on_course hm hamp ha₁ hx₁).2 s₁ h₁).resolve_left hsaved
    have hdone := h.of_wp (resumeRun_done hm hw hamp ha hrec hmid)
    exact ((hw.on_course hm hamp ha₀ hx₀).1 s₀ h₀).recovered hdone
  intro hsame hrcv run hrun
  have hrow : ∀ row, s₁.run = some row → row = pl.run := by
    intro row hrow
    exact Option.some.inj (hrow.symm.trans (hsame.trans hw.run))
  have hpause : HasPause s' := by
    refine h.of_wp (resumeRun_pause hm (fun row hr => ?_) fun row hr => ?_)
    · rw [hrow row hr]
      exact hw.pause
    rw [hrow row hr]
    intro c' hc'
    cases hw.cursor.symm.trans hc'
    rw [FlowManifest.node?_id hw.node]
    exact ⟨_, hw.node⟩
  exact (hrcv.pause run hrun).mp (hpause run hrun)

/-! ## A review, cut

Cut right after the step, the edit of the draft is lost, and an expired wait is published. -/

section Review

def reviewPlace? : Option Waiting :=
  reviewStore.run.bind fun run => (reviewFlow.node? run.state.waitingNodeId).bind fun node =>
    (waitingStep? (run.state.pause.map (·.stepId)) reviewStore.steps).map fun step =>
      ⟨run, node, step⟩

def reviewPlace : Waiting := reviewPlace?.get (by decide +kernel)

def decideCut (n : Nat) : RunStore :=
  (Prog.runN steadyOracle.ans n (decideRun demoConfig reviewFlow editDraft "reviewer") reviewStore).2

def expireCut (n : Nat) : RunStore :=
  (Prog.runN steadyOracle.ans n (expireDue demoConfig reviewFlow (some 60)) reviewStore).2

def reviewResumed (s : RunStore) : RunStore :=
  (Prog.run steadyOracle.ans (resumeRun demoConfig reviewFlow) s).2

def draftEdited : HumanExit := .decided editDraft [("draft", .obj [("ok", .bool false)])]

def steadyOutcome (_ : String) (_ : Obj) : HandlerResult :=
  .ok { output := some [("ok", .bool true)] }

theorem reviewPlace_awaits :
    AwaitsHuman reviewFlow reviewStore reviewPlace ∧ StepsRouted reviewStore := by
  have h : reviewPlace? = some reviewPlace := (some_get _).symm
  obtain ⟨run, hrun, h⟩ := bind_eq_some_iff.mp h
  obtain ⟨node, hn, h⟩ := bind_eq_some_iff.mp h
  obtain ⟨step, hst, h⟩ := map_eq_some_iff.mp h
  have hL : Ledger reviewFlow reviewStore :=
    Reached.ledger (g := fun _ _ => True) reviewFlow_valid (.start steadyOracle.exec)
  have hw : reviewStore.run.map (·.status) = some .waitingHuman := by decide +kernel
  rw [hrun, map_some, Option.some.injEq] at hw
  rw [← h]
  exact ⟨hL.awaits hrun hw hn hst, hL.routed run hrun (by rw [hw]; rfl)⟩

theorem draftEdited_ample :
    (draftEdited.course demoConfig reviewFlow steadyOutcome reviewPlace reviewStore).Ample := by
  refine Course.ample_of_free (n := 2) (fun c i out ho => ?_) ?_ ?_ ?_ ?_
  · rw [← Except.ok.inj ho]
    exact ⟨rfl, rfl⟩
  · exact isNone_iff_eq_none.mp (by decide +kernel)
  · decide +kernel
  · decide +kernel
  · decide +kernel

theorem draftEdited_answers :
    (draftEdited.course demoConfig reviewFlow steadyOutcome reviewPlace reviewStore).Answers
      steadyOracle.env where
  invoke ctx r h := h
  clock t t' h h' := by
    rw [show t = 0 from h, show t' = 0 from h']
    decide +kernel

theorem draftEdited_exits : (FlowCall.decide editDraft "reviewer").Exits steadyOracle.env reviewFlow
    reviewPlace draftEdited := by
  refine ⟨rfl, ?_, by decide +kernel⟩
  rintro ⟨e, t, he, rfl, hle⟩
  have hpause : reviewPlace.run.state.pause.bind (·.expiresAt) = some 60 := by decide +kernel
  cases hpause.symm.trans he
  exact absurd hle (by decide +kernel)

theorem human_recovery_exact_review :
    Recovered (decidedStore editDraft) (reviewResumed (decideCut 6)) := by
  obtain ⟨hw, hlog⟩ := reviewPlace_awaits
  have hrec : draftEdited.Recoverable reviewFlow reviewPlace reviewStore (decideCut 6) :=
    ⟨nofun, fun hn => absurd hlog hn⟩
  have hsaved : (decideCut 6).run ≠ reviewStore.run := by decide +kernel
  exact (human_recovery_exact reviewFlow_valid hw draftEdited_exits draftEdited_exits
    draftEdited_ample draftEdited_answers draftEdited_answers draftEdited_answers
    ⟨_, steadyOracle.exec⟩ ⟨_, steps_runN steadyOracle.sem_ans _ _ _⟩ hrec
    steadyOracle.exec).1 hsaved

/-- Before the checkpoint, neither the edit nor the timeout route is recovered, and the pause
stays. -/
theorem review_edit_lost :
    reviewFlow.Valid ∧ Reached demoConfig reviewFlow (fun _ _ => True) reviewStore ∧
    (FlowCall.decide editDraft "reviewer").Exits steadyOracle.env reviewFlow reviewPlace
      draftEdited ∧
    (draftEdited.course demoConfig reviewFlow steadyOutcome reviewPlace reviewStore).Ample ∧
    (draftEdited.course demoConfig reviewFlow steadyOutcome reviewPlace reviewStore).Answers
      steadyOracle.env ∧
    (FlowCall.decide editDraft "reviewer").Runs steadyOracle.env demoConfig reviewFlow reviewStore
      (decidedStore editDraft) ∧
    (FlowCall.decide editDraft "reviewer").Cuts steadyOracle.env demoConfig reviewFlow reviewStore
      (decideCut 4) ∧
    (FlowCall.expire (some 60)).Runs steadyOracle.env demoConfig reviewFlow reviewStore
      expiredStore ∧
    (FlowCall.expire (some 60)).Cuts steadyOracle.env demoConfig reviewFlow reviewStore
      (expireCut 3) ∧
    (∀ s, ∃ r, Exec (Sem steadyOracle.env) (resumeRun demoConfig reviewFlow) s r
      (reviewResumed s)) ∧
    (decidedStore editDraft).run.map
        (fun r => (r.status, Dict.get? r.state.nodes "draft", r.state.pause))
      = some (.completed, some (.obj [("ok", .bool false)]), none) ∧
    (reviewResumed (decideCut 4)).run.map
        (fun r => (r.status, Dict.get? r.state.nodes "draft", r.state.pause))
      = some (.completed, some (.obj [("ok", .bool true)]), some ⟨"review", 1, some 60⟩) ∧
    (completedSteps expiredStore.steps).map (·.nodeId) = ["draft", "review", "escalate"] ∧
    (completedSteps (reviewResumed (expireCut 3)).steps).map (·.nodeId)
      = ["draft", "review", "publish"] := by
  refine ⟨reviewFlow_valid, .start steadyOracle.exec, draftEdited_exits,
    draftEdited_ample, draftEdited_answers,
    ⟨_, steadyOracle.exec⟩, ⟨_, steps_runN steadyOracle.sem_ans _ _ _⟩,
    ⟨_, steadyOracle.exec⟩, ⟨_, steps_runN steadyOracle.sem_ans _ _ _⟩,
    fun s => ⟨_, steadyOracle.exec⟩, ?_, ?_, ?_, ?_⟩ <;> decide +kernel

end Review

end AutoDev.Flows
