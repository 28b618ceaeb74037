/-
# `AutoDev.Flows.Waiting` — one wait at a time

The status of a run, the status of its steps and the pause document are
written by three commits of `pause_run` and taken back by several others in
the human service.  Over whole calls they agree: a run waits exactly when one
of its steps does, and then the pause names that step (`WaitInv`).

Two calls do not look at the status they find.  `execute_run` and
`resume_run` accept a waiting run and activate its human node a second time:
the old step stays behind in status `waiting_human` and the wait starts over.
`FlowCall.OffWait` is the condition that rules this out, and it is all that is
asked of the callers.
-/
import AutoDev.Flows.Resume

namespace AutoDev.Flows

open Prog List

variable {env : Env} {cfg : EngineConfig} {m : FlowManifest} {s s' : RunStore}

/-! ## The invariant -/

def waitingSteps (steps : List FlowStepRecord) : List FlowStepRecord :=
  steps.filter fun st => st.status == .waitingHuman

def WaitsAt (run : FlowRunRecord) (steps : List FlowStepRecord) : Prop :=
  ∃ st p, waitingSteps steps = [st] ∧ run.state.pause = some p ∧ p.stepId = st.stepId ∧
    run.state.cursor = some st.nodeId

def WaitsNowhere (state : RunState) (steps : List FlowStepRecord) : Prop :=
  waitingSteps steps = [] ∧ state.pause = none

def WaitInv (m : FlowManifest) (s : RunStore) : Prop :=
  ∀ run, s.run = some run → KnownCursor m run.state ∧
    (run.status = .waitingHuman → WaitsAt run s.steps) ∧
    (run.status ≠ .waitingHuman → WaitsNowhere run.state s.steps)

theorem waitingSteps_append (xs ys : List FlowStepRecord) :
    waitingSteps (xs ++ ys) = waitingSteps xs ++ waitingSteps ys := by
  simp [waitingSteps]

theorem waitingSteps_eq_nil {xs : List FlowStepRecord} :
    waitingSteps xs = [] ↔ ∀ st ∈ xs, st.status ≠ .waitingHuman := by
  simp [waitingSteps, filter_eq_nil_iff]

theorem waitingSteps_fails {xs fs : List FlowStepRecord} (h : ∀ f ∈ fs, f.status = .failed) :
    waitingSteps (xs ++ fs) = waitingSteps xs := by
  have hnil : waitingSteps fs = [] := waitingSteps_eq_nil.mpr fun f hf => by simp [h f hf]
  rw [waitingSteps_append, hnil, append_nil]

theorem waitingSteps_completeStep {st : FlowStepRecord} {o : Option Obj} {e : String}
    (h : waitingSteps s.steps = [st]) :
    waitingSteps (s.completeStep st.stepId .completed o e).steps = [] := by
  rw [waitingSteps_eq_nil]
  intro r hr
  obtain ⟨r₀, hr₀, rfl⟩ := mem_map.mp hr
  unfold FlowStepRecord.finish
  split
  · simp [FlowStepRecord.close]
  rename_i hne
  intro hw
  have hmem : r₀ ∈ waitingSteps s.steps := mem_filter.mpr ⟨hr₀, by simp [hw]⟩
  rw [h] at hmem
  exact hne (congrArg _ (mem_singleton.mp hmem))

/-! ## The loop -/

/-- What the loop holds: nothing waits, and the steps `base` it started from are still there. -/
structure LoopWaits (m : FlowManifest) (base : List FlowStepRecord) (state : RunState)
    (s : RunStore) : Prop where
  nowhere : WaitsNowhere state s.steps
  known : KnownCursor m state
  kept : base <+: s.steps

/-- What a call that executes the run leaves. -/
def Executed (m : FlowManifest) (base : List FlowStepRecord) (s : RunStore) : Prop :=
  WaitInv m s ∧ base <+: s.steps

section Loop

variable {base : List FlowStepRecord} {ses : Session} {state state' : RunState} {node : FlowNode}
  {c : String} {r : RunResult}

theorem LoopWaits.executed {f : FlowRunRecord → FlowRunRecord} {zs : List FlowStepRecord}
    {state' : RunState} (hi : LoopWaits m base state s) (hrun : s'.run = s.run.map f)
    (hsteps : s'.steps = s.steps ++ zs) (hzs : waitingSteps zs = [])
    (hf : ∀ run, (f run).state = state' ∧ (f run).status ≠ .waitingHuman
      := by exact fun _ => ⟨rfl, fun h => by cases h⟩)
    (hcur : state'.cursor = state.cursor := by rfl) (hp : state'.pause = state.pause := by rfl) :
    Executed m base s' := by
  refine ⟨fun run h => ?_, hi.kept.trans ⟨zs, hsteps.symm⟩⟩
  obtain ⟨row, rfl⟩ := RunStore.row_of_map hrun h
  obtain ⟨h₁, h₂⟩ := hf row
  refine ⟨?_, fun h => absurd h h₂, fun _ => ⟨?_, ?_⟩⟩
  · intro c hc
    rw [h₁, hcur] at hc
    exact hi.known c hc
  · rw [hsteps, waitingSteps_append, hi.nowhere.1, hzs]
    rfl
  · rw [h₁, hp]
    exact hi.nowhere.2

theorem Completed.appended {a : ActivationArgs} {input output : Obj} {st : FlowStepRecord}
    {out : HandlerOutput} (h : Completed env a s s' input st output out) :
    ∃ zs, s'.steps = s.steps ++ zs ∧ waitingSteps zs = [] := by
  obtain ⟨fs, hfs, hfail⟩ := h.steps
  exact ⟨fs ++ [st], by rw [hfs, append_assoc], waitingSteps_eq_nil.mpr
    (forall_mem_append.mpr ⟨fun r hr => by simp [hfail r hr], by simp [h.step.2.2.1]⟩)⟩

theorem LoopWaits.stop (hi : LoopWaits m base state s) (hc : state.cursor = some c)
    (hn : m.node? c = some node)
    (h : ActivationEffect env (ses.activation cfg m node state) s (.stop r) s') :
    Executed m base s' := by
  obtain rfl := FlowManifest.node?_id hn
  cases h with
  | failed reason hsteps _ hrun =>
    obtain ⟨fs, hfs, hfail⟩ := hsteps
    exact hi.executed hrun hfs (waitingSteps_eq_nil.mpr fun f hf => by simp [hfail f hf])
  | @misrouted _ input st output out err reason hcomp _ _ hrun =>
    obtain ⟨zs, hzs, hw⟩ := hcomp.appended
    exact hi.executed hrun hzs hw
  | @paused _ input st e _ _ _ hst hsteps hrun =>
    obtain ⟨fs, hfs, hfail⟩ := hsteps
    obtain ⟨hid, -, hstat, -⟩ := hst
    refine ⟨fun run h => ?_, hi.kept.trans ⟨fs ++ [st], by rw [hfs, append_assoc]⟩⟩
    obtain ⟨row, rfl⟩ := RunStore.row_of_map hrun h
    refine ⟨hi.known, fun _ => ⟨st, _, ?_, rfl, rfl, ?_⟩, fun h => absurd rfl h⟩
    · rw [hfs, waitingSteps_append, waitingSteps_fails hfail, hi.nowhere.1]
      simp [waitingSteps, hstat]
    · rw [hid]
      exact hc

theorem LoopWaits.next (hm : m.Valid) (hi : LoopWaits m base state s)
    (h : ActivationEffect env (ses.activation cfg m node state) s (.next state') s') :
    LoopWaits m base state' s' := by
  cases h with
  | @advanced _ input st output out next hcomp hsel hrun =>
    obtain ⟨zs, hzs, hw⟩ := hcomp.appended
    refine ⟨⟨?_, hi.nowhere.2⟩, ?_, hi.kept.trans ⟨zs, hzs.symm⟩⟩
    · rw [hzs, waitingSteps_append, hi.nowhere.1, hw]
      rfl
    · exact selectNextNode_known hm hsel

end Loop

theorem loopWaits_rule (hm : m.Valid) (base : List FlowStepRecord) (ses : Session) :
    LoopRule env cfg m ses (LoopWaits m base) fun _ s => Executed m base s where
  known hi hc := hi.known _ hc
  budget v hi := hi.executed (f := FlowRunRecord.fail _ _) rfl (append_nil _).symm rfl
  complete t hi _ _ := hi.executed (f := FlowRunRecord.complete _ _) rfl (append_nil _).symm rfl
  stop hi hc hn h := hi.stop hc hn h
  next hi hc hn h := hi.next hm h

/-! ## The calls -/

section Calls

variable {base : List FlowStepRecord} {run : FlowRunRecord}

theorem executeRun_waits (hm : m.Valid) {cap : Option FlowBudgets} (hrun : s.run = some run)
    (hi : LoopWaits m base run.state s) :
    Ends env (fun _ s' => Executed m base s') (executeRun cfg m cap) s := by
  refine wp_executeRun trivial (fun h => by cases hrun.symm.trans h) (fun run' h ht => ?_)
    fun run' h _ => ?_
  · cases hrun.symm.trans h
    refine ⟨fun run' h => ?_, hi.kept⟩
    cases hrun.symm.trans h
    exact ⟨hi.known, fun h => (by rw [h] at ht; cases ht), fun _ => hi.nowhere⟩
  · cases hrun.symm.trans h
    exact runLoop_ends (LoopWaits m base) (fun started => loopWaits_rule hm base _)
      ⟨hi.nowhere, hi.known, hi.kept⟩

variable {step : FlowStepRecord}

theorem leaveNode_waits (hm : m.Valid) {node : FlowNode} {state : RunState} {b : Bool} {i : Obj}
    {Q : Activation → RunStore → Prop} (hi : LoopWaits m base state s)
    (hstop : ∀ s', Executed m base s' → (∀ run, s'.run = some run → run.status.terminal = true) →
      Q (.stop s'.loaded) s')
    (hnext : ∀ next s', s'.run = s.run.map (FlowRunRecord.checkpoint { state with cursor := next }) →
      LoopWaits m base { state with cursor := next } s' → Q
    (.next { state with cursor := next }) s') : Ends env Q (leaveNode m i node step state b) s := by
  refine wp_leaveNode (fun err reason d _ _ => ⟨trivial, trivial, hstop _ ?_ fun run h => ?_⟩)
    fun next hsel => ⟨trivial, trivial, hnext next _ rfl ?_⟩
  · exact hi.executed (f := FlowRunRecord.fail state reason) rfl (append_nil _).symm rfl
  · obtain ⟨row, rfl⟩ := RunStore.row_of_map (RunStore.run_fail ..) h
    rfl
  · exact ⟨hi.nowhere, knownCursor_of_route hm hsel, hi.kept⟩

theorem WaitsAt.step_eq (h : WaitsAt run s.steps)
    (hst : waitingStep? (run.state.pause.map (·.stepId)) s.steps = some step) :
    waitingSteps s.steps = [step] := by
  obtain ⟨st, p, hw, hp, hid, -⟩ := h
  rw [hp, Option.map_some, waitingStep?] at hst
  have hmem : step ∈ s.steps := mem_reverse.mp (mem_of_find?_eq_some hst)
  have hstep : step.stepId = p.stepId := by simpa using find?_some hst
  have hst' : st ∈ s.steps := (mem_filter.mp (hw ▸ mem_singleton_self st)).1
  rw [hw, RunStore.eq_of_stepId hmem hst' (hstep.trans hid)]

theorem loopWaits_completeStep {o : Option Obj} {nodes : Dict Value} {nodeId : String}
    {output : Obj} (hi : WaitInv m s) (hrun : s.run = some run) (hw : waitingSteps s.steps = [step])
    (hs' : s'.steps = (s.completeStep step.stepId .completed o "").steps) :
    LoopWaits m s'.steps (run.state.decided nodes nodeId output) s' :=
  ⟨⟨by rw [hs']; exact waitingSteps_completeStep hw, rfl⟩, (hi run hrun).1, prefix_rfl⟩

def Taken (i : Nat) (s : RunStore) : Prop := ∀ st ∈ waitingSteps s.steps, st.stepId ≠ i

theorem Executed.taken {o : Option Obj} (hstep : step ∈ s.steps)
    (h : Executed m (s.completeStep step.stepId .completed o "").steps s') :
    Taken step.stepId s' := by
  intro st hst hid
  obtain ⟨hmem, hw⟩ := mem_filter.mp hst
  have hrow : step.close .completed o "" ∈ s'.steps := by
    refine h.2.subset (mem_map.mpr ⟨step, hstep, ?_⟩)
    simp [FlowStepRecord.finish]
  rw [RunStore.eq_of_stepId hmem hrow hid] at hw
  simp [FlowStepRecord.close] at hw

theorem wait_left {w : Waiting} (hi : WaitInv m s) (hw : w.Met m s) :
    waitingSteps s.steps = [w.step] ∧ w.step ∈ s.steps := by
  have hone := ((hi _ hw.row).2.1 hw.status).step_eq hw.step
  have hmem : w.step ∈ waitingSteps s.steps := by simp [hone]
  exact ⟨hone, (mem_filter.mp hmem).1⟩

/-- A wait that a call leaves standing keeps its pause. -/
def PauseKept (s s' : RunStore) : Prop :=
  ∀ st ∈ waitingSteps s.steps, (∃ st' ∈ waitingSteps s'.steps, st'.stepId = st.stepId) →
    s'.run.map (·.state.pause) = s.run.map (·.state.pause)

theorem PauseKept.refl (s : RunStore) : PauseKept s s := fun _ _ _ => rfl

theorem PauseKept.of_taken {st : FlowStepRecord} (h : waitingSteps s.steps = [st])
    (ht : Taken st.stepId s') : PauseKept s s' := by
  rintro st' hst ⟨st'', hst'', hid⟩
  rw [h, mem_singleton] at hst
  subst hst
  exact absurd hid (ht st'' hst'')

theorem PauseKept.of_offWait (hi : WaitInv m s) (hrun : s.run = some run)
    (hoff : run.status ≠ .waitingHuman) : PauseKept s s' := by
  intro st hst
  rw [((hi run hrun).2.2 hoff).1] at hst
  cases hst

theorem waits_answer (hm : m.Valid) {w : Waiting} (hi : WaitInv m s) (hw : w.Met m s) :
    AnswerRule env cfg m w s fun s' => WaitInv m s' ∧ PauseKept s s' := by
  obtain ⟨hone, hmem⟩ := wait_left hi hw
  have hover : ∀ {o : Option Obj} {s'}, Executed m (s.completeStep w.step.stepId .completed o "").steps
      s' → WaitInv m s' ∧ PauseKept s s' := fun h => ⟨h.1, .of_taken hone (h.taken hmem)⟩
  have hl : ∀ {nodes output e}, LoopWaits m (s.answer w output e).steps
      (w.run.state.decided nodes w.node.id output) (s.answer w output e) :=
    loopWaits_completeStep hi hw.row hone rfl
  refine ⟨fun reason d _ =>
      hover (hl.executed (f := FlowRunRecord.fail _ _) rfl (append_nil _).symm rfl),
    fun {nodes output e next} _ hknown => ?_⟩
  have hl' := @hl nodes output e
  exact wp_post (runLoop_ends (LoopWaits m _) (fun started => loopWaits_rule hm _ _)
    ⟨hl'.nowhere, hknown, hl'.kept⟩) fun _ _ h => hover h

theorem resumeRun_waits (hm : m.Valid) (hi : WaitInv m s)
    (hoff : ∀ run, s.run = some run → run.status ≠ .waitingHuman) :
    Ends env (fun _ s' => WaitInv m s' ∧ PauseKept s s') (resumeRun cfg m) s := by
  refine wp_resumeRun trivial (fun _ => ⟨hi, .refl s⟩) (fun _ _ _ => ⟨hi, .refl s⟩)
    fun run s₁ hrun hnt hsup => ?_
  have hkept : ∀ s', PauseKept s s' := fun s' => .of_offWait hi hrun (hoff run hrun)
  have hl : LoopWaits m [] run.state s₁ := by
    obtain ⟨hknown, -, hno⟩ := hi run hrun
    obtain ⟨hw, hp⟩ := hno (hoff run hrun)
    exact ⟨⟨(hsup.kept .waitingHuman (by decide) (by decide)).trans hw, hp⟩, hknown,
      nil_prefix⟩
  have hrun₁ : s₁.run = some run := hsup.run.trans hrun
  have hexec : ∀ {run' : FlowRunRecord} {s₂ : RunStore} (e : FlowEvent), s₂.run = some run' →
      LoopWaits m [] run'.state s₂ →
      Ends env (fun _ s' => WaitInv m s' ∧ PauseKept s s') (executeRun cfg m none)
        (s₂.appendEvent e) :=
    fun e hrun' hl' => wp_post (executeRun_waits hm hrun' ⟨hl'.nowhere, hl'.known, hl'.kept⟩)
      fun _ _ h => ⟨h.1, hkept _⟩
  refine ⟨trivial, wp_reconcile trivial (fun _ => ⟨fun h => ?_, fun _ => ⟨trivial, ?_⟩⟩) ?_⟩
  · cases h.symm.trans hnt
  · exact hexec _ hrun₁ hl
  · intro c last hcw
    obtain ⟨node, hn⟩ := hl.known c hcw.cursor
    have hl' : LoopWaits m [] (run.state.folded c last) s₁ := ⟨hl.nowhere, hl.known, hl.kept⟩
    refine ⟨node, hn, leaveNode_waits hm hl' (fun s₂ h hterm => ?_) fun next s₂ hrow h => ?_⟩
    · rcases hrow : s₂.run with _ | row
      · simpa only [RunStore.loaded, hrow] using ⟨h.1, hkept _⟩
      · simp only [RunStore.loaded, hrow]
        refine ⟨fun _ => ⟨h.1, hkept _⟩, fun hnt' => ?_⟩
        cases (hterm row hrow).symm.trans hnt'
    · rw [hrun₁] at hrow
      refine ⟨trivial, ?_⟩
      simp only [RunStore.loaded, hrow, Option.map_some]
      refine ⟨fun ht => ?_, fun _ => ⟨trivial, hexec _ hrow h⟩⟩
      cases ht.symm.trans hnt

theorem startRun_waits (hm : m.Valid) {input : Obj} {execute : Bool} {cap : Option FlowBudgets} :
    Ends env (fun _ s' => WaitInv m s') (startRun cfg m input execute cap) .empty := by
  refine startRun_ends hm (fun _ run h => by cases h) fun entry _ hknown => ⟨fun run h => ?_, ?_⟩
  · cases h
    exact ⟨hknown, nofun, fun _ => ⟨rfl, rfl⟩⟩
  · exact wp_post (runLoop_ends (LoopWaits m []) (fun started => loopWaits_rule hm [] _)
      ⟨⟨rfl, rfl⟩, hknown, nil_prefix⟩) fun _ _ h => h.1

theorem replayRun_keeps :
    Ends env (fun _ s' => s' = s ∨ ∃ report, s' = s.appendEvent (.runReplayed report))
      (replayRun cfg m) s := by
  simp only [replayRun, wp_bind, wp_getRun, true_and]
  rcases s.run with _ | run
  · exact Or.inl rfl
  dsimp only
  split
  · exact Or.inl rfl
  simp only [wp_bind, wp_listSteps, true_and]
  rcases replayDecisionPath cfg.strOf m run.replayView s.steps with _ | report
  · exact Or.inl rfl
  · simp only [wp_bind, wp_appendEvent, true_and]
    exact Or.inr ⟨report, rfl⟩

end Calls

/-! ## Sequences of calls -/

inductive FlowCall where
  | execute (cap : Option FlowBudgets)
  | resume
  | decide (decision : Obj) (actor : String)
  | expire (moment : Option ℚ)
  | replay

def FlowCall.Runs (env : Env) (cfg : EngineConfig) (m : FlowManifest) (s s' : RunStore) :
    FlowCall → Prop
  | .execute cap => ∃ r, Exec (Sem env) (executeRun cfg m cap) s r s'
  | .resume => ∃ r, Exec (Sem env) (resumeRun cfg m) s r s'
  | .decide d actor => ∃ r, Exec (Sem env) (decideRun cfg m d actor) s r s'
  | .expire moment => ∃ r, Exec (Sem env) (expireDue cfg m moment) s r s'
  | .replay => ∃ r, Exec (Sem env) (replayRun cfg m) s r s'

/-- The stores one run goes through: `start_run` creates it, and every later call meets `g`.
Other runs have rows of their own. -/
inductive Reached (cfg : EngineConfig) (m : FlowManifest) (g : FlowCall → RunStore → Prop) :
    RunStore → Prop
  | start {env : Env} {input : Obj} {execute : Bool} {cap : Option FlowBudgets} {r : RunResult}
      {s : RunStore} : Exec (Sem env) (startRun cfg m input execute cap) .empty r s →
      Reached cfg m g s
  | call {env : Env} {c : FlowCall} {s s' : RunStore} : Reached cfg m g s → g c s →
      c.Runs env cfg m s s' → Reached cfg m g s'

def FlowCall.OffWait : FlowCall → RunStore → Prop
  | .execute _, s | .resume, s => ∀ run, s.run = some run → run.status ≠ .waitingHuman
  | _, _ => True

theorem FlowCall.effect (hm : m.Valid) {c : FlowCall} (hi : WaitInv m s) (hg : c.OffWait s)
    (h : c.Runs env cfg m s s') : WaitInv m s' ∧ PauseKept s s' := by
  cases c with
  | execute cap =>
    obtain ⟨r, h⟩ := h
    refine h.of_wp (wp_executeRun (I := fun _ => True) (Q := fun _ s' => WaitInv m s' ∧ PauseKept s s') trivial
      (fun _ => ⟨hi, .refl s⟩) (fun _ _ _ => ⟨hi, .refl s⟩) fun run hrun hnt => ?_)
    have hl : LoopWaits m [] run.state s :=
      ⟨(hi run hrun).2.2 (hg run hrun), (hi run hrun).1, nil_prefix⟩
    exact wp_post (runLoop_ends (LoopWaits m []) (fun started => loopWaits_rule hm [] _)
      ⟨hl.nowhere, hl.known, hl.kept⟩) fun _ _ h => ⟨h.1, .of_offWait hi hrun (hg run hrun)⟩
  | resume =>
    obtain ⟨r, h⟩ := h
    exact h.of_wp (resumeRun_waits hm hi hg)
  | decide d actor =>
    obtain ⟨r, h⟩ := h
    exact h.of_wp (decideRun_answers hm ⟨hi, .refl s⟩ fun w hw => waits_answer hm hi hw)
  | expire moment =>
    obtain ⟨r, h⟩ := h
    exact h.of_wp (expireDue_answers hm ⟨hi, .refl s⟩ fun w hw => waits_answer hm hi hw)
  | replay =>
    obtain ⟨r, h⟩ := h
    rcases h.of_wp replayRun_keeps with rfl | ⟨report, rfl⟩
    · exact ⟨hi, .refl s'⟩
    · exact ⟨hi, fun _ _ _ => rfl⟩

theorem Reached.waitInv (hm : m.Valid) (h : Reached cfg m FlowCall.OffWait s) : WaitInv m s := by
  induction h with
  | start h => exact h.of_wp (startRun_waits hm)
  | call _ hg h ih => exact (FlowCall.effect hm ih hg h).1

/-- The waiting invariant of a flow run, over any sequence of complete calls none of which
executes or resumes the run while it waits. -/
theorem waiting_invariant (hm : m.Valid) (h : Reached cfg m FlowCall.OffWait s)
    {run : FlowRunRecord} (hrun : s.run = some run) :
    (run.status = .waitingHuman ↔ WaitsAt run s.steps) ∧
    (run.status ≠ .waitingHuman → waitingSteps s.steps = [] ∧ run.state.pause = none) ∧
    ∀ (env : Env) (c : FlowCall) (s' : RunStore), c.OffWait s → c.Runs env cfg m s s' →
      PauseKept s s' := by
  obtain ⟨-, hwait, hno⟩ := h.waitInv hm run hrun
  refine ⟨⟨hwait, fun hat => ?_⟩, hno, fun env c s' hg hr =>
    (FlowCall.effect hm (h.waitInv hm) hg hr).2⟩
  by_contra hne
  obtain ⟨st, p, hw, -⟩ := hat
  rw [(hno hne).1] at hw
  cases hw

def askedTwiceStore : RunStore :=
  (Prog.run steadyOracle.ans (executeRun demoConfig reviewFlow none) reviewStore).2

theorem waiting_invariant_review :
    ∃ run, reviewStore.run = some run ∧ run.status = .waitingHuman ∧
      WaitsAt run reviewStore.steps := by
  have hrow : reviewStore.run.map (·.status) = some .waitingHuman := by decide +kernel
  obtain ⟨run, hrun, hst⟩ := Option.map_eq_some_iff.mp hrow
  have hreach : Reached demoConfig reviewFlow FlowCall.OffWait reviewStore :=
    .start steadyOracle.exec
  exact ⟨run, hrun, hst, (waiting_invariant reviewFlow_valid hreach hrun).1.mp hst⟩

/-- Executed while it waits, the run has two waiting steps. -/
theorem execute_asks_twice :
    Reached demoConfig reviewFlow (fun _ _ => True) askedTwiceStore ∧
    askedTwiceStore.run.map (·.status) = some .waitingHuman ∧
    (waitingSteps askedTwiceStore.steps).length = 2 :=
  ⟨.call (c := .execute none) (.start steadyOracle.exec) trivial
      ⟨_, steadyOracle.exec⟩, by decide +kernel, by decide +kernel⟩

end AutoDev.Flows
