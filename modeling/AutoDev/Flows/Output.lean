/-
# `AutoDev.Flows.Output` — which node gives a run its output

`final_output` goes through the nodes in the order the manifest DECLARES them
and keeps the last recorded output it meets.  The run went through them in the
order of its edges, so a node of an earlier step that is declared later wins.

Over complete calls the checkpointed state holds the output of the last completed
step under its node (`LastKept`), and a completed row shows `final_output` of its
own state (`Shown`).
-/
import AutoDev.Flows.LiveReplay
import AutoDev.Flows.Meter
import AutoDev.Flows.OnGraph

namespace AutoDev.Flows

open Prog List Dict

/-! ## The order of declaration -/

def recordedOutput (nodes : Dict Value) (n : FlowNode) : Option Obj :=
  match get? nodes n.id with
  | some (.obj o) => some o
  | _ => none

def lastRecorded (nodes : Dict Value) (ns : List FlowNode) : Option Obj :=
  (ns.filterMap (recordedOutput nodes)).getLast?

def FlowManifest.declaredAfter (m : FlowManifest) (nodeId : String) : List FlowNode :=
  (m.nodes.dropWhile (·.id != nodeId)).tail

variable {n : FlowNode} {o : Obj} {nodes : Dict Value} {last : FlowStepRecord}

theorem recordedOutput_eq (h : get? nodes n.id = some (.obj o)) :
    recordedOutput nodes n = some o := by
  rw [recordedOutput, h]

theorem foldl_recorded (nodes : Dict Value) :
    ∀ (ns : List FlowNode) (acc : Obj), ns.foldl (fun last n =>
        match get? nodes n.id with
        | some (.obj o) => o
        | _ => last) acc = (lastRecorded nodes ns).getD acc
  | [], acc => rfl
  | n :: ns, acc => by
    have hstep : (match get? nodes n.id with
        | some (.obj o) => o
        | _ => acc) = (recordedOutput nodes n).getD acc := by
      unfold recordedOutput
      split <;> rfl
    rw [foldl_cons, foldl_recorded nodes ns, hstep, lastRecorded, lastRecorded,
      filterMap_cons]
    cases recordedOutput nodes n with
    | none => rfl
    | some o =>
      rw [getLast?_cons]
      cases (ns.filterMap (recordedOutput nodes)).getLast? <;> rfl

theorem finalOutput_eq (m : FlowManifest) (nodes : Dict Value) :
    finalOutput m nodes = (lastRecorded nodes m.nodes).getD [] :=
  foldl_recorded nodes m.nodes []

theorem finalOutput_of_recorded {m : FlowManifest} {i : String} (hn : m.node? i = some n)
    (ho : get? nodes i = some (.obj o)) :
    finalOutput m nodes = (lastRecorded nodes (m.declaredAfter i)).getD o := by
  obtain rfl := FlowManifest.node?_id hn
  obtain ⟨hid, xs, ys, hsplit, hxs⟩ := find?_eq_some_iff_append.mp hn
  have hafter : m.declaredAfter n.id = ys := by
    have hdrop : xs.dropWhile (·.id != n.id) = [] := dropWhile_eq_nil_iff.mpr hxs
    rw [FlowManifest.declaredAfter, hsplit, dropWhile_append, hdrop]
    simp
  rw [finalOutput_eq, hafter, lastRecorded, hsplit, filterMap_append, filterMap_cons,
    recordedOutput_eq ho, getLast?_append, getLast?_cons]
  rfl

/-! ## The last completed step is kept -/

def lastCompleted (steps : List FlowStepRecord) : Option FlowStepRecord :=
  (completedSteps steps).getLast?

structure LastKept (m : FlowManifest) (state : RunState) (steps : List FlowStepRecord) : Prop where
  kept : ∀ last, lastCompleted steps = some last → ∃ n o, m.node? last.nodeId = some n ∧
    last.output = some o ∧ get? state.nodes last.nodeId = some (.obj o)
  begun : state.cursor = none → lastCompleted steps ≠ none

def Kept (m : FlowManifest) (s : RunStore) : Prop :=
  ∀ run, s.run = some run → run.status ≠ .failed →
    LastKept m run.state s.steps ∧ (run.status = .completed → run.state.cursor = none)

structure LoopKept (m : FlowManifest) (state : RunState) (s : RunStore) : Prop where
  known : KnownCursor m state
  last : LastKept m state s.steps

variable {env : Env} {cfg : EngineConfig} {m : FlowManifest} {s s' : RunStore}
  {steps steps' : List FlowStepRecord} {state state' : RunState}

theorem LastKept.same (h : LastKept m state steps) (hn : state'.nodes = state.nodes)
    (hc : state'.cursor = state.cursor) (hs : completedSteps steps' = completedSteps steps) :
    LastKept m state' steps' := by
  have hlast : lastCompleted steps' = lastCompleted steps := by rw [lastCompleted, hs, lastCompleted]
  refine ⟨fun last h' => ?_, fun h' => ?_⟩
  · rw [hn]
    exact h.kept last (hlast ▸ h')
  · rw [hlast]
    exact h.begun (hc ▸ h')

theorem lastKept_of_completed {st : FlowStepRecord}
    (hs : completedSteps steps' = completedSteps steps ++ [st]) (hn : m.node? st.nodeId = some n)
    (ho : st.output = some o) (hr : get? state.nodes st.nodeId = some (.obj o)) :
    LastKept m state steps' := by
  have hlast : lastCompleted steps' = some st := by rw [lastCompleted, hs, getLast?_concat]
  refine ⟨fun last h => ?_, fun _ h => ?_⟩
  · cases hlast.symm.trans h
    exact ⟨n, o, hn, ho, hr⟩
  · cases hlast.symm.trans h

theorem kept_fail {reason : StopReason} (h : s'.run = s.run.map (FlowRunRecord.fail state reason)) :
    Kept m s' := by
  intro run hrun hne
  obtain ⟨row, rfl⟩ := RunStore.row_of_map h hrun
  exact absurd rfl hne

section Loop

variable {ses : Session} {node : FlowNode} {c : String} {r : RunResult}

theorem LoopKept.stop (hi : LoopKept m state s)
    (h : ActivationEffect env (ses.activation cfg m node state) s (.stop r) s') : Kept m s' := by
  cases h with
  | failed _ _ _ hrun _ | misrouted _ _ _ hrun _ => exact kept_fail hrun
  | paused st _ _ _ hst hsteps hrun _ _ =>
    obtain ⟨fs, hfs, hfail⟩ := hsteps
    obtain ⟨-, -, hstat, -⟩ := hst
    intro run h _
    obtain ⟨row, rfl⟩ := RunStore.row_of_map hrun h
    refine ⟨hi.last.same rfl rfl ?_, nofun⟩
    rw [hfs, completedSteps_append, completedSteps_fails hfail]
    simp [completedSteps, hstat]

theorem loopKept_next (hm : m.Valid) (hn : m.node? c = some node)
    (h : ActivationEffect env (ses.activation cfg m node state) s (.next state') s') :
    LoopKept m state' s' := by
  obtain rfl := FlowManifest.node?_id hn
  cases h with
  | advanced hcomp hsel _ _ =>
    obtain ⟨hid, -, -, hout⟩ := hcomp.step
    have hid' : _ = node.id := hid
    refine ⟨knownCursor_of_route hm hsel, lastKept_of_completed hcomp.completedSteps
      (hid' ▸ hn) hout ?_⟩
    rw [hid']
    exact Dict.get?_set_self _ _ _

theorem loopKept_rule (hm : m.Valid) :
    LoopRule env cfg m ses (LoopKept m) fun _ s => Kept m s where
  known hi hc := hi.known _ hc
  budget _ _ := kept_fail rfl
  complete _ hi hc _ := by
    intro run hrun _
    obtain ⟨row, -, rfl⟩ := Option.map_eq_some_iff.mp hrun
    exact ⟨hi.last, fun _ => hc⟩
  stop hi _ _ h := hi.stop h
  next _ _ hn h := loopKept_next hm hn h

end Loop

section Calls

variable {run : FlowRunRecord} {w : Waiting}

variable {cap : Option FlowBudgets}

theorem runLoop_kept (hm : m.Valid) (hi : LoopKept m run.state s) :
    Ends env (fun _ s' => Kept m s') (runLoop cfg m run cap) s :=
  runLoop_ends (LoopKept m) (fun _ => loopKept_rule hm) ⟨hi.known, hi.last⟩

theorem startRun_kept (hm : m.Valid) {input : Obj} {execute : Bool} :
    Ends env (fun _ s' => Kept m s') (startRun cfg m input execute cap) .empty := by
  refine startRun_ends hm (fun _ run h => by cases h) fun entry _ hknown => ?_
  have hlast : LastKept m { cursor := some entry.id, budgetCap := cap } [] :=
    ⟨nofun, nofun⟩
  refine ⟨fun run h _ => ?_, runLoop_kept hm ⟨hknown, hlast⟩⟩
  cases h
  exact ⟨hlast, nofun⟩

theorem kept_answer (hm : m.Valid) (hL : Ledger m s) (hw : w.Met m s) :
    AnswerRule env cfg m w s (Kept m) := by
  refine ⟨fun reason d _ => kept_fail rfl, fun {nodes output e next} _ hknown => ?_⟩
  obtain ⟨xs, -, -, hid, -⟩ := hL.place hw
  have hnode : m.node? w.step.nodeId = some w.node := by
    rw [hid, FlowManifest.node?_id hw.node]
    exact hw.node
  refine runLoop_kept hm ⟨hknown,
    lastKept_of_completed (hL.completed_answer hw output e) hnode rfl ?_⟩
  change get? (Dict.set nodes w.node.id (.obj output)) w.step.nodeId = _
  rw [hid]
  exact Dict.get?_set_self _ _ _

theorem kept_calls (hm : m.Valid) (hL : Ledger m s) (hK : Kept m s) :
    CallRule env cfg m s (Kept m) where
  execute run _ hrun hnt :=
    runLoop_kept hm ⟨hL.known run hrun, (hK run hrun (RunStatus.ne_failed_of_open hnt)).1⟩
  resume run s₁ hrun hnt hsup := runLoop_kept hm ⟨hL.known run hrun,
    (hK run hrun (RunStatus.ne_failed_of_open hnt)).1.same rfl rfl hsup.completed⟩
  answer w hw := kept_answer hm hL hw
  replay s' hrun hsteps _ _ := by
    intro run h hne
    rw [hsteps]
    exact hK run (hrun.symm.trans h) hne

theorem Reached.kept (hm : m.Valid) {g : FlowCall → RunStore → Prop} (h : Reached cfg m g s) :
    Kept m s := by
  induction h with
  | start h => exact h.of_wp (startRun_kept hm)
  | call hr _ h ih => exact FlowCall.keeps hm (hr.ledger hm) ih (kept_calls hm (hr.ledger hm) ih) h

end Calls

/-! ## A completed row shows the output of its own state -/

def Open (s : RunStore) : Prop := ∀ run, s.run = some run → run.status ≠ .completed

def Shown (m : FlowManifest) (s : RunStore) : Prop :=
  ∀ run, s.run = some run → run.status = .completed →
    run.output = some (finalOutput m run.state.nodes)

def Cmd.Unfinished : Cmd → Prop
  | .updateRun p => p.status ≠ some .completed
  | _ => True

theorem Open.shown (h : Open s) : Shown m s := fun run hrun hst => absurd hst (h run hrun)

theorem Open.of_run (h : Open s) (hr : s'.run = s.run) : Open s' := fun run hrun =>
  h run (hr ▸ hrun)

theorem Shown.of_run (h : Shown m s) (hr : s'.run = s.run) : Shown m s' := fun run hrun =>
  h run (hr ▸ hrun)

theorem Open.updateRun (h : Open s) {p : RunPatch} (hp : p.status ≠ some .completed) :
    Open (s.updateRun p) := by
  intro run' hrun hst
  obtain ⟨run, hr, rfl⟩ := Option.map_eq_some_iff.mp hrun
  rcases hs : p.status with _ | t
  · have hst' : run.status = .completed := by simpa [RunPatch.apply, hs] using hst
    exact h run hr hst'
  · have hst' : t = .completed := by simpa [RunPatch.apply, hs] using hst
    exact hp (by rw [hs, hst'])

theorem open_keep (c : Cmd) (s : RunStore) (r : Reply c) (s' : RunStore) (hc : c.Unfinished)
    (h : Sem env c s r s') (ho : Open s) : Open s' := by
  cases c with
  | createRun i st =>
    obtain ⟨-, rfl⟩ := h
    intro run hrun hst
    cases hrun
    cases hst
  | updateRun p =>
    obtain ⟨-, rfl⟩ := h
    exact ho.updateRun hc
  | createStep n t a i | completeStep i t o e | appendEvent e | invoke ctx =>
    obtain ⟨-, rfl⟩ := h
    exact ho.of_run rfl
  | getRun | listWaiting | listSteps | listEvents | clock | now | sleep d =>
    obtain ⟨-, rfl⟩ := h
    exact ho

section Unfinished

/-- Programs that complete no run. -/
abbrev Unfinished {α : Type} (p : P α) : Prop := Only Cmd.Unfinished p

theorem unfinished_op {α : Type} {c : Cmd} {f : Reply c → P α} (h : c.Unfinished)
    (hf : ∀ r, Unfinished (f r)) : Unfinished (send c >>= f) := .bind (only_send.mpr h) hf

theorem unfinished_reload : Unfinished reload := by
  refine unfinished_op trivial fun r => ?_
  cases r <;> exact only_ret

variable {d : FailDetail} {reason : StopReason} {i : Obj}

theorem unfinished_failRun : Unfinished (failRun state reason d) :=
  unfinished_op (fun h => by cases h) fun _ => unfinished_op trivial fun _ => unfinished_reload

theorem unfinished_stop {α : Type} {f : RunResult → α} :
    Unfinished (failRun state reason d >>= fun r => pure (f r)) :=
  .bind unfinished_failRun fun _ => only_ret

variable {node : FlowNode} {step : FlowStepRecord}

theorem unfinished_leaveNode {b : Bool} :
    Unfinished (leaveNode m i node step state b) := by
  unfold leaveNode
  split
  · exact unfinished_stop
  · exact unfinished_stop
  · exact unfinished_op (fun h => by cases h) fun _ => unfinished_op trivial fun _ => only_ret

theorem unfinished_callHandler {ctx : NodeContext} : Unfinished (callHandler cfg ctx) := by
  unfold callHandler
  split
  · exact only_ret
  · split
    · exact only_ret
    · exact unfinished_op trivial fun _ => only_ret
  · refine unfinished_op trivial fun r => ?_
    cases r <;> exact only_ret

theorem unfinished_attemptLoop {policy : FlowRetryPolicy} {ctx : NodeContext} :
    ∀ {left attempt : Nat}, Unfinished (attemptLoop cfg policy ctx left attempt)
  | 0, _ => only_ret
  | left + 1, attempt => by
    refine unfinished_op trivial fun step => unfinished_op trivial fun _ =>
      .bind unfinished_callHandler fun r => ?_
    cases r with
    | ok out => exact only_ret
    | error e =>
      refine unfinished_op trivial fun _ => unfinished_op trivial fun _ => ?_
      split
      · exact unfinished_stop
      · refine unfinished_op trivial fun t => ?_
        split
        · exact unfinished_stop
        · exact unfinished_op trivial fun _ => unfinished_attemptLoop

theorem unfinished_pauseRun {e : Option ℚ} :
    Unfinished (pauseRun node step state o e) :=
  unfinished_op trivial fun _ => unfinished_op (fun h => by cases h) fun _ =>
    unfinished_op trivial fun _ => unfinished_reload

theorem unfinished_settleOutcome {out : NodeOutcome} :
    Unfinished (settleOutcome m i node state step out) := by
  cases out with
  | waitingHuman o e => exact .bind unfinished_pauseRun fun _ => only_ret
  | completed out =>
    unfold settleOutcome
    dsimp only
    cases out.output with
    | none => exact unfinished_op trivial fun _ => unfinished_stop
    | some output => exact unfinished_op trivial fun _ => unfinished_leaveNode

theorem unfinished_activateNode {budgets : FlowBudgets} {deadline : ℚ} :
    Unfinished (activateNode cfg m i node state budgets deadline) := by
  unfold activateNode
  split
  · exact unfinished_stop
  · refine .bind unfinished_attemptLoop fun a => ?_
    cases a with
    | stop r => exact only_ret
    | outcome step out => exact unfinished_settleOutcome

theorem unfinished_failRunning : ∀ {l : List FlowStepRecord}, Unfinished (failRunning l)
  | [] => only_ret
  | st :: rest => by
    unfold failRunning
    split
    · exact unfinished_op trivial fun _ => unfinished_failRunning
    · exact unfinished_failRunning

theorem unfinished_reconcile {run : FlowRunRecord} : Unfinished (reconcileCrashWindow m run) := by
  unfold reconcileCrashWindow
  split
  · exact only_ret
  refine unfinished_op trivial fun steps => ?_
  split
  · exact only_ret
  refine unfinished_op trivial fun events => ?_
  split
  · exact only_ret
  split
  · exact only_ret
  · refine .bind unfinished_leaveNode fun a => ?_
    cases a with
    | stop r => exact only_ret
    | next st => exact unfinished_reload

end Unfinished

section Shown

/-- The program leaves a store that shows what it should, wherever it is cut. -/
abbrev KeepsShown (env : Env) (m : FlowManifest) {α : Type} (p : P α) (s : RunStore) : Prop :=
  wp (Sem env) (Shown m) (fun _ s' => Shown m s') p s

variable {α β : Type}

theorem Unfinished.shows {p : P α} {f : α → P β} (hp : Unfinished p) (ho : Open s)
    (hf : ∀ a s', Open s' → KeepsShown env m (f a) s') : KeepsShown env m (p >>= f) s := by
  rw [KeepsShown, wp_bind]
  exact wp_mono (fun _ h => h.shown) hf (wp_of_only open_keep hp ho)

theorem shows_op {c : Cmd} {f : Reply c → P β} (h : c.Unfinished) (ho : Open s)
    (hf : ∀ a s', Open s' → KeepsShown env m (f a) s') : KeepsShown env m (send c >>= f) s :=
  Unfinished.shows (only_send.mpr h) ho hf

theorem shows_ret {a : α} (h : Shown m s) : KeepsShown env m (.ret a) s := h

theorem shows_failRun {reason : StopReason} {d : FailDetail} (ho : Open s) :
    KeepsShown env m (failRun state reason d) s :=
  wp_mono (fun _ h => h.shown) (fun _ _ h => h.shown) (wp_of_only open_keep unfinished_failRun ho)

theorem shows_finishRun {ses : Session} (ho : Open s) :
    KeepsShown env m (finishRun cfg m ses state) s := by
  refine shows_op trivial ho fun t s₁ ho₁ => ?_
  split
  · exact shows_failRun ho₁
  have hshown : Shown m (s₁.updateRun
      { status := some .completed, stopReason := some .completed, state := some state,
        output := some (finalOutput m state.nodes) }) := by
    intro run hrun _
    obtain ⟨row, -, rfl⟩ := Option.map_eq_some_iff.mp hrun
    rfl
  simp only [KeepsShown, wp_bind, wp_updateRun, wp_appendEvent, wp_reload]
  exact ⟨hshown, hshown.of_run rfl, hshown.of_run rfl, hshown.of_run rfl⟩

theorem shows_walkFrom {ses : Session} {left : Nat} (ho : Open s) :
    KeepsShown env m (walkFrom cfg m ses left state) s := by
  refine wp_walkFrom (fun _ _ => Open) (fun h => h.shown) (fun v h => shows_failRun h)
    (fun h _ => shows_finishRun h) (fun h _ _ => h.shown) (fun h _ _ => ?_) left ho
  exact wp_mono (fun _ h => h.shown) (fun a s' h => ⟨fun _ _ => h.shown, fun _ _ => h⟩)
    (wp_of_only open_keep unfinished_activateNode h)

variable {cap : Option FlowBudgets}

variable {run : FlowRunRecord} {w : Waiting} {actor : String}

theorem shows_runLoop (ho : Open s) :
    KeepsShown env m (runLoop cfg m run cap) s := by
  refine shows_op (fun h => by cases h) ho fun _ s₁ ho₁ => ?_
  exact shows_op trivial ho₁ fun t s₂ ho₂ => shows_walkFrom ho₂

theorem open_of_status (hrun : s.run = some run) (hst : run.status ≠ .completed) :
    Open s := by
  intro run' h
  cases hrun.symm.trans h
  exact hst

theorem open_of_met (hw : w.Met m s) : Open s :=
  open_of_status hw.row (by rw [hw.status]; decide)

theorem RunStatus.ne_completed_of_open {t : RunStatus} (h : ¬ t.terminal = true) :
    t ≠ .completed := by
  rintro rfl
  exact h rfl

theorem shows_executeRun (h : Shown m s) : KeepsShown env m (executeRun cfg m cap) s :=
  wp_executeRun h (fun _ => h) (fun _ _ _ => h) fun run hrun hnt =>
    shows_runLoop (open_of_status hrun (RunStatus.ne_completed_of_open (by simp [hnt])))

theorem shows_startRun {input : Obj} {execute : Bool} :
    KeepsShown env m (startRun cfg m input execute cap) .empty := by
  have hempty : Open .empty := fun run h => (by cases h)
  unfold startRun
  dsimp only
  split
  · exact shows_ret hempty.shown
  split
  · exact shows_ret hempty.shown
  refine shows_op trivial hempty fun run s₁ ho₁ => ?_
  refine shows_op trivial ho₁ fun _ s₂ ho₂ => ?_
  split
  · exact shows_runLoop ho₂
  · exact shows_ret ho₂.shown

theorem shows_resumeRun (h : Shown m s) : KeepsShown env m (resumeRun cfg m) s := by
  simp only [KeepsShown, resumeRun, wp_bind, wp_getRun]
  refine ⟨h, ?_⟩
  rcases hrun : s.run with _ | run
  · exact h
  dsimp only
  split
  · exact h
  have ho := open_of_status hrun (RunStatus.ne_completed_of_open ‹_›)
  refine shows_op trivial ho fun steps s₁ ho₁ => ?_
  refine unfinished_failRunning.shows ho₁ fun _ s₂ ho₂ => ?_
  refine unfinished_reconcile.shows ho₂ fun r s₃ ho₃ => ?_
  cases r with
  | error e => exact shows_ret ho₃.shown
  | ok run =>
    dsimp only
    split
    · exact shows_ret ho₃.shown
    · refine shows_op trivial ho₃ fun _ s₄ ho₄ => ?_
      exact shows_executeRun ho₄.shown

theorem shows_routeTimeout (ho : Open s) : KeepsShown env m (routeTimeout cfg m w) s := by
  refine shows_op trivial ho fun _ s₁ ho₁ => ?_
  refine shows_op trivial ho₁ fun _ s₂ ho₂ => ?_
  split
  · exact unfinished_failRun.shows ho₂ fun _ s₃ ho₃ => shows_ret ho₃.shown
  · refine shows_op (fun h => by cases h) ho₂ fun _ s₃ ho₃ => ?_
    refine shows_op trivial ho₃ fun _ s₄ ho₄ => ?_
    rw [KeepsShown, wp_bind]
    exact wp_post (shows_executeRun ho₄.shown) fun _ _ h => h

theorem shows_recordDecision {d : Obj} (ho : Open s) :
    KeepsShown env m (recordDecision cfg m w d actor nodes) s := by
  refine shows_op trivial ho fun _ s₁ ho₁ => ?_
  refine shows_op trivial ho₁ fun _ s₂ ho₂ => ?_
  refine unfinished_leaveNode.shows ho₂ fun a s₃ ho₃ => ?_
  cases a with
  | stop r => exact shows_ret ho₃.shown
  | next st =>
    rw [KeepsShown, wp_bind]
    exact wp_post (shows_executeRun ho₃.shown) fun _ _ h => h

theorem shows_decideRun {d : Obj} (h : Shown m s) :
    KeepsShown env m (decideRun cfg m d actor) s :=
  wp_decideRun h (fun _ => h)
    (fun _ hw _ => wp_post (shows_routeTimeout (open_of_met hw)) fun _ _ h _ => h)
    fun _ _ hw _ => shows_recordDecision (open_of_met hw)

theorem shows_expireDue {moment : Option ℚ} (h : Shown m s) :
    KeepsShown env m (expireDue cfg m moment) s :=
  wp_expireDue h h fun _ hw _ => shows_routeTimeout (open_of_met hw)

theorem shows_replayRun (h : Shown m s) : KeepsShown env m (replayRun cfg m) s := by
  simp only [KeepsShown, replayRun, wp_bind, wp_getRun]
  refine ⟨h, ?_⟩
  rcases s.run with _ | run
  · exact h
  dsimp only
  split
  · exact h
  simp only [wp_bind, wp_listSteps]
  refine ⟨h, ?_⟩
  split
  · exact h
  · simp only [wp_bind, wp_appendEvent]
    exact ⟨h.of_run rfl, h.of_run rfl⟩

theorem FlowCall.shows (h : Shown m s) : ∀ c : FlowCall, KeepsShown env m (c.prog cfg m) s
  | .execute cap => wp_bind.mpr (wp_post (shows_executeRun h) fun _ _ h' => h')
  | .resume => wp_bind.mpr (wp_post (shows_resumeRun h) fun _ _ h' => h')
  | .decide d actor => wp_bind.mpr (wp_post (shows_decideRun h) fun r _ h' => by cases r <;> exact h')
  | .expire moment => wp_bind.mpr (wp_post (shows_expireDue h) fun r _ h' => by cases r <;> exact h')
  | .replay => wp_bind.mpr (wp_post (shows_replayRun h) fun _ _ h' => h')

/-- However its calls were cut, a completed run shows the output of its state. -/
theorem Persisted.shown (h : Persisted cfg m s) : Shown m s := by
  induction h with
  | @start env input execute cap p s h =>
    have hempty : Shown m .empty := fun run h => (by cases h)
    have hstart : KeepsShown env m (startProg cfg m input execute cap) .empty :=
      wp_bind.mpr (wp_post shows_startRun fun _ _ h' => h')
    exact (h.of_wp hempty hstart).1
  | @call env c p s s' _ h ih => exact (h.of_wp ih (c.shows ih)).1

end Shown

/-! ## The output of a run -/

def ShownLast (m : FlowManifest) (state : RunState) (last : FlowStepRecord) : Prop :=
  lastRecorded state.nodes (m.declaredAfter last.nodeId) = none ∨
    lastRecorded state.nodes (m.declaredAfter last.nodeId) = last.output

instance (m : FlowManifest) (state : RunState) (last : FlowStepRecord) :
    Decidable (ShownLast m state last) := inferInstanceAs (Decidable (_ ∨ _))

theorem shownLast_of_declared_last (h : m.declaredAfter last.nodeId = []) :
    ShownLast m state last := by
  rw [ShownLast, h]
  exact Or.inl rfl

theorem shownLast_iff (hn : m.node? last.nodeId = some n) (ho : last.output = some o)
    (hk : get? state.nodes last.nodeId = some (.obj o)) :
    some (finalOutput m state.nodes) = last.output ↔ ShownLast m state last := by
  rw [finalOutput_of_recorded hn hk, ShownLast, ho]
  cases lastRecorded state.nodes (m.declaredAfter last.nodeId) with
  | none => simp
  | some o' => simp

/-- **The output of a run goes by the order of declaration.**  A completed run shows `final_output`
of its state, however its calls were cut.  After complete calls it has completed a step, and its
output is that of the last one exactly if no node declared after that step's node has recorded
another output. -/
theorem output_of_last_step_iff (cfg : EngineConfig) {m : FlowManifest} (hm : m.Valid)
    {s : RunStore} {run : FlowRunRecord} (hrun : s.run = some run) (hst : run.status = .completed) :
    (Persisted cfg m s → run.output = some (finalOutput m run.state.nodes)) ∧
    (Reached cfg m (fun _ _ => True) s → ∃ last, lastCompleted s.steps = some last ∧
      (run.output = last.output ↔ ShownLast m run.state last)) := by
  refine ⟨fun h => h.shown run hrun hst, fun h => ?_⟩
  have hout := h.persisted.shown run hrun hst
  obtain ⟨hkept, hcur⟩ := h.kept hm run hrun (by rw [hst]; nofun)
  rcases hlast : lastCompleted s.steps with _ | last
  · exact absurd hlast (hkept.begun (hcur hst))
  · obtain ⟨n, o, hn, ho, hk⟩ := hkept.kept last hlast
    exact ⟨last, rfl, by rw [hout]; exact shownLast_iff hn ho hk⟩

theorem output_of_last_step_iff_content :
    ∃ last, contentStore.run = some contentRun ∧
      Reached demoConfig loopFlow (fun _ _ => True) contentStore ∧
      lastCompleted contentStore.steps = some last ∧ last.nodeId = "done" ∧
      ShownLast loopFlow contentRun.state last ∧ contentRun.output = last.output := by
  have hreach : Reached demoConfig loopFlow (fun _ _ => True) contentStore :=
    .start steadyOracle.exec
  have hdone : (lastCompleted contentStore.steps).map (·.nodeId) = some "done" := by
    decide +kernel
  obtain ⟨last, hlast, hiff⟩ :=
    (output_of_last_step_iff demoConfig loopFlow_valid contentStore_run rfl).2 hreach
  have hnode : last.nodeId = "done" := by simpa [hlast] using hdone
  have hlater : ShownLast loopFlow contentRun.state last :=
    shownLast_of_declared_last (by rw [hnode]; rfl)
  exact ⟨last, contentStore_run, hreach, hlast, hnode, hlater, hiff.mpr hlater⟩

/-- A document whose last node is declared first. -/
def reportDocument : Obj :=
  [("schemaVersion", .str "1"), ("id", .str "demo/report"), ("version", .str "1.0.0"),
   ("hostApi", .str "*"),
   ("nodes", .list [
     .obj [("id", .str "report"), ("type", .str "tool"), ("ref", .str "demo/tool")],
     .obj [("id", .str "collect"), ("type", .str "tool"), ("ref", .str "demo/tool")]]),
   ("edges", .list [.obj [("from", .str "collect"), ("to", .str "report")]])]

def reportFlow : FlowManifest :=
  { schemaVersion := "1", id := "demo/report", version := "1.0.0", hostApi := "*",
    nodes := [{ id := "report", type := .tool, ref := some ⟨"demo/tool", "*"⟩ },
      { id := "collect", type := .tool, ref := some ⟨"demo/tool", "*"⟩ }],
    edges := [{ source := "collect", target := "report" }] }

theorem reportFlow_valid : reportFlow.Valid :=
  ⟨fun _ => true, reportDocument, by decide +kernel⟩

def namingOracle : Oracle :=
  { invoke := fun ctx => .ok { output := some [("node", .str ctx.node.id)] } }

def reportStore : RunStore :=
  (Prog.run namingOracle.ans (startRun demoConfig reportFlow [] true none) .empty).2

/-- The report is written last, and the run shows what was collected. -/
theorem output_is_not_of_last_step :
    reportFlow.Valid ∧ Reached demoConfig reportFlow (fun _ _ => True) reportStore ∧
      reportStore.run.map (fun run => (run.status, run.output)) =
        some (.completed, some [("node", .str "collect")]) ∧
      (lastCompleted reportStore.steps).map (fun st => (st.nodeId, st.output)) =
        some ("report", some [("node", .str "report")]) :=
  ⟨reportFlow_valid, .start namingOracle.exec, by decide +kernel,
    by decide +kernel⟩

end AutoDev.Flows
