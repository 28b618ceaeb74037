/-
# `AutoDev.Flows.OnGraph` — a run never leaves its graph

Four places move the cursor of a run: the end of an activation, the crash
window of a resume, an accepted decision and an expired wait.  The first three
route by `select_next_node`, the last by the timeout target.

Whether the cursor moves along an edge of the node it LEAVES is a question
about two consecutive states of the store, so the programs are gone through
with `Prog.wpt`: `Commit` is what one commit may do to the row.  The decision and
the expiry go by the node of the pause; the parameter `ex` says whether it is
known to be the cursor node.
-/
import AutoDev.Flows.Ledger

namespace AutoDev.Flows

open Prog List Option

/-! ## One commit -/

variable (m : FlowManifest)

structure Placed (state : RunState) : Prop where
  cursor : KnownCursor m state
  pause : ∀ p, state.pause = some p → ∃ node, m.node? p.nodeId = some node ∧ node.type = .human

def Rows (s : RunStore) : Prop := ∀ run, s.run = some run → Placed m run.state

/-- How one commit may move the cursor of a run; `due` says that its wait has expired. -/
inductive Move (due : FlowRunRecord → Prop) (run run' : FlowRunRecord) : Prop
  | stays : run'.state.cursor = run.state.cursor → Move due run run'
  | edge {c : String} {e : FlowEdge} : run.state.cursor = some c → e ∈ m.edgesFrom c →
      e.on = none → run'.state.cursor = some e.target → Move due run run'
  | ends {c : String} : run.state.cursor = some c → (∀ e ∈ m.edgesFrom c, e.on.isSome) →
      run'.state.cursor = none → Move due run run'
  | timeout {c : String} {e : FlowEdge} {node : FlowNode} : run.state.cursor = some c →
      m.node? c = some node → node.type = .human → run.status = .waitingHuman → due run →
      e ∈ m.edgesFrom c → e.on = some "timeout" → run'.state.cursor = some e.target →
      Move due run run'

/-- What one commit keeps: the run is on the graph, and if `ex` its cursor moves along it. -/
def Commit (ex : Prop) (due : FlowRunRecord → Prop) (s s' : RunStore) : Prop :=
  Rows m s → Rows m s' ∧
    (ex → ∀ run run', s.run = some run → s'.run = some run' → Move m due run run')

def RunError.lookup : RunError → Bool
  | .unknownNode _ | .noEntry => true
  | _ => false

/-- A lookup of the human service failed, or one of the engine behind it. -/
def HumanError.lookup : HumanError → Bool
  | .unknownNode _ => true
  | .engine e => e.lookup
  | _ => false

def FoundAll (r : RunResult) : Prop := ∀ e, r = .error e → e.lookup = false

section Walk

variable {env : Env} {cfg : EngineConfig} {m : FlowManifest} {ex : Prop}
  {due : FlowRunRecord → Prop} {s s' : RunStore} {state : RunState} {node : FlowNode}

theorem Rows.of_run (h : Rows m s) (hr : s'.run = s.run) : Rows m s' :=
  fun run hrun => h run (hr ▸ hrun)

theorem Commit.quiet (h : s'.run = s.run) : Commit m ex due s s' := by
  intro hr
  refine ⟨hr.of_run h, fun _ run run' h₁ h₂ => ?_⟩
  rw [h, h₁] at h₂
  cases h₂
  exact .stays rfl

abbrev Walks (env : Env) (m : FlowManifest) (ex : Prop) (due : FlowRunRecord → Prop) {α : Type}
    (Q : α → RunStore → Prop) : P α → RunStore → Prop :=
  wpt (Sem env) (Commit m ex due) Q

/-- The command does not write the row. -/
def Cmd.quiet : Cmd → Bool
  | .createRun .. | .updateRun _ => false
  | _ => true

section

variable {α : Type} {Q : α → RunStore → Prop}

theorem wpt_quiet {c : Cmd} {f : Reply c → P α} (hc : c.quiet)
    (h : ∀ r s', Sem env c s r s' → s'.run = s.run → Walks env m ex due Q (f r) s') :
    Walks env m ex due Q (send c >>= f) s := by
  refine wpt_bind fun r s' hs => ?_
  have hr : s'.run = s.run := by
    cases c with
    | createRun | updateRun => cases hc
    | _ => exact hs.2 ▸ rfl
  exact ⟨.quiet hr, h r s' hs hr⟩

theorem wpt_getRun {f : Option FlowRunRecord → P α}
    (h : ∀ s', s'.run = s.run → Walks env m ex due Q (f s.run) s') :
    Walks env m ex due Q (getRun >>= f) s := by
  refine wpt_quiet rfl fun r s' hs hr => ?_
  obtain rfl := hs.1
  exact h s' hr

end

/-- The state in memory: it is on the graph like the row, and if `ex` their cursors agree. -/
structure Stands (m : FlowManifest) (ex : Prop) (state : RunState) (s : RunStore) : Prop where
  placed : Placed m state
  rows : Rows m s
  here : ex → ∀ run, s.run = some run → run.state.cursor = state.cursor

theorem Stands.of_run (h : Stands m ex state s) (hr : s'.run = s.run) : Stands m ex state s' :=
  ⟨h.placed, h.rows.of_run hr, fun hx run hrun => h.here hx run (hr ▸ hrun)⟩

variable {run : FlowRunRecord} {Q : Unit → RunStore → Prop} {state' : RunState} {i d : Obj}
    {step : FlowStepRecord} {cap : Option FlowBudgets} {w : Waiting}

theorem Stands.of_row (hr : Rows m s) (hrun : s.run = some run) : Stands m ex run.state s :=
  ⟨hr run hrun, hr, fun _ run' h => by rw [some.inj (h.symm.trans hrun)]⟩

section

variable {p : RunPatch} (hp : p.state = some state') (h' : Placed m state')
  (hQ : Stands m ex state' (s.updateRun p) → Q () (s.updateRun p))
include hp h' hQ

theorem wpt_updateRun (hmove : ex → ∀ run, s.run = some run → Move m due run (p.apply run)) :
    Walks env m ex due Q (updateRun p) s := by
  have hrow : ∀ run', (s.updateRun p).run = some run' →
      ∃ run, s.run = some run ∧ run' = p.apply run ∧ run'.state = state' := by
    intro run' h
    obtain ⟨run, hrun, rfl⟩ := map_eq_some_iff.mp h
    exact ⟨run, hrun, rfl, by simp [RunPatch.apply, hp]⟩
  have hrows : Rows m (s.updateRun p) := fun run' h => by
    obtain ⟨_, _, _, hst⟩ := hrow run' h
    exact hst ▸ h'
  refine wpt_send fun r s' hs => ?_
  obtain ⟨-, rfl⟩ := hs
  refine ⟨fun _ => ⟨hrows, fun hx run run' h₁ h₂ => ?_⟩, hQ ⟨h', hrows, fun _ run' h => ?_⟩⟩
  · obtain ⟨row, hrun, rfl, -⟩ := hrow run' h₂
    obtain rfl : row = run := some.inj (hrun.symm.trans h₁)
    exact hmove hx row h₁
  · obtain ⟨_, _, _, hst⟩ := hrow run' h
    rw [hst]

theorem wpt_updateRun_stays (h : Stands m ex state s) (hc : state'.cursor = state.cursor) :
    Walks env m ex due Q (updateRun p) s := by
  refine wpt_updateRun hp h' hQ fun hx run hrun => .stays ?_
  rw [RunPatch.apply, hp]
  exact hc.trans (h.here hx run hrun).symm

end

theorem wpt_reload {Q : RunResult → RunStore → Prop} (h : ∀ s', s'.run = s.run →
    Q s.loaded s') : Walks env m ex due Q reload s := by
  refine wpt_getRun fun s' hr => ?_
  have hQ := h s' hr
  unfold RunStore.loaded at hQ
  cases hrun : s.run with
  | none | some _ => rw [hrun] at hQ; exact hQ

theorem foundAll_loaded (s : RunStore) : FoundAll s.loaded := by
  intro e h
  unfold RunStore.loaded at h
  split at h <;> cases h
  rfl

/-! ## The pieces of the engine -/

theorem wpt_failRun {Q : RunResult → RunStore → Prop} {reason : StopReason} {d : FailDetail}
    (h : Stands m ex state s) (h' : Placed m state') (hc : state'.cursor = state.cursor)
    (hQ : ∀ r s', FoundAll r → Rows m s' → Q r s') :
    Walks env m ex due Q (failRun state' reason d) s := by
  refine wpt_bind (wpt_updateRun_stays rfl h' (fun h₁ => ?_) h hc)
  refine wpt_quiet rfl fun _ s₂ _ h₂ => wpt_reload fun s₃ h₃ => ?_
  exact hQ _ _ (foundAll_loaded _) ((h₁.of_run h₂).of_run h₃).rows

theorem wpt_leaveNode (hm : m.Valid) {Q : Activation → RunStore → Prop} {b : Bool}
    (h : Stands m ex state s) (hcur : ex → state.cursor = some node.id)
    (hstop : ∀ r s', FoundAll r → Rows m s' → Q (.stop r) s')
    (hnext : ∀ next s', Stands m ex { state with cursor := next } s' →
      Q (.next { state with cursor := next }) s') :
    Walks env m ex due Q (leaveNode m i node step state b) s := by
  have hfail : ∀ {reason d}, Walks env m ex due Q (failRun state reason d >>= fun r =>
      pure (.stop r)) s :=
    wpt_bind (wpt_failRun h h.placed rfl hstop)
  unfold leaveNode
  rcases hsel : selectNextNode m node (evalState i state.nodes) with (e | j) | next
  · exact hfail
  · exact hfail
  · have hplaced : Placed m { state with cursor := next } :=
      ⟨knownCursor_of_route hm hsel, h.placed.pause⟩
    refine wpt_bind (wpt_updateRun rfl hplaced (fun h₁ => ?_) fun hx run hrun => ?_)
    · exact wpt_quiet rfl fun _ s₂ _ h₂ => hnext next s₂ (h₁.of_run h₂)
    · have hc : run.state.cursor = some node.id := (h.here hx run hrun).trans (hcur hx)
      cases next with
      | none => exact .ends hc (selectNextNode_none hsel) rfl
      | some t =>
        obtain ⟨e, he, rfl, hg⟩ := selectNextNode_edge hsel
        refine .edge hc he ?_ rfl
        rcases hg with hg | hg
        · refine (hm.edge_guard (mem_filter.mp he).1).resolve_left fun hn => ?_
          rw [hn] at hg
          cases hg
        · simpa [FlowEdge.guarded] using (by simpa [FlowEdge.guarded] using hg :
            e.when = none ∧ e.on = none).2

theorem wpt_callHandler {Q : Except HandlerError NodeOutcome → RunStore → Prop} {ctx : NodeContext}
    (h : ∀ r s', s'.run = s.run →
      (∀ o e, r = .ok (.waitingHuman o e) → ctx.node.type = .human) → Q r s') :
    Walks env m ex due Q (callHandler cfg ctx) s := by
  unfold callHandler
  split
  · exact h _ s rfl fun _ _ => nofun
  · next ht =>
    split
    · exact h _ s rfl fun _ _ _ => ht
    · refine wpt_quiet rfl fun t s' _ hr => ?_
      exact h _ s' hr fun _ _ _ => ht
  · refine wpt_quiet rfl fun r s' _ hr => ?_
    cases r with
    | ok _ | error _ => exact h _ s' hr fun _ _ => nofun

theorem wpt_attemptLoop {Q : Attempted → RunStore → Prop} {policy : FlowRetryPolicy}
    {ctx : NodeContext} (hstop : ∀ r s', FoundAll r → Rows m s' → Q (.stop r) s')
    (hout : ∀ step out s', Stands m ex ctx.state s' →
      (∀ o e, out = .waitingHuman o e → ctx.node.type = .human) → Q (.outcome step out) s') :
    ∀ {left attempt : Nat} {s : RunStore}, Stands m ex ctx.state s →
      Walks env m ex due Q (attemptLoop cfg policy ctx left attempt) s
  | 0, _, s, h => hstop _ _ (fun e he => by cases he; rfl) h.rows
  | left + 1, attempt, s, h => by
    refine wpt_quiet rfl fun step s₁ _ h₁ => ?_
    refine wpt_quiet rfl fun _ s₂ _ h₂ => wpt_bind (wpt_callHandler fun r s₃ h₃ hhum => ?_)
    have hs₃ := ((h.of_run h₁).of_run h₂).of_run h₃
    cases r with
    | ok out => exact hout step out s₃ hs₃ fun o e ho => hhum o e (ho ▸ rfl)
    | error e =>
      refine wpt_quiet rfl fun _ s₄ _ h₄ => wpt_quiet rfl fun _ s₅ _ h₅ => ?_
      have hs₅ := (hs₃.of_run h₄).of_run h₅
      split
      · exact wpt_bind (wpt_failRun hs₅ hs₅.placed rfl hstop)
      refine wpt_quiet rfl fun t s₆ _ h₆ => ?_
      have hs₆ := hs₅.of_run h₆
      split
      · exact wpt_bind (wpt_failRun hs₆ hs₆.placed rfl hstop)
      · refine wpt_quiet rfl fun _ s₇ _ h₇ => ?_
        exact wpt_attemptLoop hstop hout (hs₆.of_run h₇)

theorem wpt_pauseRun {Q : RunResult → RunStore → Prop} {o : Obj} {e : Option ℚ}
    (h : Stands m ex state s) (hn : m.node? node.id = some node) (hhum : node.type = .human)
    (hQ : ∀ r s', FoundAll r → Rows m s' → Q r s') :
    Walks env m ex due Q (pauseRun node step state o e) s := by
  have hplaced : Placed m { state with pause := some ⟨node.id, step.stepId, e⟩ } := by
    refine ⟨h.placed.cursor, fun p hp => ?_⟩
    cases hp
    exact ⟨node, hn, hhum⟩
  refine wpt_quiet rfl fun _ s₁ _ h₁ => ?_
  refine wpt_bind (wpt_updateRun_stays rfl hplaced (fun h₂ => ?_) (h.of_run h₁) rfl)
  refine wpt_quiet rfl fun _ s₃ _ h₃ => wpt_reload fun s₄ h₄ => ?_
  exact hQ _ _ (foundAll_loaded _) ((h₂.of_run h₃).of_run h₄).rows

section

variable (hm : m.Valid) {Q : Activation → RunStore → Prop} (h : Stands m ex state s)
  (hn : m.node? node.id = some node) (hcur : state.cursor = some node.id)
  (hstop : ∀ r s', FoundAll r → Rows m s' → Q (.stop r) s')
  (hnext : ∀ state' s', Stands m ex state' s' → Q (.next state') s')
include hm h hn hcur hstop hnext

theorem wpt_settleOutcome {out : NodeOutcome}
    (hhum : ∀ o e, out = .waitingHuman o e → node.type = .human) :
    Walks env m ex due Q (settleOutcome m i node state step out) s := by
  cases out with
  | waitingHuman o e => exact wpt_bind (wpt_pauseRun h hn (hhum o e rfl) hstop)
  | completed out =>
    unfold settleOutcome
    dsimp only
    cases out.output with
    | none =>
      refine wpt_quiet rfl fun _ s₁ _ h₁ => wpt_bind ?_
      exact wpt_failRun (h.of_run h₁) h.placed rfl hstop
    | some output =>
      refine wpt_quiet rfl fun _ s₁ _ h₁ => ?_
      have hs₁ := h.of_run h₁
      exact wpt_leaveNode hm ⟨⟨hs₁.placed.cursor, hs₁.placed.pause⟩, hs₁.rows, hs₁.here⟩
        (fun _ => hcur) hstop fun next s' hs' => hnext _ s' hs'

theorem wpt_activateNode {budgets : FlowBudgets} {deadline : ℚ} :
    Walks env m ex due Q (activateNode cfg m i node state budgets deadline) s := by
  unfold activateNode
  split
  · exact wpt_bind (wpt_failRun h h.placed rfl hstop)
  · refine wpt_bind (wpt_attemptLoop hstop ?_ h)
    intro step out s' hs' hhum
    exact wpt_settleOutcome hm hs' hn hcur hstop hnext hhum

end

/-- What a call of the engine leaves. -/
def Found (m : FlowManifest) (r : RunResult) (s : RunStore) : Prop := FoundAll r ∧ Rows m s

theorem wpt_finishRun {ses : Session} (h : Stands m ex state s) :
    Walks env m ex due (Found m) (finishRun cfg m ses state) s := by
  refine wpt_quiet rfl fun t s₁ _ h₁ => ?_
  have hs₁ := h.of_run h₁
  split
  · exact wpt_failRun hs₁ hs₁.placed rfl fun _ _ hr hs => ⟨hr, hs⟩
  · refine wpt_bind (wpt_updateRun_stays rfl hs₁.placed (fun h₂ => ?_) hs₁ rfl)
    refine wpt_quiet rfl fun _ s₃ _ h₃ => wpt_reload fun s₄ h₄ => ?_
    exact ⟨foundAll_loaded _, ((h₂.of_run h₃).of_run h₄).rows⟩

theorem wpt_walkFrom (hm : m.Valid) {ses : Session} :
    ∀ (left : Nat) {state : RunState} {s : RunStore}, Stands m ex state s →
      Walks env m ex due (Found m) (walkFrom cfg m ses left state) s
  | left, state, s, h => by
    unfold walkFrom
    split
    · exact wpt_finishRun h
    next c hc =>
    obtain ⟨node, hn⟩ := h.placed.cursor c hc
    obtain rfl := FlowManifest.node?_id hn
    refine wpt_quiet rfl fun t s₁ _ h₁ => ?_
    have hs₁ := h.of_run h₁
    split
    · exact wpt_failRun hs₁ hs₁.placed rfl fun _ _ hr hs => ⟨hr, hs⟩
    rw [hn]
    cases left with
    | zero => exact ⟨fun e he => by cases he; rfl, hs₁.rows⟩
    | succ left =>
      refine wpt_bind (wpt_activateNode hm hs₁ hn hc (fun r s' hr hs => ⟨hr, hs⟩) ?_)
      exact fun state' s' hs' => wpt_walkFrom hm left hs'

theorem wpt_runLoop (hm : m.Valid) (h : Stands m ex run.state s) :
    Walks env m ex due (Found m) (runLoop cfg m run cap) s := by
  refine wpt_bind (wpt_send fun _ s' hs => ?_)
  obtain ⟨-, rfl⟩ := hs
  -- only the status is written
  have hrow : ∀ run', (s.updateRun { status := some .running }).run = some run' →
      ∃ row, s.run = some row ∧ run'.state = row.state := by
    intro run' h
    obtain ⟨row, hr, rfl⟩ := map_eq_some_iff.mp h
    exact ⟨row, hr, rfl⟩
  have hstands : Stands m ex run.state (s.updateRun { status := some .running }) := by
    refine ⟨h.placed, fun run' h' => ?_, fun hx run' h' => ?_⟩
    · obtain ⟨row, hr, he⟩ := hrow run' h'
      exact he ▸ h.rows row hr
    · obtain ⟨row, hr, he⟩ := hrow run' h'
      exact he ▸ h.here hx row hr
  refine ⟨fun _ => ⟨hstands.rows, fun _ run₁ run₂ h₁ h₂ => ?_⟩, ?_⟩
  · obtain ⟨row, hr, he⟩ := hrow run₂ h₂
    obtain rfl : row = run₁ := some.inj (hr.symm.trans h₁)
    exact .stays (congrArg _ he)
  · exact wpt_quiet rfl fun t s₁ _ h₁ => wpt_walkFrom hm _ (hstands.of_run h₁)

theorem wpt_executeRun (hm : m.Valid) (h : Rows m s) :
    Walks env m ex due (Found m) (executeRun cfg m cap) s := by
  refine wpt_getRun fun s₁ h₁ => ?_
  have hr₁ := h.of_run h₁
  rcases hrun : s.run with _ | run
  · exact ⟨fun e he => by cases he; rfl, hr₁⟩
  · dsimp only
    split
    · exact ⟨fun e he => (nomatch he), hr₁⟩
    · exact wpt_runLoop hm (.of_row hr₁ (h₁.trans hrun))

theorem wpt_startRun (hm : m.Valid) {input : Obj} {execute : Bool} :
    Walks env m ex due (Found m) (startRun cfg m input execute cap) .empty := by
  unfold startRun
  dsimp only
  have hempty : Rows m .empty := fun run h => nomatch h
  split
  · exact ⟨fun e he => by cases he; rfl, hempty⟩
  obtain ⟨entry, hentry⟩ := hm.entry
  rw [hentry]
  have hplaced : Placed m { cursor := some entry.id, budgetCap := cap } := by
    refine ⟨fun c hc => ?_, fun p hp => (nomatch hp)⟩
    cases hc
    exact FlowManifest.Valid.node_of_mem
      (mem_map_of_mem (FlowManifest.entryNode?_mem hentry))
  refine wpt_bind (wpt_send fun run s₁ hs => ?_)
  obtain ⟨rfl, rfl⟩ := hs
  have hrows : Rows m (RunStore.empty.createRun input
      { cursor := some entry.id, budgetCap := cap }) := fun run h => by
    cases h
    exact hplaced
  refine ⟨fun _ => ⟨hrows, fun _ run _ h => (nomatch h)⟩, ?_⟩
  refine wpt_quiet rfl fun _ s₂ _ h₂ => ?_
  have hrows₂ := hrows.of_run h₂
  cases execute with
  | false => exact ⟨fun e he => (nomatch he), hrows₂⟩
  | true => exact wpt_runLoop hm (.of_row hrows₂ (h₂.trans (RunStore.createRun_run ..)))

/-! ## Recovery -/

theorem wpt_failRunning :
    ∀ {l : List FlowStepRecord} {s : RunStore}, (∀ s', s'.run = s.run → Q () s') →
      Walks env m ex due Q (failRunning l) s
  | [], s, h => h s rfl
  | st :: rest, s, h => by
    unfold failRunning
    split
    · refine wpt_quiet rfl fun _ s₁ _ h₁ => wpt_failRunning fun s' h' => ?_
      exact h s' (h'.trans h₁)
    · exact wpt_failRunning h

theorem wpt_reconcile (hm : m.Valid) (h : Rows m s) (hrun : s.run = some run) :
    Walks env m ex due (Found m) (reconcileCrashWindow m run) s := by
  unfold reconcileCrashWindow
  split
  · exact ⟨fun e he => (nomatch he), h⟩
  next c hc =>
  refine wpt_quiet rfl fun steps s₁ _ h₁ => ?_
  split
  · exact ⟨fun e he => (nomatch he), h.of_run h₁⟩
  refine wpt_quiet rfl fun events s₂ _ h₂ => ?_
  have hr₂ := h.of_run (h₂.trans h₁)
  split
  · exact ⟨fun e he => (nomatch he), hr₂⟩
  obtain ⟨node, hn⟩ := (h run hrun).cursor c hc
  obtain rfl := FlowManifest.node?_id hn
  rw [hn]
  have hst : Stands m ex run.state s₂ := .of_row hr₂ ((h₂.trans h₁).trans hrun)
  refine wpt_bind (wpt_leaveNode hm ⟨⟨hst.placed.cursor, hst.placed.pause⟩, hst.rows, hst.here⟩
    (fun _ => hc) (fun r s' hr hs => ⟨hr, hs⟩) fun next s' hs' => wpt_reload fun s'' h'' => ?_)
  exact ⟨foundAll_loaded _, (hs'.of_run h'').rows⟩

theorem wpt_resumeRun (hm : m.Valid) (h : Rows m s) :
    Walks env m ex due (Found m) (resumeRun cfg m) s := by
  refine wpt_getRun fun s₁ h₁ => ?_
  rcases hrun : s.run with _ | run
  · exact ⟨fun e he => by cases he; rfl, h.of_run h₁⟩
  dsimp only
  split
  · exact ⟨fun e he => by cases he; rfl, h.of_run h₁⟩
  refine wpt_quiet rfl fun steps s₂ _ h₂ => ?_
  refine wpt_bind (wpt_failRunning fun s₃ h₃ => ?_)
  have hs₃ : s₃.run = s.run := (h₃.trans h₂).trans h₁
  refine wpt_bind (wpt_post (wpt_reconcile hm (h.of_run hs₃) (hs₃.trans hrun)) fun r s₄ h₄ => ?_)
  cases r with
  | error e => exact h₄
  | ok run' =>
    dsimp only
    split
    · exact ⟨fun e he => (nomatch he), h₄.2⟩
    · refine wpt_quiet rfl fun _ s₅ _ h₅ => ?_
      exact wpt_executeRun hm (h₄.2.of_run h₅)

/-! ## The human service -/

def PausedHere (ex : Prop) (s : RunStore) : Prop :=
  ex → ∀ run, s.run = some run → run.status = .waitingHuman →
    ∃ p, run.state.pause = some p ∧ run.state.cursor = some p.nodeId

/-- What the service goes by: the row, and a node that is, if `ex`, the human node of the cursor. -/
structure Waits (m : FlowManifest) (ex : Prop) (w : Waiting) (s : RunStore) : Prop where
  stands : Stands m ex w.run.state s
  row : s.run = some w.run
  status : w.run.status = .waitingHuman
  node : ∃ i, m.node? i = some w.node
  cursor : ex → w.run.state.cursor = some w.node.id ∧ m.node? w.node.id = some w.node ∧
    w.node.type = .human

/-- If `ex`, no lookup of the service or of the engine behind it fails. -/
def FoundIf {α : Type} (m : FlowManifest) (ex : Prop) (r : Except HumanError α) (s : RunStore) :
    Prop :=
  (ex → ∀ e, r = .error e → e.lookup = false) ∧ Rows m s

theorem Found.ofRun {r : RunResult} (h : Found m r s) : FoundIf m ex (HumanResult.ofRun r) s := by
  refine ⟨fun _ e he => ?_, h.2⟩
  cases r with
  | ok run => cases he
  | error e' =>
    cases he
    exact h.1 e' rfl

theorem wpt_waitingPlace {Q : Except HumanError Waiting → RunStore → Prop} (h : Rows m s)
    (hat : PausedHere ex s) (hrun : s.run = some run) (hw : run.status = .waitingHuman)
    (herr : ∀ e s', (ex → e.lookup = false) → Rows m s' → Q (.error e) s')
    (hok : ∀ w s', w.run = run → Waits m ex w s' → Q (.ok w) s') :
    Walks env m ex due Q (waitingPlace m run) s := by
  unfold waitingPlace
  -- at its cursor, the run waits at a human node
  have hnode : ex → ∃ node, m.node? run.state.waitingNodeId = some node ∧ node.type = .human ∧
      run.state.cursor = some node.id := by
    intro hx
    obtain ⟨p, hp, hc⟩ := hat hx run hrun hw
    obtain ⟨node, hn, ht⟩ := (h run hrun).pause p hp
    have hid : run.state.waitingNodeId = p.nodeId := by simp [RunState.waitingNodeId, hp]
    exact ⟨node, hid ▸ hn, ht, by rw [FlowManifest.node?_id hn]; exact hc⟩
  rcases hn : m.node? run.state.waitingNodeId with _ | node
  · refine herr _ s (fun hx => ?_) h
    obtain ⟨node, hn', -⟩ := hnode hx
    cases hn.symm.trans hn'
  refine wpt_quiet rfl fun steps s₁ _ h₁ => ?_
  have hr₁ := h.of_run h₁
  split
  · exact herr _ s₁ (fun _ => rfl) hr₁
  · refine hok _ s₁ rfl ⟨.of_row hr₁ (h₁.trans hrun), h₁.trans hrun, hw, ⟨_, hn⟩, fun hx => ?_⟩
    obtain ⟨node', hn', ht, hc⟩ := hnode hx
    obtain rfl : node = node' := some.inj (hn.symm.trans hn')
    exact ⟨hc, by rw [FlowManifest.node?_id hn]; exact hn, ht⟩

variable {moment : Option ℚ} {actor : String}

theorem wpt_pauseExpired {Q : Bool → RunStore → Prop} (hno : ∀ s', s'.run = s.run → Q false s')
    (hyes : ∀ s', s'.run = s.run → Due env run moment → Q true s') :
    Walks env m ex due Q (pauseExpired run moment) s := by
  unfold pauseExpired
  rcases he : run.state.pause.bind (·.expiresAt) with _ | e
  · exact hno s rfl
  have hdue : ∀ t s', env.At moment t → s'.run = s.run → Q (decide (e ≤ t)) s' := by
    intro t s' ht hr
    by_cases hle : e ≤ t
    · simpa [hle] using hyes s' hr ⟨e, t, he, ht, hle⟩
    · simpa [hle] using hno s' hr
  cases moment with
  | none => exact wpt_quiet rfl fun t s' hs hr => hdue t s' hs.1 hr
  | some t' => exact hdue t' s rfl rfl

theorem wpt_recordDecision (hm : m.Valid) {nodes : Dict Value} (h : Waits m ex w s) :
    Walks env m ex due (FoundIf m ex) (recordDecision cfg m w d actor nodes) s := by
  refine wpt_quiet rfl fun _ s₁ _ h₁ => wpt_quiet rfl fun _ s₂ _ h₂ => ?_
  have hs₂ := (h.stands.of_run h₁).of_run h₂
  refine wpt_bind (wpt_leaveNode hm ⟨⟨hs₂.placed.cursor, fun p hp => (nomatch hp)⟩, hs₂.rows,
    hs₂.here⟩ (fun hx => (h.cursor hx).1) (fun r s' hr hs => Found.ofRun ⟨hr, hs⟩)
    fun next s₃ hs₃ => wpt_bind (wpt_post (wpt_executeRun hm hs₃.rows) fun r s' h' => h'.ofRun))

theorem wpt_routeTimeout (hm : m.Valid) (h : Waits m ex w s) (hdue : due w.run) :
    Walks env m ex due (FoundIf m ex) (routeTimeout cfg m w) s := by
  obtain ⟨i, hn⟩ := h.node
  refine wpt_quiet rfl fun _ s₁ _ h₁ => wpt_quiet rfl fun _ s₂ _ h₂ => ?_
  have hs₂ := (h.stands.of_run h₁).of_run h₂
  have hrow₂ : s₂.run = some w.run := (h₂.trans h₁).trans h.row
  rcases ht : timeoutTarget? m w.node with _ | target
  · refine wpt_bind (wpt_failRun hs₂ ⟨hs₂.placed.cursor, fun p hp => (nomatch hp)⟩ rfl ?_)
    exact fun r s' hr hs => Found.ofRun ⟨hr, hs⟩
  refine wpt_bind (wpt_updateRun rfl ⟨knownCursor_of_timeout hm hn ht, fun p hp => (nomatch hp)⟩
    (fun h₃ => ?_) fun hx run hrun => ?_)
  · refine wpt_quiet rfl fun _ s₄ _ h₄ => ?_
    exact wpt_bind (wpt_post (wpt_executeRun hm (h₃.of_run h₄).rows) fun r s' h' => h'.ofRun)
  · obtain rfl : w.run = run := some.inj (hrow₂.symm.trans hrun)
    obtain ⟨hc, hn', htype⟩ := h.cursor hx
    obtain ⟨e, he, hon, rfl⟩ := timeoutTarget_edge hm (FlowManifest.node?_mem hn) ht
    exact .timeout hc hn' htype h.status hdue he hon rfl

theorem lookup_applyEditList {human : FlowNode} {e : HumanError} :
    ∀ {kvs : Obj} {nodes : Dict Value}, applyEditList m human kvs nodes = .error e →
      e.lookup = false
  | [], _, h => by cases h
  | (target, patch) :: rest, nodes, h => by
    unfold applyEditList at h
    split at h
    · split at h
      · cases h
        rfl
      · split at h
        · cases h
          rfl
        · exact lookup_applyEditList h
    · cases h
      rfl

theorem lookup_checkDecision {e : HumanError} (h : checkDecision m w d = .error e) :
    e.lookup = false := by
  unfold checkDecision at h
  dsimp only at h
  split at h
  · cases h
    rfl
  unfold applyEdits at h
  split at h
  · cases h
  · cases h
  · exact lookup_applyEditList h
  · cases h
    rfl

def InContext (m : FlowManifest) (ex : Prop) : Except HumanError Waiting → RunStore → Prop
  | .error e, s => (ex → e.lookup = false) ∧ Rows m s
  | .ok w, s => Waits m ex w s

theorem wpt_decideRun (hm : m.Valid) (h : Rows m s) (hat : PausedHere ex s) :
    Walks env m ex (Due env · none) (FoundIf m ex) (decideRun cfg m d actor) s := by
  have herr : ∀ (e : HumanError) s', (ex → e.lookup = false) → Rows m s' →
      FoundIf m ex (.error e : HumanResult) s' :=
    fun e s' he hs => ⟨fun hx e' h' => by cases h'; exact he hx, hs⟩
  have hctx : Walks env m ex (Due env · none) (InContext m ex) (waitingContext m) s := by
    refine wpt_getRun fun s₁ h₁ => ?_
    have hr₁ := h.of_run h₁
    rcases hrun : s.run with _ | run
    · exact ⟨fun _ => rfl, hr₁⟩
    dsimp only
    split
    · exact ⟨fun _ => rfl, hr₁⟩
    · next hw =>
      refine wpt_waitingPlace hr₁ (fun hx row hrow => hat hx row (h₁ ▸ hrow)) (h₁.trans hrun)
        (not_not.mp hw) (fun e s' he hs => ⟨he, hs⟩) fun w s' _ hw => hw
  refine wpt_bind (wpt_post hctx fun r s₁ h₁ => ?_)
  cases r with
  | error e => exact herr e s₁ h₁.1 h₁.2
  | ok w =>
    have hsame : ∀ {s'}, s'.run = s₁.run → Waits m ex w s' := fun h' =>
      ⟨h₁.stands.of_run h', h'.trans h₁.row, h₁.status, h₁.node, h₁.cursor⟩
    refine wpt_bind (wpt_pauseExpired (fun s₂ h₂ => ?_) fun s₂ h₂ hdue => ?_)
    · simp only [Bool.false_eq_true, if_false]
      rcases hck : checkDecision m w d with e | nodes
      · refine herr e s₂ (fun _ => ?_) (hsame h₂).stands.rows
        exact lookup_checkDecision hck
      · exact wpt_recordDecision hm (hsame h₂)
    · refine wpt_bind (wpt_post (wpt_routeTimeout hm (hsame h₂) hdue) fun r s₃ h₃ => ?_)
      cases r with
      | error e => exact h₃
      | ok _ => exact herr .expired s₃ (fun _ => rfl) h₃.2

theorem wpt_expireDue (hm : m.Valid) (h : Rows m s) (hat : PausedHere ex s) :
    Walks env m ex (Due env · moment) (FoundIf m ex) (expireDue cfg m moment) s := by
  have hok : ∀ {n : Nat} {s'}, Rows m s' → FoundIf m ex (.ok n : Except HumanError Nat) s' :=
    fun hs => ⟨fun _ e he => (nomatch he), hs⟩
  refine wpt_quiet rfl fun runs s₁ hs h₁ => ?_
  obtain rfl := hs.1
  have hr₁ := h.of_run h₁
  rcases hrun : s.run with _ | run
  · exact hok hr₁
  by_cases hw : run.status = .waitingHuman
  · simp only [toList_some, filter_cons, hw, beq_self_eq_true, if_true,
      filter_nil, expireRuns]
    refine wpt_bind (wpt_pauseExpired (fun s₂ h₂ => ?_) fun s₂ h₂ hdue => ?_)
    · exact hok (hr₁.of_run h₂)
    have hrow₂ : s₂.run = s.run := h₂.trans h₁
    refine wpt_bind (wpt_waitingPlace (h.of_run hrow₂)
      (fun hx row hrow => hat hx row (hrow₂ ▸ hrow)) (hrow₂.trans hrun) hw
      (fun e s₃ he hs => ⟨fun hx e' h' => by cases h'; exact he hx, hs⟩) fun w s₃ hwr hwait => ?_)
    refine wpt_bind (wpt_post (wpt_routeTimeout hm hwait (hwr ▸ hdue)) fun r s₄ h₄ => ?_)
    cases r with
    | error e => exact ⟨fun hx e' h' => by cases h'; exact h₄.1 hx e rfl, h₄.2⟩
    | ok _ => exact hok h₄.2
  · have hne : (run.status == .waitingHuman) = false := by simpa using hw
    simp only [toList_some, filter_cons, hne, Bool.false_eq_true, if_false,
      filter_nil, expireRuns]
    exact hok hr₁

end Walk

/-! ## Sequences of calls -/

section Sequences

variable {cfg : EngineConfig} {m : FlowManifest} {s : RunStore}

def RunResult.lost (r : RunResult) : Bool :=
  match r with
  | .ok _ => false
  | .error e => e.lookup

/-- `start_run`; the result is whether a lookup failed. -/
def startProg (cfg : EngineConfig) (m : FlowManifest) (input : Obj) (execute : Bool)
    (cap : Option FlowBudgets) : P Bool := do
  let r ← startRun cfg m input execute cap
  pure r.lost

/-- A later call; the result is whether a lookup of the engine, the human service or the
reconciliation failed.  `replay_run` has lookups of its own, by recorded ids. -/
def FlowCall.prog (cfg : EngineConfig) (m : FlowManifest) : FlowCall → P Bool
  | .execute cap => do
    let r ← executeRun cfg m cap
    pure r.lost
  | .resume => do
    let r ← resumeRun cfg m
    pure r.lost
  | .decide d actor => do
    let r ← decideRun cfg m d actor
    match r with
    | .ok _ => pure false
    | .error e => pure e.lookup
  | .expire moment => do
    let r ← expireDue cfg m moment
    match r with
    | .ok _ => pure false
    | .error e => pure e.lookup
  | .replay => do
    let _ ← replayRun cfg m
    pure false

/-- When a call may find the wait of a run expired. -/
def FlowCall.due (env : Env) : FlowCall → FlowRunRecord → Prop
  | .decide _ _, run => Due env run none
  | .expire moment, run => Due env run moment
  | _, _ => False

def FlowCall.ofEngine : FlowCall → Prop
  | .decide _ _ | .expire _ => False
  | _ => True

/-- Every store that is ever persisted: the calls follow one another, and each may be cut after any
number of its commits. -/
inductive Persisted (cfg : EngineConfig) (m : FlowManifest) : RunStore → Prop
  | start {env : Env} {input : Obj} {execute : Bool} {cap : Option FlowBudgets} {p : P Bool}
      {s : RunStore} : Steps (Sem env) (startProg cfg m input execute cap) .empty p s →
      Persisted cfg m s
  | call {env : Env} {c : FlowCall} {p : P Bool} {s s' : RunStore} : Persisted cfg m s →
      Steps (Sem env) (c.prog cfg m) s p s' → Persisted cfg m s'

theorem lost_of_found {r : RunResult} (h : Found m r s) : r.lost = false := by
  cases r with
  | ok _ => rfl
  | error e => exact h.1 e rfl

variable {env : Env} {ex : Prop}

theorem wpt_startProg (hm : m.Valid) {input : Obj} {execute : Bool} {cap : Option FlowBudgets} :
    Walks env m ex (fun _ => False) (fun lost s' => lost = false ∧ Rows m s')
      (startProg cfg m input execute cap) .empty :=
  wpt_bind (wpt_post (wpt_startRun hm) fun _ _ h => ⟨lost_of_found h, h.2⟩)

theorem wpt_replayRun {due : FlowRunRecord → Prop}
    {Q : Except RunError FlowReplayReport → RunStore → Prop} (h : ∀ r s', s'.run = s.run → Q r s') :
    Walks env m ex due Q (replayRun cfg m) s := by
  refine wpt_getRun fun s₁ h₁ => ?_
  rcases s.run with _ | run
  · exact h _ s₁ h₁
  dsimp only
  split
  · exact h _ s₁ h₁
  · refine wpt_quiet rfl fun steps s₂ _ h₂ => ?_
    split
    · exact h _ s₂ (h₂.trans h₁)
    · exact wpt_quiet rfl fun _ s₃ _ h₃ => h _ s₃ ((h₃.trans h₂).trans h₁)

theorem FlowCall.ofEngine.walks (hm : m.Valid) (h : Rows m s) {c : FlowCall} (hc : c.ofEngine) :
    Walks env m ex (c.due env) (fun lost s' => lost = false ∧ Rows m s') (c.prog cfg m) s := by
  cases c with
  | execute cap =>
    exact wpt_bind (wpt_post (wpt_executeRun hm h) fun _ _ h' => ⟨lost_of_found h', h'.2⟩)
  | resume => exact wpt_bind (wpt_post (wpt_resumeRun hm h) fun _ _ h' => ⟨lost_of_found h', h'.2⟩)
  | replay => exact wpt_bind (wpt_replayRun fun r s' h' => ⟨rfl, h.of_run h'⟩)
  | decide _ _ | expire _ => exact hc.elim

theorem FlowCall.walks (hm : m.Valid) (h : Rows m s) (hat : PausedHere ex s) (c : FlowCall) :
    Walks env m ex (c.due env) (fun lost s' => (ex → lost = false) ∧ Rows m s') (c.prog cfg m) s := by
  cases c with
  | execute _ | resume | replay =>
    exact wpt_post (ofEngine.walks hm h trivial) fun _ _ h' => ⟨fun _ => h'.1, h'.2⟩
  | decide d actor =>
    refine wpt_bind (wpt_post (wpt_decideRun hm h hat) fun r s' h' => ?_)
    cases r with
    | ok _ => exact ⟨fun _ => rfl, h'.2⟩
    | error e => exact ⟨fun hx => h'.1 hx e rfl, h'.2⟩
  | expire moment =>
    refine wpt_bind (wpt_post (wpt_expireDue hm h hat) fun r s' h' => ?_)
    cases r with
    | ok _ => exact ⟨fun _ => rfl, h'.2⟩
    | error e => exact ⟨fun hx => h'.1 hx e rfl, h'.2⟩

theorem Persisted.rows (hm : m.Valid) (h : Persisted cfg m s) : Rows m s := by
  have hkeep : ∀ {due : FlowRunRecord → Prop} (s s' : RunStore), Commit m False due s s' →
      Rows m s → Rows m s' := fun s s' hc hr => (hc hr).1
  induction h with
  | start h => exact (h.of_wpt hkeep (fun run hrun => nomatch hrun) (wpt_startProg hm)).1
  | @call env c p s s' _ h ih =>
    exact (h.of_wpt hkeep ih (c.walks hm ih fun hx => hx.elim)).1

theorem FlowCall.Runs.exec {s' : RunStore} {c : FlowCall} (h : c.Runs env cfg m s s') :
    ∃ lost, Exec (Sem env) (c.prog cfg m) s lost s' := by
  cases c with
  | execute cap | resume | replay =>
    obtain ⟨r, h⟩ := h
    exact ⟨_, h.bind .ret⟩
  | decide _ _ | expire _ =>
    obtain ⟨r, h⟩ := h
    cases r with
    | ok _ | error _ => exact ⟨_, h.bind .ret⟩

theorem FlowCall.Runs.of_exec {s' : RunStore} {c : FlowCall} {lost : Bool}
    (h : Exec (Sem env) (c.prog cfg m) s lost s') : c.Runs env cfg m s s' := by
  cases c with
  | execute cap | resume | replay =>
    obtain ⟨r, s₁, hr, hrest⟩ := h.of_bind
    cases hrest
    exact ⟨r, hr⟩
  | decide d actor | expire moment =>
    obtain ⟨r, s₁, hr, hrest⟩ := h.of_bind
    cases r <;> cases hrest <;> exact ⟨_, hr⟩

variable {g : FlowCall → RunStore → Prop}

theorem Reached.persisted (h : Reached cfg m g s) :
    Persisted cfg m s := by
  induction h with
  | start h => exact .start (h.bind (f := fun r => pure r.lost) .ret).steps
  | call _ _ h ih =>
    obtain ⟨lost, hx⟩ := h.exec
    exact .call ih hx.steps

end Sequences

/-! ## Where complete calls are needed

A decision writes the cursor before `execute_run` writes the status.  Cut in between, the run is
still `waiting_human` but has no pause, and past a node without a way out no cursor either: the
next decision looks up the node `"None"`. -/

def askFlow : FlowManifest :=
  { schemaVersion := "1", id := "demo/ask", version := "1.0.0", hostApi := "*",
    nodes := [{ id := "ask", type := .human, prompt := some "Go?" }] }

def cutDecisionStore : RunStore :=
  (Prog.runN steadyOracle.ans 5 (decideRun demoConfig askFlow [] "reviewer")
    (Prog.run steadyOracle.ans (startRun demoConfig askFlow [] true none) .empty).2).2

example : (Prog.run steadyOracle.ans (FlowCall.prog demoConfig askFlow (.decide [] "reviewer"))
    cutDecisionStore).1 = true := by decide +kernel

end AutoDev.Flows
