/-
# `AutoDev.Flows.Meter` — the token count of a run is what its handlers reported

A run charges an activation when its handler RETURNS: the metrics of the
outcome are added to `state.metrics`.  An attempt that raises adds nothing,
whatever it has consumed.  So over complete calls the count of a run that has
not failed is the sum over its handler calls that returned (`Metered`), and the
last budget check puts a completed run below its effective token budget.
-/
import AutoDev.Flows.Ledger

namespace AutoDev.Flows

open Prog

variable {env : Env} {cfg : EngineConfig} {m : FlowManifest} {s s' : RunStore}

/-! ## Charges -/

def charge (x : PyFloat) (call : NodeContext × HandlerResult) : PyFloat :=
  match call.2 with
  | .ok out => x.add out.tokens
  | .error _ => x

/-- The tokens of the handler calls that returned. -/
def reported (calls : List (NodeContext × HandlerResult)) : PyFloat := calls.foldl charge (.fin 0)

theorem reported_ok (calls : List (NodeContext × HandlerResult)) (ctx : NodeContext)
    (out : HandlerOutput) :
    reported (calls ++ [(ctx, .ok out)]) = (reported calls).add out.tokens := by
  simp [reported, charge]

theorem reported_errors (calls : List (NodeContext × HandlerResult)) (ctx : NodeContext)
    (es : List HandlerError) :
    reported (calls ++ es.map fun e => (ctx, .error e)) = reported calls := by
  have hskip : ∀ x : PyFloat, (es.map fun e => (ctx, Except.error e)).foldl charge x = x := by
    intro x
    induction es with
    | nil => rfl
    | cons e es ih => exact ih
  rw [reported, List.foldl_append, hskip]
  rfl

theorem Completed.reported {a : ActivationArgs} {input output : Obj} {st : FlowStepRecord}
    {out : HandlerOutput} (h : Completed env a s s' input st output out) :
    reported s'.calls = (reported s.calls).add out.tokens := by
  obtain ⟨es, ⟨-, rfl, hcalls⟩ | ⟨-, -, hcalls⟩⟩ := h.calls
  · rw [hcalls, reported_errors, PyFloat.add_fin_zero]
  · rw [hcalls, reported_ok, reported_errors]

/-! ## The meter -/

/-- The tokens a run may spend, without the caps that a single call adds. -/
def FlowRunRecord.maxTokens (m : FlowManifest) (run : FlowRunRecord) : Int :=
  (effectiveBudgets m.budgets run.state.budgetCap none).maxTokens

structure Metered (m : FlowManifest) (s : RunStore) : Prop where
  count : ∀ run, s.run = some run → run.status ≠ .failed → run.state.tokens = reported s.calls
  bound : ∀ run, s.run = some run → run.status = .completed →
    (PyFloat.fin (run.maxTokens m)).lt run.state.tokens = false

structure LoopMeter (m : FlowManifest) (cap : Option FlowBudgets) (state : RunState)
    (s : RunStore) : Prop where
  count : state.tokens = reported s.calls
  cap : state.budgetCap = cap
  known : KnownCursor m state

section Loop

variable {ses : Session} {cap : Option FlowBudgets} {state state' : RunState} {node : FlowNode}
  {r : RunResult}

theorem effectiveBudgets_maxTokens_le (b : FlowBudgets) (persisted cap : Option FlowBudgets) :
    (effectiveBudgets b persisted cap).maxTokens ≤ (effectiveBudgets b persisted none).maxTokens := by
  cases cap with
  | none => exact le_rfl
  | some c => exact min_le_left _ _

theorem PyFloat.lt_mono {a b : Int} {x : PyFloat} (hab : a ≤ b)
    (h : (PyFloat.fin a).lt x = false) : (PyFloat.fin b).lt x = false := by
  cases x with
  | fin q =>
    have hq : q ≤ a := by simpa [PyFloat.lt] using h
    have hab' : (a : ℚ) ≤ b := by exact_mod_cast hab
    simpa [PyFloat.lt] using le_trans hq hab'
  | posInf => cases h
  | negInf => rfl
  | nan => rfl

theorem metered_fail {reason : StopReason} (h : s'.run = s.run.map (FlowRunRecord.fail state reason)) :
    Metered m s' := by
  have hrow : ∀ run, s'.run = some run → run.status = .failed := by
    intro run hrun
    obtain ⟨row, rfl⟩ := RunStore.row_of_map h hrun
    rfl
  refine ⟨fun run hrun hne => absurd (hrow run hrun) hne, fun run hrun hst => ?_⟩
  cases (hrow run hrun).symm.trans hst

theorem LoopMeter.stop (hi : LoopMeter m cap state s)
    (h : ActivationEffect env (ses.activation cfg m node state) s (.stop r) s') : Metered m s' := by
  cases h with
  | failed _ _ _ hrun _ | misrouted _ _ _ hrun _ => exact metered_fail hrun
  | paused st _ _ _ _ _ hrun _ hcalls =>
    obtain ⟨es, hes⟩ := hcalls
    have hrow : ∀ run, s'.run = some run → run.state.tokens = state.tokens ∧
        run.status = .waitingHuman := by
      intro run h
      obtain ⟨row, rfl⟩ := RunStore.row_of_map hrun h
      exact ⟨rfl, rfl⟩
    refine ⟨fun run h _ => ?_, fun run h hst => ?_⟩
    · rw [(hrow run h).1, hes, reported_errors]
      exact hi.count
    · cases (hrow run h).2.symm.trans hst

theorem LoopMeter.next (hm : m.Valid) (hi : LoopMeter m cap state s)
    (h : ActivationEffect env (ses.activation cfg m node state) s (.next state') s') :
    LoopMeter m cap state' s' := by
  cases h with
  | advanced hcomp hsel _ _ =>
    refine ⟨?_, hi.cap, knownCursor_of_route hm hsel⟩
    rw [hcomp.reported, ← hi.count]
    rfl

theorem LoopMeter.complete (hi : LoopMeter m cap state s) {output : Obj} {t : ℚ}
    (hb : ses.budgets.maxTokens ≤ (effectiveBudgets m.budgets cap none).maxTokens)
    (hcheck : ses.check cfg state t 0 = none) : Metered m (s.complete state output) := by
  have hrow : ∀ run, (s.complete state output).run = some run → run.state = state := by
    intro run h
    obtain ⟨row, -, rfl⟩ := Option.map_eq_some_iff.mp h
    rfl
  refine ⟨fun run h _ => ?_, fun run h _ => ?_⟩
  · rw [hrow run h]
    exact hi.count
  · rw [FlowRunRecord.maxTokens, hrow run h, hi.cap]
    exact PyFloat.lt_mono hb (budgetViolation_eq_none.mp hcheck).2.1

theorem loopMeter_rule (hm : m.Valid)
    (hb : ses.budgets.maxTokens ≤ (effectiveBudgets m.budgets cap none).maxTokens) :
    LoopRule env cfg m ses (LoopMeter m cap) fun _ s => Metered m s where
  known hi hc := hi.known _ hc
  budget _ _ := metered_fail rfl
  complete _ hi _ hcheck := hi.complete hb hcheck
  stop hi _ _ h := hi.stop h
  next hi _ _ h := hi.next hm h

end Loop

/-! ## The calls -/

section Calls

variable {run : FlowRunRecord} {w : Waiting}

theorem runLoop_metered (hm : m.Valid) {cap : Option FlowBudgets}
    (hi : run.state.tokens = reported s.calls) (hk : KnownCursor m run.state) :
    Ends env (fun _ s' => Metered m s') (runLoop cfg m run cap) s :=
  runLoop_ends (LoopMeter m run.state.budgetCap)
    (fun _ => loopMeter_rule hm (effectiveBudgets_maxTokens_le _ _ _)) ⟨hi, rfl, hk⟩

theorem RunStatus.ne_failed_of_open {t : RunStatus} (h : t.terminal = false) : t ≠ .failed := by
  rintro rfl
  cases h

theorem startRun_metered (hm : m.Valid) {input : Obj} {execute : Bool} {cap : Option FlowBudgets} :
    Ends env (fun _ s' => Metered m s') (startRun cfg m input execute cap) .empty := by
  refine startRun_ends hm (fun _ => ⟨fun run h => (by cases h), fun run h => (by cases h)⟩)
    fun entry _ hknown => ⟨⟨fun run h _ => ?_, fun run h hst => ?_⟩, runLoop_metered hm rfl hknown⟩
  · cases h
    rfl
  · cases h
    cases hst

theorem metered_calls (hm : m.Valid) (hL : Ledger m s) (hM : Metered m s) :
    CallRule env cfg m s (Metered m) where
  execute run _ hrun hnt :=
    runLoop_metered hm (hM.count run hrun (RunStatus.ne_failed_of_open hnt)) (hL.known run hrun)
  resume run s₁ hrun hnt hsup := by
    refine runLoop_metered hm ?_ (hL.known run hrun)
    change run.state.tokens = reported s₁.calls
    rw [hsup.calls]
    exact hM.count run hrun (RunStatus.ne_failed_of_open hnt)
  answer w hw := by
    refine ⟨fun reason d _ => metered_fail rfl, fun _ hknown => ?_⟩
    have hcount := hM.count _ hw.row (RunStatus.ne_failed_of_open hw.open)
    exact runLoop_metered hm hcount hknown
  replay s' hrun _ _ hcalls := by
    refine ⟨fun run h hne => ?_, fun run h hst => hM.bound run (hrun.symm.trans h) hst⟩
    rw [hcalls]
    exact hM.count run (hrun.symm.trans h) hne

end Calls

end AutoDev.Flows
