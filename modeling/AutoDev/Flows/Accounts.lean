/-
# `AutoDev.Flows.Accounts` — the metrics of a run, entry by entry

`state.metrics` is a running total that is checkpointed with the state.  The
books behind it (`Accounted`) list one entry for every completed activation of a
node that is not a human one.  The total is the sum of the books after ANY
sequence of complete calls.

The limits are merged with Python's `min`, which keeps its first argument unless
the second is smaller.  A manifest whose `maxCostUsd` is `nan` is accepted
(`nan <= 0` is false) and has no cost limit, whatever cap it was started with.
-/
import AutoDev.Flows.TreeBudget

namespace AutoDev.Flows

open Prog List

variable {env : Env} {cfg : EngineConfig} {m : FlowManifest} {s s' : RunStore}

/-! ## The books -/

/-- A completed activation: its step and what its handler returned. -/
structure Entry where
  step : FlowStepRecord
  out : HandlerOutput

def FlowManifest.typeOf (m : FlowManifest) (nodeId : String) : Option NodeType :=
  (m.node? nodeId).map (·.type)

/-- The books of a run: one entry for every completed activation of a node that is not human. -/
structure Accounted (m : FlowManifest) (s : RunStore) (es : List Entry) : Prop where
  steps : es.map (·.step) =
    (completedSteps s.steps).filter fun st => m.typeOf st.nodeId != some .human
  outputs : ∀ e ∈ es, e.step.output = e.out.output
  conditional : ∀ e ∈ es, m.typeOf e.step.nodeId = some .conditional →
    e.out = { output := some [] }
  calls : (es.filter fun e => m.typeOf e.step.nodeId != some .conditional).map
      (fun e => (e.step.nodeId, e.step.input, e.out)) =
    (answeredCalls s.calls).map fun c => (c.1.node.id, c.1.input, c.2)

section Books

variable {es : List Entry} {st : FlowStepRecord}

theorem FlowManifest.typeOf_eq {i : String} {n : FlowNode} (h : m.node? i = some n) :
    m.typeOf i = some n.type := by
  rw [FlowManifest.typeOf, h]
  rfl

theorem Accounted.quiet (h : Accounted m s es)
    (hs : completedSteps s'.steps = completedSteps s.steps)
    (hc : answeredCalls s'.calls = answeredCalls s.calls) : Accounted m s' es :=
  ⟨by rw [hs]; exact h.steps, h.outputs, h.conditional, by rw [hc]; exact h.calls⟩

theorem Accounted.human (h : Accounted m s es)
    (hs : completedSteps s'.steps = completedSteps s.steps ++ [st])
    (ht : m.typeOf st.nodeId = some .human) (hc : s'.calls = s.calls) : Accounted m s' es := by
  refine ⟨?_, h.outputs, h.conditional, by rw [hc]; exact h.calls⟩
  rw [hs, filter_append, h.steps]
  simp [ht]

theorem Accounted.work {a : ActivationArgs} {input output : Obj} {out : HandlerOutput}
    (h : Accounted m s es) (hcomp : Completed env a s s' input st output out)
    (hn : m.node? a.node.id = some a.node) : Accounted m s' (es ++ [⟨st, out⟩]) := by
  obtain ⟨hid, hin, -, hout⟩ := hcomp.step
  have htype : m.typeOf st.nodeId = some a.node.type := by
    rw [hid]
    exact FlowManifest.typeOf_eq hn
  have hhuman := hcomp.notHuman
  refine ⟨?_, ?_, ?_, ?_⟩
  · rw [hcomp.completedSteps, filter_append, map_append, h.steps]
    simp [htype, hhuman]
  · exact forall_mem_append.mpr ⟨h.outputs,
      forall_mem_singleton.mpr (hout.trans hcomp.serialized.symm)⟩
  · refine forall_mem_append.mpr ⟨h.conditional, forall_mem_singleton.mpr fun hc => ?_⟩
    have hcond : a.node.type = .conditional := Option.some.inj (htype.symm.trans hc)
    obtain ⟨_, ⟨-, hout, -⟩ | ⟨hne, -, -⟩⟩ := hcomp.calls
    · exact hout
    · exact absurd hcond hne
  · obtain ⟨errs, ⟨hcond, -, hcalls⟩ | ⟨hne, -, hcalls⟩⟩ := hcomp.calls
    · rw [hcalls, answeredCalls_errors, filter_append, map_append, h.calls]
      simp [htype, hcond]
    have hkept : [(⟨st, out⟩ : Entry)].filter
        (fun e => m.typeOf e.step.nodeId != some .conditional) = [⟨st, out⟩] := by
      simp [htype, hne]
    rw [hcalls, answeredCalls_stored _ _ hcomp.serialized, answeredCalls_errors,
      filter_append, hkept, map_append, map_append, h.calls, map_singleton,
      map_singleton, hid, hin]
    rfl

end Books

/-! ## The total -/

def totalTokens (es : List Entry) : PyFloat := (es.map fun e => e.out.tokens).sum

def totalCostUsd (es : List Entry) : PyFloat := (es.map fun e => e.out.costUsd).sum

/-- The state carries the sums of the books and the cap of the run. -/
structure Charged (cap : Option FlowBudgets) (es : List Entry) (state : RunState) : Prop where
  tokens : state.tokens = totalTokens es
  costUsd : state.costUsd = totalCostUsd es
  cap : state.budgetCap = cap

def Unexceeded (limits : FlowBudgets) (state : RunState) : Prop :=
  (PyFloat.fin limits.maxTokens).lt state.tokens = false ∧
    limits.maxCostUsd.lt state.costUsd = false

def runLimits (m : FlowManifest) (cap : Option FlowBudgets) : FlowBudgets :=
  match cap with
  | none => m.budgets
  | some c => mergeBudgets m.budgets c

def Booked (m : FlowManifest) (cap : Option FlowBudgets) (s : RunStore) : Prop :=
  ∃ es, Accounted m s es ∧ ∀ run, s.run = some run → Charged cap es run.state ∧
    (run.status = .completed → Unexceeded (runLimits m cap) run.state)

structure LoopBooked (m : FlowManifest) (cap : Option FlowBudgets) (state : RunState)
    (s : RunStore) : Prop where
  books : ∃ es, Accounted m s es ∧ Charged cap es state
  known : KnownCursor m state

theorem effectiveBudgets_none (m : FlowManifest) (cap : Option FlowBudgets) :
    effectiveBudgets m.budgets cap none = runLimits m cap := by
  cases cap <;> rfl

theorem PyFloat.lt_of_pyMin {a b x : PyFloat} (h : (a.pyMin b).lt x = false) : a.lt x = false := by
  unfold PyFloat.pyMin at h
  split at h
  · next hlt =>
    cases a <;> cases b <;> cases x <;> simp_all [PyFloat.lt]
    linarith
  · exact h

theorem unexceeded_of_session {b : FlowBudgets} {persisted cap : Option FlowBudgets}
    {state : RunState} (h : Unexceeded (effectiveBudgets b persisted cap) state) :
    Unexceeded (effectiveBudgets b persisted none) state := by
  refine ⟨PyFloat.lt_mono (effectiveBudgets_maxTokens_le _ _ _) h.1, ?_⟩
  cases cap with
  | none => exact h.2
  | some c => exact PyFloat.lt_of_pyMin h.2

theorem Charged.record {cap : Option FlowBudgets} {es : List Entry} {state : RunState}
    {st : FlowStepRecord} {nodeId : String} {output : Obj} {out : HandlerOutput}
    (h : Charged cap es state) : Charged cap (es ++ [⟨st, out⟩]) (state.record nodeId output out) := by
  refine ⟨?_, ?_, h.cap⟩
  · rw [totalTokens, map_append, sum_append, map_singleton, sum_singleton]
    exact congrArg (·.add out.tokens) h.tokens
  · rw [totalCostUsd, map_append, sum_append, map_singleton, sum_singleton]
    exact congrArg (·.add out.costUsd) h.costUsd

/-! ## The loop -/

section Loop

variable {ses : Session} {cap : Option FlowBudgets} {state state' : RunState} {node : FlowNode}
  {c : String} {r : RunResult}

theorem booked_stopped {es : List Entry} {f : FlowRunRecord → FlowRunRecord}
    (hbooks : Accounted m s' es) (hcharged : Charged cap es state)
    (hrun : s'.run = s.run.map f)
    (hf : ∀ run, (f run).state.tokens = state.tokens ∧ (f run).state.costUsd = state.costUsd ∧
      (f run).state.budgetCap = state.budgetCap ∧ (f run).status ≠ .completed
      := by exact fun _ => ⟨rfl, rfl, rfl, fun h => by cases h⟩) : Booked m cap s' := by
  refine ⟨es, hbooks, fun run h => ?_⟩
  obtain ⟨row, rfl⟩ := RunStore.row_of_map hrun h
  obtain ⟨ht, hc, hb, hne⟩ := hf row
  exact ⟨⟨ht.trans hcharged.tokens, hc.trans hcharged.costUsd, hb.trans hcharged.cap⟩,
    fun hst => absurd hst hne⟩

section

variable (hi : LoopBooked m cap state s)
include hi

theorem LoopBooked.stop (hc : state.cursor = some c)
    (hn : m.node? c = some node)
    (h : ActivationEffect env (ses.activation cfg m node state) s (.stop r) s')
    (ha : answeredCalls s'.calls = answeredCalls s.calls ∨
      ∃ st, completedSteps s'.steps = completedSteps s.steps ++ [st]) : Booked m cap s' := by
  obtain rfl := FlowManifest.node?_id hn
  obtain ⟨es, hbooks, hcharged⟩ := hi.books
  have hquiet : completedSteps s'.steps = completedSteps s.steps →
      answeredCalls s'.calls = answeredCalls s.calls := by
    intro hs
    refine ha.resolve_right ?_
    rintro ⟨st, hst⟩
    rw [hs] at hst
    simpa using congrArg length hst
  cases h with
  | failed reason hsteps _ hrun _ =>
    obtain ⟨fs, hfs, hfail⟩ := hsteps
    have hs : completedSteps s'.steps = completedSteps s.steps := by
      rw [hfs, completedSteps_fails hfail]
    exact booked_stopped (hbooks.quiet hs (hquiet hs)) hcharged hrun
  | @misrouted _ input st output out err reason hcomp _ _ hrun _ =>
    exact booked_stopped (hbooks.work hcomp hn) hcharged.record hrun
  | @paused _ input st e _ _ _ hst hsteps hrun _ _ =>
    obtain ⟨fs, hfs, hfail⟩ := hsteps
    obtain ⟨-, -, hstat, -⟩ := hst
    have hs : completedSteps s'.steps = completedSteps s.steps := by
      rw [hfs, completedSteps_append, completedSteps_fails hfail]
      simp [completedSteps, hstat]
    exact booked_stopped (hbooks.quiet hs (hquiet hs)) hcharged hrun

theorem LoopBooked.next (hm : m.Valid) (hn : m.node? c = some node)
    (h : ActivationEffect env (ses.activation cfg m node state) s (.next state') s') :
    LoopBooked m cap state' s' := by
  obtain rfl := FlowManifest.node?_id hn
  obtain ⟨es, hbooks, hcharged⟩ := hi.books
  cases h with
  | @advanced _ input st output out next hcomp hsel _ _ =>
    have hrec : Charged cap (es ++ [⟨st, out⟩]) (state.record node.id output out) := hcharged.record
    exact ⟨⟨_, hbooks.work hcomp hn, hrec.tokens, hrec.costUsd, hrec.cap⟩,
      knownCursor_of_route hm hsel⟩

theorem LoopBooked.fail {reason : StopReason} {d : FailDetail} :
    Booked m cap (s.fail state reason d) := by
  obtain ⟨es, hbooks, hcharged⟩ := hi.books
  exact booked_stopped (hbooks.quiet rfl rfl) hcharged
    (f := FlowRunRecord.fail state reason) rfl

theorem LoopBooked.complete {output : Obj}
    (hlimit : Unexceeded (runLimits m cap) state) : Booked m cap (s.complete state output) := by
  obtain ⟨es, hbooks, hcharged⟩ := hi.books
  refine ⟨es, hbooks.quiet rfl rfl, fun run h => ?_⟩
  obtain ⟨row, -, rfl⟩ := Option.map_eq_some_iff.mp h
  exact ⟨hcharged, fun _ => hlimit⟩

end

theorem runLoop_booked (hm : m.Valid) {run : FlowRunRecord} {cap' : Option FlowBudgets}
    (hi : LoopBooked m cap run.state s) :
    Ends env (fun _ s' => Booked m cap s') (runLoop cfg m run cap') s := by
  have hstart : LoopBooked m cap run.state (s.updateRun { status := some .running }) := by
    obtain ⟨⟨es, hbooks, hcharged⟩, hknown⟩ := hi
    exact ⟨⟨es, hbooks.quiet rfl rfl, hcharged⟩, hknown⟩
  obtain ⟨_, -, hcharged⟩ := hi.books
  simp only [runLoop, wp_bind, wp_updateRun, wp_clock, true_and]
  intro started _
  refine wp_walkFrom (fun _ => LoopBooked m cap) (fun _ => trivial) ?_ ?_ ?_ ?_ _ hstart
  · exact fun v hi => wp_failRun hi.fail
  · intro n state s hi _
    simp only [finishRun, wp_bind, wp_clock]
    intro t _
    refine ⟨trivial, ?_⟩
    rcases hv : Session.check cfg _ state t 0 with _ | v
    · simp only [wp_bind, wp_updateRun, wp_appendEvent, wp_reload, true_and]
      obtain ⟨-, htok, hcost, -⟩ := budgetViolation_eq_none.mp hv
      refine hi.complete ?_
      rw [← effectiveBudgets_none, ← hcharged.cap]
      exact unexceeded_of_session ⟨htok, hcost⟩
    · exact wp_failRun hi.fail
  · intro n state s c hi hc hn
    obtain ⟨node, hnode⟩ := hi.known c hc
    cases hn.symm.trans hnode
  · intro n state s c node hi hc hn
    refine wp_post (activateNode_ends _ _)
      fun a s' ha => ⟨?_, ?_⟩
    · rintro r rfl
      exact hi.stop hc hn ha.1 ha.2
    · rintro state' rfl
      exact hi.next hm hn ha.1

end Loop

/-! ## The calls -/

section Calls

variable {run : FlowRunRecord} {w : Waiting} {cap : Option FlowBudgets}

theorem Booked.answered (hL : Ledger m s) (hrows : Rows m s) (hB : Booked m cap s)
    (hw : w.Met m s) (output : Obj) (e : FlowEvent) :
    ∃ es, Accounted m (s.answer w output e) es ∧ Charged cap es w.run.state := by
  obtain ⟨es, hbooks, hrow⟩ := hB
  obtain ⟨xs, -, -, hid, -⟩ := hL.place hw
  obtain ⟨ys, st, x, -, -, hp, -⟩ := hL.paused _ hw.row hw.status
  obtain ⟨node, hnode, hhuman⟩ := (hrows _ hw.row).pause _ hp
  have hn := hw.node
  have hsame : node = w.node := by
    rw [RunState.waitingNodeId, hp] at hn
    exact Option.some.inj (hnode.symm.trans hn)
  have htype : m.typeOf w.step.nodeId = some .human := by
    rw [hid, FlowManifest.node?_id hn, FlowManifest.typeOf_eq hn, ← hsame, hhuman]
  exact ⟨es, hbooks.human (hL.completed_answer hw output e) htype rfl, (hrow _ hw.row).1⟩

theorem booked_answer (hm : m.Valid) (hL : Ledger m s) (hrows : Rows m s) (hB : Booked m cap s)
    (hw : w.Met m s) : AnswerRule env cfg m w s (Booked m cap) := by
  refine ⟨fun {nodes output e} reason d _ => ?_, fun {nodes output e next} _ hknown => ?_⟩
  · obtain ⟨es, hbooks, hcharged⟩ := hB.answered hL hrows hw output e
    exact booked_stopped (hbooks.quiet rfl rfl) hcharged
      (f := FlowRunRecord.fail (w.run.state.decided nodes w.node.id output) reason)
      rfl
  · obtain ⟨es, hbooks, hcharged⟩ := hB.answered hL hrows hw output e
    exact runLoop_booked hm
      ⟨⟨es, hbooks.quiet rfl rfl, hcharged.tokens, hcharged.costUsd, hcharged.cap⟩, hknown⟩

theorem startRun_booked (hm : m.Valid) {input : Obj} {execute : Bool} :
    Ends env (fun _ s' => Booked m cap s') (startRun cfg m input execute cap) .empty := by
  have hempty : ∀ {s : RunStore}, s.steps = [] → s.calls = [] → Accounted m s [] := by
    intro s hs hc
    refine ⟨by rw [hs]; rfl, ?_, ?_, by rw [hc]; rfl⟩
    · exact fun e he => absurd he not_mem_nil
    · exact fun e he => absurd he not_mem_nil
  refine startRun_ends hm (fun _ => ⟨[], hempty rfl rfl, fun run h => (by cases h)⟩)
    fun entry _ hknown => ?_
  have hcharged : Charged cap [] { cursor := some entry.id, budgetCap := cap } := ⟨rfl, rfl, rfl⟩
  refine ⟨⟨[], hempty rfl rfl, fun run h => ?_⟩,
    runLoop_booked hm ⟨⟨[], hempty rfl rfl, hcharged⟩, hknown⟩⟩
  cases h
  exact ⟨hcharged, fun h => (by cases h)⟩

theorem booked_calls (hm : m.Valid) (hL : Ledger m s) (hrows : Rows m s) (hB : Booked m cap s) :
    CallRule env cfg m s (Booked m cap) := by
  refine ⟨fun run cap' hrun _ => ?_, fun run s₁ hrun _ hsup => ?_,
    fun w hw => booked_answer hm hL hrows hB hw, fun s' hrun hsteps _ hcalls => ?_⟩
  · obtain ⟨es, hbooks, hrow⟩ := hB
    exact runLoop_booked hm ⟨⟨es, hbooks, (hrow run hrun).1⟩, hL.known run hrun⟩
  · obtain ⟨es, hbooks, hrow⟩ := hB
    exact runLoop_booked hm ⟨⟨es, hbooks.quiet hsup.completed
      (congrArg answeredCalls hsup.calls), (hrow run hrun).1⟩, hL.known run hrun⟩
  · obtain ⟨es, hbooks, hrow⟩ := hB
    exact ⟨es, hbooks.quiet (by rw [hsteps]) (by rw [hcalls]),
      fun run h => hrow run (hrun.symm.trans h)⟩

end Calls

/-! ## Whole runs -/

inductive ReachedWith (cfg : EngineConfig) (m : FlowManifest) (cap : Option FlowBudgets) :
    RunStore → Prop
  | start {env : Env} {input : Obj} {execute : Bool} {r : RunResult} {s : RunStore} :
      Exec (Sem env) (startRun cfg m input execute cap) .empty r s → ReachedWith cfg m cap s
  | call {env : Env} {c : FlowCall} {s s' : RunStore} : ReachedWith cfg m cap s →
      c.Runs env cfg m s s' → ReachedWith cfg m cap s'

section Whole

variable {cap : Option FlowBudgets}

theorem ReachedWith.reached (h : ReachedWith cfg m cap s) : Reached cfg m (fun _ _ => True) s := by
  induction h with
  | start h => exact .start h
  | call _ h ih => exact .call ih trivial h

theorem ReachedWith.booked (hm : m.Valid) (h : ReachedWith cfg m cap s) : Booked m cap s := by
  induction h with
  | start h => exact h.of_wp (startRun_booked hm)
  | call hreach h ih =>
    have hr := hreach.reached
    exact FlowCall.keeps hm (hr.ledger hm) ih
      (booked_calls hm (hr.ledger hm) (hr.persisted.rows hm) ih) h

def NonnegMetrics (s : RunStore) : Prop :=
  ∀ c ∈ answeredCalls s.calls, c.2.tokens.Nonneg ∧ c.2.costUsd.Nonneg

theorem Accounted.nonneg {es : List Entry} (h : Accounted m s es) (hn : NonnegMetrics s) :
    ∀ e ∈ es, e.out.tokens.Nonneg ∧ e.out.costUsd.Nonneg := by
  intro e he
  by_cases hc : m.typeOf e.step.nodeId = some .conditional
  · rw [h.conditional e he hc]
    exact ⟨rfl, rfl⟩
  have hmem : (e.step.nodeId, e.step.input, e.out) ∈
      (answeredCalls s.calls).map fun c => (c.1.node.id, c.1.input, c.2) := by
    rw [← h.calls]
    exact mem_map_of_mem (mem_filter.mpr ⟨he, by simpa using hc⟩)
  obtain ⟨c, hc, heq⟩ := mem_map.mp hmem
  have hout : c.2 = e.out := (Prod.mk.inj (Prod.mk.inj heq).2).2
  exact hout ▸ hn c hc

theorem PyFloat.Nonneg.sum : ∀ {xs : List PyFloat}, (∀ x ∈ xs, x.Nonneg) → xs.sum.Nonneg
  | [], _ => rfl
  | x :: xs, h => by
    exact (h x mem_cons_self).add
      (PyFloat.Nonneg.sum fun y hy => h y (mem_cons_of_mem _ hy))

/-- An amount that is not negative and does not exceed a limit is within it, if the limit is a
number. -/
theorem PyFloat.Nonneg.le_iff {x l : PyFloat} (hx : x.Nonneg) (h : l.lt x = false) :
    x.le l = true ↔ l ≠ .nan := by
  cases l with
  | fin a =>
    constructor
    · exact fun _ => nofun
    · exact fun _ => PyFloat.le_of_lt_eq_false hx h
  | posInf =>
    refine ⟨fun _ => nofun, fun _ => ?_⟩
    cases x with
    | fin q => rfl
    | posInf => rfl
    | negInf | nan => cases hx
  | negInf =>
    cases x with
    | fin q | posInf => cases h
    | negInf | nan => cases hx
  | nan => cases x <;> simp [PyFloat.le, PyFloat.lt]

theorem runLimits_maxCostUsd (m : FlowManifest) (cap : Option FlowBudgets) :
    (runLimits m cap).maxCostUsd = .nan ↔ m.budgets.maxCostUsd = .nan := by
  cases cap with
  | none => exact Iff.rfl
  | some c =>
    change m.budgets.maxCostUsd.pyMin c.maxCostUsd = .nan ↔ _
    unfold PyFloat.pyMin
    split
    · next hlt =>
      constructor
      · intro hnan
        rw [hnan] at hlt
        cases hlt
      · intro hnan
        rw [hnan] at hlt
        cases hc : c.maxCostUsd <;> rw [hc] at hlt <;> cases hlt
    · exact Iff.rfl

/-- **The accounting of a run is exact.**  After any sequence of complete calls the metrics of the
state are the sums over the completed activations of nodes that are not human.  Once the run has
completed, the tokens are within the limits of the manifest merged with the cap the run was started
with, and so is the cost unless the manifest's own limit is `nan`. -/
theorem accounting_exact (cfg : EngineConfig) {m : FlowManifest} (hm : m.Valid)
    {cap : Option FlowBudgets} {s : RunStore} (hreach : ReachedWith cfg m cap s)
    (hnonneg : NonnegMetrics s) {run : FlowRunRecord} (hrun : s.run = some run) :
    ∃ es, Accounted m s es ∧
      run.state.tokens = totalTokens es ∧
      run.state.costUsd = totalCostUsd es ∧
      (run.status = .completed →
        (totalTokens es).le (.fin (runLimits m cap).maxTokens) = true ∧
        ((totalCostUsd es).le (runLimits m cap).maxCostUsd = true ↔
          m.budgets.maxCostUsd ≠ .nan)) := by
  obtain ⟨es, hbooks, hrow⟩ := hreach.booked hm
  obtain ⟨hcharged, hlimit⟩ := hrow run hrun
  refine ⟨es, hbooks, hcharged.tokens, hcharged.costUsd, fun hst => ?_⟩
  obtain ⟨htok, hcost⟩ := hlimit hst
  rw [hcharged.tokens] at htok
  rw [hcharged.costUsd] at hcost
  have hes := hbooks.nonneg hnonneg
  have hpos : ∀ f : Entry → PyFloat, (∀ e ∈ es, (f e).Nonneg) → (es.map f).sum.Nonneg := by
    intro f hf
    exact PyFloat.Nonneg.sum (forall_mem_map.mpr hf)
  refine ⟨PyFloat.le_of_lt_eq_false (hpos _ fun e he => (hes e he).1) htok, ?_⟩
  have hcostNonneg : (totalCostUsd es).Nonneg := hpos _ fun e he => (hes e he).2
  exact (hcostNonneg.le_iff hcost).trans (not_congr (runLimits_maxCostUsd m cap))

theorem accounting_exact_review :
    ReachedWith demoConfig reviewFlow none (decidedStore []) ∧ NonnegMetrics (decidedStore []) ∧
      ∃ run, (decidedStore []).run = some run ∧ run.status = .completed ∧
        ∃ es, Accounted reviewFlow (decidedStore []) es ∧
          run.state.tokens = totalTokens es ∧
          (totalCostUsd es).le (.fin 10) = true := by
  have hreach : ReachedWith demoConfig reviewFlow none (decidedStore []) :=
    .call (c := .decide [] "reviewer") (.start steadyOracle.exec)
      ⟨_, steadyOracle.exec⟩
  have hnonneg : NonnegMetrics (decidedStore []) := by
    have hall : ((answeredCalls (decidedStore []).calls).all fun c =>
        decide (c.2.tokens.Nonneg ∧ c.2.costUsd.Nonneg)) = true := by decide +kernel
    exact fun c hc => by simpa using all_eq_true.mp hall c hc
  have hdone : (decidedStore []).run.map (·.status) = some .completed := by decide +kernel
  obtain ⟨run, hrun, hst⟩ := Option.map_eq_some_iff.mp hdone
  obtain ⟨es, hbooks, htok, -, hlimit⟩ :=
    accounting_exact demoConfig reviewFlow_valid hreach hnonneg hrun
  exact ⟨hreach, hnonneg, run, hrun, hst, es, hbooks, htok, (hlimit hst).2.mpr nofun⟩

def unlimitedDocument : Obj :=
  [("schemaVersion", .str "1"), ("id", .str "demo/unlimited"), ("version", .str "1.0.0"),
   ("hostApi", .str "*"),
   ("nodes", .list [.obj [("id", .str "only"), ("type", .str "tool"), ("ref", .str "demo/tool")]]),
   ("edges", .list []),
   ("budgets", .obj [("maxCostUsd", .float .nan)])]

def unlimitedFlow : FlowManifest :=
  { schemaVersion := "1", id := "demo/unlimited", version := "1.0.0", hostApi := "*",
    nodes := [{ id := "only", type := .tool, ref := some ⟨"demo/tool", "*"⟩ }],
    budgets := { maxCostUsd := .nan } }

theorem unlimitedFlow_valid : unlimitedFlow.Valid :=
  ⟨fun _ => true, unlimitedDocument, by decide +kernel⟩

def fiveDollars : FlowBudgets := { maxCostUsd := .fin 5 }

def dearOracle : Oracle :=
  { invoke := fun _ => .ok { output := some [("ok", .bool true)], costUsd := .fin 100 } }

def unlimitedStore : RunStore :=
  (Prog.run dearOracle.ans (startRun demoConfig unlimitedFlow [] true (some fiveDollars)) .empty).2

/-- The run is capped at five dollars and completes at a hundred. -/
theorem cap_lost_to_nan :
    unlimitedFlow.Valid ∧ ReachedWith demoConfig unlimitedFlow (some fiveDollars) unlimitedStore ∧
      unlimitedStore.run.map (fun run => (run.status, run.state.costUsd)) =
        some (.completed, .fin 100) ∧
      PyFloat.le (.fin 100) fiveDollars.maxCostUsd = false :=
  ⟨unlimitedFlow_valid, .start dearOracle.exec, by decide +kernel,
    by decide +kernel⟩

end Whole

end AutoDev.Flows
