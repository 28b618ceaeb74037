/-
# `AutoDev.Flows.Composite` — `subflow` and `map` nodes

`backend/flows/composite.py`.  `subflow` starts one child run under a cap of
everything that is left of the parent's budgets.  `map` starts one child per item,
at most `workers` at a time: each gets an even share of what is neither spent nor
RESERVED for a child still in flight, and its reservation is released against its
actual spend when its future is collected.

What is not in the hands of `map` is which futures a `wait` finds done, and what
the children did.  So its loop is a transition system (`MapStep`).  The result of
a child is fixed at its launch and read when its future is collected.

Arithmetic is Python's without rounding.
-/
import Mathlib.Algebra.Order.BigOperators.Group.List
import Mathlib.Data.Rat.Floor
import Mathlib.Logic.Relation
import AutoDev.Flows.Engine

namespace AutoDev.Flows

open List

/-! ## Arithmetic -/

namespace PyFloat

def neg : PyFloat → PyFloat
  | .fin q => .fin (-q)
  | .posInf => .negInf
  | .negInf => .posInf
  | .nan => .nan

def sub (a b : PyFloat) : PyFloat := a.add b.neg

def div (x : PyFloat) (d : ℚ) : PyFloat :=
  match x with
  | .fin q => .fin (q / d)
  | x => x

/-- `int(x)`, which truncates; `none` is the exception raised for the three others. -/
def toInt? : PyFloat → Option Int
  | .fin q => some (if 0 ≤ q then ⌊q⌋ else ⌈q⌉)
  | _ => none

/-- `max(a, b)`: the first argument unless the second is larger. -/
def pyMax (a b : PyFloat) : PyFloat := if a.lt b then b else a

@[simp] theorem fin_add (a b : ℚ) : (fin a).add (fin b) = fin (a + b) := rfl

@[simp] theorem fin_sub (a b : ℚ) : (fin a).sub (fin b) = fin (a - b) := by
  simp [sub, neg, sub_eq_add_neg]

@[simp] theorem fin_div (a d : ℚ) : (fin a).div d = fin (a / d) := rfl

@[simp] theorem fin_lt (a b : ℚ) : (fin a).lt (fin b) = decide (a < b) := rfl

@[simp] theorem fin_le (a b : ℚ) : (fin a).le (fin b) = decide (a ≤ b) := by
  rcases lt_trichotomy a b with h | rfl | h
  · simp [le, h, h.le]
  · simp [le]
  · simp [le, not_lt.mpr h.le, not_le.mpr h, h.ne']

@[simp] theorem pyMax_fin (a b : ℚ) : pyMax (fin a) (fin b) = fin (max a b) := by
  rcases lt_or_ge a b with h | h
  · simp [pyMax, h, max_eq_right h.le]
  · simp [pyMax, not_lt.mpr h, max_eq_left h]

theorem toInt?_fin {q : ℚ} (h : 0 ≤ q) : (fin q).toInt? = some ⌊q⌋ := by
  simp [toInt?, h]

end PyFloat

/-! ## Child runs -/

def maxCompositeDepth : Nat := 16

def defaultMapParallelism : Int := 4

structure ChildRun where
  runId : String
  record : FlowRunRecord

/-- What `start_run` gives for a child: its record, or a `FlowRunError`. -/
abbrev ChildResult := Except RunError ChildRun

/-- A child that was started: its flow, its cap, its input and what came of it. -/
structure Launch where
  flow : FlowManifest
  cap : FlowBudgets
  input : Obj
  result : ChildResult

/-- The exceptions of the two handlers, by their messages. -/
inductive CompositeError where
  | depthExceeded (nodeId : String)
  | noRef (nodeId : String)
  | unknownFlow (nodeId : String) (ref : FlowNodeRef)
  | startFailed (nodeId flowId : String) (error : RunError)
  | childFailed (nodeId : String) (branch : Option Nat) (runId flowId : String)
      (stopReason : StopReason) (status : RunStatus)
  | noOver (nodeId : String)
  | badReduce (nodeId mode : String)
  | overFailed (nodeId : String) (error : ExprError)
  | overNotList (nodeId typeName : String)
  | branchBindings (nodeId : String) (branch : Nat) (error : ExprError)
  | aggregateTokens (nodeId : String) (used : PyFloat) (limit : Int)
  | aggregateCost (nodeId : String) (used limit : PyFloat)
  /-- `int` of a share that is not finite. -/
  | notFinite
  /-- `ThreadPoolExecutor` refuses the number of workers. -/
  | noWorkers (workers : Int)

/-- Whether the exception is a `FlowBudgetExceededError`. -/
def CompositeError.isBudget : CompositeError → Bool
  | .aggregateTokens .. | .aggregateCost .. => true
  | .childFailed _ _ _ _ stopReason _ => stopReason == .budgetExhausted
  | _ => false

/-- What a composite handler finds around it. -/
structure Services where
  /-- `str(exc)`. -/
  describe : CompositeError → String
  strOf : Value → String
  /-- `registry.resolve`; `none` is the `KeyError`. -/
  resolve : FlowNodeRef → Option FlowManifest
  clock : ℚ → Prop
  /-- The number of runs above the current one. -/
  depth : Nat
  runInput : Obj
  /-- What `start_run` may give for a flow, a cap and an input. -/
  child : FlowManifest → FlowBudgets → Obj → ChildResult → Prop

variable (x : Services)

/-- The exception as the engine sees it. -/
def Services.raise (e : CompositeError) : HandlerError :=
  if e.isBudget then .budget (x.describe e) else .other (x.describe e)

def Services.childFlow (node : FlowNode) : Except CompositeError FlowManifest :=
  if x.depth + 1 > maxCompositeDepth then .error (.depthExceeded node.id)
  else
    match node.ref with
    | none => .error (.noRef node.id)
    | some ref =>
      match x.resolve ref with
      | none => .error (.unknownFlow node.id ref)
      | some flow => .ok flow

def wallClockRemaining (ctx : NodeContext) (t : ℚ) : Int :=
  max 0 (if 0 ≤ ctx.deadline - t then ⌊ctx.deadline - t⌋ else ⌈ctx.deadline - t⌉)

def childFailure (node : FlowNode) (flow : FlowManifest) (branch : Option Nat) (child : ChildRun) :
    CompositeError :=
  .childFailed node.id branch child.runId flow.id child.record.stopReason child.record.status

/-! ## `subflow` -/

def childCap? (ctx : NodeContext) (t : ℚ) : Option FlowBudgets := do
  let tokens ← ((PyFloat.fin ctx.budgets.maxTokens).sub ctx.state.tokens).toInt?
  pure { maxCostUsd := .pyMax (.fin 0) (ctx.budgets.maxCostUsd.sub ctx.state.costUsd)
         maxWallClockSec := wallClockRemaining ctx t
         maxTokens := max 0 tokens }

def Services.subflowResult (ctx : NodeContext) (flow : FlowManifest) : ChildResult → HandlerResult
  | .error e => .error (x.raise (.startFailed ctx.node.id flow.id e))
  | .ok child =>
    if child.record.status ≠ .completed then
      .error (x.raise (childFailure ctx.node flow none child))
    else
      .ok { output := some (Dict.set (child.record.output.getD []) "childRunId"
              (.str child.runId))
            tokens := child.record.state.tokens
            costUsd := child.record.state.costUsd }

/-! ## `map` -/

structure MapJob where
  ctx : NodeContext
  flow : FlowManifest
  items : List Value
  workers : Nat

/-- One resource of the parent during a fan-out: its limit, what the run had spent before, what
the finished children spent, and what is reserved for those in flight. -/
structure Purse where
  limit : PyFloat
  base : PyFloat
  children : PyFloat := .fin 0
  reserved : PyFloat := .fin 0

namespace Purse

variable (p : Purse)

/-- What the run and its finished children spent. -/
def used : PyFloat := p.base.add p.children

/-- The part of `breach` that is about this resource. -/
def breached : Bool := p.limit.lt p.used

def remaining : PyFloat := .pyMax (.fin 0) (p.limit.sub (p.used.add p.reserved))

def reserve (grant : PyFloat) : Purse := { p with reserved := p.reserved.add grant }

/-- Release a grant against what was spent. -/
def settle (grant spent : PyFloat) : Purse :=
  { p with reserved := p.reserved.sub grant, children := p.children.add spent }

end Purse

/-- A pending future: its branch, what was granted to it, and what it will deliver. -/
structure Branch where
  index : Nat
  grantTokens : PyFloat
  grantCost : PyFloat
  result : ChildResult

structure MapState where
  nextIndex : Nat := 0
  tokens : Purse
  cost : Purse
  pending : List Branch := []
  outputs : List (Option Obj)
  childRunIds : List (Option String)
  launched : List Launch := []

def itemState (runInput : Obj) (nodes : Dict Value) (item : Value) : Value :=
  .obj [("flow", .obj [("input", .obj runInput)]),
    ("nodes", .obj (Dict.mapVal (fun v => .obj [("output", v)]) nodes)), ("item", item)]

/-- The checks of `map_handler` before its loop. -/
def Services.mapJob (x : Services) (ctx : NodeContext) : Except CompositeError MapJob := do
  let flow ← x.childFlow ctx.node
  match ctx.node.over with
  | none => .error (.noOver ctx.node.id)
  | some expr =>
    if ctx.node.reduce ≠ "collect" then .error (.badReduce ctx.node.id ctx.node.reduce)
    else
      match renderTemplate x.strOf (evalState x.runInput ctx.state.nodes) (.str expr) with
      | .error e => .error (.overFailed ctx.node.id e)
      | .ok (.list items) =>
        let workers := match ctx.node.maxParallel with
          | some k => if k = 0 then defaultMapParallelism else k
          | none => defaultMapParallelism
        if workers ≤ 0 then .error (.noWorkers workers)
        else .ok ⟨ctx, flow, items, workers.toNat⟩
      | .ok v => .error (.overNotList ctx.node.id v.typeName)

namespace MapJob

variable (job : MapJob) (s : MapState)

/-- The variables before the loop. -/
def start : MapState where
  tokens := { limit := .fin job.ctx.budgets.maxTokens, base := job.ctx.state.tokens }
  cost := { limit := job.ctx.budgets.maxCostUsd, base := job.ctx.state.costUsd }
  outputs := replicate job.items.length none
  childRunIds := replicate job.items.length none

/-- The guard of the inner loop: there is an item left, and a worker for it. -/
def CanLaunch : Prop :=
  s.nextIndex < job.items.length ∧ s.pending.length < job.workers

instance (job : MapJob) (s : MapState) : Decidable (job.CanLaunch s) :=
  inferInstanceAs (Decidable (_ ∧ _))

def breach : Option CompositeError :=
  if s.tokens.breached then
    some (.aggregateTokens job.ctx.node.id s.tokens.used job.ctx.budgets.maxTokens)
  else if s.cost.breached then
    some (.aggregateCost job.ctx.node.id s.cost.used job.ctx.budgets.maxCostUsd)
  else none

def branchInput (x : Services) (s : MapState) : Except ExprError Obj :=
  renderEntries x.strOf (itemState x.runInput job.ctx.state.nodes (job.items.getD s.nextIndex .null))
    job.ctx.node.inputBindings

/-- The number of shares what is left is divided into. -/
def divisor (index : Nat) : ℚ := max 1 (min job.workers (job.items.length - index))

def branchCap? (t : ℚ) : Option FlowBudgets := do
  let tokens ← (s.tokens.remaining.div (job.divisor s.nextIndex)).toInt?
  pure { maxCostUsd := s.cost.remaining.div (job.divisor s.nextIndex)
         maxWallClockSec := wallClockRemaining job.ctx t
         maxTokens := tokens }

/-- The variables after the launch of a branch. -/
def launch (cap : FlowBudgets) (input : Obj) (r : ChildResult) : MapState :=
  { s with
    nextIndex := s.nextIndex + 1
    tokens := s.tokens.reserve (.fin cap.maxTokens)
    cost := s.cost.reserve cap.maxCostUsd
    pending := s.pending ++ [⟨s.nextIndex, .fin cap.maxTokens, cap.maxCostUsd, r⟩]
    launched := s.launched ++ [⟨job.flow, cap, input, r⟩] }

/-- The variables once a branch that ended has been charged. -/
def charge (b : Branch) (child : ChildRun) : MapState :=
  { s with
    tokens := s.tokens.settle b.grantTokens child.record.state.tokens
    cost := s.cost.settle b.grantCost child.record.state.costUsd
    childRunIds := s.childRunIds.set b.index (some child.runId) }

/-- The variables once a completed branch has been collected. -/
def collect (b : Branch) (child : ChildRun) : MapState :=
  { charge s b child with outputs := s.outputs.set b.index (some (child.record.output.getD [])) }

def outcome : HandlerOutput where
  output := some [("items", .list (s.outputs.map fun o => (o.map Value.obj).getD .null)),
    ("count", .int job.items.length),
    ("childRunIds", .list (s.childRunIds.map fun i => (i.map Value.str).getD .null))]
  tokens := s.tokens.children
  costUsd := s.cost.children

end MapJob

/-- Where the loop stands: launching, collecting the futures a `wait` returned, or out of it. -/
inductive MapPoint where
  | filling (s : MapState)
  | draining (done : List Branch) (s : MapState)
  | raised (e : CompositeError) (s : MapState)
  | returned (s : MapState)

inductive MapStep (x : Services) (job : MapJob) : MapPoint → MapPoint → Prop
  | overspent {s : MapState} {e : CompositeError} : job.CanLaunch s → job.breach s = some e →
      MapStep x job (.filling s) (.raised e s)
  | unrendered {s : MapState} {e : ExprError} : job.CanLaunch s → job.breach s = none →
      job.branchInput x s = .error e →
      MapStep x job (.filling s) (.raised (.branchBindings job.ctx.node.id s.nextIndex e) s)
  | uncapped {s : MapState} {input : Obj} {t : ℚ} : job.CanLaunch s → job.breach s = none →
      job.branchInput x s = .ok input → x.clock t → job.branchCap? s t = none →
      MapStep x job (.filling s) (.raised .notFinite s)
  | launch {s : MapState} {input : Obj} {t : ℚ} {cap : FlowBudgets} {r : ChildResult} :
      job.CanLaunch s → job.breach s = none → job.branchInput x s = .ok input → x.clock t →
      job.branchCap? s t = some cap → x.child job.flow cap input r →
      MapStep x job (.filling s) (.filling (job.launch s cap input r))
  | finish {s : MapState} : ¬ job.CanLaunch s → s.pending = [] →
      MapStep x job (.filling s) (.returned s)
  | wait {s : MapState} {done rest : List Branch} : ¬ job.CanLaunch s → done ≠ [] →
      (done ++ rest).Perm s.pending →
      MapStep x job (.filling s) (.draining done { s with pending := rest })
  | notStarted {s : MapState} {b : Branch} {done : List Branch} {e : RunError} :
      b.result = .error e → MapStep x job (.draining (b :: done) s)
        (.raised (.startFailed job.ctx.node.id job.flow.id e) s)
  | failed {s : MapState} {b : Branch} {done : List Branch} {child : ChildRun} :
      b.result = .ok child → child.record.status ≠ .completed →
      MapStep x job (.draining (b :: done) s)
        (.raised (childFailure job.ctx.node job.flow (some b.index) child) (MapJob.charge s b child))
  | collect {s : MapState} {b : Branch} {done : List Branch} {child : ChildRun} :
      b.result = .ok child → child.record.status = .completed →
      MapStep x job (.draining (b :: done) s) (.draining done (MapJob.collect s b child))
  | overdrawn {s : MapState} {e : CompositeError} : job.breach s = some e →
      MapStep x job (.draining [] s) (.raised e s)
  | drained {s : MapState} : job.breach s = none → MapStep x job (.draining [] s) (.filling s)

def MapReach (x : Services) (job : MapJob) : MapPoint → Prop :=
  Relation.ReflTransGen (MapStep x job) (.filling job.start)

inductive MapCall (x : Services) (ctx : NodeContext) : HandlerResult → List Launch → Prop
  | refused {e : CompositeError} : x.mapJob ctx = .error e →
      MapCall x ctx (.error (x.raise e)) []
  | raised {job : MapJob} {e : CompositeError} {s : MapState} : x.mapJob ctx = .ok job →
      MapReach x job (.raised e s) → MapCall x ctx (.error (x.raise e)) s.launched
  | returned {job : MapJob} {s : MapState} : x.mapJob ctx = .ok job →
      MapReach x job (.returned s) → MapCall x ctx (.ok (job.outcome s)) s.launched

/-! ## Reservation -/

/-- The rational a finite amount denotes. -/
def PyFloat.amount : PyFloat → ℚ
  | .fin q => q
  | _ => 0

/-- Finite books over a limit `l` and a base `b`: what is reserved are the grants, and nothing is
promised that is not there. -/
def Purse.Balanced (l b : ℚ) (grants : List PyFloat) (p : Purse) : Prop :=
  ∃ c : ℚ, p = ⟨.fin l, .fin b, .fin c, .fin (grants.map PyFloat.amount).sum⟩ ∧
    (∀ g ∈ grants, ∃ q, g = .fin q ∧ 0 ≤ q) ∧ b + c + (grants.map PyFloat.amount).sum ≤ l

namespace Purse.Balanced

variable {l b : ℚ} {grants : List PyFloat} {p : Purse}

theorem start (h : b ≤ l) : Purse.Balanced l b [] ⟨.fin l, .fin b, .fin 0, .fin 0⟩ :=
  ⟨0, rfl, by simp, by simpa using h⟩

section

variable (h : p.Balanced l b grants)

include h

theorem within : (p.used.add p.reserved).le (.fin l) = true := by
  obtain ⟨c, rfl, -, hle⟩ := h
  simpa [Purse.used] using hle

theorem used_le : p.used.le (.fin l) = true := by
  obtain ⟨c, rfl, hpos, hle⟩ := h
  have hnn : 0 ≤ (grants.map PyFloat.amount).sum := by
    refine sum_nonneg fun a ha => ?_
    obtain ⟨g, hg, rfl⟩ := mem_map.mp ha
    obtain ⟨q, rfl, hq⟩ := hpos g hg
    exact hq
  simp only [Purse.used, PyFloat.fin_add, PyFloat.fin_le, decide_eq_true_eq]
  linarith

theorem base_eq : p.base = .fin b := by
  obtain ⟨c, rfl, -⟩ := h
  rfl

theorem not_breached : p.breached = false := by
  have hle := h.used_le
  obtain ⟨c, rfl, -, -⟩ := h
  simpa [Purse.breached, Purse.used] using hle

theorem reserve : ∃ r, p.remaining = .fin r ∧ 0 ≤ r ∧
    ∀ g, 0 ≤ g → g ≤ r → (p.reserve (.fin g)).Balanced l b (grants ++ [.fin g]) := by
  obtain ⟨c, rfl, hpos, hle⟩ := h
  refine ⟨l - (b + c + (grants.map PyFloat.amount).sum), ?_, by linarith, fun g hg hgr => ?_⟩
  · simp only [Purse.remaining, Purse.used, PyFloat.fin_add, PyFloat.fin_sub, PyFloat.pyMax_fin]
    rw [max_eq_right (by linarith)]
  refine ⟨c, ?_, forall_mem_append.mpr ⟨hpos, forall_mem_singleton.mpr ⟨g, rfl, hg⟩⟩, ?_⟩
  · simp [Purse.reserve, PyFloat.amount]
  · rw [map_append, sum_append, map_singleton, sum_singleton]
    simp only [PyFloat.amount]
    linarith

end

theorem settle {g : PyFloat} {spent : ℚ} (h : p.Balanced l b (g :: grants))
    (hle : (PyFloat.fin spent).le g = true) : (p.settle g (.fin spent)).Balanced l b grants := by
  obtain ⟨c, rfl, hpos, hsum⟩ := h
  obtain ⟨q, rfl, -⟩ := hpos g mem_cons_self
  have hq : spent ≤ q := by simpa using hle
  rw [map_cons, sum_cons, PyFloat.amount] at hsum
  refine ⟨c + spent, ?_, fun g hg => hpos g (mem_cons_of_mem _ hg), by linarith⟩
  simp [Purse.settle, PyFloat.amount]

theorem perm {grants' : List PyFloat} (h : p.Balanced l b grants) (hp : grants'.Perm grants) :
    p.Balanced l b grants' := by
  obtain ⟨c, rfl, hpos, hle⟩ := h
  have hsum := (hp.map PyFloat.amount).sum_eq
  exact ⟨c, by rw [hsum], fun g hg => hpos g (hp.mem_iff.mp hg), by rwa [hsum]⟩

end Purse.Balanced

/-- A completed child spent no more than its cap. -/
structure WithinCap (cap : FlowBudgets) (state : RunState) : Prop where
  tokens : ∃ t, state.tokens = .fin t ∧ (PyFloat.fin t).le (.fin cap.maxTokens) = true
  cost : ∃ c, state.costUsd = .fin c ∧ (PyFloat.fin c).le cap.maxCostUsd = true

section FanOut

variable {x : Services} {job : MapJob} {s : MapState} {lt bt lc bc : ℚ}

/-- A pending branch will deliver a child that spent no more than it was granted. -/
def Branch.Honest (b : Branch) : Prop :=
  ∀ child, b.result = .ok child → child.record.status = .completed →
    (∃ t, child.record.state.tokens = .fin t ∧ (PyFloat.fin t).le b.grantTokens = true) ∧
    ∃ c, child.record.state.costUsd = .fin c ∧ (PyFloat.fin c).le b.grantCost = true

def Launch.Nonneg (l : Launch) : Prop :=
  0 ≤ l.cap.maxTokens ∧ (PyFloat.fin 0).le l.cap.maxCostUsd = true

structure MapBooks (lt bt lc bc : ℚ) (flight : List Branch) (s : MapState) : Prop where
  tokens : s.tokens.Balanced lt bt (flight.map (·.grantTokens))
  cost : s.cost.Balanced lc bc (flight.map (·.grantCost))
  honest : ∀ b ∈ flight, b.Honest
  caps : ∀ l ∈ s.launched, l.Nonneg

theorem MapBooks.breach_none {flight : List Branch} (h : MapBooks lt bt lc bc flight s) :
    job.breach s = none := by
  simp [MapJob.breach, h.tokens.not_breached, h.cost.not_breached]

theorem MapJob.one_le_divisor (job : MapJob) (i : Nat) : 1 ≤ job.divisor i := by
  exact le_max_left _ _

theorem share_le {r d : ℚ} (hr : 0 ≤ r) (hd : 1 ≤ d) : 0 ≤ r / d ∧ r / d ≤ r :=
  ⟨div_nonneg hr (by linarith), div_le_self hr hd⟩

theorem MapBooks.launch {input : Obj} {t : ℚ} {cap : FlowBudgets} {r : ChildResult}
    (h : MapBooks lt bt lc bc s.pending s) (hcap : job.branchCap? s t = some cap)
    (hr : ∀ child, r = .ok child → child.record.status = .completed →
      WithinCap cap child.record.state) :
    MapBooks lt bt lc bc (job.launch s cap input r).pending (job.launch s cap input r) := by
  obtain ⟨rt, hrt, hrt0, hgt⟩ := h.tokens.reserve
  obtain ⟨rc, hrc, hrc0, hgc⟩ := h.cost.reserve
  have hd := job.one_le_divisor s.nextIndex
  obtain ⟨hs₁, hs₂⟩ := share_le hrt0 hd
  obtain ⟨hs₃, hs₄⟩ := share_le hrc0 hd
  rw [MapJob.branchCap?, hrt, hrc, PyFloat.fin_div, PyFloat.fin_div, PyFloat.toInt?_fin hs₁] at hcap
  obtain rfl := Option.some.inj hcap
  -- the integer share of the tokens is at most the share
  have hfloor : ((⌊rt / job.divisor s.nextIndex⌋ : Int) : ℚ) ≤ rt :=
    le_trans (Int.floor_le _) hs₂
  have hnn : 0 ≤ ⌊rt / job.divisor s.nextIndex⌋ := Int.floor_nonneg.mpr hs₁
  refine ⟨?_, ?_, ?_, ?_⟩
  · rw [MapJob.launch, map_append]
    exact hgt _ (by exact_mod_cast hnn) hfloor
  · rw [MapJob.launch, map_append]
    exact hgc _ hs₃ hs₄
  · refine forall_mem_append.mpr ⟨h.honest, forall_mem_singleton.mpr fun child hok hst => ?_⟩
    obtain ⟨ht, hc⟩ := hr child hok hst
    exact ⟨ht, hc⟩
  · exact forall_mem_append.mpr ⟨h.caps, forall_mem_singleton.mpr ⟨hnn, by simpa using hs₃⟩⟩

theorem MapBooks.collect {b : Branch} {flight : List Branch} {child : ChildRun}
    (h : MapBooks lt bt lc bc (b :: flight) s) (hok : b.result = .ok child)
    (hst : child.record.status = .completed) :
    MapBooks lt bt lc bc flight (MapJob.collect s b child) := by
  obtain ⟨⟨t, ht, hle⟩, c, hc, hlc⟩ := h.honest b mem_cons_self child hok hst
  have htok := h.tokens
  have hcost := h.cost
  refine ⟨?_, ?_, fun b' hb' => h.honest b' (mem_cons_of_mem _ hb'), h.caps⟩
  · simp only [MapJob.collect, MapJob.charge, ht]
    exact htok.settle hle
  · simp only [MapJob.collect, MapJob.charge, hc]
    exact hcost.settle hlc

def CompositeError.isAggregate : CompositeError → Bool
  | .aggregateTokens .. | .aggregateCost .. => true
  | _ => false

def MapSafe (lt bt lc bc : ℚ) : MapPoint → Prop
  | .filling s => MapBooks lt bt lc bc s.pending s
  | .draining done s => MapBooks lt bt lc bc (done ++ s.pending) s
  | .raised e s => e.isAggregate = false ∧ ∀ l ∈ s.launched, l.Nonneg
  | .returned s => MapBooks lt bt lc bc [] s

theorem MapSafe.step {pt pt' : MapPoint}
    (hchild : ∀ flow cap input child, x.child flow cap input (.ok child) →
      child.record.status = .completed → WithinCap cap child.record.state)
    (h : MapSafe lt bt lc bc pt) (hstep : MapStep x job pt pt') : MapSafe lt bt lc bc pt' := by
  cases hstep with
  | overspent _ hb | overdrawn hb => cases (MapBooks.breach_none h).symm.trans hb
  | unrendered | uncapped | notStarted | failed => exact ⟨rfl, h.caps⟩
  | launch _ _ _ _ hcap hr =>
    refine h.launch hcap fun child hok hst => ?_
    subst hok
    exact hchild _ _ _ _ hr hst
  | finish _ hp =>
    have hbooks : MapBooks lt bt lc bc _ _ := h
    rw [hp] at hbooks
    exact hbooks
  | wait _ _ hp =>
    refine ⟨?_, ?_, ?_, h.caps⟩
    · exact h.tokens.perm (hp.map _)
    · exact h.cost.perm (hp.map _)
    · exact fun b hb => h.honest b (hp.mem_iff.mp hb)
  | collect hok hst => exact MapBooks.collect h hok hst
  | drained => exact h

def MapPoint.inLoop? : MapPoint → Option MapState
  | .filling s | .draining _ s => some s
  | _ => none

/-- The variables, in the loop or out of it. -/
def MapPoint.state : MapPoint → MapState
  | .filling s | .draining _ s | .raised _ s | .returned s => s

variable {pt : MapPoint} (hlc : job.ctx.budgets.maxCostUsd = .fin lc)
  (hbt : job.ctx.state.tokens = .fin bt) (hbc : job.ctx.state.costUsd = .fin bc)
  (ht : bt ≤ job.ctx.budgets.maxTokens) (hc : bc ≤ lc)
  (hchild : ∀ flow cap input child, x.child flow cap input (.ok child) →
    child.record.status = .completed → WithinCap cap child.record.state)
include hlc hbt hbc ht hc hchild

theorem MapReach.safe (h : MapReach x job pt) :
    MapSafe job.ctx.budgets.maxTokens bt lc bc pt := by
  induction h with
  | refl =>
    refine ⟨?_, ?_, fun b hb => (by cases hb), fun l hl => (by cases hl)⟩
    · simp only [MapJob.start, hbt]
      exact .start ht
    · simp only [MapJob.start, hlc, hbc]
      exact .start hc
  | tail _ hstep ih => exact ih.step hchild hstep

/-- Fan-out is safe under every interleaving of its children.  The run starts the node within its
budgets, and a completed child stays within its cap; then at every point of the loop what is spent
and what is reserved stay within the budgets, no cap is negative, the check of the aggregate finds
nothing, and the metrics that are returned are within the budgets. -/
theorem map_reservation_safe (h : MapReach x job pt) :
    (∀ s, pt.inLoop? = some s →
      ((job.ctx.state.tokens.add s.tokens.children).add s.tokens.reserved).le
        (.fin job.ctx.budgets.maxTokens) = true ∧
      ((job.ctx.state.costUsd.add s.cost.children).add s.cost.reserved).le
        job.ctx.budgets.maxCostUsd = true ∧
      job.breach s = none) ∧
    (∀ l ∈ pt.state.launched, 0 ≤ l.cap.maxTokens ∧ (PyFloat.fin 0).le l.cap.maxCostUsd = true) ∧
    (∀ e s, pt = .raised e s → e.isAggregate = false) ∧
    (∀ s, pt = .returned s →
      (job.ctx.state.tokens.add (job.outcome s).tokens).le (.fin job.ctx.budgets.maxTokens) = true ∧
      (job.ctx.state.costUsd.add (job.outcome s).costUsd).le job.ctx.budgets.maxCostUsd = true) := by
  have hsafe := h.safe hlc hbt hbc ht hc hchild
  rw [hlc, hbt, hbc]
  have hin : ∀ {flight s}, MapBooks job.ctx.budgets.maxTokens bt lc bc flight s →
      (((PyFloat.fin bt).add s.tokens.children).add s.tokens.reserved).le
        (.fin job.ctx.budgets.maxTokens) = true ∧
      (((PyFloat.fin bc).add s.cost.children).add s.cost.reserved).le (.fin lc) = true ∧
      job.breach s = none := by
    intro flight s hb
    have h₁ := hb.tokens.within
    have h₂ := hb.cost.within
    rw [Purse.used, hb.tokens.base_eq] at h₁
    rw [Purse.used, hb.cost.base_eq] at h₂
    exact ⟨h₁, h₂, hb.breach_none⟩
  cases pt with
  | filling _ | draining _ _ =>
    refine ⟨fun s' hs => ?_, hsafe.caps, fun e s' he => (by cases he), fun s' hs => (by cases hs)⟩
    cases hs
    exact hin hsafe
  | raised e s =>
    refine ⟨fun s' hs => (by cases hs), hsafe.2, fun e' s' he => ?_, fun s' hs => (by cases hs)⟩
    cases he
    exact hsafe.1
  | returned s =>
    refine ⟨fun s' hs => (by cases hs), hsafe.caps, fun e s' he => (by cases he), fun s' hs => ?_⟩
    cases hs
    have h₁ := hsafe.tokens.used_le
    have h₂ := hsafe.cost.used_le
    rw [Purse.used, hsafe.tokens.base_eq] at h₁
    rw [Purse.used, hsafe.cost.base_eq] at h₂
    exact ⟨h₁, h₂⟩

end FanOut

/-! ## Two branches -/

def pairJob : MapJob where
  ctx := { node := { id := "each", type := .map, «over» := some "" }, input := [],
           state := { cursor := some "each", tokens := .fin 10 }, budgets := { maxTokens := 100 },
           deadline := 60 }
  flow := singleToolFlow
  items := [.int 1, .int 2]
  workers := 2

/-- The record of a child that spent its whole cap. -/
def spender (cap : FlowBudgets) : ChildRun where
  runId := "child"
  record := { status := .completed, stopReason := .completed,
              state := { cursor := none, tokens := .fin cap.maxTokens, costUsd := cap.maxCostUsd } }

def pairServices : Services where
  describe _ := ""
  strOf := Value.typeName
  resolve _ := some singleToolFlow
  clock t := t = 0
  depth := 0
  runInput := []
  child _ cap _ r := (∃ c : ℚ, cap.maxCostUsd = .fin c) ∧ r = .ok (spender cap)

def pairCap : FlowBudgets := { maxCostUsd := .fin 5, maxWallClockSec := 60, maxTokens := 45 }

def pairBranch (i : Nat) : Branch := ⟨i, .fin 45, .fin 5, .ok (spender pairCap)⟩

def pairFlying : MapState :=
  pairJob.launch (pairJob.launch pairJob.start pairCap [] (.ok (spender pairCap))) pairCap []
    (.ok (spender pairCap))

def pairCollected : MapState :=
  MapJob.collect { MapJob.collect { pairFlying with pending := [pairBranch 0] } (pairBranch 1)
    (spender pairCap) with pending := [] } (pairBranch 0) (spender pairCap)

theorem pairFlying_reach : MapReach pairServices pairJob (.filling pairFlying) := by
  have hchild : pairServices.child pairJob.flow pairCap [] (.ok (spender pairCap)) := ⟨⟨5, rfl⟩, rfl⟩
  refine .tail (.tail .refl (.launch ?_ ?_ rfl rfl ?_ hchild))
    (.launch ?_ ?_ rfl rfl ?_ hchild) <;> decide +kernel

theorem pairCollected_reach : MapReach pairServices pairJob (.returned pairCollected) := by
  have hok (i : Nat) : (pairBranch i).result = .ok (spender pairCap) := rfl
  have hswap : ([pairBranch 1] ++ [pairBranch 0]).Perm pairFlying.pending := .swap _ _ _
  have hlast : ([pairBranch 0] ++ []).Perm [pairBranch 0] := .refl _
  have h₁ := pairFlying_reach.tail (.wait (by decide +kernel) (by simp) hswap)
  have h₂ := (h₁.tail (.collect (hok 1) rfl)).tail (.drained (by decide +kernel))
  have h₃ := h₂.tail (.wait (by decide +kernel) (by simp) hlast)
  have h₄ := (h₃.tail (.collect (hok 0) rfl)).tail (.drained (by decide +kernel))
  exact h₄.tail (.finish (by decide +kernel) rfl)

theorem map_reservation_safe_pair : MapReach pairServices pairJob (.returned pairCollected) ∧
    (pairJob.outcome pairCollected).tokens = .fin 90 ∧
    (pairJob.ctx.state.tokens.add (pairJob.outcome pairCollected).tokens).le (.fin 100) = true := by
  refine ⟨pairCollected_reach, by decide +kernel, ?_⟩
  have hlc : pairJob.ctx.budgets.maxCostUsd = .fin 10 := rfl
  have hbt : pairJob.ctx.state.tokens = .fin 10 := rfl
  have hbc : pairJob.ctx.state.costUsd = .fin 0 := rfl
  refine ((map_reservation_safe hlc hbt hbc (by decide +kernel) (by decide +kernel) ?_
    pairCollected_reach).2.2.2 _ rfl).1
  rintro flow cap input child ⟨⟨c, hc⟩, hr⟩ -
  cases hr
  exact ⟨⟨_, rfl, by simp⟩, c, hc, by rw [hc]; simp⟩

end AutoDev.Flows
