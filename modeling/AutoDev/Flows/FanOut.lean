/-
# `AutoDev.Flows.FanOut` — a fan-out keeps the order of its items

The loop of `map_handler` keeps three tables by index.  Whatever order the
children end in, the index of a branch is the position of its item and of its
launch (`InOrder`).

A child counts as started when `_start_child` is handed to the pool.  A failed
child is observed when its future is among those a `wait` returned, a breach when
`breach` is asked: from such a point (`MapPoint.Troubled`) none is started.
-/
import AutoDev.Flows.Composite

namespace AutoDev.Flows

open List

variable {x : Services} {job : MapJob}

/-! ## The invariant of the loop -/

def MapJob.itemInput (job : MapJob) (x : Services) (i : Nat) : Except ExprError Obj :=
  renderEntries x.strOf (itemState x.runInput job.ctx.state.nodes (job.items.getD i .null))
    job.ctx.node.inputBindings

/-- The table entries of an item are those of the child launched for it. -/
def MapState.Collected (s : MapState) (i : Nat) : Prop :=
  ∃ l child, s.launched[i]? = some l ∧ l.result = .ok child ∧
    child.record.status = .completed ∧
    s.outputs[i]? = some (some (child.record.output.getD [])) ∧
    s.childRunIds[i]? = some (some child.runId)

structure InOrder (x : Services) (job : MapJob) (flight : List Branch) (s : MapState) : Prop where
  count : s.launched.length = s.nextIndex
  bound : s.nextIndex ≤ job.items.length
  inputs : ∀ i l, s.launched[i]? = some l → l.flow = job.flow ∧ job.itemInput x i = .ok l.input
  flying : ∀ b ∈ flight, ∃ l, s.launched[b.index]? = some l ∧ l.result = b.result
  settled : ∀ i < s.nextIndex, (∃ b ∈ flight, b.index = i) ∨ s.Collected i
  outputs : s.outputs.length = job.items.length
  childRunIds : s.childRunIds.length = job.items.length
  width : flight.length ≤ job.workers

section Steps

variable {s : MapState} {flight : List Branch} {b : Branch} {child : ChildRun}

theorem inOrder_start : InOrder x job [] job.start where
  count := rfl
  bound := Nat.zero_le _
  inputs i l h := by simp [MapJob.start] at h
  flying b hb := absurd hb not_mem_nil
  settled i hi := absurd hi (Nat.not_lt_zero i)
  outputs := length_replicate
  childRunIds := length_replicate
  width := Nat.zero_le _

theorem launched_append {l l' : Launch} {i : Nat} (h : s.launched[i]? = some l) :
    (s.launched ++ [l'])[i]? = some l := by
  rw [List.getElem?_append_left (List.getElem?_eq_some_iff.mp h).1]
  exact h

theorem InOrder.launch {input : Obj} {cap : FlowBudgets} {r : ChildResult}
    (h : InOrder x job s.pending s) (hcan : job.CanLaunch s)
    (hinput : job.branchInput x s = .ok input) :
    InOrder x job (job.launch s cap input r).pending (job.launch s cap input r) := by
  have hlast : (s.launched ++ [⟨job.flow, cap, input, r⟩])[s.nextIndex]? =
      some ⟨job.flow, cap, input, r⟩ := by
    rw [← h.count]
    exact getElem?_concat_length
  refine ⟨?_, hcan.1, ?_, ?_, ?_, h.outputs, h.childRunIds, ?_⟩
  · simp [MapJob.launch, h.count]
  · intro i l hl
    by_cases hi : i < s.launched.length
    · rw [MapJob.launch, getElem?_append_left hi] at hl
      exact h.inputs i l hl
    have hlt := (List.getElem?_eq_some_iff.mp hl).1
    obtain rfl : i = s.nextIndex := by
      simp only [MapJob.launch, length_append, length_singleton] at hlt
      have hcount := h.count
      omega
    cases hlast.symm.trans hl
    exact ⟨rfl, hinput⟩
  · refine forall_mem_append.mpr ⟨fun b hb => ?_, forall_mem_singleton.mpr ⟨_, hlast, rfl⟩⟩
    obtain ⟨l, hl, hr⟩ := h.flying b hb
    exact ⟨l, launched_append hl, hr⟩
  · intro i hi
    rcases Nat.lt_succ_iff_lt_or_eq.mp hi with hi | rfl
    · rcases h.settled i hi with ⟨b, hb, hbi⟩ | ⟨l, child, hl, hrest⟩
      · exact Or.inl ⟨b, mem_append_left _ hb, hbi⟩
      · exact Or.inr ⟨l, child, launched_append hl, hrest⟩
    · exact Or.inl ⟨_, mem_append_right _ mem_cons_self, rfl⟩
  · have hroom := hcan.2
    simp only [MapJob.launch, length_append, length_singleton]
    omega

theorem InOrder.collect (h : InOrder x job (b :: flight) s) (hok : b.result = .ok child)
    (hst : child.record.status = .completed) :
    InOrder x job flight (MapJob.collect s b child) := by
  obtain ⟨l, hl, hr⟩ := h.flying b mem_cons_self
  have hindex : b.index < job.items.length := by
    have hlt := (List.getElem?_eq_some_iff.mp hl).1
    have hcount := h.count
    have hbound := h.bound
    omega
  have hown : (MapJob.collect s b child).Collected b.index := by
    refine ⟨l, child, hl, hr.trans hok, hst, ?_, ?_⟩
    · exact getElem?_set_self (by rw [h.outputs]; exact hindex)
    · exact getElem?_set_self (by rw [h.childRunIds]; exact hindex)
  refine ⟨h.count, h.bound, h.inputs, fun b' hb' => h.flying b' (mem_cons_of_mem _ hb'), ?_,
    ?_, ?_, ?_⟩
  · intro i hi
    by_cases hbi : b.index = i
    · exact Or.inr (hbi ▸ hown)
    rcases h.settled i hi with ⟨b', hb', hi'⟩ | ⟨l', child', hl', hr', hst', ho, hid⟩
    · rcases mem_cons.mp hb' with rfl | hb'
      · exact absurd hi' hbi
      · exact Or.inl ⟨b', hb', hi'⟩
    · refine Or.inr ⟨l', child', hl', hr', hst', ?_, ?_⟩
      · exact (getElem?_set_ne hbi).trans ho
      · exact (getElem?_set_ne hbi).trans hid
  · simp [MapJob.collect, h.outputs]
  · simp [MapJob.collect, MapJob.charge, h.childRunIds]
  · have hwidth := h.width
    simp only [length_cons] at hwidth
    omega

theorem InOrder.perm {flight' pending : List Branch} (h : InOrder x job flight s)
    (hp : flight'.Perm flight) : InOrder x job flight' { s with pending := pending } := by
  refine ⟨h.count, h.bound, h.inputs, fun b hb => h.flying b (hp.mem_iff.mp hb), ?_, h.outputs,
    h.childRunIds, by rw [hp.length_eq]; exact h.width⟩
  intro i hi
  rcases h.settled i hi with ⟨b, hb, hbi⟩ | hc
  · exact Or.inl ⟨b, hp.mem_iff.mpr hb, hbi⟩
  · exact Or.inr hc

end Steps

def MapPoint.inFlight : MapPoint → List Branch
  | .filling s | .returned s => s.pending
  | .draining done s => done ++ s.pending
  | .raised _ s => s.pending

def MapOrdered (x : Services) (job : MapJob) : MapPoint → Prop
  | .filling s => InOrder x job s.pending s
  | .draining done s => InOrder x job (done ++ s.pending) s
  | .raised _ s => s.pending.length ≤ job.workers
  | .returned s => s.pending = [] ∧ ¬ job.CanLaunch s ∧ InOrder x job [] s

variable {pt pt' : MapPoint}

theorem MapOrdered.step (h : MapOrdered x job pt) (hstep : MapStep x job pt pt') :
    MapOrdered x job pt' := by
  cases hstep with
  | overspent | unrendered | uncapped | overdrawn => exact InOrder.width h
  | launch hcan _ hinput _ _ _ => exact InOrder.launch h hcan hinput
  | finish hcan hp => exact ⟨hp, hcan, hp ▸ h⟩
  | wait _ _ hp => exact InOrder.perm h hp
  | @notStarted s b done _ _ | @failed s b done _ _ _ =>
    have hwidth : (b :: done ++ s.pending).length ≤ job.workers := InOrder.width h
    simp only [cons_append, length_cons, length_append] at hwidth
    change s.pending.length ≤ job.workers
    omega
  | collect hok hst => exact InOrder.collect h hok hst
  | drained => exact h

theorem MapReach.ordered (h : MapReach x job pt) : MapOrdered x job pt := by
  induction h with
  | refl => exact inOrder_start
  | tail _ hstep ih => exact ih.step hstep

theorem MapOrdered.width (h : MapOrdered x job pt) : pt.inFlight.length ≤ job.workers := by
  cases pt with
  | filling _ | draining _ _ => exact InOrder.width h
  | raised e s => exact h
  | returned s =>
    change s.pending.length ≤ job.workers
    rw [h.1]
    exact Nat.zero_le _

/-! ## Failures -/

def Branch.Failed (b : Branch) : Prop :=
  ∀ child, b.result = .ok child → child.record.status ≠ .completed

/-- The handler has observed a failed child or a breach. -/
def MapPoint.Troubled (job : MapJob) : MapPoint → Prop
  | .filling s => job.CanLaunch s ∧ job.breach s ≠ none
  | .draining done s => (∃ b ∈ done, b.Failed) ∨ (done = [] ∧ job.breach s ≠ none)
  | .raised _ _ => True
  | .returned _ => False

theorem MapPoint.Troubled.step (h : pt.Troubled job) (hstep : MapStep x job pt pt') :
    pt'.Troubled job ∧ pt'.state.launched = pt.state.launched := by
  cases hstep with
  | overspent | unrendered | uncapped | notStarted | failed | overdrawn => exact ⟨trivial, rfl⟩
  | launch _ hb => exact absurd hb h.2
  | finish hcan | wait hcan => exact absurd h.1 hcan
  | collect hok hst =>
    rcases h with ⟨b, hb, hfail⟩ | ⟨hnil, -⟩
    · rcases mem_cons.mp hb with rfl | hb
      · exact absurd hst (hfail _ hok)
      · exact ⟨Or.inl ⟨b, hb, hfail⟩, rfl⟩
    · cases hnil
  | drained hb =>
    rcases h with ⟨b, hb', -⟩ | ⟨-, hne⟩
    · cases hb'
    · exact absurd hb hne

theorem MapPoint.Troubled.run (h : pt.Troubled job)
    (hrun : Relation.ReflTransGen (MapStep x job) pt pt') :
    pt'.Troubled job ∧ pt'.state.launched = pt.state.launched := by
  induction hrun with
  | refl => exact ⟨h, rfl⟩
  | tail _ hstep ih =>
    obtain ⟨htrouble, hsame⟩ := ih.1.step hstep
    exact ⟨htrouble, hsame.trans ih.2⟩

def CompositeError.ofFailure : CompositeError → Bool
  | .startFailed .. | .childFailed .. | .aggregateTokens .. | .aggregateCost .. => true
  | _ => false

theorem MapStep.troubled {e : CompositeError} {s : MapState} (h : MapStep x job pt (.raised e s))
    (he : e.ofFailure = true) : pt.Troubled job := by
  cases h with
  | overspent hcan hb => exact ⟨hcan, by rw [hb]; nofun⟩
  | unrendered | uncapped => cases he
  | @notStarted _ b _ _ hr =>
    refine Or.inl ⟨b, mem_cons_self, fun child hok => ?_⟩
    cases hr.symm.trans hok
  | @failed _ b _ child hok hst =>
    refine Or.inl ⟨b, mem_cons_self, fun child' hok' => ?_⟩
    cases hok.symm.trans hok'
    exact hst
  | overdrawn hb => exact Or.inr ⟨rfl, by rw [hb]; nofun⟩

/-! ## The handler -/

theorem passed_of_ok {ε α : Type} {p : Prop} [Decidable p] {e : ε} {a a' : α}
    (h : (if p then Except.error e else Except.ok a) = Except.ok a') : ¬ p ∧ a = a' := by
  split at h
  · cases h
  · exact ⟨‹_›, Except.ok.inj h⟩

theorem Services.mapJob_workers {ctx : NodeContext} (h : x.mapJob ctx = .ok job) :
    1 ≤ job.workers := by
  unfold Services.mapJob at h
  rcases hflow : x.childFlow ctx.node with e | flow
  · rw [hflow] at h
    cases h
  simp only [hflow, bind, Except.bind] at h
  split at h
  · cases h
  split at h
  · cases h
  split at h
  · cases h
  · obtain ⟨hpos, rfl⟩ := passed_of_ok h
    exact Int.lt_toNat.mpr (not_le.mp hpos)
  · cases h

/-- What a child leaves in the tables that `map_handler` returns. -/
def CollectedFrom (outs ids : List Value) (i : Nat) (child : ChildRun) : Prop :=
  outs[i]? = some (.obj (child.record.output.getD [])) ∧ ids[i]? = some (.str child.runId)

theorem MapState.Collected.tables {s : MapState} {i : Nat} (h : s.Collected i) :
    ∃ l child, s.launched[i]? = some l ∧ l.result = .ok child ∧
      CollectedFrom (s.outputs.map fun o => (o.map Value.obj).getD .null)
        (s.childRunIds.map fun r => (r.map Value.str).getD .null) i child := by
  obtain ⟨l, child, hl, hr, -, ho, hid⟩ := h
  refine ⟨l, child, hl, hr, ?_, ?_⟩
  · rw [getElem?_map, ho]
    rfl
  · rw [getElem?_map, hid]
    rfl

/-- **Fan-out preserves order and launches each item once.**  If `map_handler` returns, one child
was started per item with the bindings of that item, and the tables it returns hold at each
position the output and the id of the child of that position.  No more children are in flight than
there are workers.  An exception for a failed child or a breach comes from a point where the failure
has been observed, and from such a point on no child is started. -/
theorem map_in_order (x : Services) (ctx : NodeContext) :
    (∀ out launched, MapCall x ctx (.ok out) launched →
      ∃ job outs ids, x.mapJob ctx = .ok job ∧ launched.length = job.items.length ∧
        out.output = some [("items", .list outs), ("count", .int job.items.length),
          ("childRunIds", .list ids)] ∧
        outs.length = job.items.length ∧ ids.length = job.items.length ∧
        ∀ i < job.items.length, ∃ l child, launched[i]? = some l ∧ l.flow = job.flow ∧
          job.itemInput x i = .ok l.input ∧ l.result = .ok child ∧
          CollectedFrom outs ids i child) ∧
    ∀ job, x.mapJob ctx = .ok job → ∀ pt, MapReach x job pt →
      pt.inFlight.length ≤ job.workers ∧
      (∀ e s, MapStep x job pt (.raised e s) → e.ofFailure = true → pt.Troubled job) ∧
      (pt.Troubled job → ∀ pt', Relation.ReflTransGen (MapStep x job) pt pt' →
        pt'.state.launched = pt.state.launched) := by
  constructor
  · intro out launched hcall
    cases hcall with
    | @returned job s hjob hreach =>
      obtain ⟨hp, hcan, hord⟩ := hreach.ordered
      -- there is a worker, so the loop ended because no item was left
      have hall : s.nextIndex = job.items.length := by
        have hworkers := x.mapJob_workers hjob
        refine Nat.le_antisymm hord.bound (Nat.le_of_not_lt fun hlt => hcan ⟨hlt, ?_⟩)
        rw [hp]
        exact hworkers
      refine ⟨job, _, _, hjob, hord.count.trans hall, rfl, ?_, ?_, fun i hi => ?_⟩
      · rw [length_map, hord.outputs]
      · rw [length_map, hord.childRunIds]
      · rcases hord.settled i (hall ▸ hi) with ⟨b, hb, -⟩ | hcollected
        · cases hb
        · obtain ⟨l, child, hl, hr, htables⟩ := hcollected.tables
          obtain ⟨hflow, hinput⟩ := hord.inputs i l hl
          exact ⟨l, child, hl, hflow, hinput, hr, htables⟩
  · intro job _ pt hreach
    refine ⟨hreach.ordered.width, fun e s hstep he => hstep.troubled he, fun h pt' hrun => ?_⟩
    exact (h.run hrun).2

def bothContext : NodeContext where
  node := { id := "each", type := .map, ref := some ⟨"demo/single", "*"⟩,
            inputBindings := [("n", .str "\x7b\x7b item \x7d\x7d")],
            «over» := some "\x7b\x7b nodes.list.output.items \x7d\x7d" }
  input := []
  state := { cursor := some "each", nodes := [("list", .obj [("items", .list [.int 7, .int 8])])] }
  budgets := { maxTokens := 100 }
  deadline := 60

def bothJob : MapJob := ⟨bothContext, singleToolFlow, [.int 7, .int 8], 4⟩

/-- A child that gives its input back. -/
def echo (runId : String) (input : Obj) : ChildRun where
  runId := runId
  record := { status := .completed, stopReason := .completed, state := { cursor := none },
              output := some input }

def echoServices : Services :=
  { pairServices with child := fun _ _ input r => ∃ runId, r = .ok (echo runId input) }

def bothCap : FlowBudgets := { maxCostUsd := .fin 5, maxWallClockSec := 60, maxTokens := 50 }

def bothFlying : MapState :=
  bothJob.launch (bothJob.launch bothJob.start bothCap [("n", .int 7)]
    (.ok (echo "a" [("n", .int 7)]))) bothCap [("n", .int 8)] (.ok (echo "b" [("n", .int 8)]))

def firstBranch : Branch := ⟨0, .fin 50, .fin 5, .ok (echo "a" [("n", .int 7)])⟩

def secondBranch : Branch := ⟨1, .fin 50, .fin 5, .ok (echo "b" [("n", .int 8)])⟩

def bothCollected : MapState :=
  MapJob.collect { MapJob.collect { bothFlying with pending := [firstBranch] } secondBranch
    (echo "b" [("n", .int 8)]) with pending := [] } firstBranch (echo "a" [("n", .int 7)])

theorem bothContext_job : echoServices.mapJob bothContext = .ok bothJob := by
  have hflow : echoServices.childFlow bothContext.node = .ok singleToolFlow := rfl
  have hover : bothContext.node.over = some "\x7b\x7b nodes.list.output.items \x7d\x7d" := rfl
  have hitems : renderTemplate echoServices.strOf
      (evalState echoServices.runInput bothContext.state.nodes)
      (.str "\x7b\x7b nodes.list.output.items \x7d\x7d") = .ok (.list [.int 7, .int 8]) := by
    decide +kernel
  unfold Services.mapJob
  rw [hflow, hover]
  simp only [bind, Except.bind, hitems]
  rfl

theorem bothJob_returns :
    MapCall echoServices bothContext (.ok (bothJob.outcome bothCollected)) bothFlying.launched := by
  have hflying : MapReach echoServices bothJob (.filling bothFlying) := by
    refine .tail (.tail .refl (.launch (t := 0) ?_ ?_ ?_ rfl ?_ ⟨"a", rfl⟩))
      (.launch (t := 0) ?_ ?_ ?_ rfl ?_ ⟨"b", rfl⟩) <;> decide +kernel
  have hswap : ([secondBranch] ++ [firstBranch]).Perm bothFlying.pending := .swap _ _ _
  have hlast : ([firstBranch] ++ []).Perm [firstBranch] := .refl _
  have h₁ := hflying.tail (.wait (by decide +kernel) (by simp) hswap)
  have h₂ := (h₁.tail (.collect rfl rfl)).tail (.drained (by decide +kernel))
  have h₃ := h₂.tail (.wait (by decide +kernel) (by simp) hlast)
  have h₄ := (h₃.tail (.collect rfl rfl)).tail (.drained (by decide +kernel))
  exact .returned bothContext_job (h₄.tail (.finish (by decide +kernel) rfl))

theorem map_in_order_swapped :
    ∃ out launched job outs ids, MapCall echoServices bothContext (.ok out) launched ∧
      echoServices.mapJob bothContext = .ok job ∧ launched.length = 2 ∧
      launched.length = job.items.length ∧
      out.output = some [("items", .list outs), ("count", .int job.items.length),
        ("childRunIds", .list ids)] ∧
      outs = [.obj [("n", .int 7)], .obj [("n", .int 8)]] ∧ ids = [.str "a", .str "b"] := by
  obtain ⟨job, outs, ids, hjob, hlen, hout, -⟩ :=
    (map_in_order echoServices bothContext).1 _ _ bothJob_returns
  have hoc : (bothJob.outcome bothCollected).output = some
      [("items", .list [.obj [("n", .int 7)], .obj [("n", .int 8)]]), ("count", .int 2),
        ("childRunIds", .list [.str "a", .str "b"])] := rfl
  have htables := hoc.symm.trans hout
  simp only [Option.some.injEq, cons.injEq, Prod.mk.injEq, Value.list.injEq, true_and] at htables
  exact ⟨_, _, job, outs, ids, bothJob_returns, hjob, rfl, hlen, hout, htables.1.symm,
    htables.2.2.1.symm⟩

end AutoDev.Flows
