/-
# `AutoDev.Flows.RunTree` — runs that start runs

A run whose node is a `subflow` or a `map` starts further runs, and these may
do the same; the whole tree is ONE transition system.  Its `focus` is the run or
the handler that acts next, `callers` are the runs that wait for it, from the
nearest to the root.  A run acts by the commands of its program; the invocation of
a composite handler suspends it, the handler moves until it wants a child
(`Places`), and the child becomes the focus.  A branch of a `map` is played when it
is launched; in which order they are FOUND done is the handler's `wait`.

`parents` is the column `parent_run_id`; that the walk of `_ensure_depth` finds
exactly the callers is an invariant (`Lineage`).  `leaves` and the two `spent` are
history variables.
-/
import AutoDev.Flows.Composite
import AutoDev.Flows.Waiting

namespace AutoDev.Flows

open Prog List

/-! ## Handlers -/

def NodeType.composite : NodeType → Bool
  | .subflow | .map => true
  | _ => false

/-- The start of a child run that a handler asks for. -/
structure Order where
  flow : FlowManifest
  cap : FlowBudgets
  input : Obj

inductive HandlerPoint where
  | entered
  | ordering (order : Order)
  | fanning (job : MapJob) (point : MapPoint)
  | replied (result : HandlerResult)

inductive HandlerMove (x : Services) (ctx : NodeContext) : HandlerPoint → HandlerPoint → Prop
  | refused {e : CompositeError} : ctx.node.type = .subflow → x.childFlow ctx.node = .error e →
      HandlerMove x ctx .entered (.replied (.error (x.raise e)))
  | uncapped {flow : FlowManifest} {t : ℚ} : ctx.node.type = .subflow →
      x.childFlow ctx.node = .ok flow → x.clock t → childCap? ctx t = none →
      HandlerMove x ctx .entered (.replied (.error (x.raise .notFinite)))
  | order {flow : FlowManifest} {t : ℚ} {cap : FlowBudgets} : ctx.node.type = .subflow →
      x.childFlow ctx.node = .ok flow → x.clock t → childCap? ctx t = some cap →
      HandlerMove x ctx .entered (.ordering ⟨flow, cap, ctx.input⟩)
  | noJob {e : CompositeError} : ctx.node.type = .map → x.mapJob ctx = .error e →
      HandlerMove x ctx .entered (.replied (.error (x.raise e)))
  | job {job : MapJob} : ctx.node.type = .map → x.mapJob ctx = .ok job →
      HandlerMove x ctx .entered (.fanning job (.filling job.start))
  | fan {job : MapJob} {pt pt' : MapPoint} : MapStep x job pt pt' →
      HandlerMove x ctx (.fanning job pt) (.fanning job pt')
  | raised {job : MapJob} {e : CompositeError} {s : MapState} :
      HandlerMove x ctx (.fanning job (.raised e s)) (.replied (.error (x.raise e)))
  | returned {job : MapJob} {s : MapState} :
      HandlerMove x ctx (.fanning job (.returned s)) (.replied (.ok (job.outcome s)))

/-- The handler wants a child. -/
inductive Places (x : Services) : HandlerPoint → Order → Prop
  | subflow {o : Order} : Places x (.ordering o) o
  | branch {job : MapJob} {s : MapState} {input : Obj} {t : ℚ} {cap : FlowBudgets} :
      job.CanLaunch s → job.breach s = none → job.branchInput x s = .ok input → x.clock t →
      job.branchCap? s t = some cap → Places x (.fanning job (.filling s)) ⟨job.flow, cap, input⟩

def HandlerPoint.deliver (x : Services) (ctx : NodeContext) (o : Order) (r : ChildResult) :
    HandlerPoint → HandlerPoint
  | .ordering _ => .replied (x.subflowResult ctx o.flow r)
  | .fanning job (.filling s) => .fanning job (.filling (job.launch s o.cap o.input r))
  | pt => pt

/-- The flow whose runs the handler starts. -/
def HandlerPoint.flow? : HandlerPoint → Option FlowManifest
  | .ordering o => some o.flow
  | .fanning job _ => some job.flow
  | _ => none

section

variable {x : Services} {ctx : NodeContext} {pt pt' : HandlerPoint} {o : Order} {f : FlowManifest}

theorem Services.childFlow_of_mapJob {job : MapJob} (h : x.mapJob ctx = .ok job) :
    x.childFlow ctx.node = .ok job.flow := by
  unfold Services.mapJob at h
  rcases hflow : x.childFlow ctx.node with e | flow
  · rw [hflow] at h
    cases h
  · rw [hflow] at h
    simp only [Bind.bind, Except.bind] at h
    (repeat' split at h) <;> cases h <;> rfl

theorem HandlerMove.flow? (h : HandlerMove x ctx pt pt') (hf : pt'.flow? = some f) :
    pt.flow? = some f ∨ x.childFlow ctx.node = .ok f := by
  cases h with
  | refused | uncapped | noJob | raised | returned => cases hf
  | order _ hflow => exact .inr (hflow.trans (congrArg _ (Option.some.inj hf)))
  | job _ hjob =>
    exact .inr ((Services.childFlow_of_mapJob hjob).trans (congrArg _ (Option.some.inj hf)))
  | fan => exact .inl hf

theorem Places.flow? (h : Places x pt o) : pt.flow? = some o.flow := by
  cases h <;> rfl

theorem HandlerPoint.flow?_deliver {r : ChildResult} (hf : (pt.deliver x ctx o r).flow? = some f) :
    pt.flow? = some f := by
  rcases pt with _ | o' | ⟨job, s | _ | _ | _⟩ | res
  · cases hf
  · cases hf
  all_goals exact hf

theorem Services.childFlow_ok {node : FlowNode} (h : x.childFlow node = .ok f) :
    x.depth < maxCompositeDepth ∧ ∃ ref, x.resolve ref = some f := by
  unfold Services.childFlow at h
  split at h
  · cases h
  split at h
  · cases h
  · split at h
    · cases h
    · cases h
      exact ⟨by omega, _, ‹_›⟩

end

/-! ## Trees -/

/-- A run and the rest of its program. -/
structure Run where
  id : Nat
  flow : FlowManifest
  store : RunStore
  prog : P RunResult
  spent : PyFloat := .fin 0

/-- The call of a composite handler, and the rest of the program that made it. -/
structure Call where
  ctx : NodeContext
  cont : HandlerResult → P RunResult
  point : HandlerPoint := .entered
  spent : PyFloat := .fin 0

/-- A run that waits in a handler for a child. -/
structure Caller where
  run : Run
  call : Call
  order : Order

/-- Who acts next. -/
inductive Focus where
  | run (run : Run)
  | handler (run : Run) (call : Call)

structure RunTree where
  parents : List (Option Nat)
  callers : List Caller
  focus : Focus
  leaves : List (NodeContext × HandlerResult)

/-- What the runs of a tree have in common. -/
structure Platform where
  cfg : EngineConfig
  /-- `str(exc)`. -/
  describe : CompositeError → String
  /-- The id of the `n`-th run. -/
  runName : Nat → String
  /-- `registry.resolve`. -/
  resolve : FlowNodeRef → Option FlowManifest
  /-- What the handlers that start no runs may reply. -/
  leaf : NodeContext → HandlerResult → Prop
  clock : ℚ → Prop
  now : ℚ → Prop

/-- The walk of `_ensure_depth`, of at most `n` steps up. -/
def ancestorDepth (parents : List (Option Nat)) : Nat → Nat → Nat
  | 0, _ => 0
  | n + 1, i =>
    match parents[i]? with
    | some (some p) => ancestorDepth parents n p + 1
    | _ => 0

/-- The command calls a composite handler. -/
def Cmd.composite : Cmd → Bool
  | .invoke ctx => ctx.node.type.composite
  | _ => false

/-- What a command adds to the replies of the leaves. -/
def leafReply : (c : Cmd) → Reply c → List (NodeContext × HandlerResult)
  | .invoke ctx, r => [(ctx, r)]
  | _, _ => []

def leafTokens : (c : Cmd) → Reply c → PyFloat
  | .invoke _, .ok out => out.tokens
  | _, _ => .fin 0

namespace Platform

variable (T : Platform)

/-- The surroundings of a run, without the composite handlers. -/
def env : Env := ⟨T.leaf, T.clock, T.now⟩

/-- What a handler of the run finds around it. -/
def services (parents : List (Option Nat)) (r : Run) : Services where
  describe := T.describe
  strOf := T.cfg.strOf
  resolve := T.resolve
  clock := T.clock
  depth := ancestorDepth parents (maxCompositeDepth + 1) r.id
  runInput := (r.store.run.map (·.input)).getD []
  child _ _ _ _ := False

def childRun (i : Nat) (o : Order) : Run where
  id := i
  flow := o.flow
  store := .empty
  prog := startRun T.cfg o.flow o.input true (some o.cap)

def childResult (i : Nat) : RunResult → ChildResult
  | .ok record => .ok ⟨T.runName i, record⟩
  | .error e => .error e

inductive Step : RunTree → RunTree → Prop
  | command {ps : List (Option Nat)} {ks : List Caller} {r : Run}
      {ls : List (NodeContext × HandlerResult)} {c : Cmd} {k : Reply c → P RunResult}
      {reply : Reply c} {s' : RunStore} :
      r.prog = .op c k → c.composite = false → Sem T.env c r.store reply s' →
      Step ⟨ps, ks, .run r, ls⟩
        ⟨ps, ks, .run { r with
          store := s'
          prog := k reply
          spent := r.spent.add (leafTokens c reply) }, ls ++ leafReply c reply⟩
  | call {ps : List (Option Nat)} {ks : List Caller} {r : Run}
      {ls : List (NodeContext × HandlerResult)} {ctx : NodeContext}
      {k : HandlerResult → P RunResult} :
      r.prog = .op (.invoke ctx) k → ctx.node.type.composite = true →
      Step ⟨ps, ks, .run r, ls⟩ ⟨ps, ks, .handler r { ctx := ctx, cont := k }, ls⟩
  | move {ps : List (Option Nat)} {ks : List Caller} {r : Run}
      {ls : List (NodeContext × HandlerResult)} {c : Call} {pt : HandlerPoint} :
      HandlerMove (T.services ps r) c.ctx c.point pt →
      Step ⟨ps, ks, .handler r c, ls⟩ ⟨ps, ks, .handler r { c with point := pt }, ls⟩
  | start {ps : List (Option Nat)} {ks : List Caller} {r : Run}
      {ls : List (NodeContext × HandlerResult)} {c : Call} {o : Order} :
      Places (T.services ps r) c.point o →
      Step ⟨ps, ks, .handler r c, ls⟩
        ⟨ps ++ [some r.id], ⟨r, c, o⟩ :: ks, .run (T.childRun ps.length o), ls⟩
  | giveBack {ps : List (Option Nat)} {ks : List Caller} {r p : Run}
      {ls : List (NodeContext × HandlerResult)} {c : Call} {o : Order} {res : RunResult} :
      r.prog = .ret res →
      Step ⟨ps, ⟨p, c, o⟩ :: ks, .run r, ls⟩
        ⟨ps, ks, .handler p { c with
          point := c.point.deliver (T.services ps p) c.ctx o (T.childResult r.id res)
          spent := c.spent.add r.spent }, ls⟩
  | reply {ps : List (Option Nat)} {ks : List Caller} {r : Run}
      {ls : List (NodeContext × HandlerResult)} {c : Call} {res : HandlerResult} :
      c.point = .replied res →
      Step ⟨ps, ks, .handler r c, ls⟩
        ⟨ps, ks, .run { r with
          store := r.store.logCall c.ctx res
          prog := c.cont res
          spent := r.spent.add c.spent }, ls⟩

def root (m : FlowManifest) (input : Obj) (execute : Bool) (cap : Option FlowBudgets) : RunTree where
  parents := [none]
  callers := []
  focus := .run { id := 0, flow := m, store := .empty
                  prog := startRun T.cfg m input execute cap }
  leaves := []

end Platform

/-! ## Lineage -/

/-- The ancestors of a run through `parent_run_id`, from its parent to a run without one. -/
inductive Lineage (parents : List (Option Nat)) : Nat → List Nat → Prop
  | root {i : Nat} : parents[i]? = some none → Lineage parents i []
  | child {i p : Nat} {l : List Nat} : parents[i]? = some (some p) → Lineage parents p l →
      Lineage parents i (p :: l)

section

variable {ps : List (Option Nat)} {i : Nat} {l : List Nat}

theorem Lineage.depth (h : Lineage ps i l) : ∀ n, ancestorDepth ps n i = min n l.length := by
  induction h with
  | root h =>
    rintro (_ | n)
    · simp [ancestorDepth]
    · simp [ancestorDepth, h]
  | child h _ ih =>
    rintro (_ | n)
    · simp [ancestorDepth]
    · simp only [ancestorDepth, h, ih, length_cons]
      omega

theorem Lineage.append (h : Lineage ps i l) (x : Option Nat) : Lineage (ps ++ [x]) i l := by
  have hget : ∀ {j : Nat} {y : Option Nat}, ps[j]? = some y → (ps ++ [x])[j]? = some y := by
    intro j y hj
    rw [List.getElem?_append_left (List.getElem?_eq_some_iff.mp hj).1]
    exact hj
  induction h with
  | root h => exact .root (hget h)
  | child h _ ih => exact .child (hget h) ih

theorem Lineage.started (h : Lineage ps i l) : Lineage (ps ++ [some i]) ps.length (i :: l) :=
  .child (by simp) (h.append _)

theorem Lineage.tail {p : Nat} (h : Lineage ps i (p :: l)) : Lineage ps p l := by
  cases h with
  | child _ h => exact h

end

/-! ## What every tree keeps -/

namespace RunTree

variable (t : RunTree)

/-- The run that acts, itself or by a handler. -/
def current : Run :=
  match t.focus with
  | .run r => r
  | .handler r _ => r

def runs : List Run := t.current :: t.callers.map (·.run)

def acting : Focus → List (Run × Call)
  | .run _ => []
  | .handler r c => [(r, c)]

def calls : List (Run × Call) := acting t.focus ++ t.callers.map fun k => (k.run, k.call)

/-- Nothing is left to do. -/
def Final : Prop := t.callers = [] ∧ ∃ r res, t.focus = .run r ∧ r.prog = .ret res

end RunTree

/-- Surroundings that may reply anything. -/
def Env.any : Env := ⟨fun _ _ => True, fun _ => True, fun _ => True⟩

theorem Sem.any {env : Env} {c : Cmd} {s s' : RunStore} {r : Reply c} (h : Sem env c s r s') :
    Sem .any c s r s' := by
  cases c <;> first | exact h | exact ⟨trivial, h.2⟩

/-- What is known of each single run, whatever the handlers reply: it holds of a child that is
started, and every command keeps it. -/
structure RunRule (T : Platform) (U : Run → Prop) : Prop where
  child : ∀ {i : Nat} {o : Order}, o.flow.Valid → U (T.childRun i o)
  command : ∀ {r : Run} {c : Cmd} {k : Reply c → P RunResult} {reply : Reply c} {s' : RunStore}
    {x : PyFloat}, U r → r.prog = .op c k → Sem .any c r.store reply s' →
    U { r with
      store := s'
      prog := k reply
      spent := x }

structure RunTree.Sound (U : Run → Prop) (t : RunTree) : Prop where
  lineage : Lineage t.parents t.current.id (t.callers.map (·.run.id))
  everyone : ∀ i < t.parents.length, ∃ l, Lineage t.parents i l ∧ l.length ≤ maxCompositeDepth
  depth : t.callers.length ≤ maxCompositeDepth
  /-- A handler that may start a child is not at the depth cap. -/
  room : ∀ r c f, t.focus = .handler r c → c.point.flow? = some f →
    t.callers.length < maxCompositeDepth
  runs : ∀ r ∈ t.runs, U r
  /-- A caller waits where it wanted its child. -/
  placed : ∀ k ∈ t.callers, ∃ x, Places x k.call.point k.order
  calls : ∀ rc ∈ t.calls, rc.1.prog = .op (.invoke rc.2.ctx) rc.2.cont ∧
    rc.2.ctx.node.type.composite = true ∧ ∀ f, rc.2.point.flow? = some f → f.Valid

section

variable {T : Platform} {U : Run → Prop} {t t' : RunTree}

theorem RunTree.Sound.step (hflows : ∀ ref f, T.resolve ref = some f → f.Valid) (hU : RunRule T U)
    (h : t.Sound U) (hstep : T.Step t t') : t'.Sound U := by
  cases hstep with
  | @command ps ks r ls c k reply s' hprog hc hsem =>
    obtain ⟨hr, hrs⟩ := forall_mem_cons.mp h.runs
    exact ⟨h.lineage, h.everyone, h.depth, fun _ _ _ hf => (by cases hf),
      forall_mem_cons.mpr ⟨hU.command hr hprog hsem.any, hrs⟩, h.placed, h.calls⟩
  | @call ps ks r ls ctx k hprog hc =>
    refine ⟨h.lineage, h.everyone, h.depth, fun r' c' f hf hp => ?_, h.runs, h.placed,
      forall_mem_cons.mpr ⟨⟨hprog, hc, fun f hf => (by cases hf)⟩, h.calls⟩⟩
    cases hf
    cases hp
  | @move ps ks r ls c pt hmove =>
    obtain ⟨hown, hcalls⟩ := forall_mem_cons.mp h.calls
    have hflow : ∀ f, pt.flow? = some f → ks.length < maxCompositeDepth ∧ f.Valid := by
      intro f hf
      rcases hmove.flow? hf with hp | hok
      · exact ⟨h.room r c f rfl hp, hown.2.2 f hp⟩
      obtain ⟨hd, ref, hres⟩ := Services.childFlow_ok hok
      have hdepth : ancestorDepth ps (maxCompositeDepth + 1) r.id
          = min (maxCompositeDepth + 1) (ks.map (·.run.id)).length := h.lineage.depth _
      have hle : ks.length ≤ maxCompositeDepth := h.depth
      have hlt : ancestorDepth ps (maxCompositeDepth + 1) r.id < maxCompositeDepth := hd
      rw [hdepth, length_map, min_eq_right (hle.trans (Nat.le_succ _))] at hlt
      exact ⟨hlt, hflows ref f hres⟩
    refine ⟨h.lineage, h.everyone, h.depth, fun r' c' f hf hp => ?_, h.runs, h.placed,
      forall_mem_cons.mpr ⟨⟨hown.1, hown.2.1, fun f hf => (hflow f hf).2⟩, hcalls⟩⟩
    cases hf
    exact (hflow f hp).1
  | @start ps ks r ls c o hp =>
    have hroom := h.room r c o.flow rfl hp.flow?
    have hown := h.calls (r, c) mem_cons_self
    have hline := h.lineage.started
    refine ⟨hline, fun i hi => ?_, hroom, fun _ _ _ hf => (by cases hf),
      forall_mem_cons.mpr ⟨hU.child (hown.2.2 _ hp.flow?), h.runs⟩,
      forall_mem_cons.mpr ⟨⟨_, hp⟩, h.placed⟩, h.calls⟩
    rw [length_append, length_singleton] at hi
    rcases Nat.lt_succ_iff_lt_or_eq.mp hi with hi | rfl
    · obtain ⟨l, hl, hlen⟩ := h.everyone i hi
      exact ⟨l, hl.append _, hlen⟩
    · exact ⟨_, hline, by rw [length_cons, length_map]; exact hroom⟩
  | @giveBack ps ks r p ls c o res hprog =>
    obtain ⟨hcall, hcalls⟩ := forall_mem_cons.mp h.calls
    have hlen : ks.length < maxCompositeDepth := h.depth
    exact ⟨h.lineage.tail, h.everyone, hlen.le, fun _ _ _ _ _ => hlen,
      (forall_mem_cons.mp h.runs).2, (forall_mem_cons.mp h.placed).2, forall_mem_cons.mpr
        ⟨⟨hcall.1, hcall.2.1, fun f hf => hcall.2.2 f (HandlerPoint.flow?_deliver hf)⟩, hcalls⟩⟩
  | @reply ps ks r ls c res hp =>
    obtain ⟨hcall, hcalls⟩ := forall_mem_cons.mp h.calls
    obtain ⟨hr, hrs⟩ := forall_mem_cons.mp h.runs
    exact ⟨h.lineage, h.everyone, h.depth, fun _ _ _ hf => (by cases hf),
      forall_mem_cons.mpr ⟨hU.command hr hcall.1 ⟨trivial, rfl⟩, hrs⟩, h.placed, hcalls⟩

theorem RunTree.sound_root {m : FlowManifest} {input : Obj} {execute : Bool}
    {cap : Option FlowBudgets}
    (hr : U { id := 0, flow := m, store := .empty, prog := startRun T.cfg m input execute cap }) :
    (T.root m input execute cap).Sound U := by
  have hline : Lineage [none] 0 [] := .root rfl
  refine ⟨hline, fun i hi => ?_, Nat.zero_le _, fun _ _ _ hf => (by cases hf), fun r hmem => ?_,
    fun k hk => (by cases hk), fun rc hrc => (by cases hrc)⟩
  · obtain rfl : i = 0 := Nat.lt_one_iff.mp hi
    exact ⟨[], hline, Nat.zero_le _⟩
  · obtain rfl := mem_singleton.mp hmem
    exact hr

end

end AutoDev.Flows
