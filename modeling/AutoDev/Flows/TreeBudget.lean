/-
# `AutoDev.Flows.TreeBudget` — the token budget of a root and the runs below it

A parent is charged for a child when the handler that started it RETURNS: the
metrics of a completed child are the metrics of the outcome.  A handler that
raises reports nothing, whatever its children have consumed, and a retry of its
node starts with the same remaining budget as the attempt before.

So the count of a root is the sum over all leaf calls of its tree as long as no
handler raises on top of children that have spent something (`NothingLost`), and
then the last budget check of a completed root bounds the whole tree.  Without
that it does not: a child that spends its cap and fails is retried, and the
second one spends it again (`retried_child_escapes`).
-/
import Mathlib.Algebra.BigOperators.Group.List.Basic
import AutoDev.Flows.RunTree
import AutoDev.Flows.Meter
import AutoDev.Flows.OnGraph

namespace AutoDev.Flows

open Prog List Option

/-! ## Sums of amounts -/

instance : Add PyFloat := ⟨PyFloat.add⟩

instance : Zero PyFloat := ⟨.fin 0⟩

/-- Amounts add up in any order. -/
instance : AddCommMonoid PyFloat where
  add_assoc a b c := by
    change (a.add b).add c = a.add (b.add c)
    cases a <;> cases b <;> cases c <;> simp [PyFloat.add, add_assoc]
  zero_add a := by
    change PyFloat.add (.fin 0) a = a
    cases a <;> simp [PyFloat.add]
  add_zero a := PyFloat.add_fin_zero a
  add_comm a b := by
    change a.add b = b.add a
    cases a <;> cases b <;> simp [PyFloat.add, add_comm]
  nsmul := nsmulRec

theorem PyFloat.Nonneg.add {a b : PyFloat} (ha : a.Nonneg) (hb : b.Nonneg) : (a + b).Nonneg := by
  cases a with
  | fin p =>
    cases b with
    | fin q =>
      have hp : 0 ≤ p := by simpa [PyFloat.Nonneg] using ha
      have hq : 0 ≤ q := by simpa [PyFloat.Nonneg] using hb
      change (PyFloat.fin 0).le (.fin (p + q)) = true
      simpa using add_nonneg hp hq
    | posInf => rfl
    | negInf | nan => cases hb
  | posInf =>
    cases b with
    | fin q => rfl
    | posInf => rfl
    | negInf | nan => cases hb
  | negInf | nan => cases ha

theorem PyFloat.le_of_lt_eq_false {a : ℚ} {x : PyFloat} (hx : x.Nonneg)
    (h : (PyFloat.fin a).lt x = false) : x.le (.fin a) = true := by
  cases x with
  | fin q => simpa [PyFloat.lt] using h
  | posInf => cases h
  | negInf | nan => cases hx

/-! ## What a tree reports -/

def callTokens (r : HandlerResult) : PyFloat :=
  match r with
  | .ok out => out.tokens
  | .error _ => 0

theorem reported_snoc (calls : List (NodeContext × HandlerResult)) (ctx : NodeContext)
    (r : HandlerResult) : reported (calls ++ [(ctx, r)]) = reported calls + callTokens r := by
  cases r with
  | ok out => exact reported_ok calls ctx out
  | error e => exact (reported_errors calls ctx [e]).trans (add_zero _).symm

theorem reported_command {env : Env} {c : Cmd} {s s' : RunStore} {reply : Reply c}
    (h : Sem env c s reply s') : reported s'.calls = reported s.calls + leafTokens c reply := by
  cases c with
  | invoke ctx =>
    obtain ⟨-, rfl⟩ := h
    rw [RunStore.logCall_calls, reported_snoc]
    cases reply <;> rfl
  | _ =>
    obtain ⟨-, rfl⟩ := h
    exact (add_zero _).symm

theorem reported_leafReply (ls : List (NodeContext × HandlerResult)) (c : Cmd) (reply : Reply c) :
    reported (ls ++ leafReply c reply) = reported ls + leafTokens c reply := by
  cases c with
  | invoke ctx =>
    rw [leafReply, reported_snoc]
    cases reply <;> rfl
  | _ => exact (congrArg reported (append_nil ls)).trans (add_zero _).symm

/-! ## Calls of the root -/

/-- A call of the root run, and a look at its row afterwards. -/
def FlowCall.task (cfg : EngineConfig) (m : FlowManifest) (c : FlowCall) : P RunResult := do
  let _ ← c.prog cfg m
  reload

/-- The root begins a further program. -/
def RunTree.begin (t : RunTree) (p : P RunResult) : RunTree :=
  { t with focus := .run { t.current with prog := p } }

def RunTree.NothingLost (t : RunTree) : Prop :=
  ∀ r c e, t.focus = .handler r c → c.point = .replied (.error e) → c.spent = 0

/-- The trees of a root run: it is started, and called again when nothing is left to do; every tree
meets `G`. -/
inductive Platform.Grown (T : Platform) (G : RunTree → Prop) (m : FlowManifest) : RunTree → Prop
  | start {input : Obj} {execute : Bool} {cap : Option FlowBudgets} :
      Grown T G m (T.root m input execute cap)
  | step {t t' : RunTree} : Grown T G m t → T.Step t t' → G t' → Grown T G m t'
  | call {t : RunTree} {c : FlowCall} : Grown T G m t → t.Final →
      Grown T G m (t.begin (c.task T.cfg m))

/-! ## Runs that return -/

section Runs

variable {cfg : EngineConfig} {T : Platform} {r : Run} {m : FlowManifest} {s : RunStore}

/-- The run stands somewhere in a call: the first, or one after others that were complete. -/
def Run.Underway (cfg : EngineConfig) (r : Run) : Prop :=
  r.flow.Valid ∧
    ((∃ input execute cap,
        Steps (Sem .any) (startRun cfg r.flow input execute cap) .empty r.prog r.store) ∨
      ∃ s c, Reached cfg r.flow (fun _ _ => True) s ∧
        Steps (Sem .any) (FlowCall.task cfg r.flow c) s r.prog r.store)

theorem underway_rule : RunRule T (Run.Underway T.cfg) where
  child hv := ⟨hv, .inl ⟨_, true, _, .refl⟩⟩
  command := by
    rintro r c k reply s' x ⟨hv, h⟩ hprog hsem
    rw [hprog] at h
    refine ⟨hv, h.imp ?_ ?_⟩
    · rintro ⟨input, execute, cap, hsteps⟩
      exact ⟨input, execute, cap, hsteps.snoc hsem⟩
    · rintro ⟨s, c', hreach, hsteps⟩
      exact ⟨s, c', hreach, hsteps.snoc hsem⟩

def ReturnsRow (r : RunResult) (s : RunStore) : Prop := ∀ record, r = .ok record → s.run = some record

theorem returnsRow_loaded (s : RunStore) : ReturnsRow s.loaded s := by
  intro record h
  unfold RunStore.loaded at h
  split at h
  · cases h
    assumption
  · cases h

theorem startRun_returnsRow (hm : m.Valid) {env : Env} {input : Obj} {execute : Bool}
    {cap : Option FlowBudgets} : Ends env ReturnsRow (startRun cfg m input execute cap) .empty := by
  refine startRun_ends hm (fun _ => by rintro record ⟨⟩) fun entry _ hknown => ⟨?_, ?_⟩
  · rintro record ⟨⟩
    rfl
  · exact runLoop_ends (fun state _ => KnownCursor m state)
      (fun _ => loaded_rule hm returnsRow_loaded) hknown

theorem Run.Underway.returned (h : r.Underway cfg) {res : RunResult} (hp : r.prog = .ret res) :
    Reached cfg r.flow (fun _ _ => True) r.store ∧ ReturnsRow res r.store := by
  obtain ⟨hv, h⟩ := h
  rw [hp] at h
  rcases h with ⟨input, execute, cap, hsteps⟩ | ⟨s, c, hreach, hsteps⟩
  · exact ⟨.start hsteps.exec, hsteps.exec.of_wp (startRun_returnsRow hv)⟩
  obtain ⟨lost, s₁, hcall, hload⟩ := hsteps.exec.of_bind
  have hs : ReturnsRow res r.store ∧ r.store = s₁ :=
    hload.of_wp (I := fun _ => True) (Q := fun res s' => ReturnsRow res s' ∧ s' = s₁)
      (wp_reload.mpr ⟨trivial, returnsRow_loaded s₁, rfl⟩)
  refine ⟨?_, hs.1⟩
  rw [hs.2]
  exact .call hreach trivial (.of_exec hcall)

theorem Reached.metered (hm : m.Valid) (h : Reached cfg m (fun _ _ => True) s) : Metered m s := by
  induction h with
  | start h => exact h.of_wp (startRun_metered hm)
  | call hreach _ hcall ih =>
    have hL := hreach.ledger hm
    exact FlowCall.keeps hm hL ih (metered_calls hm hL ih) hcall

theorem Run.Underway.tokens (h : r.Underway cfg) {record : FlowRunRecord}
    (hp : r.prog = .ret (.ok record)) (hst : record.status = .completed) :
    record.state.tokens = reported r.store.calls := by
  obtain ⟨hreach, hrow⟩ := h.returned hp
  refine (hreach.metered h.1).count record (hrow record rfl) ?_
  rw [hst]
  simp

end Runs

/-! ## Handlers that return -/

section Handlers

def Branch.Done (b : Branch) : Prop :=
  ∃ child, b.result = .ok child ∧ child.record.status = .completed

/-- What a branch adds to the metrics of a fan-out. -/
def Branch.tokens (b : Branch) : PyFloat :=
  match b.result with
  | .ok child => child.record.state.tokens
  | .error _ => 0

/-- What the children have spent is what was collected and what is in flight, unless a branch in
flight failed. -/
def InFlight (children : PyFloat) (bs : List Branch) (spent : PyFloat) : Prop :=
  (∀ b ∈ bs, b.Done) → spent = children + (bs.map Branch.tokens).sum

def FanCharged (spent : PyFloat) : MapPoint → Prop
  | .filling s => InFlight s.tokens.children s.pending spent
  | .draining done s => InFlight s.tokens.children (done ++ s.pending) spent
  | .raised _ _ => True
  | .returned s => spent = s.tokens.children

/-- The books of a handler over the children it started. -/
def HandlerPoint.Charged (spent : PyFloat) : HandlerPoint → Prop
  | .entered | .ordering _ => spent = 0
  | .fanning _ pt => FanCharged spent pt
  | .replied (.ok out) => spent = out.tokens
  | .replied (.error _) => True

variable {x : Services} {ctx : NodeContext} {pt pt' : HandlerPoint} {o : Order} {spent : PyFloat}

theorem InFlight.collect {children : PyFloat} {b : Branch} {bs : List Branch} {child : ChildRun}
    (h : InFlight children (b :: bs) spent) (hb : b.result = .ok child)
    (hst : child.record.status = .completed) :
    InFlight (children + child.record.state.tokens) bs spent := by
  intro hall
  have hdone : ∀ b' ∈ b :: bs, b'.Done := forall_mem_cons.mpr ⟨⟨child, hb, hst⟩, hall⟩
  rw [h hdone, map_cons, sum_cons, Branch.tokens, hb, add_assoc]

theorem FanCharged.step {job : MapJob} {p p' : MapPoint} (hx : ∀ f c i r, ¬ x.child f c i r)
    (h : FanCharged spent p) (hstep : MapStep x job p p') : FanCharged spent p' := by
  cases hstep with
  | overspent | unrendered | uncapped | notStarted | failed | overdrawn => trivial
  | launch _ _ _ _ _ hc => exact absurd hc (hx _ _ _ _)
  | @finish s _ hp =>
    have hnil : InFlight s.tokens.children [] spent := hp ▸ h
    exact (hnil (by simp)).trans (by simp)
  | @wait s done rest _ _ hperm =>
    intro hall
    have hsum := (hperm.map Branch.tokens).sum_eq
    rw [show spent = _ from h fun b hb => hall b (hperm.mem_iff.mpr hb), hsum]
  | collect hb hst => exact InFlight.collect h hb hst
  | drained => exact h

theorem HandlerPoint.Charged.move (hx : ∀ f c i r, ¬ x.child f c i r) (h : pt.Charged spent)
    (hmove : HandlerMove x ctx pt pt') : pt'.Charged spent := by
  cases hmove with
  | refused | uncapped | noJob | raised => trivial
  | order | returned => exact h
  | @job job => exact fun _ => h.trans (by simp [MapJob.start]; rfl)
  | fan hstep => exact FanCharged.step hx h hstep

theorem HandlerPoint.Charged.deliver {x' : Services} {r : ChildResult} {y : PyFloat}
    (h : pt.Charged spent) (hp : Places x' pt o)
    (hr : ∀ child, r = .ok child → child.record.status = .completed →
      child.record.state.tokens = y) :
    (pt.deliver x ctx o r).Charged (spent + y) := by
  cases hp with
  | subflow =>
    have h₀ : spent = 0 := h
    rcases r with e | child
    · trivial
    by_cases hst : child.record.status = .completed
    · simp only [HandlerPoint.deliver, Services.subflowResult, hst, ne_eq, not_true_eq_false,
        if_false]
      rw [h₀, zero_add, ← hr child rfl hst]
      rfl
    · simp only [HandlerPoint.deliver, Services.subflowResult, ne_eq, hst, not_false_eq_true,
        if_true]
      trivial
  | @branch job s input t cap =>
    intro hall
    have hold : ∀ b ∈ s.pending, b.Done := fun b hb => hall b (mem_append_left _ hb)
    obtain ⟨child, hchild, hst⟩ := hall _ (mem_append_right _ mem_cons_self)
    have hnew : r = .ok child := hchild
    subst hnew
    change spent + y = s.tokens.children + ((s.pending ++ [_]).map Branch.tokens).sum
    rw [show spent = _ from h hold, map_append, sum_append, map_singleton,
      sum_singleton, ← hr child rfl hst, add_assoc]
    rfl

end Handlers

/-! ## The books of a tree -/

/-- What the acting run has counted, and its handler on top of that. -/
def Focus.spent : Focus → PyFloat
  | .run r => r.spent
  | .handler r c => r.spent + c.spent

/-- What all runs and handlers of a tree have counted. -/
def RunTree.spent (t : RunTree) : PyFloat :=
  t.focus.spent + (t.callers.map fun k => k.run.spent + k.call.spent).sum

/-- Every run has counted what its calls reported, every handler what its children spent, and
together that is what the leaves reported. -/
structure RunTree.Charged (t : RunTree) : Prop where
  runs : ∀ r ∈ t.runs, r.spent = reported r.store.calls
  calls : ∀ rc ∈ t.calls, rc.2.point.Charged rc.2.spent
  total : reported t.leaves = t.spent
  nonneg : (reported t.leaves).Nonneg

section Trees

variable {T : Platform} {t t' : RunTree} {m : FlowManifest}

/-- No leaf reports a negative amount. -/
def Platform.Nonneg (T : Platform) : Prop := ∀ ctx out, T.leaf ctx (.ok out) → out.tokens.Nonneg

theorem Platform.Nonneg.leafTokens (hT : T.Nonneg) {c : Cmd} {s s' : RunStore} {reply : Reply c}
    (h : Sem T.env c s reply s') : (leafTokens c reply).Nonneg := by
  cases c with
  | invoke ctx =>
    cases reply with
    | ok out => exact hT ctx out h.1
    | error e => exact rfl
  | _ => exact rfl

theorem RunTree.Charged.step (hT : T.Nonneg) (hs : t.Sound (Run.Underway T.cfg))
    (hg : t.NothingLost) (h : t.Charged) (hstep : T.Step t t') : t'.Charged := by
  cases hstep with
  | @command ps ks r ls c k reply s' hprog hc hsem =>
    obtain ⟨(hr : r.spent = reported r.store.calls), hrs⟩ := forall_mem_cons.mp h.runs
    refine ⟨forall_mem_cons.mpr ⟨?_, hrs⟩, h.calls, ?_, ?_⟩
    · change r.spent + leafTokens c reply = reported s'.calls
      rw [reported_command hsem, hr]
    · have htotal : reported ls = r.spent + _ := h.total
      change reported (ls ++ leafReply c reply) = (r.spent + leafTokens c reply) + _
      rw [reported_leafReply, htotal, add_right_comm]
    · exact (reported_leafReply ls c reply) ▸ h.nonneg.add (hT.leafTokens hsem)
  | @call ps ks r ls ctx k hprog hc =>
    refine ⟨h.runs, forall_mem_cons.mpr ⟨rfl, h.calls⟩, ?_, h.nonneg⟩
    have htotal : reported ls = r.spent + _ := h.total
    change reported ls = (r.spent + 0) + _
    rw [htotal, add_zero]
  | @move ps ks r ls c pt hmove =>
    obtain ⟨hc, hcs⟩ := forall_mem_cons.mp h.calls
    exact ⟨h.runs, forall_mem_cons.mpr ⟨hc.move (fun _ _ _ _ => id) hmove, hcs⟩, h.total, h.nonneg⟩
  | @start ps ks r ls c o hp =>
    refine ⟨forall_mem_cons.mpr ⟨rfl, h.runs⟩, h.calls, ?_, h.nonneg⟩
    have htotal : reported ls = (r.spent + c.spent) + _ := h.total
    change reported ls = 0 + ((r.spent + c.spent) :: _).sum
    rw [htotal, zero_add, sum_cons]
  | @giveBack ps ks r p ls c o res hprog =>
    obtain ⟨hcall, hcalls⟩ := forall_mem_cons.mp h.calls
    obtain ⟨(hr : r.spent = reported r.store.calls), hrs⟩ := forall_mem_cons.mp h.runs
    refine ⟨hrs, forall_mem_cons.mpr ⟨?_, hcalls⟩, ?_, h.nonneg⟩
    · obtain ⟨x, hplaced⟩ := hs.placed ⟨p, c, o⟩ mem_cons_self
      refine hcall.deliver hplaced fun child hok hst => ?_
      -- the child has counted what its calls reported
      rw [hr]
      cases res with
      | error e => cases hok
      | ok record =>
        cases hok
        exact (hs.runs r mem_cons_self).tokens hprog hst
    · have htotal : reported ls = r.spent + ((p.spent + c.spent) :: _).sum := h.total
      change reported ls = (p.spent + (c.spent + r.spent)) + _
      rw [htotal, sum_cons, add_comm r.spent, add_right_comm, add_assoc p.spent]
  | @reply ps ks r ls c res hp =>
    obtain ⟨hcall, hcalls⟩ := forall_mem_cons.mp h.calls
    obtain ⟨(hr : r.spent = reported r.store.calls), hrs⟩ := forall_mem_cons.mp h.runs
    refine ⟨forall_mem_cons.mpr ⟨?_, hrs⟩, hcalls, h.total, h.nonneg⟩
    change r.spent + c.spent = reported (r.store.logCall c.ctx res).calls
    rw [RunStore.logCall_calls, reported_snoc, hr]
    -- the call is charged for what its children spent: by its outcome, or there was nothing
    congr 1
    rw [hp] at hcall
    cases res with
    | ok out => exact hcall
    | error e => exact hg r c e rfl hp

structure RunTree.Kept (cfg : EngineConfig) (m : FlowManifest) (t : RunTree) : Prop where
  sound : t.Sound (Run.Underway cfg)
  charged : t.Charged
  noLoss : t.NothingLost
  root : ∃ fs, t.runs.map (·.flow) = fs ++ [m]

theorem Platform.Step.root (hstep : T.Step t t') (h : ∃ fs, t.runs.map (·.flow) = fs ++ [m]) :
    ∃ fs, t'.runs.map (·.flow) = fs ++ [m] := by
  obtain ⟨fs, hfs⟩ := h
  cases hstep with
  | command | call | move | reply => exact ⟨fs, hfs⟩
  | @start ps ks r ls c o hp => exact ⟨o.flow :: fs, congrArg (cons o.flow) hfs⟩
  | @giveBack ps ks r p ls c o res hprog =>
    cases fs with
    | nil => cases hfs
    | cons f fs => exact ⟨fs, (cons.inj hfs).2⟩

theorem flow_of_last {f : FlowManifest} {fs : List FlowManifest} (h : [f] = fs ++ [m]) : f = m := by
  cases fs with
  | nil => exact (cons.inj h).1
  | cons g fs => simp at h

theorem Platform.Grown.kept (hflows : ∀ ref f, T.resolve ref = some f → f.Valid) (hm : m.Valid)
    (hT : T.Nonneg) (h : T.Grown RunTree.NothingLost m t) : t.Kept T.cfg m := by
  induction h with
  | start =>
    refine ⟨RunTree.sound_root ⟨hm, .inl ⟨_, _, _, .refl⟩⟩, ⟨fun r hr => ?_, fun rc hrc => ?_,
      (add_zero 0).symm, rfl⟩, fun _ _ _ hf => ?_, ⟨[], rfl⟩⟩
    · cases mem_singleton.mp hr
      rfl
    · cases hrc
    · cases hf
  | step _ hstep hg ih =>
    exact ⟨ih.sound.step hflows underway_rule hstep, ih.charged.step hT ih.sound ih.noLoss hstep, hg,
      hstep.root ih.root⟩
  | @call t c _ hfinal ih =>
    obtain ⟨ps, ks, focus, ls⟩ := t
    obtain ⟨hks, r, res, hf, hp⟩ := hfinal
    cases hks
    cases hf
    obtain ⟨hs, hcharged, -, fs, hfs⟩ := ih
    have hunder := hs.runs r mem_cons_self
    have hflow : r.flow = m := flow_of_last hfs
    have hagain : Run.Underway T.cfg { r with prog := FlowCall.task T.cfg m c } := by
      refine ⟨hunder.1, .inr ⟨r.store, c, (hunder.returned hp).1, ?_⟩⟩
      rw [← hflow]
      exact .refl
    refine ⟨⟨hs.lineage, hs.everyone, hs.depth, fun _ _ _ hf => (by cases hf), fun r' hr' => ?_,
      hs.placed, hs.calls⟩, ⟨fun r' hr' => ?_, hcharged.calls, hcharged.total, hcharged.nonneg⟩,
      fun _ _ _ hf => (by cases hf), fs, hfs⟩
    · cases mem_singleton.mp hr'
      exact hagain
    · cases mem_singleton.mp hr'
      exact hcharged.runs r mem_cons_self

/-- **The token budget of a root bounds its tree, as long as no handler raises on top of children
that have spent something.**  The flows are valid and no leaf reports a negative amount.  When
nothing is left to do and the root is completed, the sum of the tokens that the leaf activations of
all runs of the tree reported is at most its effective `max_tokens`: under any nesting, any retries
and any order in which the branches of a `map` are found done, over the start of the root and all
its later calls. -/
theorem tree_tokens_bounded (hflows : ∀ ref f, T.resolve ref = some f → f.Valid) (hm : m.Valid)
    (hT : T.Nonneg) (h : T.Grown RunTree.NothingLost m t) (hfinal : t.Final) {run : FlowRunRecord}
    (hrun : t.current.store.run = some run) (hst : run.status = .completed) :
    (reported t.leaves).le (.fin (run.maxTokens m)) = true := by
  obtain ⟨hs, hcharged, -, fs, hfs⟩ := h.kept hflows hm hT
  obtain ⟨ps, ks, focus, ls⟩ := t
  obtain ⟨hks, r, res, hf, hp⟩ := hfinal
  cases hks
  cases hf
  have hflow : r.flow = m := flow_of_last hfs
  have hunder := hs.runs r mem_cons_self
  have hmeter := ((hunder.returned hp).1.metered hunder.1)
  rw [hflow] at hmeter
  -- the root has counted everything
  have hsum : reported ls = run.state.tokens := by
    have htotal : reported ls = r.spent + 0 := hcharged.total
    rw [htotal, add_zero, hcharged.runs r mem_cons_self]
    refine (hmeter.count run hrun ?_).symm
    rw [hst]
    simp
  have hbound := hmeter.bound run hrun hst
  rw [← hsum] at hbound
  exact PyFloat.le_of_lt_eq_false hcharged.nonneg hbound

end Trees

/-! ## A child that is paid for once and spends twice -/

section Play

variable (T : Platform) (answer : List (NodeContext × HandlerResult) → NodeContext → HandlerResult)

/-- The next tree when the leaves answer by what was replied before and the clocks show 0; a fan-out
is not played. -/
def Platform.next? : RunTree → Option RunTree
  | ⟨ps, ks, .run r, ls⟩ =>
    match r.prog, ks with
    | .ret _, [] => none
    | .ret res, ⟨p, c, o⟩ :: ks =>
      some ⟨ps, ks, .handler p { c with
        point := c.point.deliver (T.services ps p) c.ctx o (T.childResult r.id res)
        spent := c.spent.add r.spent }, ls⟩
    | .op (.invoke ctx) k, ks =>
      if ctx.node.type.composite then some ⟨ps, ks, .handler r { ctx := ctx, cont := k }, ls⟩
      else
        let reply := answer ls ctx
        some ⟨ps, ks, .run { r with
          store := r.store.logCall ctx reply
          prog := k reply
          spent := r.spent.add (leafTokens (.invoke ctx) reply) }, ls ++ [(ctx, reply)]⟩
    | .op c k, ks =>
      let reply := Oracle.ans { invoke := answer ls } c r.store
      some ⟨ps, ks, .run { r with
        store := reply.2
        prog := k reply.1
        spent := r.spent.add (leafTokens c reply.1) }, ls ++ leafReply c reply.1⟩
  | ⟨ps, ks, .handler r c, ls⟩ =>
    match c.point with
    | .replied res =>
      some ⟨ps, ks, .run { r with
        store := r.store.logCall c.ctx res
        prog := c.cont res
        spent := r.spent.add c.spent }, ls⟩
    | .ordering o =>
      some ⟨ps ++ [some r.id], ⟨r, c, o⟩ :: ks, .run (T.childRun ps.length o), ls⟩
    | .entered =>
      if c.ctx.node.type = .subflow then
        match (T.services ps r).childFlow c.ctx.node with
        | .error _ => none
        | .ok flow =>
          match childCap? c.ctx 0 with
          | none => none
          | some cap =>
            some ⟨ps, ks, .handler r { c with
              point := .ordering ⟨flow, cap, c.ctx.input⟩ }, ls⟩
      else none
    | .fanning _ _ => none

/-- Play at most `n` steps, as long as the trees pass the check. -/
def Platform.play (check : RunTree → Bool) : Nat → RunTree → RunTree
  | 0, t => t
  | n + 1, t =>
    match T.next? answer t with
    | none => t
    | some t' => if check t' then Platform.play check n t' else t

variable {T answer}

theorem Platform.next?_step (hleaf : ∀ ls ctx, T.leaf ctx (answer ls ctx)) (hclock : T.clock 0)
    (hnow : T.now 0) {t t' : RunTree} (h : T.next? answer t = some t') : T.Step t t' := by
  obtain ⟨ps, ks, focus, ls⟩ := t
  cases focus with
  | run r =>
    unfold Platform.next? at h
    cases hp : r.prog with
    | ret res =>
      cases ks with
      | nil => simp [hp] at h
      | cons k ks =>
        simp only [hp, some.injEq] at h
        subst h
        exact .giveBack hp
    | op c k =>
      cases c with
      | invoke ctx =>
        simp only [hp] at h
        split_ifs at h with hc
        · cases h
          exact .call hp hc
        · cases h
          exact .command hp (Bool.eq_false_iff.mpr hc) ⟨hleaf ls ctx, rfl⟩
      | clock =>
        simp only [hp, some.injEq] at h
        subst h
        exact .command hp rfl ⟨hclock, rfl⟩
      | now =>
        simp only [hp, some.injEq] at h
        subst h
        exact .command hp rfl ⟨hnow, rfl⟩
      | _ =>
        simp only [hp, some.injEq] at h
        subst h
        exact .command hp rfl ⟨rfl, rfl⟩
  | handler r c =>
    unfold Platform.next? at h
    cases hp : c.point with
    | replied res =>
      simp only [hp, some.injEq] at h
      subst h
      exact .reply hp
    | ordering o =>
      simp only [hp, some.injEq] at h
      subst h
      refine .start ?_
      rw [hp]
      exact .subflow
    | fanning job pt => simp [hp] at h
    | entered =>
      simp only [hp] at h
      split_ifs at h with hty
      split at h
      · cases h
      next flow hflow =>
      split at h
      · cases h
      next cap hcap =>
      cases h
      refine .move ?_
      rw [hp]
      exact .order hty hflow hclock hcap

theorem Platform.Grown.play {G : RunTree → Prop} {m : FlowManifest} {check : RunTree → Bool}
    (hleaf : ∀ ls ctx, T.leaf ctx (answer ls ctx)) (hclock : T.clock 0) (hnow : T.now 0)
    (hcheck : ∀ t, check t = true → G t) :
    ∀ (n : Nat) {t : RunTree}, T.Grown G m t → T.Grown G m (T.play answer check n t)
  | 0, _, h => h
  | n + 1, t, h => by
    unfold Platform.play
    split
    · exact h
    next t' ht' =>
    split_ifs with hc
    · exact Platform.Grown.play hleaf hclock hnow hcheck n
        (h.step (Platform.next?_step hleaf hclock hnow ht') (hcheck t' hc))
    · exact h

end Play

def RunTree.final (t : RunTree) : Bool :=
  match t.callers, t.focus with
  | [], .run r =>
    match r.prog with
    | .ret _ => true
    | .op _ _ => false
  | _, _ => false

theorem RunTree.final_of {t : RunTree} (h : t.final = true) : t.Final := by
  unfold RunTree.final at h
  split at h
  · next hks hf =>
    split at h
    · next hp => exact ⟨hks, _, _, hf, hp⟩
    · cases h
  · cases h

def RunTree.nothingLost (t : RunTree) : Bool :=
  match t.focus with
  | .run _ => true
  | .handler _ c =>
    match c.point with
    | .replied (.error _) => decide (c.spent = 0)
    | _ => true

theorem RunTree.nothingLost_of {t : RunTree} (h : t.nothingLost = true) : t.NothingLost := by
  intro r c e hf hp
  simpa [RunTree.nothingLost, hf, hp] using h

def payDocument : Obj :=
  [("schemaVersion", .str "1"), ("id", .str "demo/pay"), ("version", .str "1.0.0"),
   ("hostApi", .str "*"), ("budgets", .obj [("maxTokens", .int 100)]),
   ("nodes", .list [.obj [("id", .str "child"), ("type", .str "subflow"),
     ("ref", .str "demo/child"), ("retries", .obj [("maxAttempts", .int 2)])]]),
   ("edges", .list [])]

def payFlow : FlowManifest :=
  { schemaVersion := "1", id := "demo/pay", version := "1.0.0", hostApi := "*",
    budgets := { maxTokens := 100 },
    nodes := [{ id := "child", type := .subflow, ref := some ⟨"demo/child", "*"⟩,
                retries := some { maxAttempts := 2 } }] }

def pairDocument : Obj :=
  [("schemaVersion", .str "1"), ("id", .str "demo/child"), ("version", .str "1.0.0"),
   ("hostApi", .str "*"),
   ("nodes", .list [
     .obj [("id", .str "a"), ("type", .str "tool"), ("ref", .str "demo/tool")],
     .obj [("id", .str "b"), ("type", .str "tool"), ("ref", .str "demo/tool")]]),
   ("edges", .list [.obj [("from", .str "a"), ("to", .str "b")]])]

def pairFlow : FlowManifest :=
  { schemaVersion := "1", id := "demo/child", version := "1.0.0", hostApi := "*",
    nodes := [{ id := "a", type := .tool, ref := some ⟨"demo/tool", "*"⟩ },
              { id := "b", type := .tool, ref := some ⟨"demo/tool", "*"⟩ }]
    edges := [{ source := "a", target := "b" }] }

theorem payFlow_valid : payFlow.Valid := ⟨fun _ => true, payDocument, by decide +kernel⟩

theorem pairFlow_valid : pairFlow.Valid := ⟨fun _ => true, pairDocument, by decide +kernel⟩

def payPlatform : Platform where
  cfg := demoConfig
  describe _ := "failed"
  runName _ := "run"
  resolve ref := if ref.id = "demo/child" then some pairFlow else none
  leaf _ r := ∀ out, r = .ok out → out.tokens.Nonneg
  clock t := t = 0
  now t := t = 0

/-- The first tool spends 80 tokens and the second nothing; the first time the second raises, if
`fails` says so. -/
def payAnswer (fails : Bool) (ls : List (NodeContext × HandlerResult)) (ctx : NodeContext) :
    HandlerResult :=
  if ctx.node.id = "a" then .ok { output := some [], tokens := .fin 80 }
  else if fails && decide (ls.length = 1) then .error (.other "down")
  else .ok { output := some [] }

theorem payAnswer_leaf (fails : Bool) (ls : List (NodeContext × HandlerResult))
    (ctx : NodeContext) : payPlatform.leaf ctx (payAnswer fails ls ctx) := by
  intro out h
  unfold payAnswer at h
  split_ifs at h <;> cases h <;> decide +kernel

def payTree (fails : Bool) (check : RunTree → Bool) : RunTree :=
  payPlatform.play (payAnswer fails) check 200 (payPlatform.root payFlow [] true none)

/-- The root is completed, and how many tokens it may spend. -/
def RunTree.CompletedWith (t : RunTree) (m : FlowManifest) (limit : Int) : Prop :=
  t.current.store.run.map (fun run => (run.status, run.maxTokens m)) = some (.completed, limit)

instance (t : RunTree) (m : FlowManifest) (limit : Int) : Decidable (t.CompletedWith m limit) :=
  inferInstanceAs (Decidable (_ = _))

theorem payTree_grown (fails : Bool) {G : RunTree → Prop} {check : RunTree → Bool}
    (h : ∀ t, check t = true → G t) : payPlatform.Grown G payFlow (payTree fails check) :=
  .play (payAnswer_leaf fails) rfl rfl h 200 .start

/-- The parent is completed within its budget of 100 tokens, and its tree has reported 160: the
child that failed was never charged. -/
theorem retried_child_escapes :
    payPlatform.Grown (fun _ => True) payFlow (payTree true fun _ => true) ∧
    (payTree true fun _ => true).Final ∧ (payTree true fun _ => true).CompletedWith payFlow 100 ∧
    reported (payTree true fun _ => true).leaves = .fin 160 :=
  ⟨payTree_grown true fun _ _ => trivial, RunTree.final_of (by decide +kernel), by decide +kernel,
    by decide +kernel⟩

theorem tree_tokens_bounded_pay :
    (payTree false RunTree.nothingLost).CompletedWith payFlow 100 ∧
    reported (payTree false RunTree.nothingLost).leaves = .fin 80 ∧
    (reported (payTree false RunTree.nothingLost).leaves).le (.fin 100) = true := by
  have hcompleted : (payTree false RunTree.nothingLost).CompletedWith payFlow 100 := by
    decide +kernel
  obtain ⟨run, hrun, hst, hmax⟩ : ∃ run, (payTree false RunTree.nothingLost).current.store.run
      = some run ∧ run.status = .completed ∧ run.maxTokens payFlow = 100 := by
    obtain ⟨run, hrun, heq⟩ := map_eq_some_iff.mp hcompleted
    exact ⟨run, hrun, congrArg Prod.fst heq, congrArg Prod.snd heq⟩
  have hflows : ∀ ref f, payPlatform.resolve ref = some f → f.Valid := by
    intro ref f h
    change (if ref.id = "demo/child" then some pairFlow else none) = some f at h
    split_ifs at h
    cases h
    exact pairFlow_valid
  have hle := tree_tokens_bounded hflows payFlow_valid (fun ctx out h => h out rfl)
    (payTree_grown false fun _ => RunTree.nothingLost_of) (RunTree.final_of (by decide +kernel))
    hrun hst
  rw [hmax] at hle
  exact ⟨hcompleted, by decide +kernel, hle⟩

end AutoDev.Flows
