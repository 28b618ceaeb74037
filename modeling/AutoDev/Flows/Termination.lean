/-
# `AutoDev.Flows.Termination` — execution always stops

What stops a flow are two numbers: the step cap of a session and the depth cap
that is checked before a child is started.  Above a fixed list of callers a run
acts by a program, which is a finite tree whatever is replied; a handler goes down
in `rank`; and a child stands above a LONGER list of callers.  So the induction is
on the depth that is left, then on the program, then on the rank.
-/
import Mathlib.Data.Prod.Lex
import Mathlib.Order.WellFounded
import AutoDev.Flows.RunTree
import AutoDev.Flows.Sessions

namespace AutoDev.Flows

open Prog List

/-! ## Handlers go down -/

/-- What a fan-out has left: the items to launch, then the branches to collect. -/
def MapJob.left (job : MapJob) : MapPoint → Nat
  | .filling s => 5 * (job.items.length - s.nextIndex) + 3 * s.pending.length + 1
  | .draining done s => 5 * (job.items.length - s.nextIndex) + 3 * (done.length + s.pending.length) +
      if done = [] then 2 else 0
  | .raised _ _ | .returned _ => 0

variable {x : Services} {ctx : NodeContext}

/-- The fan-out ends: every step of its loop, a launch included, leaves less to do. -/
theorem MapStep.left_lt {job : MapJob} {pt pt' : MapPoint} (h : MapStep x job pt pt') :
    job.left pt' < job.left pt := by
  cases h with
  | overspent | unrendered | uncapped | finish => simp [MapJob.left]
  | launch hcan =>
    have hlt := hcan.1
    simp only [MapJob.left, MapJob.launch, length_append, length_singleton]
    omega
  | @wait s done rest _ hne hperm =>
    have hlen := hperm.length_eq
    rw [length_append] at hlen
    simp only [MapJob.left, if_neg hne]
    omega
  | notStarted | failed => simp [MapJob.left]
  | @collect s b done child =>
    simp only [MapJob.left, MapJob.collect, MapJob.charge, length_cons, reduceCtorEq,
      if_false]
    split <;> omega
  | overdrawn => simp [MapJob.left]
  | drained => simp [MapJob.left]

/-- Where a handler stands on its way to a reply. -/
def HandlerPoint.rank : HandlerPoint → ℕ ×ₗ ℕ
  | .entered => toLex (2, 0)
  | .ordering _ => toLex (1, 0)
  | .fanning job pt => toLex (1, job.left pt)
  | .replied _ => toLex (0, 0)

theorem HandlerMove.rank_lt {pt pt' : HandlerPoint} (h : HandlerMove x ctx pt pt') :
    pt'.rank < pt.rank := by
  cases h with
  | refused | uncapped | noJob => exact Prod.Lex.toLex_lt_toLex.mpr (.inl Nat.two_pos)
  | order | job => exact Prod.Lex.toLex_lt_toLex.mpr (.inl Nat.one_lt_two)
  | fan h => exact Prod.Lex.toLex_lt_toLex.mpr (.inr ⟨rfl, h.left_lt⟩)
  | raised | returned => exact Prod.Lex.toLex_lt_toLex.mpr (.inl Nat.one_pos)

theorem Places.rank_lt {x' : Services} {pt : HandlerPoint} {o : Order} (h : Places x pt o)
    (r : ChildResult) : (pt.deliver x' ctx o r).rank < pt.rank := by
  cases h with
  | subflow => exact Prod.Lex.toLex_lt_toLex.mpr (.inl Nat.one_pos)
  | @branch job s input t cap hcan _ _ _ _ =>
    have hlt := hcan.1
    refine Prod.Lex.toLex_lt_toLex.mpr (.inr ⟨rfl, ?_⟩)
    simp only [MapJob.left, MapJob.launch, length_append, length_singleton]
    omega

/-! ## Trees halt -/

section

variable {T : Platform} {U : Run → Prop} {t : RunTree}

/-- No sequence of steps from the tree goes on for ever. -/
def Platform.Halts (T : Platform) : RunTree → Prop := Acc fun t' t => T.Step t t'

def HaltsAbove (T : Platform) (U : Run → Prop) (ks : List Caller) (p : P RunResult) : Prop :=
  ∀ t r, t.Sound U → t.callers = ks → t.focus = .run r → r.prog = p → T.Halts t

section

variable (hflows : ∀ ref f, T.resolve ref = some f → f.Valid) (hU : RunRule T U)

include hflows hU

/-- A handler halts, if every way its program goes on does, and every child does that gives back
to a handler that halts. -/
theorem handler_halts {ks : List Caller} {k : HandlerResult → P RunResult}
    (hcont : ∀ res, HaltsAbove T U ks (k res))
    (hchild : ∀ caller : Caller, (∀ res, HaltsAbove T U (caller :: ks) (.ret res)) →
      ∀ p, HaltsAbove T U (caller :: ks) p) :
    ∀ t r c, t.Sound U → t.callers = ks → t.focus = .handler r c → c.cont = k → T.Halts t := by
  intro t r c
  -- the handler only goes down
  induction hn : c.point.rank using WellFoundedLT.induction generalizing t c with
  | ind n ih =>
  subst hn
  intro hs hks hfocus hk
  refine .intro t fun t' hstep => ?_
  have hs' := hs.step hflows hU hstep
  cases hstep with
  | command | call | giveBack => cases hfocus
  | move hmove =>
    cases hfocus
    exact ih _ hmove.rank_lt _ _ rfl hs' hks rfl hk
  | start hp =>
    cases hfocus
    subst hks
    refine hchild _ (fun res t₁ r₁ hs₁ hks₁ hf₁ hp₁ => ?_) _ _ _ hs' rfl rfl rfl
    refine .intro t₁ fun t₂ hstep₁ => ?_
    have hs₂ := hs₁.step hflows hU hstep₁
    cases hstep₁ with
    | command h₁ | call h₁ =>
      cases hf₁
      cases h₁.symm.trans hp₁
    | move | start | reply => cases hf₁
    | giveBack h₁ =>
      cases hks₁
      exact ih _ (hp.rank_lt _) _ _ rfl hs₂ rfl rfl hk
  | reply hp =>
    cases hfocus
    subst hk
    exact hcont _ _ _ hs' hks rfl rfl

theorem run_halts :
    ∀ (n : Nat) (ks : List Caller), maxCompositeDepth < ks.length + n →
      (∀ res, HaltsAbove T U ks (.ret res)) → ∀ p, HaltsAbove T U ks p := by
  intro n
  induction n with
  | zero =>
    intro ks hlen _ p t r hs hks
    have := hs.depth
    rw [hks] at this
    omega
  | succ n ihn =>
    intro ks hlen hret p
    induction p with
    | ret res => exact hret res
    | op c k ihp =>
      intro t r hs hks hfocus hprog
      refine .intro t fun t' hstep => ?_
      have hs' := hs.step hflows hU hstep
      cases hstep with
      | command h₁ =>
        cases hfocus
        cases h₁.symm.trans hprog
        exact ihp _ _ _ hs' hks rfl rfl
      | call h₁ =>
        cases hfocus
        cases h₁.symm.trans hprog
        refine handler_halts hflows hU ihp (fun caller => ?_) _ _ _ hs' hks rfl rfl
        refine ihn (caller :: ks) ?_
        rw [length_cons]
        omega
      | giveBack h₁ =>
        cases hfocus
        cases h₁.symm.trans hprog
      | move | start | reply => cases hfocus

theorem Platform.root_halts {r : Run} (hs : t.Sound U) (hks : t.callers = []) (hf : t.focus = .run r) :
    T.Halts t := by
  refine run_halts hflows hU (maxCompositeDepth + 1) [] (by simp) ?_ _ t r hs hks hf rfl
  intro res t' r' _ hks' hf' hp'
  refine .intro t' fun t'' hstep => ?_
  cases hstep with
  | command h | call h =>
    cases hf'
    cases h.symm.trans hp'
  | giveBack => cases hks'
  | move | start | reply => cases hf'

end

theorem Platform.Halts.stops (h : T.Halts t) :
    ∀ trees : ℕ → RunTree, trees 0 = t → ∃ n, ¬ T.Step (trees n) (trees (n + 1)) := by
  induction h with
  | intro t _ ih =>
    intro trees h₀
    by_contra hall
    push Not at hall
    have h₁ : T.Step t (trees 1) := h₀ ▸ hall 0
    obtain ⟨n, hn⟩ := ih (trees 1) h₁ (fun n => trees (n + 1)) rfl
    exact hn (hall (n + 1))

/-! ## Trees are never stuck -/

/-- The surroundings always reply: every leaf handler returns or raises on each call. -/
structure Platform.Answers (T : Platform) : Prop where
  leaf : ∀ ctx, ∃ r, T.leaf ctx r
  clock : ∃ t, T.clock t
  now : ∃ t, T.now t

theorem Platform.Answers.command (h : T.Answers) (c : Cmd) (s : RunStore) :
    ∃ r s', Sem T.env c s r s' := by
  obtain ⟨tc, hc⟩ := h.clock
  obtain ⟨tn, hn⟩ := h.now
  cases c with
  | invoke ctx =>
    obtain ⟨r, hr⟩ := h.leaf ctx
    exact ⟨r, _, hr, rfl⟩
  | clock => exact ⟨tc, _, hc, rfl⟩
  | now => exact ⟨tn, _, hn, rfl⟩
  | _ => exact ⟨_, _, rfl, rfl⟩

theorem handler_goes_on (hclock : ∃ t, x.clock t)
    (hc : ctx.node.type.composite = true) (pt : HandlerPoint) :
    (∃ pt', HandlerMove x ctx pt pt') ∨ (∃ o, Places x pt o) ∨ ∃ res, pt = .replied res := by
  obtain ⟨t, ht⟩ := hclock
  cases pt with
  | entered =>
    left
    cases hty : ctx.node.type with
    | subflow =>
      rcases hf : x.childFlow ctx.node with e | flow
      · exact ⟨_, .refused hty hf⟩
      · rcases hcap : childCap? ctx t with _ | cap
        · exact ⟨_, .uncapped hty hf ht hcap⟩
        · exact ⟨_, .order hty hf ht hcap⟩
    | map =>
      rcases hj : x.mapJob ctx with e | job
      · exact ⟨_, .noJob hty hj⟩
      · exact ⟨_, .job hty hj⟩
    | _ => simp [hty, NodeType.composite] at hc
  | ordering o => exact .inr (.inl ⟨o, .subflow⟩)
  | replied res => exact .inr (.inr ⟨res, rfl⟩)
  | fanning job point =>
    cases point with
    | raised e s => exact .inl ⟨_, .raised⟩
    | returned s => exact .inl ⟨_, .returned⟩
    | draining done s =>
      left
      rcases done with _ | ⟨b, done⟩
      · rcases hb : job.breach s with _ | e
        · exact ⟨_, .fan (.drained hb)⟩
        · exact ⟨_, .fan (.overdrawn hb)⟩
      rcases hb : b.result with e | child
      · exact ⟨_, .fan (.notStarted hb)⟩
      · by_cases hst : child.record.status = .completed
        · exact ⟨_, .fan (.collect hb hst)⟩
        · exact ⟨_, .fan (.failed hb hst)⟩
    | filling s =>
      by_cases hcan : job.CanLaunch s
      · rcases hb : job.breach s with _ | e
        · rcases hi : job.branchInput x s with e | input
          · exact .inl ⟨_, .fan (.unrendered hcan hb hi)⟩
          · rcases hcap : job.branchCap? s t with _ | cap
            · exact .inl ⟨_, .fan (.uncapped hcan hb hi ht hcap)⟩
            · exact .inr (.inl ⟨_, .branch hcan hb hi ht hcap⟩)
        · exact .inl ⟨_, .fan (.overspent hcan hb)⟩
      · by_cases hp : s.pending = []
        · exact .inl ⟨_, .fan (.finish hcan hp)⟩
        · have hall : (s.pending ++ []).Perm s.pending := by simp
          exact .inl ⟨_, .fan (.wait hcan hp hall)⟩

theorem RunTree.Sound.goes_on (hT : T.Answers) (h : t.Sound U) : t.Final ∨ ∃ t', T.Step t t' := by
  obtain ⟨ps, ks, focus, ls⟩ := t
  cases focus with
  | run r =>
    cases hp : r.prog with
    | ret res =>
      cases ks with
      | nil => exact .inl ⟨rfl, r, res, rfl, hp⟩
      | cons k ks => exact .inr ⟨_, .giveBack hp⟩
    | op c k =>
      right
      by_cases hc : c.composite = true
      · cases c with
        | invoke ctx => exact ⟨_, .call hp hc⟩
        | _ => cases hc
      · obtain ⟨reply, s', hsem⟩ := hT.command c r.store
        exact ⟨_, .command hp (Bool.eq_false_iff.mpr hc) hsem⟩
  | handler r c =>
    right
    have hcall := h.calls (r, c) mem_cons_self
    rcases handler_goes_on (x := T.services ps r) hT.clock hcall.2.1 c.point with
      ⟨pt, hm⟩ | ⟨o, hp⟩ | ⟨res, hr⟩
    · exact ⟨_, .move hm⟩
    · exact ⟨_, .start hp⟩
    · exact ⟨_, .reply hr⟩

/-! ## Runs are bounded -/

/-- The run was started and has come to where it stands. -/
def Run.Started (cfg : EngineConfig) (r : Run) : Prop :=
  r.flow.Valid ∧ ∃ input execute cap,
    Steps (Sem .any) (startRun cfg r.flow input execute cap) .empty r.prog r.store

theorem started_rule : RunRule T (Run.Started T.cfg) where
  child hv := ⟨hv, _, true, _, .refl⟩
  command := by
    rintro r c k reply s' x ⟨hv, input, execute, cap, hsteps⟩ hprog hsem
    rw [hprog] at hsteps
    exact ⟨hv, input, execute, cap, hsteps.snoc hsem⟩

theorem Room.of_zero {A H C : Nat} {s : RunStore} (h : Room (0 + A) (0 + H) (0 + C) s) :
    Room A H C s := by
  simpa only [Nat.zero_add] using h

variable {cfg : EngineConfig}

variable {m : FlowManifest} {cap : Option FlowBudgets} {execute : Bool}

theorem startRun_bounded (hm : m.Valid) {env : Env} {input : Obj} :
    Stays env cfg.maxSteps (cfg.maxSteps * m.largestMaxAttempts)
      (cfg.maxSteps * m.largestMaxAttempts) (startRun cfg m input execute cap) .empty := by
  have hroom : Room cfg.maxSteps (cfg.maxSteps * m.largestMaxAttempts)
      (cfg.maxSteps * m.largestMaxAttempts) .empty :=
    ⟨Nat.zero_le _, Nat.zero_le _, Nat.zero_le _⟩
  unfold startRun
  dsimp only
  split
  · exact hroom
  rcases m.entryNode? with _ | entry
  · exact hroom
  simp only [Stays, wp_bind, wp_createRun, wp_appendEvent]
  have h₁ : ∀ st, Room cfg.maxSteps (cfg.maxSteps * m.largestMaxAttempts)
      (cfg.maxSteps * m.largestMaxAttempts) (RunStore.empty.createRun input st) :=
    fun st => hroom.same ⟨rfl, rfl, rfl⟩
  have h₂ := fun st => (h₁ st).same (sameCounts_appendEvent _ (e := .runStarted entry.id) rfl)
  refine ⟨h₁ _, h₂ _, ?_⟩
  cases execute with
  | false => exact h₂ _
  | true =>
    -- nothing has been counted yet
    exact wp_mono (fun _ h => Room.of_zero h) (fun _ _ h => Room.of_zero h)
      (runLoop_bounded hm)

theorem startRun_ne_stepCap (hm : m.Valid) {env : Env} {input : Obj} :
    Ends env (fun r _ => r ≠ .error .stepCap) (startRun cfg m input execute cap) .empty := by
  have hloaded : ∀ s : RunStore, s.loaded ≠ .error .stepCap := by
    intro s
    unfold RunStore.loaded
    split <;> simp
  refine startRun_ends hm (fun _ => by simp) fun entry _ hknown => ⟨by simp, ?_⟩
  exact runLoop_ends (fun state _ => KnownCursor m state) (fun _ => loaded_rule hm hloaded) hknown

theorem Run.Started.ne_stepCap {r : Run} (h : r.Started cfg) : r.prog ≠ .ret (.error .stepCap) := by
  obtain ⟨hv, input, execute, cap, hsteps⟩ := h
  intro hret
  rw [hret] at hsteps
  exact hsteps.exec.of_wp (startRun_ne_stepCap hv) rfl

theorem Run.Started.room {r : Run} (h : r.Started cfg) :
    Room cfg.maxSteps (cfg.maxSteps * r.flow.largestMaxAttempts)
      (cfg.maxSteps * r.flow.largestMaxAttempts) r.store := by
  obtain ⟨hv, input, execute, cap, hsteps⟩ := h
  exact (hsteps.of_wp ⟨Nat.zero_le _, Nat.zero_le _, Nat.zero_le _⟩ (startRun_bounded hv)).1

/-- **Execution always stops.**  Registered flows are valid, and may refer to one another in any
way; the surroundings always reply.  A session of a run makes at most `max_steps` activations and
`max_steps` times the largest `maxAttempts` handler calls, wherever it is cut.  From a `start_run`
without a parent no sequence of steps goes on for ever and none is stuck, so the tree it grows is
finite; the runs of the tree keep to the bounds of a session, and none of them has more than
`MAX_COMPOSITE_DEPTH` ancestors. -/
theorem execution_stops (hT : T.Answers) (hflows : ∀ ref f, T.resolve ref = some f → f.Valid)
    {m : FlowManifest} (hm : m.Valid) (input : Obj) (execute : Bool) (cap : Option FlowBudgets) :
    (∀ env run cap' s p s', Steps (Sem env) (runLoop T.cfg m run cap') s p s' →
      s'.activations ≤ s.activations + T.cfg.maxSteps ∧
      s'.steps.length ≤ s.steps.length + T.cfg.maxSteps * m.largestMaxAttempts ∧
      s'.calls.length ≤ s.calls.length + T.cfg.maxSteps * m.largestMaxAttempts) ∧
    (∀ trees : ℕ → RunTree, trees 0 = T.root m input execute cap →
      ∃ n, ¬ T.Step (trees n) (trees (n + 1))) ∧
    ∀ t, Relation.ReflTransGen T.Step (T.root m input execute cap) t →
      (t.Final ∨ ∃ t', T.Step t t') ∧
      (∀ r ∈ t.runs, r.store.activations ≤ T.cfg.maxSteps ∧
        r.store.steps.length ≤ T.cfg.maxSteps * r.flow.largestMaxAttempts ∧
        r.store.calls.length ≤ T.cfg.maxSteps * r.flow.largestMaxAttempts ∧
        r.prog ≠ .ret (.error .stepCap)) ∧
      ∀ i < t.parents.length, ∃ l, Lineage t.parents i l ∧ l.length ≤ maxCompositeDepth := by
  have hroot : (T.root m input execute cap).Sound (Run.Started T.cfg) :=
    RunTree.sound_root ⟨hm, input, execute, cap, .refl⟩
  refine ⟨?_, (Platform.root_halts hflows started_rule hroot rfl rfl).stops, fun t ht => ?_⟩
  · intro env run cap' s p s' hsteps
    have hroom : Room (s.activations + T.cfg.maxSteps)
        (s.steps.length + T.cfg.maxSteps * m.largestMaxAttempts)
        (s.calls.length + T.cfg.maxSteps * m.largestMaxAttempts) s :=
      ⟨Nat.le_add_right _ _, Nat.le_add_right _ _, Nat.le_add_right _ _⟩
    obtain ⟨ha, hh, hc⟩ := (hsteps.of_wp hroom (runLoop_bounded hm)).1
    exact ⟨ha, hh, hc⟩
  · have hs : t.Sound (Run.Started T.cfg) := by
      induction ht with
      | refl => exact hroot
      | tail _ hstep ih => exact ih.step hflows started_rule hstep
    refine ⟨hs.goes_on hT, fun r hr => ?_, hs.everyone⟩
    have hstarted := hs.runs r hr
    exact ⟨hstarted.room.activations, hstarted.room.steps, hstarted.room.calls, hstarted.ne_stepCap⟩

end

/-- A document whose one node runs the flow itself. -/
def selfDocument : Obj :=
  [("schemaVersion", .str "1"), ("id", .str "demo/self"), ("version", .str "1.0.0"),
   ("hostApi", .str "*"),
   ("nodes", .list [.obj [("id", .str "again"), ("type", .str "subflow"),
     ("ref", .str "demo/self"), ("retries", .obj [("maxAttempts", .int 2)])]]),
   ("edges", .list [])]

def selfFlow : FlowManifest :=
  { schemaVersion := "1", id := "demo/self", version := "1.0.0", hostApi := "*",
    nodes := [{ id := "again", type := .subflow, ref := some ⟨"demo/self", "*"⟩,
                retries := some { maxAttempts := 2 } }] }

theorem selfFlow_valid : selfFlow.Valid := ⟨fun _ => true, selfDocument, by decide +kernel⟩

def selfPlatform : Platform where
  cfg := demoConfig
  describe _ := ""
  runName _ := ""
  resolve ref := if ref.id = "demo/self" then some selfFlow else none
  leaf _ r := r = .ok { output := some [] }
  clock t := t = 0
  now t := t = 0

theorem execution_stops_self :
    (∀ trees : ℕ → RunTree, trees 0 = selfPlatform.root selfFlow [] true none →
      ∃ n, ¬ selfPlatform.Step (trees n) (trees (n + 1))) ∧
    ∀ t, Relation.ReflTransGen selfPlatform.Step (selfPlatform.root selfFlow [] true none) t →
      ∀ i < t.parents.length, ∃ l, Lineage t.parents i l ∧ l.length ≤ maxCompositeDepth := by
  have hflows : ∀ ref f, selfPlatform.resolve ref = some f → f.Valid := by
    intro ref f h
    change (if ref.id = "demo/self" then some selfFlow else none) = some f at h
    split_ifs at h
    cases h
    exact selfFlow_valid
  have hT : selfPlatform.Answers := ⟨fun _ => ⟨_, rfl⟩, ⟨0, rfl⟩, ⟨0, rfl⟩⟩
  have hstops := execution_stops hT hflows selfFlow_valid [] true none
  exact ⟨hstops.2.1, fun t ht => (hstops.2.2 t ht).2.2⟩

end AutoDev.Flows
