/-
# `AutoDev.Flows.Sessions` — what one session of the run loop can do

A session is one pass through `_run_loop`.  Both of its loops are bounded by
numbers the engine checks itself: the walk by `max_steps_per_run`, and the
attempts at a node by the `maxAttempts` of its retry policy.

A handler is called once for each step that is created.  An activation opens
with a step of attempt 1, unless the bindings of its node do not render; so
`activations` counts activations (`activateNode_activations`).
-/
import AutoDev.Flows.Effects

namespace AutoDev.Flows

open Prog List

/-! ## Counting -/

/-- The run failed because the bindings of a node did not render. -/
def FlowEvent.unbound : FlowEvent → Bool
  | .runFailed .bindingError _ => true
  | _ => false

def RunStore.activations (s : RunStore) : Nat :=
  s.steps.countP (·.attempt == 1) + s.events.countP FlowEvent.unbound

@[simp] theorem FlowStepRecord.finish_attempt (i : Nat) (status : StepStatus) (o : Option Obj)
    (e : String) (st : FlowStepRecord) : (st.finish i status o e).attempt = st.attempt := by
  unfold FlowStepRecord.finish
  split <;> rfl

namespace RunStore

variable (s : RunStore)

@[simp] theorem activations_updateRun (p : RunPatch) :
    (s.updateRun p).activations = s.activations := rfl

@[simp] theorem activations_completeStep (i : Nat) (t : StepStatus) (o : Option Obj) (e : String) :
    (s.completeStep i t o e).activations = s.activations := by
  simp [activations, countP_map, Function.comp_def]

theorem activations_appendEvent (e : FlowEvent) :
    (s.appendEvent e).activations = s.activations + if e.unbound then 1 else 0 := by
  simp [activations, countP_append, Nat.add_assoc]

@[simp] theorem activations_appendEvent_bound {e : FlowEvent} (h : e.unbound = false) :
    (s.appendEvent e).activations = s.activations := by
  rw [activations_appendEvent, h]
  rfl

theorem activations_createStep (n : String) (t : NodeType) (a : Nat) (i : Obj) :
    (s.createStep n t a i).activations = s.activations + if a = 1 then 1 else 0 := by
  simp only [activations, createStep_steps, createStep_events, countP_append,
    countP_singleton, newStep, beq_iff_eq]
  omega

theorem activations_fail (st : RunState) (r : StopReason) (d : FailDetail) :
    (s.fail st r d).activations = s.activations + if r = .bindingError then 1 else 0 := by
  rw [fail, activations_appendEvent, activations_updateRun]
  cases r <;> rfl

end RunStore

def FlowManifest.maxAttempts (m : FlowManifest) (n : FlowNode) : Nat :=
  (n.retries.getD m.defaults.retries).maxAttempts

def FlowManifest.largestMaxAttempts (m : FlowManifest) : Nat :=
  (m.nodes.map m.maxAttempts).foldr max 0

theorem FlowManifest.maxAttempts_le {m : FlowManifest} {n : FlowNode} (h : n ∈ m.nodes) :
    m.maxAttempts n ≤ m.largestMaxAttempts := by
  have hmem : m.maxAttempts n ∈ m.nodes.map m.maxAttempts := mem_map_of_mem h
  unfold FlowManifest.largestMaxAttempts
  generalize m.nodes.map m.maxAttempts = xs at hmem
  induction xs with
  | nil => cases hmem
  | cons x xs ih =>
    rcases mem_cons.mp hmem with hx | hmem
    · exact hx.trans_le (le_max_left _ _)
    · exact (ih hmem).trans (le_max_right _ _)

/-! ## Room

The three counts of a store, against the room a session has. -/

/-- There were no more than `A` activations, `H` steps and `C` handler calls of the surroundings. -/
structure Room (A H C : Nat) (s : RunStore) : Prop where
  activations : s.activations ≤ A
  steps : s.steps.length ≤ H
  calls : s.calls.length ≤ C

structure SameCounts (s s' : RunStore) : Prop where
  activations : s'.activations = s.activations
  steps : s'.steps.length = s.steps.length
  calls : s'.calls.length = s.calls.length

section

variable {env : Env} {cfg : EngineConfig} {m : FlowManifest} {s s' : RunStore} {A H C : Nat}

theorem Room.same (h : Room A H C s) (hs : SameCounts s s') : Room A H C s' :=
  ⟨hs.activations.trans_le h.activations, hs.steps.trans_le h.steps, hs.calls.trans_le h.calls⟩

variable {s'' : RunStore} {r : StopReason} {st state : RunState} {n : Nat} {first : Prop}
    {node : FlowNode}

theorem SameCounts.trans (h : SameCounts s s') (h' : SameCounts s' s'') : SameCounts s s'' :=
  ⟨h'.activations.trans h.activations, h'.steps.trans h.steps, h'.calls.trans h.calls⟩

theorem sameCounts_updateRun (s : RunStore) (p : RunPatch) : SameCounts s (s.updateRun p) :=
  ⟨rfl, rfl, rfl⟩

theorem sameCounts_appendEvent (s : RunStore) {e : FlowEvent} (h : e.unbound = false) :
    SameCounts s (s.appendEvent e) :=
  ⟨s.activations_appendEvent_bound h, rfl, rfl⟩

theorem sameCounts_completeStep (s : RunStore) (i : Nat) (t : StepStatus) (o : Option Obj)
    (e : String) : SameCounts s (s.completeStep i t o e) :=
  ⟨s.activations_completeStep i t o e, by simp, rfl⟩

theorem sameCounts_fail (s : RunStore) (st : RunState) (d : FailDetail) (h : r ≠ .bindingError) :
    SameCounts s (s.fail st r d) :=
  ⟨by rw [RunStore.activations_fail, if_neg h]; rfl, rfl, rfl⟩

variable {d : FailDetail} {i : Obj} {step : FlowStepRecord}

theorem wp_failRun_room {Q : RunResult → RunStore → Prop} (h : Room A H C s)
    (hr : r ≠ .bindingError) (hQ : ∀ s', SameCounts s s' → Q s'.loaded s') :
    wp (Sem env) (Room A H C) Q (failRun st r d) s :=
  wp_failRun (hQ _ (sameCounts_fail s st d hr)) (h.same (sameCounts_updateRun s _))
    (h.same (sameCounts_fail s st d hr))

theorem Called.counts {ctx : NodeContext} {r : Except HandlerError NodeOutcome}
    (h : Called env cfg ctx s r s') :
    s'.activations = s.activations ∧ s'.steps = s.steps ∧ s'.calls.length ≤ s.calls.length + 1 := by
  cases h with
  | conditional | human => exact ⟨rfl, rfl, Nat.le_succ _⟩
  | returned | raised => exact ⟨rfl, rfl, by simp⟩

/-! ## The attempts at a node -/

/-- What `n` attempts at a node use; `first` says that they open the activation. -/
structure Used (n : Nat) (first : Prop) [Decidable first] (s s' : RunStore) : Prop where
  activations : s'.activations = s.activations + if first then 1 else 0
  steps : s'.steps.length ≤ s.steps.length + n
  calls : s'.calls.length ≤ s.calls.length + n

theorem Used.same [Decidable first] (h : Used n first s s') (hs : SameCounts s' s'') :
    Used n first s s'' :=
  ⟨hs.activations.trans h.activations, hs.steps.trans_le h.steps, hs.calls.trans_le h.calls⟩

theorem Used.room [Decidable first] (h : Used n first s s')
    (ha : s.activations + (if first then 1 else 0) ≤ A) (hh : s.steps.length + n ≤ H)
    (hc : s.calls.length + n ≤ C) : Room A H C s' :=
  ⟨h.activations.trans_le ha, h.steps.trans hh, h.calls.trans hc⟩

theorem Used.retry [Decidable first] {again : Prop} [Decidable again] (h : Used 1 first s s')
    (hagain : ¬ again) (h' : Used n again s' s'') : Used (n + 1) first s s'' := by
  obtain ⟨ha, hs, hc⟩ := h'
  rw [if_neg hagain] at ha
  exact ⟨ha.trans h.activations, hs.trans (by have := h.steps; omega),
    hc.trans (by have := h.calls; omega)⟩

theorem Used.rest {left : Nat} [Decidable first] (h : Used 1 first s s')
    (hh : s.steps.length + (left + 1) ≤ H) (hc : s.calls.length + (left + 1) ≤ C) :
    s'.steps.length + left ≤ H ∧ s'.calls.length + left ≤ C :=
  ⟨by have := h.steps; omega, by have := h.calls; omega⟩

theorem attemptLoop_counts {policy : FlowRetryPolicy} {ctx : NodeContext} :
    ∀ {left attempt : Nat} {s : RunStore},
      s.activations + (if attempt = 1 then 1 else 0) ≤ A → s.steps.length + left ≤ H →
      s.calls.length + left ≤ C → (left = 0 → attempt ≠ 1) → 1 ≤ attempt →
      wp (Sem env) (Room A H C) (fun _ s' => Used left (attempt = 1) s s')
        (attemptLoop cfg policy ctx left attempt) s
  | 0, attempt, s, _, _, _, h, _ => ⟨by rw [if_neg (h rfl)]; rfl, le_rfl, le_rfl⟩
  | left + 1, attempt, s, ha, hh, hc, _, hpos => by
    -- one step is created, and the first of an activation opens it
    have h₁ : Used 1 (attempt = 1) s
        (s.createStep ctx.node.id ctx.node.type attempt ctx.input) :=
      ⟨s.activations_createStep _ _ _ _, by simp, by simp⟩
    have h₂ : Used 1 (attempt = 1) s (s.attempting ctx attempt) :=
      h₁.same (sameCounts_appendEvent _ rfl)
    have hroom : ∀ {s' : RunStore}, Used 1 (attempt = 1) s s' → Room A H C s' :=
      fun h => h.room ha (by omega) (by omega)
    have hone : ∀ {s' : RunStore}, Used 1 (attempt = 1) s s' →
        Used (left + 1) (attempt = 1) s s' :=
      fun h => ⟨h.activations, h.steps.trans (by omega), h.calls.trans (by omega)⟩
    have hcalled : ∀ {r s₃}, Called env cfg ctx (s.attempting ctx attempt) r s₃ →
        Used 1 (attempt = 1) s s₃ := by
      intro r s₃ hcall
      obtain ⟨ka, ks, kc⟩ := hcall.counts
      refine ⟨ka.trans h₂.activations, ?_, kc⟩
      rw [ks]
      exact h₂.steps
    refine wp_attemptLoop (hroom h₁) (hroom h₂)
      (fun out s₃ hcall => ⟨hroom (hcalled hcall), hone (hcalled hcall)⟩) fun e s₃ hcall => ?_
    have h₄ := (hcalled hcall).same (sameCounts_completeStep _ s.steps.length .failed none e.message)
    refine ⟨hroom (hcalled hcall), hroom h₄, fun again s₅ hs₅ => ?_⟩
    have h₅ : Used 1 (attempt = 1) s s₅ := hs₅ ▸ h₄.same (sameCounts_appendEvent _ rfl)
    refine ⟨hroom h₅, fun _ _ _ hr => wp_failRun_room (hroom h₅) hr fun s' hs => hone (h₅.same hs),
      fun _ => ?_⟩
    have hagain : ¬ attempt + 1 = 1 := by omega
    obtain ⟨hs, hc⟩ := h₅.rest hh hc
    refine wp_post (attemptLoop_counts ?_ hs hc (fun _ => hagain) (by omega))
      fun _ s' h => h₅.retry hagain h
    rw [if_neg hagain]
    exact (hroom h₅).activations

/-! ## Activations -/

section

variable {Q : Activation → RunStore → Prop} (h : Room A H C s)
  (hQ : ∀ a s', SameCounts s s' → Q a s')
include h hQ

theorem wp_leaveNode_room {b : Bool} :
    wp (Sem env) (Room A H C) Q (leaveNode m i node step st b) s := by
  refine wp_leaveNode (fun err reason d _ hr => ?_) fun next _ => ?_
  · have hne : reason ≠ .bindingError := by
      rintro rfl
      cases hr
    exact ⟨h.same (sameCounts_updateRun s _), h.same (sameCounts_fail s st d hne),
      hQ _ _ (sameCounts_fail s st d hne)⟩
  · have hleave : SameCounts s (s.leave node step { st with cursor := next } b) :=
      (sameCounts_updateRun s _).trans (sameCounts_appendEvent _ rfl)
    exact ⟨h.same (sameCounts_updateRun s _), h.same hleave, hQ _ _ hleave⟩

theorem wp_settleOutcome_room {out : NodeOutcome} :
    wp (Sem env) (Room A H C) Q (settleOutcome m i node st step out) s := by
  cases out with
  | waitingHuman o e =>
    simp only [settleOutcome, pauseRun, wp_bind, wp_completeStep, wp_updateRun, wp_appendEvent,
      wp_reload]
    have h₁ := sameCounts_completeStep s step.stepId .waitingHuman (some o) ""
    have h₂ := fun p => h₁.trans (sameCounts_updateRun _ p)
    have h₃ := fun p => (h₂ p).trans (sameCounts_appendEvent _
      (e := .runPaused node.id step.stepId node.prompt e) rfl)
    exact ⟨h.same h₁, h.same (h₂ _), h.same (h₃ _), h.same (h₃ _), hQ _ _ (h₃ _)⟩
  | completed out =>
    rcases hout : out.output with _ | output
    · simp only [settleOutcome, hout, wp_bind, wp_completeStep]
      have h₁ := sameCounts_completeStep s step.stepId .failed none
        "node output is not JSON-serializable"
      exact ⟨h.same h₁, wp_failRun_room (h.same h₁) (by simp) fun s' hs => hQ _ _ (h₁.trans hs)⟩
    · simp only [settleOutcome, hout, wp_bind, wp_completeStep]
      have h₁ := sameCounts_completeStep s step.stepId .completed (some output) ""
      exact ⟨h.same h₁, wp_leaveNode_room (h.same h₁) fun a s' hs => hQ a s' (h₁.trans hs)⟩

end

theorem activateNode_activations {b : FlowBudgets} {deadline : ℚ}
    (hn : max (m.maxAttempts node) 1 ≤ n) (ha : s.activations + 1 ≤ A) (hh : s.steps.length + n ≤ H)
    (hc : s.calls.length + n ≤ C) :
    wp (Sem env) (Room A H C) (fun _ s' => Used n True s s')
      (activateNode cfg m i node state b deadline) s := by
  unfold activateNode
  rcases renderBindings cfg.strOf node i state.nodes with err | input
  · simp only [wp_bind]
    have h₁ : Used n True s (s.fail state .bindingError (.binding node.id err)) :=
      ⟨s.activations_fail _ _ _, Nat.le_add_right _ _, Nat.le_add_right _ _⟩
    have h₀ : Room A H C s := ⟨by omega, by omega, by omega⟩
    exact wp_failRun h₁ (h₀.same (sameCounts_updateRun s _)) (h₁.room (by simpa using ha) hh hc)
  · simp only [wp_bind]
    have hpol : max (node.retries.getD m.defaults.retries).maxAttempts 1 ≤ n := hn
    refine wp_post (attemptLoop_counts (by simpa using ha) (by omega) (by omega) (by omega) le_rfl)
      fun att s' hatt => ?_
    have hu : Used n True s s' :=
      ⟨hatt.activations, hatt.steps.trans (by omega), hatt.calls.trans (by omega)⟩
    cases att with
    | stop r => exact hu
    | outcome step out =>
      exact wp_settleOutcome_room (hu.room (by simpa using ha) hh hc) fun a s'' hs => hu.same hs

/-! ## The loop -/

abbrev Stays (env : Env) (A H C : Nat) (p : P RunResult) (s : RunStore) : Prop :=
  wp (Sem env) (Room A H C) (fun _ s' => Room A H C s') p s

theorem failRun_stays (h : Room A H C s) (hr : r ≠ .bindingError) :
    Stays env A H C (failRun st r d) s :=
  wp_failRun_room h hr fun _ hs => h.same hs

theorem finishRun_stays {ses : Session} (h : Room A H C s) :
    Stays env A H C (finishRun cfg m ses state) s := by
  simp only [Stays, finishRun, wp_bind, wp_clock]
  intro t _
  refine ⟨h, ?_⟩
  rcases ses.check cfg state t 0 with _ | v
  · simp only [wp_bind, wp_updateRun, wp_appendEvent, wp_reload]
    have h₁ := sameCounts_updateRun s
    have h₂ := fun p => (h₁ p).trans (sameCounts_appendEvent _
      (e := .runCompleted (finalOutput m state.nodes)) rfl)
    exact ⟨h.same (h₁ _), h.same (h₂ _), h.same (h₂ _), h.same (h₂ _)⟩
  · exact failRun_stays h (by simp)

theorem walkFrom_stays {ses : Session} {left : Nat}
    (hn : ∀ node ∈ m.nodes, max (m.maxAttempts node) 1 ≤ n) (ha : s.activations + left ≤ A)
    (hh : s.steps.length + left * n ≤ H) (hc : s.calls.length + left * n ≤ C) :
    Stays env A H C (walkFrom cfg m ses left state) s := by
  have hroom : ∀ {left : Nat} {s : RunStore}, s.activations + left ≤ A →
      s.steps.length + left * n ≤ H → s.calls.length + left * n ≤ C → Room A H C s :=
    fun ha hh hc => ⟨by omega, by omega, by omega⟩
  refine wp_walkFrom (fun left _ s => s.activations + left ≤ A ∧
    s.steps.length + left * n ≤ H ∧ s.calls.length + left * n ≤ C) ?_ ?_ ?_ ?_ ?_ left ⟨ha, hh, hc⟩
  · exact fun h => hroom h.1 h.2.1 h.2.2
  · exact fun v h => failRun_stays (hroom h.1 h.2.1 h.2.2) (by simp)
  · exact fun h _ => finishRun_stays (hroom h.1 h.2.1 h.2.2)
  · exact fun h _ _ => hroom h.1 h.2.1 h.2.2
  · intro left state s c node h _ hnode
    obtain ⟨ha, hh, hc⟩ := h
    rw [Nat.succ_mul] at hh hc
    have hmem : node ∈ m.nodes := mem_of_find?_eq_some hnode
    refine wp_post (activateNode_activations (hn node hmem) (by omega) (by omega) (by omega))
      fun a s' hu => ?_
    have hsteps := hu.steps
    have hcalls := hu.calls
    have hact : s'.activations = s.activations + 1 := hu.activations
    exact ⟨fun _ _ => ⟨by omega, by omega, by omega⟩, fun _ _ => ⟨by omega, by omega, by omega⟩⟩

/-- **A session is bounded.**  Wherever it is cut, it has made at most `max_steps` activations, and
at most `max_steps` times the largest `maxAttempts` of the flow handler calls. -/
theorem runLoop_bounded (hm : m.Valid) {run : FlowRunRecord} {cap : Option FlowBudgets} :
    Stays env (s.activations + cfg.maxSteps)
      (s.steps.length + cfg.maxSteps * m.largestMaxAttempts)
      (s.calls.length + cfg.maxSteps * m.largestMaxAttempts) (runLoop cfg m run cap) s := by
  have hroom : Room (s.activations + cfg.maxSteps)
      (s.steps.length + cfg.maxSteps * m.largestMaxAttempts)
      (s.calls.length + cfg.maxSteps * m.largestMaxAttempts) s :=
    ⟨Nat.le_add_right _ _, Nat.le_add_right _ _, Nat.le_add_right _ _⟩
  have hstart := sameCounts_updateRun s { status := some .running }
  simp only [Stays, runLoop, wp_bind, wp_updateRun, wp_clock]
  refine ⟨hroom.same hstart, fun started _ => ⟨hroom.same hstart, ?_⟩⟩
  refine walkFrom_stays (fun node hnode => ?_) le_rfl le_rfl le_rfl
  exact max_le (FlowManifest.maxAttempts_le hnode)
    ((hm.one_le_maxAttempts hnode).trans (FlowManifest.maxAttempts_le hnode))

end

end AutoDev.Flows
