/-
# `AutoDev.Agents.Ledger` — does the ledger know what was spent, and does it stop the spending?

The ledger is checked after every entry, and a run completes only behind a
`record_step` that passed.  So a completed run is within its budgets if the
ledger has an entry for everything that was spent.

  * Behind the gateway only the RETURNED response is entered: one that was paid
    for and given up is billed and never entered (`given_up_is_not_entered`).
  * `call_tool` and `call_skill` enter the call, check, and only then reach
    anything; `call_llm` reaches the model first, so that an exhausted run can
    still call it (`exhausted_calls_model`).
-/
import AutoDev.Agents.Runtime

namespace AutoDev.Agents

open List

open AutoDev.Flows AutoDev.Llm

/-! ## Computations over the context -/

/-- The context a computation leaves behind. -/
def left {α : Type} (m : Run α) (s : Context) : Context := (outcome (m s)).2

def Context.entered (s : Context) (l : Ledger) (acts : List Act) : Context :=
  { s with ledger := l, trace := s.trace ++ acts }

theorem Context.entered_entered (s : Context) (l l' : Ledger) (acts acts' : List Act) :
    (s.entered l acts).entered l' acts' = s.entered l' (acts ++ acts') := by
  simp [Context.entered]

section

variable {α β : Type} {m : Run α} {f : α → Run β} {s s' : Context}

theorem bind_eq_ok {b : β} : (m >>= f) s = .ok b s' ↔
    ∃ a s₁, m s = .ok a s₁ ∧ f a s₁ = .ok b s' := by
  show EStateM.bind m f s = _ ↔ _
  unfold EStateM.bind
  split
  · next a s₁ h => simp [h]
  · next e s₁ h => simp [h]

variable {s₁ : Context}

theorem bind_of_ok {a : α} (h : m s = .ok a s₁) : (m >>= f) s = f a s₁ := by
  show EStateM.bind m f s = _
  simp only [EStateM.bind, h]

theorem left_bind_ok {a : α} (h : m s = .ok a s₁) : left (m >>= f) s = left (f a) s₁ := by
  rw [left, bind_of_ok h, left]

theorem bind_of_error {e : Exc} (h : m s = .error e s₁) : (m >>= f) s = .error e s₁ := by
  show EStateM.bind m f s = _
  simp only [EStateM.bind, h]

theorem left_bind_error {e : Exc} (h : m s = .error e s₁) : left (m >>= f) s = s₁ := by
  rw [left, bind_of_error h, outcome]

theorem left_bind_note (act : Act) (f : Unit → Run β) :
    left (note act >>= f) s = left (f ()) (s.entered s.ledger [act]) := rfl

theorem left_bind_answer_ok (a : α) : left (answer (.ok a) >>= f) s = left (f a) s := rfl

theorem left_bind_answer_error (e : Exc) : left (answer (.error e) >>= f) s = s := rfl

theorem left_bind_of (h : ∀ a s, left (f a) s = s) : left (m >>= f) s = left m s := by
  rcases hms : m s with ⟨a, s₁⟩ | ⟨e, s₁⟩
  · rw [left_bind_ok hms, h]
    simp [left, hms, outcome]
  · rw [left_bind_error hms]
    simp [left, hms, outcome]

/-- A computation keeps `I`, whether it returns or raises. -/
def Keeps (I : Context → Prop) (m : Run α) : Prop := ∀ s, I s → I (left m s)

variable {I : Context → Prop}

theorem Keeps.bind (hm : Keeps I m) (hf : ∀ a, Keeps I (f a)) :
    Keeps I (m >>= f) := by
  intro s hs
  have h := hm s hs
  unfold left at h
  rcases hms : m s with ⟨a, s₁⟩ | ⟨e, s₁⟩ <;> rw [hms] at h
  · rw [left_bind_ok hms]
    exact hf a s₁ h
  · rw [left_bind_error hms]
    exact h

theorem keeps_answer : ∀ r : Except Exc α, Keeps I (answer r)
  | .ok _ => fun _ hs => hs
  | .error _ => fun _ hs => hs

theorem forM_note (g : β → Act) : ∀ (bs : List β) (s : Context),
    (bs.forM fun b => note (g b)) s = .ok () (s.entered s.ledger (bs.map g))
  | [], s => by simp [Context.entered]; rfl
  | b :: bs, s => by
    show ((note (g b)) >>= fun _ => bs.forM fun b => note (g b)) s = _
    have h : note (g b) s = .ok () (s.entered s.ledger [g b]) := rfl
    refine bind_eq_ok.mpr ⟨(), _, h, ?_⟩
    rw [forM_note g bs, Context.entered_entered]
    rfl

end

/-! ## What the methods do -/

section

variable {a : Setup} {s s' : Context} {limits : AgentBudgets}

theorem left_check (limits : AgentBudgets) : left (check limits) s = s := by
  unfold left check
  split <;> rfl

theorem ledgerStep_error (h : s.ledger.addStep.exceeds limits = true) :
    ledgerStep limits s = .error .budgetExceeded (s.entered s.ledger.addStep [.step]) :=
  if_pos h

theorem ledgerStep_ok (h : s.ledger.addStep.exceeds limits = false) :
    ledgerStep limits s = .ok () (s.entered s.ledger.addStep [.step]) :=
  if_neg (Bool.eq_false_iff.mp h)

theorem recordStep_left (name status reason : String) :
    ∃ steps, left (a.recordStep name status reason) s
        = { s.entered s.ledger.addStep [.step] with steps := s.steps ++ steps } ∧
      steps.length ≤ 1 := by
  rcases h : s.ledger.addStep.exceeds a.budgets with _ | _
  · refine ⟨[⟨name, status, reason⟩], ?_, by simp⟩
    rw [Setup.recordStep, left_bind_ok (ledgerStep_ok h)]
    rfl
  · refine ⟨[], ?_, by simp⟩
    rw [Setup.recordStep, left_bind_error (ledgerStep_error h), append_nil]
    rfl

theorem recordStep_ok {name status reason : String}
    (h : a.recordStep name status reason s = .ok () s') :
    s'.ledger.exceeds a.budgets = false := by
  obtain ⟨_, s₁, hstep, happend⟩ := bind_eq_ok.mp h
  obtain ⟨_, s₂, hnote, hrest⟩ := bind_eq_ok.mp hstep
  obtain ⟨_, s₃, hmodify, hcheck⟩ := bind_eq_ok.mp hrest
  cases happend
  unfold check at hcheck
  split at hcheck
  · cases hcheck
  · next hex =>
      cases hcheck
      exact Bool.eq_false_iff.mpr hex

/-- A computation of the broker reaches `t` or nothing. -/
def Reaches (t : Target) (m : Run Value) : Prop :=
  ∀ s, ∃ acts, left m s = s.entered s.ledger acts ∧ (acts = [] ∨ acts = [.reached t])

theorem reaches_throw (t : Target) (e : Exc) : Reaches t (throw e) :=
  fun s => ⟨[], by simp [Context.entered]; rfl, .inl rfl⟩

theorem reaches_note (t : Target) : ∀ result : Except Exc Value,
    Reaches t (note (.reached t) >>= fun _ => answer result)
  | .ok _ => fun _ => ⟨[.reached t], rfl, .inr rfl⟩
  | .error _ => fun _ => ⟨[.reached t], rfl, .inr rfl⟩

theorem broker_callTool_reaches (b : AgentToolBroker) (id : String) (result : Except Exc Value) :
    Reaches (.tool id) (b.callTool id result) := by
  unfold AgentToolBroker.callTool
  split
  · exact reaches_throw _ _
  · split
    · exact reaches_throw _ _
    · exact reaches_note _ result

theorem broker_callSkill_reaches (b : AgentToolBroker) (id : String) (result : Except Exc Value) :
    Reaches (.skill id) (b.callSkill id result) := by
  unfold AgentToolBroker.callSkill
  split
  · exact reaches_throw _ _
  · split
    · exact reaches_throw _ _
    · exact reaches_note _ result

theorem left_eq_of_ok {α : Type} {m : Run α} {x : α} (h : m s = .ok x s') : left m s = s' := by
  simp [left, h, outcome]

theorem eq_ok_of_outcome {α : Type} {m : Run α} {x : α} (h : (outcome (m s)).1 = .ok x) :
    m s = .ok x (left m s) := by
  unfold left
  rcases hms : m s with ⟨y, s₁⟩ | ⟨e, s₁⟩ <;> rw [hms] at h <;> cases h
  rfl

structure Ledger.Within (l : Ledger) (limits : AgentBudgets) : Prop where
  tokensInput : l.tokensInput ≤ limits.tokensInput
  tokensOutput : l.tokensOutput ≤ limits.tokensOutput
  costUsd : limits.costUsd.lt l.costUsd = false
  toolCalls : (l.toolCalls : Int) ≤ limits.maxToolCalls
  steps : (l.steps : Int) ≤ limits.maxSteps

theorem Ledger.exceeds_eq_false {l : Ledger} : l.exceeds limits = false ↔ l.Within limits := by
  simp only [Ledger.exceeds, Bool.or_eq_false_iff, decide_eq_false_iff_not, not_lt, gt_iff_lt]
  exact ⟨fun ⟨⟨⟨⟨h₁, h₂⟩, h₃⟩, h₄⟩, h₅⟩ => ⟨h₁, h₂, h₃, h₄, h₅⟩,
    fun ⟨h₁, h₂, h₃, h₄, h₅⟩ => ⟨⟨⟨⟨h₁, h₂⟩, h₃⟩, h₄⟩, h₅⟩⟩

theorem Ledger.exceeds_iff {l : Ledger} :
    l.exceeds limits = true ↔
      limits.tokensInput < l.tokensInput ∨ limits.tokensOutput < l.tokensOutput ∨
        limits.costUsd.lt l.costUsd = true ∨ limits.maxToolCalls < (l.toolCalls : Int) ∨
        limits.maxSteps < (l.steps : Int) := by
  simp [Ledger.exceeds, or_assoc]

theorem Ledger.exceeds_addStep {l : Ledger} (h : l.exceeds limits = true) : l.addStep.exceeds limits = true := by
  rw [Ledger.exceeds_iff] at h ⊢
  refine h.imp id (Or.imp id (Or.imp id (Or.imp id fun h => ?_)))
  exact h.trans_le (Int.ofNat_le.mpr (Nat.le_succ _))

theorem passOutput_within {output : Obj} {u : Unit} (h : a.passOutput output s = .ok u s') :
    s'.ledger.exceeds a.budgets = false := by
  obtain ⟨_, s₁, -, h⟩ := bind_eq_ok.mp h
  obtain ⟨_, s₂, -, h⟩ := bind_eq_ok.mp h
  exact recordStep_ok h

theorem guardOutput_completed {output : Obj} {result : AgentRunResult}
    (h : a.guardOutput output s = .ok result s')
    (hdone : result.status = .completed) :
    s' = s := by
  obtain ⟨violation, s₁, hanswer, h⟩ := bind_eq_ok.mp h
  have hs₁ : s₁ = s := by
    rcases hg : guardrailViolation a.printer a.policy output with e | v <;> rw [hg] at hanswer
    · cases hanswer
    · cases hanswer
      rfl
  split at h
  · obtain ⟨_, s₂, -, hret⟩ := bind_eq_ok.mp h
    cases hret
    cases hdone
  · cases h
    exact hs₁

theorem isolate_completed {result : AgentRunResult} {r : EStateM.Result Exc Context AgentRunResult}
    (h : Setup.isolate r = (.ok result, s)) (hdone : result.status = .completed) :
    r = .ok result s := by
  rcases r with ⟨result', s'⟩ | ⟨e, s'⟩
  · cases h
    rfl
  · cases e <;> cases h <;> cases hdone

end

section Sums

variable [FloatSum]

section

variable {a : Setup} {s : Context} {registry : String → Option Provider}

theorem left_consume (limits : AgentBudgets) (usage : TokenUsage) (cost : PyFloat)
    (toolCall : Bool) :
    left (consume limits usage cost toolCall) s
      = s.entered (s.ledger.add usage cost toolCall) [] := by
  refine (left_check limits).trans ?_
  simp [Context.entered]

theorem consumeBudget_left (usage : TokenUsage) (cost : PyFloat) (toolCall : Bool) :
    left (a.consumeBudget usage cost toolCall) s
      = s.entered (s.ledger.add usage cost toolCall) [.consumed usage cost toolCall] :=
  left_check a.budgets

theorem call_left {t : Target} {m : Run Value} (hm : Reaches t m) :
    ∃ acts, left (note (.called t) >>= fun _ => consume a.budgets {} (.fin 0) true >>= fun _ => m) s
        = s.entered (s.ledger.add {} (.fin 0) true) (.called t :: acts) ∧
      (acts = [] ∨
        acts = [.reached t] ∧ (s.ledger.add {} (.fin 0) true).exceeds a.budgets = false) := by
  have hnote : note (.called t) s = .ok () (s.entered s.ledger [.called t]) := rfl
  rw [left_bind_ok hnote]
  by_cases h : (s.ledger.add {} (.fin 0) true).exceeds a.budgets = true
  · have hconsume : consume a.budgets {} (.fin 0) true (s.entered s.ledger [.called t])
        = .error .budgetExceeded
          (s.entered (s.ledger.add {} (.fin 0) true) [.called t]) := if_pos h
    exact ⟨[], left_bind_error hconsume, .inl rfl⟩
  have hconsume : consume a.budgets {} (.fin 0) true (s.entered s.ledger [.called t])
      = .ok () (s.entered (s.ledger.add {} (.fin 0) true) [.called t]) := if_neg h
  rw [left_bind_ok hconsume]
  obtain ⟨acts, hleft, hacts⟩ := hm (s.entered (s.ledger.add {} (.fin 0) true) [.called t])
  refine ⟨acts, ?_, hacts.imp id fun h' => ⟨h', Bool.eq_false_iff.mpr h⟩⟩
  rw [hleft, Context.entered_entered]
  rfl

theorem callLlm_direct_left (hg : a.gateway = none) (answers : ModelAnswers) :
    left (a.callLlm answers) s = s.entered s.ledger [.reached .provider] ∨
      ∃ usage cost, left (a.callLlm answers) s
        = s.entered (s.ledger.add usage cost false) [.reached .provider, .billed usage cost] := by
  unfold Setup.callLlm
  rw [hg]
  rw [left_bind_note]
  rcases answers.provider with e | response
  · exact .inl (left_bind_answer_error e)
  · refine .inr ⟨⟨response.tokensInput, response.tokensOutput⟩, response.costUsd, ?_⟩
    rw [left_bind_answer_ok, left_bind_note, left_bind_of fun _ _ => rfl, left_consume,
      Context.entered_entered, Context.entered_entered]
    rfl

/-- A governed call whose configuration resolves reaches the gateway.  Everything the providers
answered is billed, the returned response alone is entered. -/
theorem callLlm_gateway_left (hg : a.gateway = some registry) {config : ModelConfig}
    (hc : a.config = .ok config) (answers : ModelAnswers) :
    let operation := complete registry config config.requiredCapabilities answers.gateway
    left (a.callLlm answers) s
      = s.entered
        (match operation.1 with
          | .ok response => s.ledger.add response.usage response.cost false
          | .error _ => s.ledger)
        (.reached .gateway ::
          (bills answers.gateway operation.2.trace).map fun r => .billed r.usage r.cost) := by
  intro operation
  have hbills := forM_note (fun r : ModelResponse => .billed r.usage r.cost)
    (bills answers.gateway operation.2.trace) (s.entered s.ledger [.reached .gateway])
  rw [Context.entered_entered] at hbills
  unfold Setup.callLlm Setup.callModelGateway
  rw [hg, hc]
  rw [show (Except.ok config).mapError Exc.gateway = .ok config from rfl, left_bind_answer_ok,
    left_bind_note, left_bind_ok hbills]
  rcases hop : operation.1 with e | response
  · exact left_bind_answer_error (Exc.ofFailure e)
  · refine (left_bind_answer_ok response).trans ?_
    rw [left_bind_of fun _ _ => rfl, left_consume, Context.entered_entered, append_nil]
    rfl

theorem callLlm_unresolved_left (hg : a.gateway = some registry) {e : GatewayError}
    (hc : a.config = .error e) (answers : ModelAnswers) :
    left (a.callLlm answers) s = s := by
  unfold Setup.callLlm Setup.callModelGateway
  rw [hg, hc]
  rfl

end

/-! ## The books -/

/-- The ledger has an entry for everything that was spent, and `k` more steps than the timeline. -/
structure Balanced (k : Nat) (s : Context) : Prop where
  books : s.ledger = spent s.trace
  steps : s.steps.length + k ≤ s.ledger.steps

theorem spent_append (trace acts : List Act) :
    spent (trace ++ acts) = acts.foldl spend (spent trace) :=
  foldl_append

theorem Balanced.entered {k : Nat} {s : Context} {acts : List Act} {l : Ledger} (h : Balanced k s)
    (hl : l = acts.foldl spend s.ledger) (hsteps : s.ledger.steps ≤ l.steps) :
    Balanced k (s.entered l acts) where
  books := by
    rw [hl, h.books]
    exact (spent_append _ _).symm
  steps := h.steps.trans hsteps

@[simp] theorem Ledger.add_nothing (l : Ledger) : l.add {} (.fin 0) false = l := by
  simp [Ledger.add, FloatSum.plus_zero]

theorem foldl_spend_free : ∀ {bs : List ModelResponse} (l : Ledger), (∀ b ∈ bs, b.Free) →
    (bs.map fun r => Act.billed r.usage r.cost).foldl spend l = l
  | [], _, _ => rfl
  | b :: bs, l, h => by
    obtain ⟨hb, hbs⟩ := forall_mem_cons.mp h
    have hspend : spend l (.billed b.usage b.cost) = l := by
      rw [hb.1, hb.2]
      exact l.add_nothing
    rw [map_cons, foldl_cons, hspend]
    exact foldl_spend_free l hbs

def Setup.KeepsPaid (a : Setup) : (c : Call) → Context → c.World → Prop
  | .callLlm _, _, answers =>
    ∀ registry ∈ a.gateway, ∀ config, a.config = .ok config →
      NoneGivenUp config answers.gateway
        (complete registry config config.requiredCapabilities answers.gateway).2.trace
  | .callTool .., _, _ | .callSkill .., _, _ | .consumeBudget .., _, _ | .recordStep .., _, _ =>
    True

section

variable {a : Setup} {s s' : Context} {k : Nat}

theorem recordStep_balanced (name status reason : String) :
    Keeps (Balanced k) (a.recordStep name status reason) := by
  intro s hs
  obtain ⟨steps, hleft, hlen⟩ := recordStep_left name status reason
  have h : Balanced k (s.entered s.ledger.addStep [.step]) := hs.entered rfl (Nat.le_succ _)
  rw [hleft]
  refine ⟨h.books, ?_⟩
  have hsteps := hs.steps
  simp only [length_append]
  show s.steps.length + steps.length + k ≤ s.ledger.steps + 1
  omega

theorem callLlm_balanced {answers : ModelAnswers} {prompt : String}
    (hkeeps : a.KeepsPaid (.callLlm prompt) s answers) (hs : Balanced k s) :
    Balanced k (left (a.callLlm answers) s) := by
  rcases hg : a.gateway with _ | registry
  · rcases callLlm_direct_left hg answers with hleft | ⟨usage, cost, hleft⟩ <;> rw [hleft]
    · exact hs.entered rfl le_rfl
    · exact hs.entered rfl le_rfl
  rcases hc : a.config with e | config
  · rw [callLlm_unresolved_left hg hc]
    exact hs
  rw [callLlm_gateway_left hg hc]
  have hsettles := complete_settles (hkeeps registry hg config hc)
  rcases hop : (complete registry config config.requiredCapabilities answers.gateway).1
    with e | response <;> rw [hop] at hsettles
  · exact hs.entered (foldl_spend_free _ hsettles).symm le_rfl
  · obtain ⟨bs, hbills, hfree⟩ := hsettles
    refine hs.entered ?_ le_rfl
    rw [hbills, map_append, foldl_cons, foldl_append, foldl_spend_free _ hfree]
    rfl

theorem sem_balanced {c : Call} {r : Except Exc c.Returns} (h : a.Sem a.KeepsPaid c s r s')
    (hs : Balanced k s) : Balanced k s' := by
  obtain ⟨w, hkeeps, hw⟩ := h
  obtain rfl : left (a.perform c w) s = s' := congrArg Prod.snd hw
  -- entering a call and reaching its target
  have hcall : ∀ {t : Target} {m : Run Value}, Reaches t m → Balanced k
      (left (note (.called t) >>= fun _ => consume a.budgets {} (.fin 0) true >>= fun _ => m)
        s) := by
    intro t m hm
    obtain ⟨acts, hleft, rfl | ⟨rfl, -⟩⟩ := call_left hm <;> rw [hleft]
    · exact hs.entered rfl le_rfl
    · exact hs.entered rfl le_rfl
  cases c with
  | callTool id kwargs => exact hcall (broker_callTool_reaches a.broker id w)
  | callSkill id kwargs => exact hcall (broker_callSkill_reaches a.broker id w)
  | callLlm prompt => exact callLlm_balanced hkeeps hs
  | consumeBudget usage cost toolCall =>
    rw [show left (a.perform (.consumeBudget usage cost toolCall) w) s = _ from
      consumeBudget_left usage cost toolCall]
    exact hs.entered rfl le_rfl
  | recordStep name status reason => exact recordStep_balanced name status reason s hs

/-! ## A completed run -/

theorem beforeHandler_balanced {payload : Obj} {u : Unit}
    (h : a.beforeHandler payload {} = .ok u s) : Balanced 1 s := by
  obtain ⟨_, s₁, hinput, h⟩ := bind_eq_ok.mp h
  obtain ⟨_, s₂, hrecord, hstep⟩ := bind_eq_ok.mp h
  have h₁ : Balanced 0 s₁ := by
    rw [← left_eq_of_ok hinput]
    exact keeps_answer _ _ ⟨rfl, le_rfl⟩
  have h₂ : Balanced 0 s₂ := by
    rw [← left_eq_of_ok hrecord]
    exact recordStep_balanced _ _ _ _ h₁
  have hleft : left (ledgerStep a.budgets) s₂ = s₂.entered s₂.ledger.addStep [.step] :=
    left_check a.budgets
  rw [← left_eq_of_ok hstep, hleft]
  have hbooks : Balanced 0 (s₂.entered s₂.ledger.addStep [.step]) :=
    h₂.entered rfl (Nat.le_succ _)
  exact ⟨hbooks.books, Nat.succ_le_succ h₂.steps⟩

variable {output : Obj} {result : AgentRunResult}

theorem runHandler_balanced {ending : Except Exc Value}
    (h : Setup.runHandler ending s = .ok output s') (hs : Balanced 1 s) : Balanced 0 s' := by
  unfold Setup.runHandler at h
  rcases hi : Setup.invokeHandler ending with e | o <;> rw [hi] at h <;> dsimp only at h
  · obtain ⟨_, _, _, hthrow⟩ := bind_eq_ok.mp h
    cases hthrow
  · obtain ⟨_, s₁, happend, hret⟩ := bind_eq_ok.mp h
    cases happend
    cases hret
    exact ⟨hs.books, by simpa using hs.steps⟩

theorem passOutput_balanced (output : Obj) : Keeps (Balanced k) (a.passOutput output) :=
  Keeps.bind (recordStep_balanced _ _ _) fun _ => Keeps.bind (keeps_answer _)
    fun _ => recordStep_balanced _ _ _

end

/-- **A completed run is within its budgets.**  Whatever the handler does and swallows, if no paid
response is given up behind the gateway, everything a completed run spent is within its limits, and
so is the number of steps in its timeline. -/
theorem completed_within_budgets (a : Setup) (payload : Obj) (handler : Handler)
    {result : AgentRunResult} {s : Context}
    (hrun : a.Runs a.KeepsPaid payload handler (.ok result) s)
    (hdone : result.status = .completed) :
    (spent s.trace).Within a.budgets ∧ (s.steps.length : Int) ≤ a.budgets.maxSteps := by
  unfold Setup.Runs at hrun
  split at hrun
  · cases isolate_completed hrun hdone
  next s₀ hbefore =>
    obtain ⟨ending, s₁, hexec, hafter⟩ := hrun
    have h₁ : Balanced 1 s₁ := hexec.steps.invariant
      (fun _ _ _ _ hsem => sem_balanced hsem) (beforeHandler_balanced hbefore)
    obtain ⟨output, s₂, hhandler, h⟩ := bind_eq_ok.mp (isolate_completed hafter hdone)
    obtain ⟨_, s₃, hpass, hguard⟩ := bind_eq_ok.mp h
    have h₃ := passOutput_balanced (a := a) output s₂ (runHandler_balanced hhandler h₁)
    rw [left_eq_of_ok hpass] at h₃
    obtain rfl := guardOutput_completed hguard hdone
    have hledger := Ledger.exceeds_eq_false.mp (passOutput_within hpass)
    refine ⟨h₃.books ▸ hledger, ?_⟩
    have hsteps := h₃.steps
    have hmax := hledger.steps
    omega

end Sums

/-- A budget of 100 output tokens, and a gateway whose first target has a timeout of one second
and a fallback for it. -/
def thrifty : Setup where
  budgets := { tokensOutput := 100 }
  printer := ⟨fun _ => true, fun _ => "0.5", fun _ => by decide, fun _ => false⟩
  gateway := some textProvider
  model := some
    { primary := { provider := "p", name := "m", timeoutSeconds := some 1 }
      fallbackOn := [.timeout]
      fallback := [{ provider := "p", name := "n" }] }

/-- A handler that asks its model once and returns an empty object. -/
def asksOnce : Handler := .op (.callLlm "hello") fun _ => .ret (.ok (.obj []))

def firstTakes (ms : ℚ) (tokens : Int) : ModelAnswers where
  gateway := fun
    | 1 => ⟨.ok ⟨"first", ⟨0, tokens⟩, .fin 0⟩, ms, ms⟩
    | _ => ⟨.ok ⟨"other", ⟨0, 10⟩, .fin 0⟩, 0, 0⟩

section Unrounded

open Unrounded

def askedOnce (answers : ModelAnswers) : Except Exc AgentRunResult × Context :=
  Setup.isolate (thrifty.afterHandler (.ok (.obj []))
    (left (thrifty.callLlm answers) (left (thrifty.beforeHandler []) {})))

theorem runs_askedOnce {Allowed : (c : Call) → Context → c.World → Prop} {answers : ModelAnswers}
    (h : ∀ s, Allowed (.callLlm "hello") s answers) :
    thrifty.Runs Allowed [] asksOnce (askedOnce answers).1 (askedOnce answers).2 := by
  have hbefore : thrifty.beforeHandler [] {} = .ok () (left (thrifty.beforeHandler []) {}) :=
    eq_ok_of_outcome (by decide +kernel)
  unfold Setup.Runs
  rw [hbefore]
  exact ⟨_, _, .op ⟨answers, h _, rfl⟩ .ret, rfl⟩

theorem completed_within_budgets_fast :
    (spent (askedOnce (firstTakes 0 80)).2.trace).Within thrifty.budgets ∧
      ((askedOnce (firstTakes 0 80)).2.steps.length : Int) ≤ thrifty.budgets.maxSteps := by
  have hdone : (askedOnce (firstTakes 0 80)).1
      = .ok ⟨.completed, "completed", false, some []⟩ := by decide +kernel
  refine completed_within_budgets thrifty [] asksOnce (hdone ▸ runs_askedOnce ?_) rfl
  rintro - registry hr config hc
  cases hr
  cases hc
  decide +kernel

/-- The first answer is billed for 150 tokens, comes late, and is given up; the second is entered
with its 10, and the run completes. -/
theorem given_up_is_not_entered :
    thrifty.Runs (fun _ _ _ => True) [] asksOnce (.ok ⟨.completed, "completed", false, some []⟩)
        (askedOnce (firstTakes 2000 150)).2 ∧
      (spent (askedOnce (firstTakes 2000 150)).2.trace).tokensOutput = 160 ∧
      ¬ (spent (askedOnce (firstTakes 2000 150)).2.trace).Within thrifty.budgets := by
  have hdone : (askedOnce (firstTakes 2000 150)).1
      = .ok ⟨.completed, "completed", false, some []⟩ := by decide +kernel
  have htokens : (spent (askedOnce (firstTakes 2000 150)).2.trace).tokensOutput = 160 := by
    decide +kernel
  refine ⟨hdone ▸ runs_askedOnce fun _ => trivial, htokens, fun h => ?_⟩
  have hmax := h.tokensOutput
  rw [htokens] at hmax
  exact absurd hmax (by decide)

end Unrounded

/-! ## An exhausted run -/

section Sums

variable [FloatSum]

theorem Ledger.exceeds_add {l : Ledger} {limits : AgentBudgets} {usage : TokenUsage} {cost : PyFloat} {toolCall : Bool}
    (h : l.exceeds limits = true) (hin : 0 ≤ usage.inputTokens) (hout : 0 ≤ usage.outputTokens)
    (hcost : cost.Nonneg) : (l.add usage cost toolCall).exceeds limits = true := by
  rw [Ledger.exceeds_iff] at h ⊢
  refine h.imp ?_ (Or.imp ?_ (Or.imp (FloatSum.lt_plus · hcost) (Or.imp ?_ id)))
  · exact fun h => h.trans_le (le_add_of_nonneg_right hin)
  · exact fun h => h.trans_le (le_add_of_nonneg_right hout)
  · exact fun h => h.trans_le (Int.ofNat_le.mpr (Nat.le_add_right _ _))

/-- The handler does not ask its model for more once the ledger exceeds a limit, and what it
consumes by hand then is not negative.  A call of the model whose configuration does not resolve
does no harm. -/
def Setup.Moderate (a : Setup) : (c : Call) → Context → c.World → Prop
  | .callLlm _, s, _ =>
    s.ledger.exceeds a.budgets = true → a.gateway.isSome ∧ ∃ e, a.config = .error e
  | .consumeBudget usage cost _, s, _ =>
    s.ledger.exceeds a.budgets = true →
      0 ≤ usage.inputTokens ∧ 0 ≤ usage.outputTokens ∧ cost.Nonneg
  | .callTool .., _, _ | .callSkill .., _, _ | .recordStep .., _, _ => True

theorem sem_exhausted {a : Setup} {c : Call} {r : Except Exc c.Returns} {s s' : Context}
    (h : a.Sem a.Moderate c s r s') (hs : s.ledger.exceeds a.budgets = true) :
    s'.ledger.exceeds a.budgets = true ∧ reached s'.trace = reached s.trace := by
  obtain ⟨w, hmod, hw⟩ := h
  obtain rfl : left (a.perform c w) s = s' := congrArg Prod.snd hw
  have hcalled : (s.ledger.add {} (.fin 0) true).exceeds a.budgets = true :=
    Ledger.exceeds_add hs le_rfl le_rfl (by decide)
  -- the check stands between entering a call and the broker
  have hcall : ∀ {t : Target} {m : Run Value}, Reaches t m →
      let s' := left (note (.called t) >>= fun _ =>
        consume a.budgets {} (.fin 0) true >>= fun _ => m) s
      s'.ledger.exceeds a.budgets = true ∧ reached s'.trace = reached s.trace := by
    intro t m hm
    obtain ⟨acts, hleft, rfl | ⟨-, hwithin⟩⟩ := call_left hm
    · dsimp only
      rw [hleft]
      exact ⟨hcalled, by simp [Context.entered, reached]⟩
    · rw [hcalled] at hwithin
      cases hwithin
  cases c with
  | callTool id kwargs => exact hcall (broker_callTool_reaches a.broker id w)
  | callSkill id kwargs => exact hcall (broker_callSkill_reaches a.broker id w)
  | callLlm prompt =>
    obtain ⟨hg, e, hc⟩ := hmod hs
    obtain ⟨registry, hg⟩ := Option.isSome_iff_exists.mp hg
    rw [show left (a.perform (.callLlm prompt) w) s = s from callLlm_unresolved_left hg hc w]
    exact ⟨hs, rfl⟩
  | consumeBudget usage cost toolCall =>
    obtain ⟨hin, hout, hcost⟩ := hmod hs
    rw [show left (a.perform (.consumeBudget usage cost toolCall) w) s = _ from
      consumeBudget_left usage cost toolCall]
    exact ⟨Ledger.exceeds_add hs hin hout hcost, by simp [Context.entered, reached]⟩
  | recordStep name status reason =>
    obtain ⟨steps, hleft, -⟩ := recordStep_left name status reason
    rw [show left (a.perform (.recordStep name status reason) w) s = _ from hleft]
    exact ⟨Ledger.exceeds_addStep hs, by simp [Context.entered, reached]⟩

/-- **An exhausted run reaches nothing.**  From any context whose ledger exceeds a limit, and for
whatever is left of the handler: as long as it neither asks its model nor consumes a negative
amount, no tool, skill, provider or gateway is reached any more. -/
theorem exhausted_reaches_nothing (a : Setup) {handler handler' : Handler} {s s' : Context}
    (hs : s.ledger.exceeds a.budgets = true)
    (hrun : Prog.Steps (a.Sem a.Moderate) handler s handler' s') :
    reached s'.trace = reached s.trace := by
  refine (hrun.invariant (I := fun s₁ => s₁.ledger.exceeds a.budgets = true ∧
    reached s₁.trace = reached s.trace) ?_ ⟨hs, rfl⟩).2
  intro c s₁ r s₂ hsem h₁
  obtain ⟨hex, hreached⟩ := sem_exhausted hsem h₁.1
  exact ⟨hex, hreached.trans h₁.2⟩

end Sums

/-- A run that may call the tool `t`. -/
def tooled : Setup := { thrifty with broker := { allowedTools := ["t"], tools := ["t"] } }

def toollessContext : Context := { ledger := { toolCalls := 41 } }

section Unrounded

open Unrounded

theorem exhausted_reaches_nothing_tool :
    reached (left (tooled.callTool "t" (.ok .null)) {}).trace = [.tool "t"] ∧
      reached (left (tooled.callTool "t" (.ok .null)) toollessContext).trace = [] := by
  have hrun : Prog.Steps (tooled.Sem tooled.Moderate) (.op (.callTool "t" []) .ret : Handler)
      toollessContext (.ret _) (left (tooled.callTool "t" (.ok .null)) toollessContext) :=
    .op ⟨.ok .null, trivial, rfl⟩ .refl
  exact ⟨by decide +kernel, exhausted_reaches_nothing tooled (by decide +kernel) hrun⟩

def goesOn : Handler :=
  .op (.consumeBudget ⟨0, 101⟩ (.fin 0) false) fun _ =>
    .op (.callLlm "once more") fun _ => .ret (.ok .null)

/-- The consumption takes the ledger over its limit, its exception is swallowed, and the gateway is
reached. -/
theorem exhausted_calls_model :
    ∃ s s' : Context, ∃ rest : Handler,
      Prog.Steps (thrifty.Sem fun _ _ _ => True) goesOn {} rest s ∧
      s.ledger.exceeds thrifty.budgets = true ∧
      Prog.Steps (thrifty.Sem fun _ _ _ => True) rest s (.ret (.ok .null)) s' ∧
      reached s.trace = [] ∧ reached s'.trace = [.gateway] := by
  refine ⟨left (thrifty.consumeBudget ⟨0, 101⟩ (.fin 0) false) {},
    left (thrifty.callLlm (firstTakes 0 10))
      (left (thrifty.consumeBudget ⟨0, 101⟩ (.fin 0) false) {}),
    .op (.callLlm "once more") fun _ => .ret (.ok .null),
    .op ⟨(), trivial, rfl⟩ .refl, by decide +kernel,
    .op ⟨firstTakes 0 10, trivial, rfl⟩ .refl, by decide +kernel, by decide +kernel⟩

end Unrounded

end AutoDev.Agents
