/-
# `AutoDev.Reasoning.Boundaries` — what a strategy cannot get past, and what it can

Three boundaries the engine is meant to hold against ANY strategy:

  * the step budget bounds the completions and tool runs of a run.  A step is
    debited only after the call has returned, so a call that RAISES is not
    counted, and a strategy that swallows the exception may make as many of
    those as it likes (`retry_goes_on`).  As long as none is begun after one
    that raised, the budget holds: `work_le_max_steps`;
  * a refused call ends the run as exhausted.  The refusal is an exception that
    passes through the strategy, and what the engine answers depends on what the
    strategy makes of it: `exhaustion_shows_iff`;
  * a failing guardrail that blocks, blocks.  Verification stops at the FIRST
    guardrail that does not pass, whatever its action: `blocked_iff`.
-/
import AutoDev.Reasoning.Engine

namespace AutoDev.Reasoning

open AutoDev.Flows List

/-! ## What one mediator call does -/

inductive Effect (m : Mediator) (s s' : Run) : Prop
  | idle (hh : s'.history = s.history) (hs : s'.usage.steps = s.usage.steps)
  | refused (u : Usage) (hh : s'.history = s.history ++ [.refused u])
      (hs : s'.usage.steps = s.usage.steps)
  | raised (w : Happening) (hw : w.isWork = true) (hr : w.raised = true)
      (hh : s'.history = s.history ++ [w]) (hlt : s.usage.steps < m.budget.maxSteps)
      (hs : s'.usage.steps = s.usage.steps)
  | worked (w : Happening) (hw : w.isWork = true) (hr : w.raised = false)
      (hh : s'.history = s.history ++ [w]) (hlt : s.usage.steps < m.budget.maxSteps)
      (hs : s'.usage.steps = s.usage.steps + 1)
  | stepped (hh : s'.history = s.history) (hlt : s.usage.steps < m.budget.maxSteps)
      (hs : s'.usage.steps = s.usage.steps + 1)

theorem Usage.steps_lt_of_not_exceeds {u : Usage} {b : Budget} (h : u.exceeds b = false) :
    u.steps < b.maxSteps := by
  simp only [Usage.exceeds, Bool.or_eq_false_iff, decide_eq_false_iff_not] at h
  omega

theorem checkBudget_cases (m : Mediator) (s : Run) (elapsed : Int) :
    (∃ u s', m.checkBudget s elapsed = (.error (.budgetExceeded u), s') ∧
        s'.history = s.history ++ [.refused u] ∧ s'.usage.steps = s.usage.steps) ∨
    ∃ s', m.checkBudget s elapsed = (.ok (), s') ∧ s'.history = s.history ∧
        s'.usage.steps = s.usage.steps ∧ s.usage.steps < m.budget.maxSteps := by
  unfold Mediator.checkBudget
  dsimp only
  split
  · exact .inl ⟨_, _, rfl, rfl, rfl⟩
  · next h =>
      have hlt := Usage.steps_lt_of_not_exceeds (Bool.eq_false_iff.mpr h)
      exact .inr ⟨_, rfl, rfl, rfl, hlt⟩

variable {m : Mediator} {s s' : Run}

theorem callLlm_effect {messages : List Mediator.Message} {elapsed : Int}
    {answer : Except Exc LLMResponse} {r : Except Exc LLMResult}
    (h : m.callLlm s messages elapsed answer = (r, s')) : Effect m s s' := by
  unfold Mediator.callLlm at h
  obtain ⟨u, s₁, hc, hh, hs⟩ | ⟨s₁, hc, hh, hs, hlt⟩ := checkBudget_cases m s elapsed
  · rw [hc] at h
    cases h
    exact .refused u hh hs
  rw [hc] at h
  rcases answer with e | response
  · cases h
    exact .raised (.completion true) rfl rfl (by simp [Run.did, hh]) hlt hs
  · cases h
    exact .worked (.completion false) rfl rfl (by simp [Run.did, hh]) hlt
      (by simp [Run.did, Usage.accumulate, hs])

theorem callTool_effect {name : String} {args : Obj} {elapsed : Int} {answer : Except Exc Value}
    {r : Except Exc ToolResult} (h : m.callTool s name args elapsed answer = (r, s')) :
    Effect m s s' := by
  unfold Mediator.callTool at h
  obtain ⟨u, s₁, hc, hh, hs⟩ | ⟨s₁, hc, hh, hs, hlt⟩ := checkBudget_cases m s elapsed
  · rw [hc] at h
    cases h
    exact .refused u hh hs
  rw [hc] at h
  dsimp only at h
  split at h
  · cases h
    exact .idle hh hs
  split at h
  · rcases answer with e | output
    · cases h
      exact .raised (.tool name true) rfl rfl (by simp [Run.did, hh]) hlt hs
    · cases h
      exact .worked (.tool name false) rfl rfl (by simp [Run.did, hh]) hlt
        (by simp [Run.did, Usage.accumulate, hs])
  · cases h
    exact .stepped (by simp [hh]) hlt (by simp [Usage.accumulate, hs])

theorem verifyFrom_state (m : Mediator) (output : Value) : ∀ (specs : List GuardrailSpec) (s : Run),
    (m.verifyFrom output specs s).2.history = s.history ∧
    (m.verifyFrom output specs s).2.usage = s.usage
  | [], _ => ⟨rfl, rfl⟩
  | spec :: rest, s => by
    unfold Mediator.verifyFrom
    split
    · exact verifyFrom_state m output rest s
    split
    · exact ⟨rfl, rfl⟩
    · dsimp only
      split
      · exact verifyFrom_state m output rest _
      · exact ⟨rfl, rfl⟩

theorem effect_of_sem {c : Call} {r : Reply c} (h : Sem m c s r s') : Effect m s s' := by
  cases c with
  | callLlm messages =>
    obtain ⟨elapsed, answer, h⟩ := h
    exact callLlm_effect h
  | callTool name args =>
    obtain ⟨elapsed, answer, h⟩ := h
    exact callTool_effect h
  | verify output =>
    have hstate := verifyFrom_state m output m.guardrails s
    have hs' : (m.verifyFrom output m.guardrails s).2 = s' := congrArg Prod.snd h
    rw [hs'] at hstate
    exact .idle hstate.1 (by rw [hstate.2])
  | checkBudget =>
    obtain ⟨elapsed, h⟩ := h
    obtain ⟨u, s₁, hc, hh, hs⟩ | ⟨s₁, hc, hh, hs, -⟩ := checkBudget_cases m s elapsed
    · cases hc.symm.trans h
      exact .refused u hh hs
    · cases hc.symm.trans h
      exact .idle hh hs
  | usage =>
    obtain ⟨_, -, rfl⟩ := h
    exact .idle rfl rfl
  | emit event =>
    obtain rfl := h
    exact .idle rfl rfl
  | yielded item =>
    cases item <;>
    · obtain rfl := h
      exact .idle rfl rfl

/-! ## The step budget -/

/-- The completions and tool implementations invoked. -/
def Run.work (s : Run) : Nat := (s.history.filter Happening.isWork).length

/-- No completion and no tool implementation was invoked after one that raised. -/
def Run.Unretried (s : Run) : Prop :=
  s.history.Pairwise fun w w' => w.raised = true → w'.isWork = false

/-- Every invocation was debited, up to one that raised, and none was begun on a spent budget. -/
structure Metered (m : Mediator) (s : Run) : Prop where
  debited : s.Unretried → (s.work : Int) ≤ s.usage.steps ∨
    (∃ w ∈ s.history, w.raised = true) ∧ (s.work : Int) ≤ m.budget.maxSteps
  within : s.usage.steps ≤ max m.budget.maxSteps 0

theorem Run.Unretried.invoke {w : Happening} (hw : w.isWork = true)
    (hh : s'.history = s.history ++ [w]) (h : s'.Unretried) :
    s.Unretried ∧ (¬ ∃ w ∈ s.history, w.raised = true) ∧ s'.work = s.work + 1 := by
  rw [Run.Unretried, hh, pairwise_append] at h
  refine ⟨h.1, ?_, by simp [Run.work, hh, hw]⟩
  rintro ⟨v, hv, hr⟩
  have := h.2.2 v hv w mem_cons_self hr
  rw [hw] at this
  cases this

theorem Metered.step (h : Effect m s s') (hs : Metered m s) : Metered m s' := by
  obtain ⟨hd, hlim⟩ := hs
  cases h with
  | idle hh hsteps => exact ⟨by rwa [Run.Unretried, Run.work, hh, hsteps], by rwa [hsteps]⟩
  | refused u hh hsteps =>
    refine ⟨fun hun => ?_, by rwa [hsteps]⟩
    have hwork : s'.work = s.work := by simp [Run.work, hh, Happening.isWork]
    rw [Run.Unretried, hh, pairwise_append] at hun
    rw [hwork, hh, hsteps]
    refine (hd hun.1).imp_right ?_
    rintro ⟨⟨w, hw, hr⟩, hle⟩
    exact ⟨⟨w, mem_append_left _ hw, hr⟩, hle⟩
  | raised w hw hr hh hlt hsteps =>
    refine ⟨fun hun => .inr ⟨⟨w, by simp [hh], hr⟩, ?_⟩, by rwa [hsteps]⟩
    obtain ⟨hun, hnone, hwork⟩ := hun.invoke hw hh
    have := (hd hun).resolve_right fun h => hnone h.1
    omega
  | worked w hw hr hh hlt hsteps =>
    refine ⟨fun hun => .inl ?_, by rw [hsteps]; omega⟩
    obtain ⟨hun, hnone, hwork⟩ := hun.invoke hw hh
    have := (hd hun).resolve_right fun h => hnone h.1
    omega
  | stepped hh hlt hsteps =>
    refine ⟨fun hun => ?_, by rw [hsteps]; omega⟩
    rw [Run.Unretried, hh] at hun
    rw [Run.work, hh, hsteps]
    exact (hd hun).imp_left fun h => h.trans (by omega)

theorem metered_of_steps {strategy p : Strategy} {task : String}
    (h : Prog.Steps (Sem m) strategy (start m task) p s) : Metered m s := by
  refine h.invariant (fun c s r s' hc hs => hs.step (effect_of_sem hc)) ?_
  exact ⟨fun _ => .inl (by simp [start, Run.work]), by simp [start]⟩

theorem finish_history (m : Mediator) (ending : Ending) (s : Run) (elapsed : Int) :
    (finish m ending s elapsed).2.history = s.history := by
  have hhandle : ∀ e s, (handle e s elapsed).2.history = s.history := by
    intro e s
    cases e <;> rfl
  unfold finish
  split
  · exact hhandle _ _
  next result _ =>
    have hstate := (verifyFrom_state m result.content m.guardrails s).1
    split
    · next e s₁ hv =>
        rw [hhandle, ← hstate]
        exact congrArg (fun p => Run.history p.2) hv.symm
    next g s₁ hv =>
      have hs₁ : s₁.history = s.history := by
        rw [← hstate]
        exact congrArg (fun p => Run.history p.2) hv.symm
      split <;> simpa using hs₁

/-- **The step budget bounds the work**, for every strategy, as long as no completion and no tool
implementation of the run is invoked after one that raised. -/
theorem work_le_max_steps (m : Mediator) (strategy : Strategy) (task : String) (s : Run)
    (hbudget : 0 ≤ m.budget.maxSteps) (hrun : During m strategy task s) (hraised : s.Unretried) :
    (s.work : Int) ≤ m.budget.maxSteps := by
  have hmetered : ∀ {s}, Metered m s → s.Unretried → (s.work : Int) ≤ m.budget.maxSteps := by
    intro s hs hun
    have := hs.within
    rcases hs.debited hun with h | h <;> omega
  cases hrun with
  | strategy h => exact hmetered (metered_of_steps h) hraised
  | @finish ending s elapsed h =>
    rw [Run.Unretried, finish_history] at hraised
    rw [Run.work, finish_history]
    exact hmetered (metered_of_steps h.steps) hraised

def Mediator.withSteps (steps : Int) (guardrails : List GuardrailSpec)
    (checks : String → Option (Value → Except Exc Bool)) : Mediator where
  budget := ⟨1000, .fin 1, 60000, steps⟩
  guardrails := guardrails
  tools := []
  toolImpls := []
  guardrailChecks := checks
  strategyId := "core/test"
  recordPrompts := true

/-- A strategy that calls the model `n` times, whatever it replies. -/
def calling : Nat → Strategy
  | 0 => .ret (.returned ⟨.null, "completed"⟩)
  | n + 1 => .op (.callLlm []) fun _ => calling n

def oneStep : Mediator := .withSteps 1 [] fun _ => none

/-- Two calls under a budget of two steps, of which the second raised. -/
def calledTwice : Run :=
  ((Mediator.withSteps 2 [] fun _ => none).callLlm ((Mediator.withSteps 2 [] fun _ => none).callLlm
    (start (.withSteps 2 [] fun _ => none) "t") [] 0 (.ok ⟨.str "hi", 3, 4, .fin 0⟩)).2 [] 0
    (.error (.exception "TimeoutError" ""))).2

theorem work_le_max_steps_raised :
    calledTwice.history = [.completion false, .completion true] ∧ (calledTwice.work : Int) ≤ 2 :=
  ⟨by decide +kernel,
    work_le_max_steps (.withSteps 2 [] fun _ => none) (calling 2) "t" calledTwice (by decide)
      (.strategy (.op ⟨0, .ok ⟨.str "hi", 3, 4, .fin 0⟩, rfl⟩
        (.op ⟨0, .error (.exception "TimeoutError" ""), rfl⟩ .refl)))
      (by unfold Run.Unretried; decide +kernel)⟩

theorem calling_steps {e : Exc} (n : Nat) :
    ∀ {s : Run}, s.usage.exceeds m.budget = false → s.usage.wallClockMs = 0 →
      ∃ s', Prog.Steps (Sem m) (calling n) s (calling 0) s' ∧ s'.work = s.work + n := by
  induction n with
  | zero => exact fun {s} _ _ => ⟨s, .refl, rfl⟩
  | succ n ih =>
    intro s hs ht
    have hu : ({ s.usage with wallClockMs := 0 } : Usage) = s.usage := by
      rw [← ht]
    have hcall : m.callLlm s [] 0 (.error e)
        = (.error e, ({ s with usage := s.usage } : Run).did (.completion true)) := by
      simp [Mediator.callLlm, Mediator.checkBudget, hu, hs]
    obtain ⟨s', hsteps, hwork⟩ := @ih (({ s with usage := s.usage } : Run).did
      (.completion true)) hs ht
    refine ⟨s', .op ⟨0, .error e, hcall⟩ hsteps, ?_⟩
    have hone : (s.did (.completion true)).work = s.work + 1 := by
      rw [Run.work, Run.work, Run.did, filter_append, length_append]
      rfl
    rw [hwork]
    change (s.did (.completion true)).work + n = _
    omega

/-- Under a budget of one step, a strategy that swallows the provider's errors makes any number
of calls. -/
theorem exists_calling (n : Nat) : ∃ s, During oneStep (calling n) "t" s ∧ s.work = n := by
  obtain ⟨s, hsteps, hwork⟩ := calling_steps (m := oneStep) (e := .exception "TimeoutError" "") n
    (s := start oneStep "t") (by decide +kernel) rfl
  exact ⟨s, .strategy hsteps, by rw [hwork]; simp [start, Run.work]⟩

theorem retry_goes_on :
    oneStep.budget.maxSteps = 1 ∧ ∃ s, During oneStep (calling 2) "t" s ∧ s.work = 2 :=
  ⟨rfl, exists_calling 2⟩

/-! ## Verification -/

def GuardrailSpec.Passes (m : Mediator) (output : Value) (spec : GuardrailSpec) : Prop :=
  ∀ check, m.guardrailChecks spec.id = some check → check output = .ok true

/-- Of the guardrails `specs`, in their order, `spec` is the first that does not pass: its check
fails or raises. -/
def FirstUnpassed (m : Mediator) (output : Value) (specs : List GuardrailSpec)
    (spec : GuardrailSpec) (verdict : Except Exc Bool) : Prop :=
  ∃ before after check, specs = before ++ spec :: after ∧
    (∀ g ∈ before, g.Passes m output) ∧
    m.guardrailChecks spec.id = some check ∧ check output = verdict ∧ verdict ≠ .ok true

def GuardrailSpec.violated (spec : GuardrailSpec) : GuardrailResult where
  guardrailId := spec.id
  passed := false
  action := some spec.onViolation
  message := "guardrail '" ++ spec.id ++ "' violated"

section

variable {m : Mediator} {output : Value} {spec : GuardrailSpec} {rest : List GuardrailSpec}
  {s : Run}

theorem verifyFrom_of_passes (rest : List GuardrailSpec) (s : Run) (h : spec.Passes m output) :
    ∃ s', (m.verifyFrom output (spec :: rest) s).1 = (m.verifyFrom output rest s').1 := by
  rcases hc : m.guardrailChecks spec.id with _ | check
  · exact ⟨s, by rw [Mediator.verifyFrom, hc]⟩
  · refine ⟨s.emitNamed "reasoning.guardrail.evaluated" [("guardrail", .str spec.id),
      ("passed", .bool true), ("action", .str spec.onViolation.text)], ?_⟩
    simp only [Mediator.verifyFrom, hc, h check hc]
    rfl

theorem verifyFrom_of_unpassed {check : Value → Except Exc Bool}
    (hc : m.guardrailChecks spec.id = some check) (hne : check output ≠ .ok true) :
    (m.verifyFrom output (spec :: rest) s).1 = (check output).map fun _ => spec.violated := by
  rcases ho : check output with e | passed
  · simp only [Mediator.verifyFrom, hc, ho]
    rfl
  · cases passed with
    | true => exact absurd ho hne
    | false => simp [Mediator.verifyFrom, hc, ho, GuardrailSpec.violated, Except.map]

theorem verifyFrom_first {verdict : Except Exc Bool} : ∀ {specs : List GuardrailSpec} {s : Run},
    FirstUnpassed m output specs spec verdict →
      (m.verifyFrom output specs s).1 = verdict.map fun _ => spec.violated := by
  rintro specs s ⟨before, after, check, rfl, hbefore, hc, rfl, hne⟩
  induction before generalizing s with
  | nil => exact verifyFrom_of_unpassed hc hne
  | cons g before ih =>
    obtain ⟨hg, hbefore⟩ := forall_mem_cons.mp hbefore
    obtain ⟨s', hs'⟩ := verifyFrom_of_passes (before ++ spec :: after) s hg
    exact hs'.trans (ih hbefore)

theorem verifyFrom_passed : ∀ {specs : List GuardrailSpec} {s : Run},
    (∀ g ∈ specs, g.Passes m output) →
      (m.verifyFrom output specs s).1 = .ok { guardrailId := "", passed := true } := by
  intro specs
  induction specs with
  | nil => exact fun _ => rfl
  | cons g specs ih =>
    intro s h
    obtain ⟨hg, hspecs⟩ := forall_mem_cons.mp h
    obtain ⟨s', hs'⟩ := verifyFrom_of_passes specs s hg
    exact hs'.trans (ih hspecs)

theorem passes_or_first (m : Mediator) (output : Value) (specs : List GuardrailSpec) :
    (∀ g ∈ specs, g.Passes m output) ∨
      ∃ spec verdict, FirstUnpassed m output specs spec verdict := by
  induction specs with
  | nil => exact .inl (by simp)
  | cons g specs ih =>
    by_cases hg : g.Passes m output
    · rcases ih with h | ⟨spec, verdict, before, after, check, rfl, hbefore, hrest⟩
      · exact .inl (forall_mem_cons.mpr ⟨hg, h⟩)
      · exact .inr ⟨spec, verdict, g :: before, after, check, rfl,
          forall_mem_cons.mpr ⟨hg, hbefore⟩, hrest⟩
    · simp only [GuardrailSpec.Passes, not_forall] at hg
      obtain ⟨check, hc, hne⟩ := hg
      exact .inr ⟨g, check output, [], specs, check, rfl, by simp, hc, rfl, hne⟩

theorem FirstUnpassed.not_passes {specs : List GuardrailSpec} {verdict : Except Exc Bool}
    (h : FirstUnpassed m output specs spec verdict) : spec ∈ specs ∧ ¬ spec.Passes m output := by
  obtain ⟨before, after, check, rfl, -, hc, rfl, hne⟩ := h
  exact ⟨by simp, fun hp => hne (hp check hc)⟩

theorem FirstUnpassed.eq_false {specs : List GuardrailSpec} {b : Bool}
    (h : FirstUnpassed m output specs spec (.ok b)) : b = false := by
  obtain ⟨_, _, _, _, _, _, _, hne⟩ := h
  simpa using hne

theorem FirstUnpassed.unique {spec' : GuardrailSpec} {verdict verdict' : Except Exc Bool}
    {specs : List GuardrailSpec} (h : FirstUnpassed m output specs spec verdict)
    (h' : FirstUnpassed m output specs spec' verdict') : spec = spec' ∧ verdict = verdict' := by
  obtain ⟨before, after, check, rfl, hb, hc, rfl, hne⟩ := h
  obtain ⟨before', after', check', heq, hb', hc', rfl, hne'⟩ := h'
  -- were one of them further down, the other would be among those that pass before it
  obtain ⟨_ | ⟨g, gs⟩, rfl, htail⟩ | ⟨_ | ⟨g, gs⟩, rfl, htail⟩ := append_eq_append_iff.mp heq
  · obtain ⟨rfl, -⟩ := cons.inj htail
    obtain rfl := Option.some.inj (hc.symm.trans hc')
    exact ⟨rfl, rfl⟩
  · obtain ⟨rfl, -⟩ := cons.inj htail
    exact absurd (hb' _ (by simp) check hc) hne
  · obtain ⟨rfl, -⟩ := cons.inj htail
    obtain rfl := Option.some.inj (hc.symm.trans hc')
    exact ⟨rfl, rfl⟩
  · obtain ⟨rfl, -⟩ := cons.inj htail
    exact absurd (hb _ (by simp) check' hc') hne'

/-- No guardrail stands in the way: the first that does not pass, if any, fails with a warning. -/
def Lenient (m : Mediator) (output : Value) : Prop :=
  ∀ spec verdict, FirstUnpassed m output m.guardrails spec verdict →
    verdict = .ok false ∧ spec.onViolation = .warn

def GuardrailResult.stops (g : GuardrailResult) : Bool :=
  !g.passed && g.action.any OnViolation.blocks

theorem GuardrailSpec.violated_stops (spec : GuardrailSpec) :
    spec.violated.stops = spec.onViolation.blocks := by
  simp [GuardrailResult.stops, GuardrailSpec.violated]

theorem verify_cases (m : Mediator) (output : Value) (s : Run) :
    (Lenient m output ∧ ∃ g, (m.verify s output).1 = .ok g ∧ g.stops = false) ∨
    (∃ spec, FirstUnpassed m output m.guardrails spec (.ok false) ∧ spec.onViolation.blocks = true ∧
      ∃ g, (m.verify s output).1 = .ok g ∧ g.stops = true) ∨
    ∃ spec e, FirstUnpassed m output m.guardrails spec (.error e) ∧
      (m.verify s output).1 = .error e := by
  rcases passes_or_first m output m.guardrails with hall | ⟨spec, verdict, hfirst⟩
  · refine .inl ⟨fun spec verdict hf => ?_, _, verifyFrom_passed hall, rfl⟩
    obtain ⟨hmem, hno⟩ := hf.not_passes
    exact absurd (hall spec hmem) hno
  have hv := verifyFrom_first (s := s) hfirst
  rcases verdict with e | b
  · exact .inr (.inr ⟨spec, e, hfirst, hv⟩)
  obtain rfl := hfirst.eq_false
  by_cases hb : spec.onViolation.blocks = true
  · exact .inr (.inl ⟨spec, hfirst, hb, _, hv, spec.violated_stops.trans hb⟩)
  have hwarn : spec.onViolation = .warn := by
    cases h : spec.onViolation <;> simp_all [OnViolation.blocks]
  refine .inl ⟨fun spec' verdict' hf => ?_, _, hv, spec.violated_stops.trans (by simpa using hb)⟩
  obtain ⟨rfl, rfl⟩ := hfirst.unique hf
  exact ⟨rfl, hwarn⟩

end

section

variable {m : Mediator} {ending : Ending} {s : Run} {elapsed : Int} {out : StrategyOutput}

theorem finish_of_verify (elapsed : Int) {g : GuardrailResult} (hr : ending.result s = .ok out)
    (hv : (m.verify s out.content).1 = .ok g) :
    ∃ usage, (finish m ending s elapsed).1 = .ok ⟨out.content,
      if g.stops then .guardrailBlocked else StopReason.ofText out.stopReason, usage⟩ := by
  unfold finish
  rw [hr]
  dsimp only
  split
  · next e s₁ h =>
      rw [h] at hv
      cases hv
  next g' s₁ h =>
    rw [h] at hv
    cases hv
    unfold GuardrailResult.stops
    split <;> exact ⟨_, rfl⟩

theorem finish_of_verify_error (elapsed : Int) {e : Exc} (hr : ending.result s = .ok out)
    (hv : (m.verify s out.content).1 = .error e) :
    ∃ s', (finish m ending s elapsed).1 = (handle e s' elapsed).1 := by
  unfold finish
  rw [hr]
  dsimp only
  split
  · next e' s₁ h =>
      rw [h] at hv
      cases hv
      exact ⟨s₁, rfl⟩
  · next g' s₁ h =>
      rw [h] at hv
      cases hv

theorem finish_of_error {e : Exc} (hr : ending.result s = .error e) :
    (finish m ending s elapsed).1 = (handle e s elapsed).1 := by
  rw [finish, hr]

end

/-! ## Exhaustion -/

def ShowsExhaustion (answer : Except Exc ReasoningOutput) : Prop :=
  ∃ usage, answer = .ok ⟨.null, .budgetExhausted, usage⟩

/-- Some `check_budget` of the run has raised. -/
def Run.Refused (s : Run) : Prop := ∃ w ∈ s.history, w.isRefusal = true

/-- How a strategy must end for the engine to answer that the budget is exhausted: it lets a
`BudgetExceededError` through; or it says so itself, without content, and no guardrail stands in
the way; or the check that judges its output raises `BudgetExceededError`. -/
inductive Admits (m : Mediator) (ending : Ending) (s : Run) : Prop
  | letThrough (usage : Usage) (h : ending.result s = .error (.budgetExceeded usage))
  | reported (out : StrategyOutput) (h : ending.result s = .ok out) (hcontent : out.content = .null)
      (hstop : out.stopReason = "budget_exhausted") (hguard : Lenient m .null)
  | checkRaised (out : StrategyOutput) (spec : GuardrailSpec) (usage : Usage)
      (h : ending.result s = .ok out)
      (hguard : FirstUnpassed m out.content m.guardrails spec (.error (.budgetExceeded usage)))

theorem showsExhaustion_handle {e : Exc} {elapsed : Int} :
    ShowsExhaustion (handle e s elapsed).1 ↔ ∃ usage, e = .budgetExceeded usage := by
  cases e with
  | budgetExceeded usage => exact ⟨fun _ => ⟨usage, rfl⟩, fun _ => ⟨usage, rfl⟩⟩
  | guardrailBlocked _ | exception _ _ | base _ => simp [ShowsExhaustion, handle, finalize]

theorem ofText_eq_budgetExhausted {text : String} :
    StopReason.ofText text = .budgetExhausted ↔ text = "budget_exhausted" := by
  unfold StopReason.ofText
  split
  · simpa using ‹_›
  · split
    · simp_all
    · split <;> simp_all

theorem showsExhaustion_iff_admits (m : Mediator) (ending : Ending) (s : Run) (elapsed : Int) :
    ShowsExhaustion (finish m ending s elapsed).1 ↔ Admits m ending s := by
  rcases hr : ending.result s with e | out
  · rw [finish_of_error hr, showsExhaustion_handle]
    constructor
    · rintro ⟨usage, rfl⟩
      exact .letThrough usage hr
    · rintro (⟨usage, h⟩ | ⟨out, h⟩ | ⟨out, _, _, h⟩)
      · exact ⟨usage, by cases hr.symm.trans h; rfl⟩
      · cases hr.symm.trans h
      · cases hr.symm.trans h
  · have hout : ∀ {out'}, ending.result s = .ok out' → out' = out := fun h => by
      cases hr.symm.trans h
      rfl
    obtain ⟨hlen, g, hv, hg⟩ | ⟨spec, hfirst, hblocks, g, hv, hg⟩ | ⟨spec, e, hfirst, hv⟩ :=
      verify_cases m out.content s
    · obtain ⟨usage, hfin⟩ := finish_of_verify elapsed hr hv
      rw [hfin, hg]
      constructor
      · rintro ⟨usage', h⟩
        simp only [Bool.false_eq_true, if_false, Except.ok.injEq, ReasoningOutput.mk.injEq] at h
        exact .reported out hr h.1 (ofText_eq_budgetExhausted.mp h.2.1) (h.1 ▸ hlen)
      rintro (⟨_, h⟩ | ⟨_, h, hc, hs, -⟩ | ⟨_, _, _, h, hf⟩)
      · cases hr.symm.trans h
      · obtain rfl := hout h
        refine ⟨usage, ?_⟩
        rw [hc, ofText_eq_budgetExhausted.mpr hs]
        rfl
      · obtain rfl := hout h
        cases (hlen _ _ hf).1
    · obtain ⟨usage, hfin⟩ := finish_of_verify elapsed hr hv
      rw [hfin, hg]
      constructor
      · rintro ⟨usage', h⟩
        simp at h
      rintro (⟨_, h⟩ | ⟨_, h, hc, -, hlen⟩ | ⟨_, _, _, h, hf⟩)
      · cases hr.symm.trans h
      · obtain rfl := hout h
        rw [hc] at hfirst
        rw [(hlen _ _ hfirst).2] at hblocks
        cases hblocks
      · obtain rfl := hout h
        cases (hfirst.unique hf).2
    · obtain ⟨s', hfin⟩ := finish_of_verify_error elapsed hr hv
      rw [hfin, showsExhaustion_handle]
      constructor
      · rintro ⟨usage, rfl⟩
        exact .checkRaised out spec usage hr hfirst
      rintro (⟨_, h⟩ | ⟨_, h, hc, -, hlen⟩ | ⟨_, _, usage, h, hf⟩)
      · cases hr.symm.trans h
      · obtain rfl := hout h
        rw [hc] at hfirst
        cases (hlen _ _ hfirst).1
      · obtain rfl := hout h
        exact ⟨usage, by cases (hfirst.unique hf).2; rfl⟩

/-- **When exhaustion shows.**  A strategy whose calls may be refused is always answered as
exhausted exactly if, after a refusal, it always ends in one of the ways that admit it. -/
theorem exhaustion_shows_iff (m : Mediator) (strategy : Strategy) (task : String) :
    (∀ ending s elapsed, Prog.Exec (Sem m) strategy (start m task) ending s → s.Refused →
      ShowsExhaustion (finish m ending s elapsed).1) ↔
    ∀ ending s, Prog.Exec (Sem m) strategy (start m task) ending s → s.Refused →
      Admits m ending s := by
  constructor
  · intro h ending s hrun href
    exact (showsExhaustion_iff_admits m ending s 0).mp (h ending s 0 hrun href)
  · intro h ending s elapsed hrun href
    exact (showsExhaustion_iff_admits m ending s elapsed).mpr (h ending s hrun href)

/-- A strategy that answers whatever the model call does, the refusal included. -/
def answering : Strategy := .op (.callLlm []) fun _ => .ret (.returned ⟨.str "done", "completed"⟩)

/-- A budget without steps refuses the call, and the run is answered as completed. -/
theorem refusal_swallowed :
    ∃ ending s, Prog.Exec (Sem (.withSteps 0 [] fun _ => none)) answering
        (start (.withSteps 0 [] fun _ => none) "t") ending s ∧ s.Refused ∧
      (finish (.withSteps 0 [] fun _ => none) ending s 5).1.toOption.map
        (fun out => (out.content, out.stopReason)) = some (.str "done", .completed) := by
  refine ⟨_, _, .op ⟨0, .error (.base "none"), rfl⟩ .ret, ?_, by decide +kernel⟩
  exact ⟨_, mem_append_right _ (mem_singleton.mpr rfl), rfl⟩

/-! ## Guardrails -/

def BlockingFails (m : Mediator) (output : Value) : Prop :=
  ∃ spec ∈ m.guardrails, spec.onViolation.blocks = true ∧
    ∃ check, m.guardrailChecks spec.id = some check ∧ check output = .ok false

def ShowsBlocked (answer : Except Exc ReasoningOutput) : Prop :=
  ∃ content usage, answer = .ok ⟨content, .guardrailBlocked, usage⟩

theorem showsBlocked_handle {e : Exc} {elapsed : Int} :
    ShowsBlocked (handle e s elapsed).1 ↔ ∃ usage, e = .guardrailBlocked usage := by
  cases e with
  | guardrailBlocked usage => exact ⟨fun _ => ⟨usage, rfl⟩, fun _ => ⟨.null, usage, rfl⟩⟩
  | budgetExceeded _ | exception _ _ | base _ => simp [ShowsBlocked, handle, finalize]

theorem ofText_eq_guardrailBlocked {text : String} :
    StopReason.ofText text = .guardrailBlocked ↔ text = "guardrail_blocked" := by
  unfold StopReason.ofText
  split
  · simp_all
  · split
    · simp_all
    · split <;> simp_all

/-- **When a failing guardrail that blocks, blocks.**  Let some guardrail that blocks fail on the
strategy's output.  The run ends blocked exactly if the first guardrail that does not pass fails
and blocks, or fails with a warning while the strategy itself says the run is blocked, or raises
`GuardrailBlockedError`. -/
theorem blocked_iff (m : Mediator) (ending : Ending) (s : Run) (elapsed : Int)
    (out : StrategyOutput) (hr : ending.result s = .ok out) (hfails : BlockingFails m out.content) :
    ShowsBlocked (finish m ending s elapsed).1 ↔
      ∃ spec verdict, FirstUnpassed m out.content m.guardrails spec verdict ∧
        (verdict = .ok false ∧
            (spec.onViolation.blocks = true ∨ out.stopReason = "guardrail_blocked") ∨
          ∃ usage, verdict = .error (.guardrailBlocked usage)) := by
  obtain ⟨spec₀, hmem, -, check₀, hc₀, hv₀⟩ := hfails
  obtain ⟨spec, verdict, hfirst⟩ : ∃ spec verdict,
      FirstUnpassed m out.content m.guardrails spec verdict := by
    refine (passes_or_first m out.content m.guardrails).resolve_left fun hall => ?_
    cases hv₀.symm.trans (hall spec₀ hmem check₀ hc₀)
  have honly : ∀ P : GuardrailSpec → Except Exc Bool → Prop,
      (∃ spec verdict, FirstUnpassed m out.content m.guardrails spec verdict ∧ P spec verdict) ↔
        P spec verdict := fun P => by
    constructor
    · rintro ⟨spec', verdict', hf, hP⟩
      obtain ⟨rfl, rfl⟩ := hfirst.unique hf
      exact hP
    · exact fun hP => ⟨spec, verdict, hfirst, hP⟩
  rw [honly]
  have hv := verifyFrom_first (s := s) hfirst
  rcases verdict with e | b
  · obtain ⟨s', hfin⟩ := finish_of_verify_error elapsed hr hv
    rw [hfin, showsBlocked_handle]
    simp
  obtain rfl := hfirst.eq_false
  obtain ⟨usage, hfin⟩ := finish_of_verify elapsed hr hv
  rw [hfin, spec.violated_stops, ← ofText_eq_guardrailBlocked]
  by_cases hb : spec.onViolation.blocks = true
  · simp [ShowsBlocked, hb]
  · simp [ShowsBlocked, hb]

/-- A policy that warns about tone and blocks secrets, with checks that fail on everything. -/
def warnThenBlock : Mediator :=
  .withSteps 1 [⟨"tone", .warn⟩, ⟨"secrets", .block⟩] fun _ => some fun _ => .ok false

/-- The warning hides the guardrail behind it: the run is answered as completed. -/
theorem warning_hides_block :
    BlockingFails warnThenBlock (.str "key") ∧
    (finish warnThenBlock (.returned ⟨.str "key", "completed"⟩) (start warnThenBlock "t")
      0).1.toOption.map (fun out => (out.content, out.stopReason))
      = some (.str "key", .completed) :=
  ⟨⟨⟨"secrets", .block⟩, by decide +kernel, rfl, _, rfl, rfl⟩, by decide +kernel⟩

/-- The same two guardrails in the other order. -/
def blockThenWarn : Mediator :=
  .withSteps 1 [⟨"secrets", .block⟩, ⟨"tone", .warn⟩] fun _ => some fun _ => .ok false

theorem blocked_iff_secrets :
    ShowsBlocked (finish blockThenWarn (.returned ⟨.str "key", "completed"⟩)
      (start blockThenWarn "t") 0).1 :=
  (blocked_iff blockThenWarn (.returned ⟨.str "key", "completed"⟩) (start blockThenWarn "t") 0
    ⟨.str "key", "completed"⟩ rfl ⟨⟨"secrets", .block⟩, by decide +kernel, rfl, _, rfl, rfl⟩).mpr
    ⟨⟨"secrets", .block⟩, .ok false, ⟨[], [⟨"tone", .warn⟩], _, rfl, by simp, rfl, rfl, by simp⟩,
      .inl ⟨rfl, .inl rfl⟩⟩

end AutoDev.Reasoning
