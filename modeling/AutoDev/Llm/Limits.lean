/-
# `AutoDev.Llm.Limits` — does the gateway stop spending?

Every provider call is preceded by the check of the CALL limit; the TOKEN and
COST limits are checked after a response, in `enforce_usage_limits`.  In
`complete` that check stands behind the timeout check: a response that came late
is accounted and rejected as a timeout, and where the policy recovers from
timeouts the next call goes out over a budget already exceeded
(`late_response_spends_on`).
-/
import AutoDev.Llm.Gateway

namespace AutoDev.Llm

open List

open AutoDev.Flows

/-! ## The property -/

def callBudgets (trace : List Event) : List GatewayBudget :=
  trace.filterMap fun
    | .called _ _ accounted => some accounted
    | _ => none

/-- No provider call is issued over a limit, and no more of them than the limit allows. -/
structure Within (limits : ModelLimits) (trace : List Event) : Prop where
  unspent : ∀ b ∈ callBudgets trace, limits.exceeded b = false
  count : ∀ n ∈ limits.maxCalls, ((callBudgets trace).length : Int) ≤ n

structure ModelLimits.NonNegative (limits : ModelLimits) : Prop where
  calls : ∀ n ∈ limits.maxCalls, 0 ≤ n
  tokens : ∀ n ∈ limits.maxTotalTokens, 0 ≤ n
  cost : ∀ x ∈ limits.maxCostUsd, x.lt (.fin 0) = false

@[simp] theorem callBudgets_append (t t' : List Event) :
    callBudgets (t ++ t') = callBudgets t ++ callBudgets t' :=
  filterMap_append

theorem callBudgets_eq_nil {t : List Event} (h : ∀ e ∈ t, ∀ a target b, e ≠ .called a target b) :
    callBudgets t = [] := by
  rw [callBudgets, filterMap_eq_nil_iff]
  intro e he
  cases e with
  | called a target b => exact absurd rfl (h _ he a target b)
  | _ => rfl

@[simp] theorem callBudgets_recorded (t : AttemptTelemetry) (trace : List Event) :
    callBudgets (.recorded t :: trace) = callBudgets trace := rfl

@[simp] theorem callBudgets_nil : callBudgets [] = [] := rfl

/-- Between two attempts: the calls so far kept the limits, and the accounts are within them. -/
structure Unspent (limits : ModelLimits) (s : Coordinator) : Prop where
  within : Within limits s.trace
  accounts : limits.exceeded s.budget = false
  calls : s.budget.calls = (callBudgets s.trace).length

section

variable {limits : ModelLimits} {s s₁ : Coordinator} {item : PreparedTarget}

theorem unspent_start (h : limits.NonNegative) : Unspent limits {} where
  within := ⟨by simp [callBudgets], fun n hn => by simpa [callBudgets] using h.calls n hn⟩
  accounts := by
    simp only [ModelLimits.exceeded, Bool.or_eq_false_iff, Option.any_eq_false]
    exact ⟨fun n hn => by simpa using h.tokens n hn, fun x hx => by simpa using h.cost x hx⟩
  calls := rfl

theorem within_nil (h : limits.NonNegative) : Within limits [] :=
  (unspent_start h).within

theorem Unspent.record (h : Unspent limits s) (t : AttemptTelemetry) :
    Unspent limits (s.record t) where
  within :=
    ⟨by simpa [Coordinator.record, Coordinator.log] using h.within.unspent,
      by simpa [Coordinator.record, Coordinator.log] using h.within.count⟩
  accounts := h.accounts
  calls := by simpa [Coordinator.record, Coordinator.log] using h.calls

theorem Unspent.reject (h : Unspent limits s) (item : PreparedTarget) :
    Unspent limits (s.reject item) := by
  have hlogged : Unspent limits ({ s with attemptNumber := s.attemptNumber + 1 }.log
      (.rejected (s.attemptNumber + 1) item.target)) := by
    refine ⟨⟨?_, ?_⟩, h.accounts, ?_⟩
    · simpa [Coordinator.log, callBudgets] using h.within.unspent
    · simpa [Coordinator.log, callBudgets] using h.within.count
    · simpa [Coordinator.log, callBudgets] using h.calls
  exact hlogged.record _

theorem Unspent.admitted (h : Unspent limits s) (ha : s.admitCall limits item = .ok s₁) :
    Unspent limits s₁ := by
  obtain ⟨hreach, rfl⟩ := Coordinator.admitCall_eq_ok.mp ha
  refine ⟨⟨?_, ?_⟩, h.accounts, ?_⟩
  · intro b hb
    simp only [Coordinator.admitted, Coordinator.log, callBudgets_append, mem_append] at hb
    rcases hb with hb | hb
    · exact h.within.unspent b hb
    · rw [mem_singleton.mp hb]
      exact h.accounts
  · intro n hn
    have hlt : ¬ n ≤ (s.budget.calls : Int) := by
      intro hle
      rw [ModelLimits.callsReached, Option.any_eq_false] at hreach
      exact absurd hle (by simpa using hreach n hn)
    rw [h.calls] at hlt
    simp only [Coordinator.admitted, Coordinator.log, callBudgets_append, length_append]
    have hone : (callBudgets [.called (s.attemptNumber + 1) item.target s.budget]).length = 1 := rfl
    omega
  · simp only [Coordinator.admitted, Coordinator.log, callBudgets_append, length_append,
      h.calls]
    rfl

end

variable {limits : ModelLimits} {config : ModelConfig} {s : Coordinator}

theorem exceeded_congr {b b' : GatewayBudget} (ht : b.tokens = b'.tokens)
    (hc : b.costUsd = b'.costUsd) : limits.exceeded b = limits.exceeded b' := by
  rw [ModelLimits.exceeded, ModelLimits.exceeded, ht, hc]

variable {error : GatewayError} {cost : PyFloat} {usage : TokenUsage}
    {prepared : List PreparedTarget}

/-- A failed attempt is retried or fallen back from only where the policy names its code. -/
theorem decideFailure_recovers {left : Nat} {more emitted : Bool}
    (h : decideFailure config error left more emitted ≠ .fail) :
    error.isBudget = false ∧ emitted = false ∧ error.code ∈ config.fallbackOn := by
  unfold decideFailure at h
  split at h
  · exact absurd rfl h
  next hb =>
    split at h
    · exact absurd rfl h
    next he =>
      refine ⟨Bool.eq_false_iff.mpr hb, Bool.eq_false_iff.mpr he, ?_⟩
      split at h
      · next hr => exact hr.1
      · split at h
        · next hf => exact hf.1
        · exact absurd rfl h

theorem keeps_failed {ρ : Type} {Ready : Coordinator → Prop}
    {Final : Except Failure ρ → Coordinator → Prop} {left : Nat} {more emitted : Bool}
    (hfinal : Final (.error (.gateway error)) s)
    (hready : error.isBudget = false → emitted = false → error.code ∈ config.fallbackOn → Ready s) :
    (AttemptEnd.failed (decideFailure config error left more emitted) error).Keeps Ready Final
      s := by
  have hrec (hne : decideFailure config error left more emitted ≠ .fail) : Ready s := by
    obtain ⟨hb, he, hc⟩ := decideFailure_recovers hne
    exact hready hb he hc
  rcases ho : decideFailure config error left more emitted with _ | _ | _
  · exact hrec (by simp [ho])
  · exact hrec (by simp [ho])
  · exact hfinal

theorem callBudgets_yields (s : Coordinator) (chunks : List StreamChunk) :
    callBudgets (s.yields chunks).trace = callBudgets s.trace := by
  have hnone : callBudgets (chunks.map (Event.yielded s.attemptNumber)) = [] := by
    refine callBudgets_eq_nil fun e he a target b => ?_
    obtain ⟨c, -, rfl⟩ := mem_map.mp he
    simp
  rw [Coordinator.yields, callBudgets_append, hnone, append_nil]

theorem Within.yields (h : Within limits s.trace) (chunks : List StreamChunk) :
    Within limits (s.yields chunks).trace :=
  ⟨by rw [callBudgets_yields]; exact h.unspent, by rw [callBudgets_yields]; exact h.count⟩

theorem Unspent.yields (h : Unspent limits s) (chunks : List StreamChunk) :
    Unspent limits (s.yields chunks) :=
  ⟨h.within.yields chunks, h.accounts, by rw [callBudgets_yields]; exact h.calls⟩

section Operations

variable [FloatSum]

theorem Within.accounted {t : AttemptTelemetry} (h : Within limits s.trace) :
    Within limits ((s.account usage cost).record t).trace :=
  ⟨by simpa [Coordinator.record, Coordinator.log, Coordinator.account] using h.unspent,
    by simpa [Coordinator.record, Coordinator.log, Coordinator.account] using h.count⟩

theorem Unspent.accounted {t : AttemptTelemetry} (h : Unspent limits s)
    (hb : limits.exceeded (s.budget.account usage cost) = false) :
    Unspent limits ((s.account usage cost).record t) :=
  ⟨h.within.accounted, hb, by
    simpa [Coordinator.record, Coordinator.log, Coordinator.account, GatewayBudget.account]
      using h.calls⟩

/-! ## `complete` -/

def LateOver (config : ModelConfig) (answers : Nat → Answer) : Event → Prop
  | .called attempt target accounted =>
    ∃ response, (answers attempt).result = .ok response ∧
      target.late (answers attempt).durationMs = true ∧
      config.limits.exceeded (accounted.account response.usage response.cost) = true
  | _ => False

/-- The policy does not recover from timeouts, or no late response took the accounts over. -/
def NoLateOver (config : ModelConfig) (answers : Nat → Answer) (trace : List Event) : Prop :=
  ErrorCode.timeout ∉ config.fallbackOn ∨ ∀ e ∈ trace, ¬ LateOver config answers e

theorem NoLateOver.of_append {answers : Nat → Answer} {t t' : List Event}
    (h : NoLateOver config answers (t ++ t')) : NoLateOver config answers t :=
  h.imp id fun h e he => h e (mem_append_left _ he)

theorem completeAttempt_keeps (config : ModelConfig) (answers : Nat → Answer)
    (item : PreparedTarget) (more : Bool) (left : Nat) (s s₁ : Coordinator)
    (hs : NoLateOver config answers s.trace → Unspent config.limits s)
    (ha : s.admitCall config.limits item = .ok s₁) :
    (completeAttempt config answers item more left s₁).1.Keeps
      (fun s => NoLateOver config answers s.trace → Unspent config.limits s)
      (fun _ s => NoLateOver config answers s.trace → Within config.limits s.trace)
      (completeAttempt config answers item more left s₁).2 := by
  obtain ⟨-, hs₁⟩ := Coordinator.admitCall_eq_ok.mp ha
  have hadm : ∀ t, NoLateOver config answers (s₁.trace ++ t) → Unspent config.limits s₁ := by
    intro t hno
    refine (hs ?_).admitted ha
    rw [hs₁] at hno
    exact hno.of_append.of_append
  obtain ⟨-, -, h | ⟨error, t, h⟩⟩ | ⟨response, t, hres, ⟨hlate, h⟩ | ⟨-, h⟩ | h⟩ :=
    completeAttempt_cases config answers item more left s₁ <;> rw [h]
  · exact fun hno => (hadm [] (by simpa using hno)).within
  · exact keeps_failed (fun hno => ((hadm _ hno).record t).within)
      fun _ _ _ hno => (hadm _ hno).record t
  · refine keeps_failed (fun hno => (hadm _ hno).within.accounted) fun _ _ hcode hno => ?_
    refine (hadm _ hno).accounted (Bool.eq_false_iff.mpr fun hover => ?_)
    -- the call that is answered here is in the trace
    refine (hno.resolve_left fun h => h hcode) (.called s₁.attemptNumber item.target s.budget) ?_
      ⟨response, hres, hlate, ?_⟩
    · simp [hs₁, Coordinator.admitted, Coordinator.log, Coordinator.record, Coordinator.account]
    · rw [← hover, hs₁]
      exact exceeded_congr rfl rfl
  · exact fun hno => (hadm _ hno).within.accounted
  · exact fun hno => (hadm _ hno).within.accounted

theorem completePrepared_within {answers : Nat → Answer} (hlimits : config.limits.NonNegative)
    (hno : NoLateOver config answers (completePrepared config answers prepared).2.trace) :
    Within config.limits (completePrepared config answers prepared).2.trace := by
  refine operate_rule ?_ ?_ (completeAttempt_keeps config answers) prepared
    (fun _ => unspent_start hlimits) hno
  · exact fun s _ hs hno => (hs hno).within
  · intro item s hs hno
    refine (hs ?_).reject item
    exact hno.of_append.of_append

/-! ## `stream` -/

theorem streamAttempt_keeps (config : ModelConfig) (answers : Nat → StreamAnswer)
    (stop : Option Nat) (item : PreparedTarget) (more : Bool) (left : Nat) (s s₁ : Coordinator)
    (hs : Unspent config.limits s) (ha : s.admitCall config.limits item = .ok s₁) :
    (streamAttempt config answers stop item more left s₁).1.Keeps (Unspent config.limits)
      (fun _ s => Within config.limits s.trace)
      (streamAttempt config answers stop item more left s₁).2 := by
  have hs₁ := hs.admitted ha
  obtain ⟨j, seen, ⟨-, h⟩ | ⟨t, -, ⟨outcome, h⟩ | ⟨error, -, hzero, hsilent, h⟩⟩⟩ :=
    streamAttempt_cases config answers stop item more left s₁ <;> rw [h]
  · exact hs₁.within.yields _
  · exact (hs₁.within.yields _).accounted
  refine keeps_failed (hs₁.within.yields _).accounted fun hb he _ => ?_
  obtain rfl := hsilent hb (hzero he)
  refine (hs₁.yields _).accounted ?_
  rw [← hs₁.accounts]
  exact exceeded_congr
    (by simp [GatewayBudget.account, TokenUsage.totalTokens, Coordinator.yields])
    (by simp [GatewayBudget.account, Coordinator.yields, FloatSum.plus_zero])

theorem streamPrepared_within {answers : Nat → StreamAnswer} {stop : Option Nat}
    (hlimits : config.limits.NonNegative) :
    Within config.limits (streamPrepared config answers stop prepared).2.trace :=
  operate_rule (fun _ _ hs => hs.within) (fun item _ hs => hs.reject item)
    (streamAttempt_keeps config answers stop) prepared (unspent_start hlimits)

/-! ## Both -/

/-- **The gateway stops at its limits.**  No limit being negative, no provider call of a `stream`
is issued over a limit, whatever the providers and the consumer do; nor one of a `complete`, if the
policy does not recover from timeouts or no late response takes the accounts over a limit. -/
theorem calls_within_limits (registry : String → Option Provider) (config : ModelConfig)
    (required : List String) (hlimits : config.limits.NonNegative) :
    (∀ answers, NoLateOver config answers (complete registry config required answers).2.trace →
      Within config.limits (complete registry config required answers).2.trace) ∧
    ∀ answers stop,
      Within config.limits (stream registry config required answers stop).2.trace := by
  constructor
  · intro answers hno
    unfold complete at hno ⊢
    split
    · exact within_nil hlimits
    · next h =>
        rw [h] at hno
        exact completePrepared_within hlimits hno
  · intro answers stop
    unfold stream
    split
    · exact within_nil hlimits
    · split
      · exact within_nil hlimits
      · exact streamPrepared_within hlimits

end Operations

/-- One target with a timeout of one second and one retry, recovering from timeouts, and a ceiling
of 100 tokens. -/
def slowConfig (fallbackOn : List ErrorCode) : ModelConfig where
  primary := { provider := "p", name := "m", timeoutSeconds := some 1, retries := some 1 }
  fallbackOn := fallbackOn
  limits := { maxCalls := some 5, maxTotalTokens := some 100 }

/-- Every answer takes two seconds and 150 tokens. -/
def slowAnswers : Nat → Answer := fun _ =>
  { result := .ok ⟨"hi", ⟨50, 100⟩, .fin 0⟩, durationMs := 2000 }

def textProvider : String → Option Provider := fun _ => some ⟨fun _ => ["text"], true⟩

section Unrounded

open Unrounded

theorem calls_within_limits_slow :
    Within (slowConfig []).limits
      (complete textProvider (slowConfig []) ["text"] slowAnswers).2.trace :=
  (calls_within_limits textProvider (slowConfig []) ["text"]
    ⟨by decide +kernel, by decide +kernel, by decide +kernel⟩).1 slowAnswers
    (.inl (by decide +kernel))

/-- The first answer is late and takes the accounts over the ceiling; the second call goes out. -/
theorem late_response_spends_on :
    (callBudgets (complete textProvider (slowConfig [.timeout]) ["text"] slowAnswers).2.trace).map
        GatewayBudget.tokens = [0, 150] ∧
    ¬ Within (slowConfig [.timeout]).limits
      (complete textProvider (slowConfig [.timeout]) ["text"] slowAnswers).2.trace := by
  refine ⟨by decide +kernel, fun h => ?_⟩
  exact absurd h.unspent (by decide +kernel)

end Unrounded

end AutoDev.Llm
