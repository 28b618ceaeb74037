/-
# `AutoDev.Llm.Streams` — a stream is one attempt, and every attempt is recorded once

`_stream_prepared` is a generator with two loops and, inside them, `try`,
`except` and `finally` around the `yield`.  Before the first chunk an operation is
`Quiet`: every attempt so far has failed and has its record.  An attempt that
yields a chunk ends the operation.

The record of a failed attempt is made of the NORMALISED exception.  What is
raised there, and is no `TypeError`, leaves `decide_failure` before the record is
made; `finally` makes none either, since `recorded` is set by then
(`failure_without_record`).
-/
import AutoDev.Llm.Limits

namespace AutoDev.Llm

open AutoDev.Flows List

/-! ## What a trace says -/

def records (trace : List Event) : List AttemptTelemetry :=
  trace.filterMap fun
    | .recorded t => some t
    | _ => none

def yieldedChunks (trace : List Event) : List (Nat × StreamChunk) :=
  trace.filterMap fun
    | .yielded attempt chunk => some (attempt, chunk)
    | _ => none

def rejections (trace : List Event) : List ModelTarget :=
  trace.filterMap fun
    | .rejected _ target => some target
    | _ => none

def Event.isYield : Event → Bool
  | .yielded _ _ => true
  | _ => false

def Event.isCall : Event → Bool
  | .called _ _ _ => true
  | _ => false

/-- What a stream owes its consumer and its telemetry. -/
structure Governed (answers : Nat → StreamAnswer) (trace : List Event) : Prop where
  single : ∃ attempt j,
    yieldedChunks trace = ((answers attempt).chunks.take j).map (fun c => (attempt, c)) ∧
    (yieldedChunks trace ≠ [] → ∃ target accounted, .called attempt target accounted ∈ trace)
  numbers : (records trace).map AttemptTelemetry.attempt
    = range' 1 ((callBudgets trace).length + (rejections trace).length)
  codes : ∀ t ∈ (records trace).dropLast, t.errorCode ≠ none
  last : trace.Pairwise fun e e' => e.isYield = true → e'.isCall = false

@[simp] theorem records_append (t t' : List Event) : records (t ++ t') = records t ++ records t' :=
  filterMap_append

@[simp] theorem yieldedChunks_append (t t' : List Event) :
    yieldedChunks (t ++ t') = yieldedChunks t ++ yieldedChunks t' :=
  filterMap_append

@[simp] theorem rejections_append (t t' : List Event) :
    rejections (t ++ t') = rejections t ++ rejections t' :=
  filterMap_append

section

variable (attempt : Nat) (target : ModelTarget) (b : GatewayBudget) (t : AttemptTelemetry)
  (trace : List Event)

@[simp] theorem records_called : records (.called attempt target b :: trace) = records trace := rfl
@[simp] theorem records_rejected :
    records (.rejected attempt target :: trace) = records trace := rfl
@[simp] theorem records_recorded : records (.recorded t :: trace) = t :: records trace := rfl
@[simp] theorem records_nil : records [] = [] := rfl
@[simp] theorem yieldedChunks_called :
    yieldedChunks (.called attempt target b :: trace) = yieldedChunks trace := rfl
@[simp] theorem yieldedChunks_rejected :
    yieldedChunks (.rejected attempt target :: trace) = yieldedChunks trace := rfl
@[simp] theorem yieldedChunks_recorded :
    yieldedChunks (.recorded t :: trace) = yieldedChunks trace := rfl
@[simp] theorem yieldedChunks_nil : yieldedChunks [] = [] := rfl
@[simp] theorem rejections_called :
    rejections (.called attempt target b :: trace) = rejections trace := rfl
@[simp] theorem rejections_rejected :
    rejections (.rejected attempt target :: trace) = target :: rejections trace := rfl
@[simp] theorem rejections_recorded : rejections (.recorded t :: trace) = rejections trace := rfl
@[simp] theorem rejections_nil : rejections [] = [] := rfl
@[simp] theorem callBudgets_called :
    callBudgets (.called attempt target b :: trace) = b :: callBudgets trace := rfl
@[simp] theorem callBudgets_rejected :
    callBudgets (.rejected attempt target :: trace) = callBudgets trace := rfl

end

section

variable (attempt : Nat) (chunks : List StreamChunk)

@[simp] theorem records_yielded : records (chunks.map (.yielded attempt)) = [] := by
  simp [records]

@[simp] theorem rejections_yielded : rejections (chunks.map (.yielded attempt)) = [] := by
  simp [rejections]

@[simp] theorem callBudgets_yielded : callBudgets (chunks.map (.yielded attempt)) = [] := by
  simp [callBudgets]

@[simp] theorem yieldedChunks_yielded :
    yieldedChunks (chunks.map (.yielded attempt)) = chunks.map fun c => (attempt, c) := by
  simp [yieldedChunks, filterMap_map]

end

/-! ## Before the first chunk -/

/-- Every attempt so far has failed, and has its record; no chunk is out. -/
structure Quiet (s : Coordinator) : Prop where
  numbers : (records s.trace).map AttemptTelemetry.attempt = range' 1 s.attemptNumber
  count : (callBudgets s.trace).length + (rejections s.trace).length = s.attemptNumber
  codes : ∀ t ∈ records s.trace, t.errorCode ≠ none
  silent : yieldedChunks s.trace = []

theorem Quiet.no_yield {s : Coordinator} (h : Quiet s) : ∀ e ∈ s.trace, e.isYield = false := by
  intro e he
  cases e with
  | yielded attempt chunk =>
    have := filterMap_eq_nil_iff.mp h.silent _ he
    simp at this
  | _ => rfl

theorem pairwise_of_split {t t' : List Event} (h : ∀ e ∈ t, e.isYield = false)
    (h' : ∀ e ∈ t', e.isCall = false) :
    (t ++ t').Pairwise fun e e' => e.isYield = true → e'.isCall = false := by
  rw [pairwise_append]
  refine ⟨?_, ?_, fun e he e' _ hy => ?_⟩
  · exact pairwise_of_forall_mem_list fun e he e' _ hy => by rw [h e he] at hy; cases hy
  · exact pairwise_of_forall_mem_list fun e _ e' he' _ => h' e' he'
  · rw [h e he] at hy
    cases hy

theorem Quiet.governed {answers : Nat → StreamAnswer} {s : Coordinator} (h : Quiet s) :
    Governed answers s.trace where
  single := ⟨0, 0, by simp [h.silent], fun hne => absurd h.silent hne⟩
  numbers := by rw [h.numbers, h.count]
  codes := fun t ht => h.codes t (dropLast_subset _ ht)
  last := by
    rw [← append_nil s.trace]
    exact pairwise_of_split h.no_yield (by simp)

theorem Quiet.reject {s : Coordinator} (h : Quiet s) (item : PreparedTarget) :
    Quiet (s.reject item) where
  numbers := by
    simp [Coordinator.reject, Coordinator.record, Coordinator.log, h.numbers, range'_concat,
      Nat.add_comm]
  count := by
    have := h.count
    simp [Coordinator.reject, Coordinator.record, Coordinator.log]
    omega
  codes := by
    intro t ht
    simp only [Coordinator.reject, Coordinator.record, Coordinator.log, records_append,
      records_rejected, records_nil, append_nil, records_recorded, mem_append,
      mem_singleton] at ht
    rcases ht with ht | rfl
    · exact h.codes t ht
    · simp
  silent := by simp [Coordinator.reject, Coordinator.record, Coordinator.log, h.silent]

/-! ## One attempt -/

section Operations

variable [FloatSum]

section

variable {s : Coordinator} {item : PreparedTarget} {chunks : List StreamChunk} {usage : TokenUsage}
  {cost : PyFloat} {t : AttemptTelemetry}

theorem attempted_trace (s : Coordinator) (item : PreparedTarget) (chunks : List StreamChunk)
    (usage : TokenUsage) (cost : PyFloat) (t : AttemptTelemetry) :
    ((((s.admitted item).yields chunks).account usage cost).record t).trace
      = (s.trace ++ [.called (s.attemptNumber + 1) item.target s.budget]) ++
        (chunks.map (.yielded (s.attemptNumber + 1)) ++ [.recorded t]) := by
  simp [Coordinator.record, Coordinator.log, Coordinator.account, Coordinator.yields,
    Coordinator.admitted]

theorem Quiet.ended {answers : Nat → StreamAnswer} {j : Nat} (h : Quiet s)
    (ht : t.attempt = s.attemptNumber + 1)
    (hchunks : chunks = (answers (s.attemptNumber + 1)).chunks.take j) :
    Governed answers ((((s.admitted item).yields chunks).account usage cost).record t).trace := by
  rw [attempted_trace]
  set trace := (s.trace ++ [.called (s.attemptNumber + 1) item.target s.budget]) ++
    (chunks.map (.yielded (s.attemptNumber + 1)) ++ [.recorded t])
  refine ⟨⟨s.attemptNumber + 1, j, ?_, fun _ => ⟨item.target, s.budget, by simp [trace]⟩⟩, ?_, ?_,
    ?_⟩
  · rw [← hchunks]
    simp [trace, h.silent]
  · have hrecords : records trace = records s.trace ++ [t] := by simp [trace]
    have hcount : (callBudgets trace).length + (rejections trace).length = s.attemptNumber + 1 := by
      have := h.count
      simp [trace]
      omega
    rw [hrecords, hcount, map_append, h.numbers, range'_concat, Nat.one_mul,
      Nat.add_comm 1, map_singleton, ht]
  · simpa [trace] using h.codes
  · exact pairwise_of_split (forall_mem_append.mpr ⟨h.no_yield, forall_mem_singleton.mpr rfl⟩)
      (forall_mem_append.mpr ⟨forall_mem_map.mpr fun _ _ => rfl, forall_mem_singleton.mpr rfl⟩)

theorem Quiet.failed (h : Quiet s) (ht : t.attempt = s.attemptNumber + 1)
    (hcode : t.errorCode ≠ none) :
    Quiet ((((s.admitted item).yields []).account usage cost).record t) := by
  have htrace := attempted_trace s item [] usage cost t
  refine ⟨?_, ?_, ?_, ?_⟩
  · rw [htrace]
    simp [h.numbers, ht, range'_concat, Nat.add_comm, Coordinator.record, Coordinator.log,
      Coordinator.account, Coordinator.yields, Coordinator.admitted]
  · rw [htrace]
    have := h.count
    simp [Coordinator.record, Coordinator.log, Coordinator.account, Coordinator.yields,
      Coordinator.admitted]
    omega
  · rw [htrace]
    intro t' ht'
    simp at ht'
    rcases ht' with ht' | rfl
    · exact h.codes t' ht'
    · exact hcode
  · rw [htrace]
    simp [h.silent]

end

/-- Every exception that a provider raises can be normalised. -/
def Normalises (answers : Nat → StreamAnswer) : Prop :=
  ∀ attempt, ∀ e ∈ (answers attempt).raises, redactedGatewayError e ≠ none

theorem streamAttempt_governed (config : ModelConfig) (answers : Nat → StreamAnswer)
    (stop : Option Nat) (hnormal : Normalises answers) (item : PreparedTarget) (more : Bool)
    (left : Nat) (s s₁ : Coordinator) (hs : Quiet s)
    (ha : s.admitCall config.limits item = .ok s₁) :
    (streamAttempt config answers stop item more left s₁).1.Keeps Quiet
      (fun _ s => Governed answers s.trace)
      (streamAttempt config answers stop item more left s₁).2 := by
  obtain ⟨-, rfl⟩ := Coordinator.admitCall_eq_ok.mp ha
  obtain ⟨j, seen, ⟨⟨e, he, hnone⟩, -⟩ | ⟨t, ht, ⟨outcome, h⟩ | ⟨error, hcode, hzero, -, h⟩⟩⟩ :=
    streamAttempt_cases config answers stop item more left (s.admitted item)
  · exact absurd hnone (hnormal _ e he)
  all_goals rw [h]
  · exact hs.ended ht rfl
  · refine keeps_failed (hs.ended ht rfl) fun _ he _ => ?_
    -- the policy recovers only from an attempt that has yielded nothing
    obtain rfl := hzero he
    exact hs.failed ht (by simp [hcode])

/-- **A stream is one attempt, and every attempt is recorded once**, for all targets, policies and
providers whose exceptions can be normalised, and wherever the consumer stops. -/
theorem stream_governed (registry : String → Option Provider) (config : ModelConfig)
    (required : List String) (answers : Nat → StreamAnswer) (stop : Option Nat)
    (hnormal : Normalises answers) :
    Governed answers (stream registry config required answers stop).2.trace := by
  have hstart : Quiet {} := ⟨rfl, rfl, by simp [records], rfl⟩
  unfold stream
  split
  · exact hstart.governed
  · split
    · exact hstart.governed
    · exact operate_rule (fun _ _ hs => hs.governed) (fun item _ hs => hs.reject item)
        (streamAttempt_governed config answers stop hnormal) _ hstart

end Operations

section Unrounded

open Unrounded

/-- The first call raises at once, the second gives a chunk and raises then. -/
def failsTwice (raised : Raised) : Nat → StreamAnswer
  | 1 => { chunks := [], raises := some raised }
  | _ => { chunks := [{ index := 0, contentDelta := "hi" }], raises := some raised }

def retryConfig : ModelConfig where
  primary := { provider := "p", name := "m", retries := some 1 }
  fallbackOn := [.providerError]

theorem stream_governed_retried :
    Governed (failsTwice .other) (stream textProvider retryConfig ["text"] (failsTwice .other)
      none).2.trace ∧
    (records (stream textProvider retryConfig ["text"] (failsTwice .other) none).2.trace).map
      AttemptTelemetry.attempt = [1, 2] := by
  refine ⟨stream_governed textProvider retryConfig ["text"] (failsTwice .other) none ?_,
    by decide +kernel⟩
  intro attempt e he
  have hother : e = .other := by
    unfold failsTwice at he
    split at he
    · exact (Option.some.inj he).symm
    · exact (Option.some.inj he).symm
  rw [hother]
  decide

/-- What the first call raises cannot be normalised: the call is made, and there is no record. -/
theorem failure_without_record :
    let trace := (stream textProvider retryConfig ["text"] (failsTwice .raisesAgain) none).2.trace
    (callBudgets trace).length = 1 ∧ records trace = [] ∧
      ¬ Governed (failsTwice .raisesAgain) trace := by
  have hcalls : (callBudgets (stream textProvider retryConfig ["text"] (failsTwice .raisesAgain)
      none).2.trace).length = 1 := by decide +kernel
  have hrecords : (records (stream textProvider retryConfig ["text"] (failsTwice .raisesAgain)
      none).2.trace).length = 0 := by decide +kernel
  refine ⟨hcalls, length_eq_zero_iff.mp hrecords, fun h => ?_⟩
  have hnumbers := congrArg length h.numbers
  rw [length_map, hrecords, length_range', hcalls] at hnumbers
  omega

end Unrounded

end AutoDev.Llm
