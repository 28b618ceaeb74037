/-
# `AutoDev.Llm.Gateway` — governed model calls over a list of targets

`llm/gateway.py` makes one model call out of many attempts: the targets of a
configuration in order, each with its retries, under call, token and cost
limits.  `complete` and `_stream_prepared` are two loops of the same shape; the
loop is written once (`operateFrom`), with the attempt as a parameter.

What the providers do is an argument: an answer for every attempt number.  A
stream's consumer takes all chunks, or stops after some number of them.  `trace` is
what an operation does, in order: provider calls, the chunks it yields, the
targets it rejects for their capabilities, and the telemetry it records.

Left out: the texts of errors, spans, request and metadata contents, the fields
of a target that only the provider reads, and what is no `Exception`.
-/
import AutoDev.Flows.Value
import Mathlib.Data.Rat.Defs

namespace AutoDev.Llm

open AutoDev.Flows

/-! ## Contracts -/

inductive ErrorCode where
  | providerNotConfigured
  | unsupportedCapability
  | authentication
  | invalidRequest
  | budgetExceeded
  | providerError
  | timeout
  | rateLimit
  | unavailable
  deriving DecidableEq

structure GatewayError where
  code : ErrorCode
  isBudget : Bool := false
  deriving DecidableEq

/-- An exception raised by a provider: a gateway error, whose class may or may not take the base
constructor's arguments; any other exception; or one that raises again when it is normalised, as
its text is asked for or its class called, and no `TypeError` at that. -/
inductive Raised where
  | gateway (e : GatewayError) (rebuilds : Bool)
  | other
  | raisesAgain
  deriving DecidableEq

/-- `redacted_gateway_error`: a class that cannot be rebuilt keeps its code and loses its type.
`none` raises. -/
def redactedGatewayError : Raised → Option GatewayError
  | .gateway e true => some e
  | .gateway e false => some ⟨e.code, false⟩
  | .other => some ⟨.providerError, false⟩
  | .raisesAgain => none

/-- What an operation raises: a gateway error, or what its normalisation raised. -/
inductive Failure where
  | gateway (error : GatewayError)
  | escaped
  deriving DecidableEq

/-- `TokenUsage`, without the two subcategories that the total does not count. -/
structure TokenUsage where
  inputTokens : Int := 0
  outputTokens : Int := 0
  deriving DecidableEq

def TokenUsage.totalTokens (u : TokenUsage) : Int := u.inputTokens + u.outputTokens

structure ModelTarget where
  provider : String
  name : String
  timeoutSeconds : Option ℚ := none
  retries : Option Nat := none
  deriving DecidableEq

structure ModelLimits where
  maxCalls : Option Int := none
  maxTotalTokens : Option Int := none
  maxCostUsd : Option PyFloat := none
  deriving DecidableEq

structure ModelConfig where
  primary : ModelTarget
  requiredCapabilities : List String := ["text"]
  fallbackOn : List ErrorCode := []
  limits : ModelLimits := {}
  fallback : List ModelTarget := []

structure ModelResponse where
  text : String
  usage : TokenUsage
  cost : PyFloat
  deriving DecidableEq

structure StreamChunk where
  index : Nat
  contentDelta : String := ""
  usage : Option TokenUsage := none
  cost : Option PyFloat := none
  done : Bool := false
  deriving DecidableEq

structure AttemptTelemetry where
  attempt : Nat
  provider : String
  model : String
  durationMs : ℚ
  usage : TokenUsage := {}
  cost : PyFloat := .fin 0
  errorCode : Option ErrorCode := none

structure GatewayBudget where
  calls : Nat := 0
  tokens : Int := 0
  costUsd : PyFloat := .fin 0
  deriving DecidableEq

/-- How costs are added up.  How a sum is rounded is left open; to add zero changes nothing, and a
sum with what is not negative is over every limit that the first summand is over. -/
class FloatSum where
  plus : PyFloat → PyFloat → PyFloat
  plus_zero : ∀ x, plus x (.fin 0) = x
  lt_plus : ∀ {limit x cost : PyFloat}, limit.lt x = true → cost.Nonneg → limit.lt (plus x cost) = true

theorem lt_add_of_nonneg {limit x cost : PyFloat} (h : limit.lt x = true) (hcost : cost.Nonneg) :
    limit.lt (x.add cost) = true := by
  unfold PyFloat.Nonneg at hcost
  cases limit <;> cases x <;> cases cost <;>
    simp_all [PyFloat.lt, PyFloat.le, PyFloat.add]
  next limit x cost =>
    have hnn : 0 ≤ cost := by
      rcases hcost with h | h
      · exact h.le
      · exact h.le
    exact lt_of_lt_of_le h (le_add_of_nonneg_right hnn)

namespace Unrounded

/-- Without rounding. -/
scoped instance floatSum : FloatSum := ⟨PyFloat.add, PyFloat.add_fin_zero, lt_add_of_nonneg⟩

end Unrounded

def GatewayBudget.account [FloatSum] (b : GatewayBudget) (usage : TokenUsage) (cost : PyFloat) :
    GatewayBudget :=
  { b with tokens := b.tokens + usage.totalTokens, costUsd := FloatSum.plus b.costUsd cost }

/-- `PreparedTarget`: whether a required capability is missing, and whether the provider streams. -/
structure PreparedTarget where
  target : ModelTarget
  capabilityError : Bool
  streams : Bool

/-! ## Preflight -/

structure Provider where
  capabilities : ModelTarget → List String
  streams : Bool

variable (registry : String → Option Provider) (config : ModelConfig)

def effectiveFallback (target : ModelTarget) : ModelTarget :=
  { target with
    timeoutSeconds := target.timeoutSeconds.or config.primary.timeoutSeconds
    retries := target.retries.or config.primary.retries }

/-- The loop of `_preflight` over the targets. -/
def prepare (required : List String) : List ModelTarget → Except GatewayError (List PreparedTarget)
  | [] => .ok []
  | target :: rest =>
    match registry target.provider with
    | none => .error ⟨.providerNotConfigured, false⟩
    | some provider =>
      match prepare required rest with
      | .error e => .error e
      | .ok prepared =>
        .ok (⟨target, required.any fun c => c ∉ provider.capabilities target,
          provider.streams⟩ :: prepared)

def preflight (required : List String) : Except GatewayError (List PreparedTarget) :=
  if config.primary.provider = "" then .error ⟨.providerNotConfigured, false⟩
  else if config.fallback ≠ [] ∧ config.fallbackOn = [] then .error ⟨.invalidRequest, false⟩
  else
    match prepare registry required
        (config.primary :: config.fallback.map (effectiveFallback config)) with
    | .error e => .error e
    | .ok prepared =>
      if prepared.any PreparedTarget.capabilityError &&
          decide (ErrorCode.unsupportedCapability ∉ config.fallbackOn) then
        .error ⟨.unsupportedCapability, false⟩
      else .ok prepared

/-! ## Limits -/

def ModelLimits.callsReached (limits : ModelLimits) (budget : GatewayBudget) : Bool :=
  limits.maxCalls.any fun n => decide (n ≤ (budget.calls : Int))

/-- `check_usage_limits` raises: the accounted tokens or costs exceed a limit. -/
def ModelLimits.exceeded (limits : ModelLimits) (budget : GatewayBudget) : Bool :=
  limits.maxTotalTokens.any (fun n => decide (n < budget.tokens)) ||
    limits.maxCostUsd.any fun x => x.lt budget.costUsd

/-- `_check_timeout` raises. -/
def ModelTarget.late (target : ModelTarget) (durationMs : ℚ) : Bool :=
  target.timeoutSeconds.any fun t => decide (durationMs > t * 1000)

/-! ## The coordinator -/

/-- What an operation does, in order. -/
inductive Event where
  | called (attempt : Nat) (target : ModelTarget) (accounted : GatewayBudget)
  | yielded (attempt : Nat) (chunk : StreamChunk)
  | rejected (attempt : Nat) (target : ModelTarget)
  | recorded (telemetry : AttemptTelemetry)

structure Coordinator where
  budget : GatewayBudget := {}
  attemptNumber : Nat := 0
  trace : List Event := []

inductive AttemptOutcome where
  | retry
  | fallback
  | fail
  deriving DecidableEq

namespace Coordinator

variable (s : Coordinator) (item : PreparedTarget)

def log (e : Event) : Coordinator := { s with trace := s.trace ++ [e] }

/-- `_record`; a sink that raises is ignored. -/
def record (t : AttemptTelemetry) : Coordinator := s.log (.recorded t)

/-- The bookkeeping of `capability_error_outcome`. -/
def reject : Coordinator :=
  ({ s with attemptNumber := s.attemptNumber + 1 }.log
    (.rejected (s.attemptNumber + 1) item.target)).record
      { attempt := s.attemptNumber + 1
        provider := item.target.provider
        model := item.target.name
        durationMs := 0
        errorCode := some .unsupportedCapability }

/-- The bookkeeping of `admit_call`, and the call that follows. -/
def admitted : Coordinator :=
  { s with
    budget := { s.budget with calls := s.budget.calls + 1 }
    attemptNumber := s.attemptNumber + 1 }.log
      (.called (s.attemptNumber + 1) item.target s.budget)

def admitCall (limits : ModelLimits) (item : PreparedTarget) (s : Coordinator) :
    Except GatewayError Coordinator :=
  if limits.callsReached s.budget then .error ⟨.budgetExceeded, true⟩ else .ok (s.admitted item)

theorem admitCall_eq_ok {limits : ModelLimits} {item : PreparedTarget} {s s₁ : Coordinator} :
    s.admitCall limits item = .ok s₁ ↔
      limits.callsReached s.budget = false ∧ s₁ = s.admitted item := by
  unfold admitCall
  split
  · next h => simp [h]
  · next h =>
      rw [Except.ok.injEq, Bool.not_eq_true] at *
      exact ⟨fun heq => ⟨h, heq.symm⟩, fun heq => heq.2.symm⟩

def account [FloatSum] (usage : TokenUsage) (cost : PyFloat) : Coordinator :=
  { s with budget := s.budget.account usage cost }

def recordSuccess (durationMs : ℚ) (usage : TokenUsage) (cost : PyFloat) : Coordinator :=
  s.record
    { attempt := s.attemptNumber
      provider := item.target.provider
      model := item.target.name
      durationMs := durationMs
      usage := usage
      cost := cost }

def recordFailure (durationMs : ℚ) (usage : TokenUsage) (cost : PyFloat) (error : GatewayError) :
    Coordinator :=
  s.record
    { attempt := s.attemptNumber
      provider := item.target.provider
      model := item.target.name
      durationMs := durationMs
      usage := usage
      cost := cost
      errorCode := some error.code }

end Coordinator

/-- The decision of `decide_failure`: `left` retries are left for the target, `more` says whether
another target follows. -/
def decideFailure (error : GatewayError) (left : Nat) (more emitted : Bool) : AttemptOutcome :=
  if error.isBudget then .fail
  else if emitted then .fail
  else if error.code ∈ config.fallbackOn ∧ 0 < left then .retry
  else if error.code ∈ config.fallbackOn ∧ more then .fallback
  else .fail

/-! ## The loop over targets and retries -/

/-- How an attempt ends: the operation returns, a failure is decided upon, or the failure cannot be
normalised and leaves `decide_failure`. -/
inductive AttemptEnd (ρ : Type) where
  | done (result : ρ)
  | failed (outcome : AttemptOutcome) (error : GatewayError)
  | escaped

inductive TargetEnd (ρ : Type) where
  | returned (result : ρ)
  | raised (failure : Failure)
  | next

section

variable {ρ : Type} (config : ModelConfig)

def tryTarget (item : PreparedTarget) (attempt : Nat → Coordinator → AttemptEnd ρ × Coordinator)
    (left : Nat) (s : Coordinator) : TargetEnd ρ × Coordinator :=
  match s.admitCall config.limits item with
  | .error e => (.raised (.gateway e), s)
  | .ok s =>
    match attempt left s with
    | (.done result, s) => (.returned result, s)
    | (.escaped, s) => (.raised .escaped, s)
    | (.failed .fail error, s) => (.raised (.gateway error), s)
    | (.failed .fallback _, s) => (.next, s)
    | (.failed .retry _, s) =>
      match left with
      | 0 => (.next, s)
      | left + 1 => tryTarget item attempt left s

/-- `for target_index, item in enumerate(prepared)`.  `usable` says whether a target is tried at
all; `attempt item more left` is one attempt. -/
def operateFrom (usable : PreparedTarget → Bool)
    (attempt : PreparedTarget → Bool → Nat → Coordinator → AttemptEnd ρ × Coordinator) :
    List PreparedTarget → Coordinator → Except Failure ρ × Coordinator
  | [], s => (.error (.gateway ⟨.providerError, false⟩), s)
  | item :: rest, s =>
    if usable item then
      match tryTarget config item (attempt item (rest ≠ [])) (item.target.retries.getD 0) s with
      | (.returned result, s) => (.ok result, s)
      | (.raised failure, s) => (.error failure, s)
      | (.next, s) => operateFrom usable attempt rest s
    else if ErrorCode.unsupportedCapability ∈ config.fallbackOn ∧ rest ≠ [] then
      operateFrom usable attempt rest (s.reject item)
    else (.error (.gateway ⟨.unsupportedCapability, false⟩), s.reject item)

end

/-! ## `complete` -/

section Operations

variable [FloatSum]

/-- What a provider does on one call: its result, the time it took, and the time at which a failure
is recorded. -/
structure Answer where
  result : Except Raised ModelResponse
  durationMs : ℚ := 0
  failedMs : ℚ := 0

/-- One attempt of `complete`: a response is accounted, then rejected if it came late, then checked
against the usage limits. -/
def completeAttempt (answers : Nat → Answer) (item : PreparedTarget) (more : Bool) (left : Nat)
    (s : Coordinator) : AttemptEnd ModelResponse × Coordinator :=
  let answer := answers s.attemptNumber
  match answer.result with
  | .error e =>
    match redactedGatewayError e with
    | none => (.escaped, s)
    | some error =>
      (.failed (decideFailure config error left more false) error,
        s.recordFailure item answer.failedMs {} (.fin 0) error)
  | .ok response =>
    let s := s.account response.usage response.cost
    if item.target.late answer.durationMs then
      (.failed (decideFailure config ⟨.timeout, false⟩ left more false) ⟨.timeout, false⟩,
        s.recordFailure item answer.failedMs response.usage response.cost ⟨.timeout, false⟩)
    else if config.limits.exceeded s.budget then
      (.failed (decideFailure config ⟨.budgetExceeded, true⟩ left more false)
          ⟨.budgetExceeded, true⟩,
        s.recordFailure item answer.failedMs response.usage response.cost ⟨.budgetExceeded, true⟩)
    else (.done response, s.recordSuccess item answer.durationMs response.usage response.cost)

/-- What an attempt of `complete` can do: the provider raised, and what it raised is recorded or
escapes; its response came late; its response took the accounts over a limit; or the response is
returned. -/
theorem completeAttempt_cases (config : ModelConfig) (answers : Nat → Answer)
    (item : PreparedTarget) (more : Bool) (left : Nat) (s : Coordinator) :
    (∃ e, (answers s.attemptNumber).result = .error e ∧
      (completeAttempt config answers item more left s = (.escaped, s) ∨
        ∃ error t, completeAttempt config answers item more left s
          = (.failed (decideFailure config error left more false) error, s.record t))) ∨
    ∃ response t, (answers s.attemptNumber).result = .ok response ∧
      let accounted := (s.account response.usage response.cost).record t
      (item.target.late (answers s.attemptNumber).durationMs = true ∧
          completeAttempt config answers item more left s
            = (.failed (decideFailure config ⟨.timeout, false⟩ left more false) ⟨.timeout, false⟩,
              accounted)) ∨
        (config.limits.exceeded (s.budget.account response.usage response.cost) = true ∧
          completeAttempt config answers item more left s
            = (.failed .fail ⟨.budgetExceeded, true⟩, accounted)) ∨
        completeAttempt config answers item more left s = (.done response, accounted) := by
  unfold completeAttempt
  dsimp only
  rcases (answers s.attemptNumber).result with e | response
  · dsimp only
    rcases redactedGatewayError e with _ | error
    · exact .inl ⟨e, rfl, .inl rfl⟩
    · exact .inl ⟨e, rfl, .inr ⟨error, _, rfl⟩⟩
  dsimp only
  by_cases hlate : item.target.late (answers s.attemptNumber).durationMs = true
  · rw [if_pos hlate]
    exact .inr ⟨response, _, rfl, .inl ⟨hlate, rfl⟩⟩
  · rw [if_neg hlate]
    split
    · next hover => exact .inr ⟨response, _, rfl, .inr (.inl ⟨hover, rfl⟩)⟩
    · exact .inr ⟨response, _, rfl, .inr (.inr rfl)⟩

def completePrepared (answers : Nat → Answer) (prepared : List PreparedTarget) :
    Except Failure ModelResponse × Coordinator :=
  operateFrom config (fun item => !item.capabilityError) (completeAttempt config answers)
    prepared {}

/-- `complete`, for the capabilities the request requires. -/
def complete (required : List String) (answers : Nat → Answer) :
    Except Failure ModelResponse × Coordinator :=
  match preflight registry config required with
  | .error e => (.error (.gateway e), {})
  | .ok prepared => completePrepared config answers prepared

/-! ## `stream` -/

/-- What a provider does on one streaming call: the chunks it gives, whether it raises after them,
and the times. -/
structure StreamAnswer where
  chunks : List StreamChunk
  raises : Option Raised := none
  durationMs : ℚ := 0
  failedMs : ℚ := 0
  closedMs : ℚ := 0

/-- What an attempt has seen: the last usage and cost reported, and whether a chunk was yielded. -/
structure Seen where
  usage : TokenUsage := {}
  cost : PyFloat := .fin 0
  emitted : Bool := false

/-- Why the loop over the chunks ends; what is raised may not be normalised. -/
inductive PumpEnd where
  | exhausted
  | raised (error : Option GatewayError)
  | closed
  deriving DecidableEq

/-- The loop over the chunks of one attempt.  `stop` is the number of chunks the consumer still
takes, if it stops at all: it closes the generator at the `yield` that hands it the last one. -/
def pump (raises : Option Raised) :
    List StreamChunk → Option Nat → Seen → Coordinator → PumpEnd × Seen × Coordinator
  | [], _, seen, s =>
    match raises with
    | none => (.exhausted, seen, s)
    | some e => (.raised (redactedGatewayError e), seen, s)
  | chunk :: chunks, stop, seen, s =>
    let seen :=
      { seen with usage := chunk.usage.getD seen.usage, cost := chunk.cost.getD seen.cost }
    if (chunk.usage.isSome || chunk.cost.isSome) &&
        config.limits.exceeded (s.budget.account seen.usage seen.cost) then
      (.raised (some ⟨.budgetExceeded, true⟩), seen, s)
    else
      let seen := { seen with emitted := true }
      let s := s.log (.yielded s.attemptNumber chunk)
      match stop with
      | some 0 | some 1 => (.closed, seen, s)
      | some (n + 2) => pump raises chunks (some (n + 1)) seen s
      | none => pump raises chunks none seen s

def Coordinator.yields (s : Coordinator) (chunks : List StreamChunk) : Coordinator :=
  { s with trace := s.trace ++ chunks.map (.yielded s.attemptNumber) }

/-- The loop yields a prefix of the chunks.  Where it yields none it has seen nothing, unless the
first chunk reports a usage over the limits. -/
theorem pump_spec (config : ModelConfig) (raises : Option Raised) :
    ∀ (chunks : List StreamChunk) (stop : Option Nat) (seen : Seen) (s : Coordinator),
      ∃ j, (pump config raises chunks stop seen s).2.2 = s.yields (chunks.take j) ∧
        ((0 < j ∨ seen.emitted = true) →
          (pump config raises chunks stop seen s).2.1.emitted = true) ∧
        (j = 0 → (pump config raises chunks stop seen s).2.1 = seen ∨
          (pump config raises chunks stop seen s).1 = .raised (some ⟨.budgetExceeded, true⟩))
  | [], _, seen, s => by
    refine ⟨0, ?_⟩
    cases raises <;> simp [pump, Coordinator.yields]
  | chunk :: chunks, stop, seen, s => by
    unfold pump
    dsimp only
    split
    · exact ⟨0, by simp [Coordinator.yields], by simp, fun _ => .inr rfl⟩
    -- the chunk is yielded, and the rest yields a prefix of the rest
    have hgo : ∀ stop' seen', seen'.emitted = true → ∃ j,
        (pump config raises chunks stop' seen' (s.log (.yielded s.attemptNumber chunk))).2.2
          = s.yields ((chunk :: chunks).take j) ∧
        ((0 < j ∨ seen.emitted = true) →
          (pump config raises chunks stop' seen'
            (s.log (.yielded s.attemptNumber chunk))).2.1.emitted = true) ∧
        (j = 0 → (pump config raises chunks stop' seen'
            (s.log (.yielded s.attemptNumber chunk))).2.1 = seen ∨
          (pump config raises chunks stop' seen'
            (s.log (.yielded s.attemptNumber chunk))).1 = .raised (some ⟨.budgetExceeded, true⟩)) := by
      intro stop' seen' hseen
      obtain ⟨j, htrace, hemit, -⟩ := pump_spec config raises chunks stop' seen'
        (s.log (.yielded s.attemptNumber chunk))
      refine ⟨j + 1, ?_, fun _ => hemit (.inr hseen), fun h => by omega⟩
      rw [htrace]
      simp [Coordinator.yields, Coordinator.log]
    split
    · exact ⟨1, by simp [Coordinator.yields, Coordinator.log], by simp, by simp⟩
    · exact ⟨1, by simp [Coordinator.yields, Coordinator.log], by simp, by simp⟩
    · exact hgo _ _ rfl
    · exact hgo _ _ rfl

theorem raises_of_pump {raises : Option Raised} :
    ∀ {chunks : List StreamChunk} {stop : Option Nat} {seen : Seen} {s : Coordinator},
      (pump config raises chunks stop seen s).1 = .raised none →
      ∃ e ∈ raises, redactedGatewayError e = none
  | [], _, _, _, h => by
    rcases raises with _ | e
    · cases h
    · exact ⟨e, rfl, PumpEnd.raised.inj h⟩
  | chunk :: chunks, stop, seen, s, h => by
    unfold pump at h
    dsimp only at h
    split at h
    · cases h
    split at h
    · cases h
    · cases h
    · exact raises_of_pump h
    · exact raises_of_pump h

/-- How a stream ends for its consumer, when it does not raise. -/
inductive StreamEnd where
  | finished
  | closed
  deriving DecidableEq

def streamAttempt (answers : Nat → StreamAnswer) (stop : Option Nat) (item : PreparedTarget)
    (more : Bool) (left : Nat) (s : Coordinator) : AttemptEnd StreamEnd × Coordinator :=
  let answer := answers s.attemptNumber
  match pump config answer.raises answer.chunks stop {} s with
  | (.closed, seen, s) =>
    (.done .closed,
      (s.account seen.usage seen.cost).recordSuccess item answer.closedMs seen.usage seen.cost)
  | (.raised none, seen, s) => (.escaped, s.account seen.usage seen.cost)
  | (.raised (some error), seen, s) =>
    (.failed (decideFailure config error left more seen.emitted) error,
      (s.account seen.usage seen.cost).recordFailure item answer.failedMs seen.usage seen.cost
        error)
  | (.exhausted, seen, s) =>
    let s := s.account seen.usage seen.cost
    if item.target.late answer.durationMs then
      (.failed (decideFailure config ⟨.timeout, false⟩ left more seen.emitted) ⟨.timeout, false⟩,
        s.recordFailure item answer.failedMs seen.usage seen.cost ⟨.timeout, false⟩)
    else (.done .finished, s.recordSuccess item answer.durationMs seen.usage seen.cost)

/-- What an attempt of a stream can do.  It yields a prefix of the provider's chunks.  What the
provider raises escapes; or it makes one record, and ends the stream, without an error code, or
fails, and if it fails before it has yielded a chunk, and not for a limit, it has accounted
nothing. -/
theorem streamAttempt_cases (config : ModelConfig) (answers : Nat → StreamAnswer)
    (stop : Option Nat) (item : PreparedTarget) (more : Bool) (left : Nat) (s : Coordinator) :
    ∃ (j : Nat) (seen : Seen),
      let s₁ := (s.yields ((answers s.attemptNumber).chunks.take j)).account seen.usage seen.cost
      ((∃ e ∈ (answers s.attemptNumber).raises, redactedGatewayError e = none) ∧
        streamAttempt config answers stop item more left s = (.escaped, s₁)) ∨
      ∃ t : AttemptTelemetry, t.attempt = s.attemptNumber ∧
        ((∃ outcome, streamAttempt config answers stop item more left s
            = (.done outcome, s₁.record t)) ∨
          ∃ error, t.errorCode = some error.code ∧ (seen.emitted = false → j = 0) ∧
            (error.isBudget = false → j = 0 → seen = {}) ∧
            streamAttempt config answers stop item more left s
              = (.failed (decideFailure config error left more seen.emitted) error,
                s₁.record t)) := by
  have hspec := pump_spec config (answers s.attemptNumber).raises (answers s.attemptNumber).chunks
    stop {} s
  unfold streamAttempt
  dsimp only
  rcases hp : pump config (answers s.attemptNumber).raises (answers s.attemptNumber).chunks stop
      {} s with ⟨_ | error | _, seen, s₁⟩ <;> rw [hp] at hspec <;>
    obtain ⟨j, hs, hemit, hsilent⟩ := hspec <;> dsimp only at hs hemit hsilent ⊢ <;> subst hs <;>
    have hzero : seen.emitted = false → j = 0 := (fun he => by
      by_contra h0
      rw [hemit (.inl (by omega))] at he
      cases he)
  · refine ⟨j, seen, .inr ?_⟩
    split
    · refine ⟨_, rfl, .inr ⟨⟨.timeout, false⟩, rfl, hzero, fun _ h => ?_, rfl⟩⟩
      exact (hsilent h).resolve_right (by simp)
    · exact ⟨_, rfl, .inl ⟨_, rfl⟩⟩
  · rcases error with _ | error
    · exact ⟨j, seen, .inl ⟨raises_of_pump config (congrArg Prod.fst hp), rfl⟩⟩
    refine ⟨j, seen, .inr ⟨_, rfl, .inr ⟨error, rfl, hzero, fun hb h => ?_, rfl⟩⟩⟩
    refine (hsilent h).resolve_right fun heq => ?_
    cases heq
    cases hb
  · exact ⟨j, seen, .inr ⟨_, rfl, .inl ⟨_, rfl⟩⟩⟩

/-- `_stream_prepared`, driven by a consumer that takes at least one chunk or all of them. -/
def streamPrepared (answers : Nat → StreamAnswer) (stop : Option Nat)
    (prepared : List PreparedTarget) : Except Failure StreamEnd × Coordinator :=
  operateFrom config (fun item => !item.capabilityError && item.streams)
    (streamAttempt config answers stop) prepared {}

/-- `stream`.  A consumer that asks for no chunk never starts the generator. -/
def stream (required : List String) (answers : Nat → StreamAnswer) (stop : Option Nat) :
    Except Failure StreamEnd × Coordinator :=
  match preflight registry config required with
  | .error e => (.error (.gateway e), {})
  | .ok prepared =>
    if stop = some 0 then (.ok .closed, {}) else streamPrepared config answers stop prepared

end Operations

/-! ## The rule of the loop -/

section

variable {ρ : Type} {config : ModelConfig} {usable : PreparedTarget → Bool}
  {attempt : PreparedTarget → Bool → Nat → Coordinator → AttemptEnd ρ × Coordinator}
  {Ready : Coordinator → Prop} {Final : Except Failure ρ → Coordinator → Prop}

/-- An attempt that ends the operation establishes `Final`, any other leaves it `Ready`. -/
def AttemptEnd.Keeps (Ready : Coordinator → Prop)
    (Final : Except Failure ρ → Coordinator → Prop) : AttemptEnd ρ → Coordinator → Prop
  | .done result, s => Final (.ok result) s
  | .escaped, s => Final (.error .escaped) s
  | .failed .fail error, s => Final (.error (.gateway error)) s
  | .failed .retry _, s | .failed .fallback _, s => Ready s

/-- The same of the retries of a target. -/
def TargetEnd.Keeps (Ready : Coordinator → Prop)
    (Final : Except Failure ρ → Coordinator → Prop) : TargetEnd ρ → Coordinator → Prop
  | .returned result, s => Final (.ok result) s
  | .raised failure, s => Final (.error failure) s
  | .next, s => Ready s

theorem tryTarget_rule {item : PreparedTarget}
    {attempt : Nat → Coordinator → AttemptEnd ρ × Coordinator}
    (hend : ∀ s failure, Ready s → Final (.error failure) s)
    (hattempt : ∀ left s s₁, Ready s → s.admitCall config.limits item = .ok s₁ →
      (attempt left s₁).1.Keeps Ready Final (attempt left s₁).2) (left : Nat) :
    ∀ {s : Coordinator}, Ready s →
      (tryTarget config item attempt left s).1.Keeps Ready Final
        (tryTarget config item attempt left s).2 := by
  induction left with
  | zero =>
    intro s hs
    unfold tryTarget
    rcases ha : s.admitCall config.limits item with e | s₁
    · exact hend _ _ hs
    have h := hattempt 0 s s₁ hs ha
    dsimp only
    rcases hr : attempt 0 s₁ with ⟨_ | ⟨_ | _ | _, _⟩ | _, s'⟩ <;>
    · rw [hr] at h
      exact h
  | succ left ih =>
    intro s hs
    unfold tryTarget
    rcases ha : s.admitCall config.limits item with e | s₁
    · exact hend _ _ hs
    have h := hattempt (left + 1) s s₁ hs ha
    dsimp only
    rcases hr : attempt (left + 1) s₁ with ⟨_ | ⟨_ | _ | _, _⟩ | _, s'⟩ <;> rw [hr] at h
    · exact h
    · exact ih h
    · exact h
    · exact h
    · exact h

theorem operate_rule (hend : ∀ s failure, Ready s → Final (.error failure) s)
    (hreject : ∀ item s, Ready s → Ready (s.reject item))
    (hattempt : ∀ item more left s s₁, Ready s → s.admitCall config.limits item = .ok s₁ →
      (attempt item more left s₁).1.Keeps Ready Final (attempt item more left s₁).2) :
    ∀ (prepared : List PreparedTarget) {s : Coordinator}, Ready s →
      Final (operateFrom config usable attempt prepared s).1
        (operateFrom config usable attempt prepared s).2
  | [], _, hs => hend _ _ hs
  | item :: rest, s, hs => by
    unfold operateFrom
    split
    · have h := tryTarget_rule hend (hattempt item (rest ≠ [])) (item.target.retries.getD 0) hs
      rcases hr : tryTarget config item (attempt item (rest ≠ [])) (item.target.retries.getD 0) s
        with ⟨_ | _ | _, s'⟩ <;> rw [hr] at h
      · exact h
      · exact h
      · exact operate_rule hend hreject hattempt rest h
    · split
      · exact operate_rule hend hreject hattempt rest (hreject item s hs)
      · exact hend _ _ (hreject item s hs)

end

end AutoDev.Llm
