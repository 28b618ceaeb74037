/-
# `AutoDev.Agents.Runtime` — running an agent under budgets and guardrails

`agents/runtime.py` runs a handler against a context.  The handler is ARBITRARY
code: a tree of the context's calls (`Lib/Prog`).  An exception reaches it as a
reply, and it ends by returning a value or raising.  The methods of the context
keep the state when they raise (`EStateM`); what the outside does is an argument.

`trace` is what really happened, in order, and `spent` sums it up.  The ledger is
the runtime's own account of the same things.

Left out: texts of exceptions, the detail and the time of a step, spans, the
metrics of the result, `context_composer`, and the schemas behind the checks of
input and output, which are parameters.
-/
import AutoDev.Agents.Printing
import AutoDev.Lib.Prog
import AutoDev.Llm.Bills

namespace AutoDev.Agents

open AutoDev.Flows AutoDev.Llm

/-! ## Budgets -/

structure AgentBudgets where
  tokensInput : Int := 120000
  tokensOutput : Int := 16000
  costUsd : PyFloat := .fin (3 / 4)
  maxSteps : Int := 24
  maxToolCalls : Int := 40

structure Ledger where
  tokensInput : Int := 0
  tokensOutput : Int := 0
  costUsd : PyFloat := .fin 0
  toolCalls : Nat := 0
  steps : Nat := 0
  deriving DecidableEq

namespace Ledger

/-- `_check` raises. -/
def exceeds (l : Ledger) (limits : AgentBudgets) : Bool :=
  decide (l.tokensInput > limits.tokensInput) || decide (l.tokensOutput > limits.tokensOutput) ||
    limits.costUsd.lt l.costUsd || decide ((l.toolCalls : Int) > limits.maxToolCalls) ||
    decide ((l.steps : Int) > limits.maxSteps)

/-- The entry `consume` makes. -/
def add [FloatSum] (l : Ledger) (usage : TokenUsage) (cost : PyFloat) (toolCall : Bool) : Ledger :=
  { l with
    tokensInput := l.tokensInput + usage.inputTokens
    tokensOutput := l.tokensOutput + usage.outputTokens
    costUsd := FloatSum.plus l.costUsd cost
    toolCalls := l.toolCalls + if toolCall then 1 else 0 }

def addStep (l : Ledger) : Ledger := { l with steps := l.steps + 1 }

end Ledger

variable [FloatSum]

/-! ## The context of a run -/

/-- What a handler or the runtime meets as an exception.  `base` is no `Exception`. -/
inductive Exc where
  | budgetExceeded
  | validation
  | toolAccessDenied
  | gateway (error : GatewayError)
  | other
  | base
  deriving DecidableEq

def Exc.ofFailure : Failure → Exc
  | .gateway error => .gateway error
  | .escaped => .other

/-- What a call can reach. -/
inductive Target where
  | tool (id : String)
  | skill (id : String)
  | provider
  | gateway
  deriving DecidableEq

/-- What happens during a run. -/
inductive Act where
  | called (target : Target)
  | reached (target : Target)
  | billed (usage : TokenUsage) (cost : PyFloat)
  | consumed (usage : TokenUsage) (cost : PyFloat) (toolCall : Bool)
  | step
  deriving DecidableEq

def spend (l : Ledger) : Act → Ledger
  | .called _ => l.add {} (.fin 0) true
  | .reached _ => l
  | .billed usage cost => l.add usage cost false
  | .consumed usage cost toolCall => l.add usage cost toolCall
  | .step => l.addStep

/-- Everything used up by a run. -/
def spent (trace : List Act) : Ledger := trace.foldl spend {}

/-- What a run reached, in order. -/
def reached (trace : List Act) : List Target :=
  trace.filterMap fun
    | .reached target => some target
    | _ => none

structure AgentRuntimeStep where
  name : String
  status : String
  reason : String := ""
  deriving DecidableEq

/-- The mutable part of an `AgentRuntimeContext`, and the trace. -/
structure Context where
  ledger : Ledger := {}
  steps : List AgentRuntimeStep := []
  trace : List Act := []
  deriving DecidableEq

/-- Code that runs against a context; what it did before it raised stays done. -/
abbrev Run := EStateM Exc Context

/-- Something happens. -/
def note (act : Act) : Run Unit := modify fun s => { s with trace := s.trace ++ [act] }

/-- A value or an exception from the outside. -/
def answer {α : Type} : Except Exc α → Run α
  | .ok a => pure a
  | .error e => throw e

/-! ## The broker -/

structure AgentToolBroker where
  allowedTools : List String := []
  allowedSkills : List String := []
  tools : List String := []
  skills : List String := []
  skillBroker : Bool := false

def AgentToolBroker.callTool (b : AgentToolBroker) (id : String) (result : Except Exc Value) :
    Run Value :=
  if id ∉ b.allowedTools then throw .toolAccessDenied
  else if id ∉ b.tools then throw .toolAccessDenied
  else do
    note (.reached (.tool id))
    answer result

def AgentToolBroker.callSkill (b : AgentToolBroker) (id : String) (result : Except Exc Value) :
    Run Value :=
  if id ∉ b.allowedSkills then throw .toolAccessDenied
  else if b.skillBroker = false ∧ id ∉ b.skills then throw .toolAccessDenied
  else do
    note (.reached (.skill id))
    answer result

/-! ## The context's methods -/

/-- What a run is given: the manifest, the runtime, and the arguments of `run`.  A runtime without
a `gateway` calls its provider directly. -/
structure Setup where
  budgets : AgentBudgets := {}
  broker : AgentToolBroker := {}
  policy : Obj := []
  printer : Printer
  checkInput : Obj → Except Exc Unit := fun _ => .ok ()
  checkOutput : Obj → Except Exc Unit := fun _ => .ok ()
  gateway : Option (String → Option Provider) := none
  modelOverride : Option ModelConfig := none
  model : Option ModelConfig := none
  globalModelConfig : Option ModelConfig := none

def resolveModelConfig (executionOverride agentConfig globalConfig : Option ModelConfig) :
    Except GatewayError ModelConfig :=
  match executionOverride.or (agentConfig.or globalConfig) with
  | none => .error ⟨.providerNotConfigured, false⟩
  | some selected =>
    if selected.primary.provider ≠ "" then .ok selected
    else
      match globalConfig.map (·.primary.provider) with
      | none | some "" => .error ⟨.providerNotConfigured, false⟩
      | some inherited =>
        .ok { selected with primary := { selected.primary with provider := inherited } }

def Setup.config (a : Setup) : Except GatewayError ModelConfig :=
  resolveModelConfig a.modelOverride a.model a.globalModelConfig

def check (limits : AgentBudgets) : Run Unit := fun s =>
  if s.ledger.exceeds limits then .error .budgetExceeded s else .ok () s

def consume (limits : AgentBudgets) (usage : TokenUsage) (cost : PyFloat) (toolCall : Bool) :
    Run Unit := do
  modify fun s => { s with ledger := s.ledger.add usage cost toolCall }
  check limits

def ledgerStep (limits : AgentBudgets) : Run Unit := do
  note .step
  modify fun s => { s with ledger := s.ledger.addStep }
  check limits

def appendStep (step : AgentRuntimeStep) : Run Unit :=
  modify fun s => { s with steps := s.steps ++ [step] }

structure LLMProviderResponse where
  text : String
  tokensInput : Int := 0
  tokensOutput : Int := 0
  costUsd : PyFloat := .fin 0

/-- What the models answer to one `call_llm`: the provider, or those behind the gateway. -/
structure ModelAnswers where
  provider : Except Exc LLMProviderResponse := .error .other
  gateway : Nat → Answer := fun _ => ⟨.error .other, 0, 0⟩

namespace Setup

variable (a : Setup)

def consumeBudget (usage : TokenUsage) (cost : PyFloat) (toolCall : Bool) : Run Unit := do
  note (.consumed usage cost toolCall)
  consume a.budgets usage cost toolCall

def recordStep (name status reason : String) : Run Unit := do
  ledgerStep a.budgets
  appendStep ⟨name, status, reason⟩

def callTool (id : String) (result : Except Exc Value) : Run Value := do
  note (.called (.tool id))
  consume a.budgets {} (.fin 0) true
  a.broker.callTool id result

def callSkill (id : String) (result : Except Exc Value) : Run Value := do
  note (.called (.skill id))
  consume a.budgets {} (.fin 0) true
  a.broker.callSkill id result

/-- `AgentRuntimeContext._call_model_gateway`.  The response alone reaches the ledger. -/
def callModelGateway (registry : String → Option Provider) (answers : Nat → Answer) :
    Run String := do
  let config ← answer (a.config.mapError .gateway)
  note (.reached .gateway)
  let (result, coordinator) := complete registry config config.requiredCapabilities answers
  (bills answers coordinator.trace).forM fun r => note (.billed r.usage r.cost)
  let response ← answer (result.mapError Exc.ofFailure)
  consume a.budgets response.usage response.cost false
  return response.text

def callLlm (answers : ModelAnswers) : Run String :=
  match a.gateway with
  | some registry => a.callModelGateway registry answers.gateway
  | none => do
    note (.reached .provider)
    let response ← answer answers.provider
    note (.billed ⟨response.tokensInput, response.tokensOutput⟩ response.costUsd)
    consume a.budgets ⟨response.tokensInput, response.tokensOutput⟩ response.costUsd false
    return response.text

end Setup

/-! ## Handlers -/

inductive Call where
  | callTool (id : String) (kwargs : Obj)
  | callSkill (id : String) (kwargs : Obj)
  | callLlm (prompt : String)
  | consumeBudget (usage : TokenUsage) (cost : PyFloat) (toolCall : Bool)
  | recordStep (name status reason : String)

abbrev Call.Returns : Call → Type
  | .callTool .. | .callSkill .. => Value
  | .callLlm _ => String
  | .consumeBudget .. | .recordStep .. => Unit

/-- What the outside decides about a call. -/
abbrev Call.World : Call → Type
  | .callTool .. | .callSkill .. => Except Exc Value
  | .callLlm _ => ModelAnswers
  | .consumeBudget .. | .recordStep .. => Unit

/-- A handler: its calls, with a value or an exception as reply, and how it ends. -/
abbrev Handler := Prog Call (fun c => Except Exc c.Returns) (Except Exc Value)

def Setup.perform (a : Setup) : (c : Call) → c.World → Run c.Returns
  | .callTool id _, result => a.callTool id result
  | .callSkill id _, result => a.callSkill id result
  | .callLlm _, answers => a.callLlm answers
  | .consumeBudget usage cost toolCall, _ => a.consumeBudget usage cost toolCall
  | .recordStep name status reason, _ => a.recordStep name status reason

/-- A value or an exception, and the context left behind. -/
def outcome {α : Type} : EStateM.Result Exc Context α → Except Exc α × Context
  | .ok a s => (.ok a, s)
  | .error e s => (.error e, s)

/-- What a call may reply and do, where the outside keeps to `Allowed`. -/
def Setup.Sem (a : Setup) (Allowed : (c : Call) → Context → c.World → Prop) (c : Call)
    (s : Context) (r : Except Exc c.Returns) (s' : Context) : Prop :=
  ∃ w : c.World, Allowed c s w ∧ outcome (a.perform c w s) = (r, s')

/-! ## Guardrails -/

/-- `for term in guardrail.get("terms", [])`: a list gives its members, a string its characters,
a dict its keys, and anything else raises. -/
def termsOf : Option Value → Except Exc (List Value)
  | none => .ok []
  | some (.list xs) => .ok xs
  | some (.str s) => .ok (s.toList.map fun c => .str (String.singleton c))
  | some (.obj kvs) => .ok (kvs.map fun kv => .str kv.1)
  | some _ => .error .other

def blocks (guardrail : Obj) : Bool :=
  match Dict.get? guardrail "onViolation" with
  | none => true
  | some action => decide (action = .str "block")

/-- The loop over the terms of one guardrail; empty if none matches. -/
def matchTerms (p : Printer) (rendered : List Char) (block : Bool) : List Value → String
  | [] => ""
  | .str term :: rest =>
    if term ≠ "" ∧ term.toList <:+: rendered ∧ block = true then
      "denylist term " ++ String.ofList ((p.quoted term).map Prod.fst) ++ " matched output"
    else matchTerms p rendered block rest
  | _ :: rest => matchTerms p rendered block rest

def scanGuardrails (p : Printer) (rendered : List Char) : List Value → Except Exc String
  | [] => .ok ""
  | .obj guardrail :: rest =>
    if Dict.get? guardrail "type" = some (.str "denylist") then
      match termsOf (Dict.get? guardrail "terms") with
      | .error e => .error e
      | .ok terms =>
        let violation := matchTerms p rendered (blocks guardrail) terms
        if violation ≠ "" then .ok violation else scanGuardrails p rendered rest
    else scanGuardrails p rendered rest
  | _ :: rest => scanGuardrails p rendered rest

def guardrailViolation (p : Printer) (policy output : Obj) : Except Exc String :=
  match (Dict.get? policy "guardrails").getD (.list []) with
  | .list guardrails =>
    if p.fails (.obj output) then .error .other
    else scanGuardrails p (p.text (.obj output)) guardrails
  | _ => .ok ""

/-! ## A run -/

/-- The statuses of a run. -/
inductive Status where
  | completed
  | blocked
  | interrupted
  | failed
  deriving DecidableEq

structure AgentRunResult where
  status : Status
  stopReason : String
  flagged : Bool
  output : Option Obj := none
  deriving DecidableEq

namespace Setup

variable (a : Setup)

def beforeHandler (payload : Obj) : Run Unit := do
  answer (a.checkInput payload)
  a.recordStep "validate-input" "completed" ""
  ledgerStep a.budgets

def invokeHandler : Except Exc Value → Except Exc Obj
  | .ok (.obj output) => .ok output
  | .ok _ => .error .validation
  | .error e => .error e

/-- The reason of a failed `run-handler` step; what is no `Exception` leaves no step. -/
def handlerReason : Exc → Option String
  | .budgetExceeded => some "budget_exhausted"
  | .validation => some "invalid_output"
  | .base => none
  | _ => some "handler_failed"

def runHandler (ending : Except Exc Value) : Run Obj :=
  match invokeHandler ending with
  | .ok output => do
    appendStep ⟨"run-handler", "completed", ""⟩
    return output
  | .error e => do
    (handlerReason e).forM fun reason => appendStep ⟨"run-handler", "failed", reason⟩
    throw e

def passOutput (output : Obj) : Run Unit := do
  a.recordStep "handler-completed" "completed" ""
  answer (a.checkOutput output)
  a.recordStep "validate-output" "completed" ""

def guardOutput (output : Obj) : Run AgentRunResult := do
  let violation ← answer (guardrailViolation a.printer a.policy output)
  if violation ≠ "" then
    a.recordStep "guardrail-output" "failed" "guardrail_blocked"
    return ⟨.blocked, "guardrail_blocked", true, none⟩
  else
    return ⟨.completed, "completed", false, some output⟩

def afterHandler (ending : Except Exc Value) : Run AgentRunResult := do
  let output ← runHandler ending
  a.passOutput output
  a.guardOutput output

/-- The `except` clauses of `_execute_agent`. -/
def isolate : EStateM.Result Exc Context AgentRunResult → Except Exc AgentRunResult × Context
  | .ok result s => (.ok result, s)
  | .error .base s => (.error .base, s)
  | .error .budgetExceeded s =>
    (.ok ⟨.interrupted, "budget_exhausted", true, none⟩,
      { s with steps := s.steps ++ [⟨"budget", "failed", "budget_exhausted"⟩] })
  | .error .validation s =>
    (.ok ⟨.failed, "invalid_output", true, none⟩,
      { s with steps := s.steps ++ [⟨"validate-output", "failed", "invalid_output"⟩] })
  | .error _ s =>
    (.ok ⟨.failed, "handler_failed", true, none⟩,
      { s with steps := s.steps ++ [⟨"handler-error", "failed", "handler_failed"⟩] })

/-- A run of `handler` may end with `result` in the context `s`, where the outside keeps to
`Allowed`. -/
def Runs (Allowed : (c : Call) → Context → c.World → Prop) (payload : Obj) (handler : Handler)
    (result : Except Exc AgentRunResult) (s : Context) : Prop :=
  match a.beforeHandler payload {} with
  | .error e s₀ => isolate (.error e s₀) = (result, s)
  | .ok _ s₀ => ∃ ending s₁, Prog.Exec (a.Sem Allowed) handler s₀ ending s₁ ∧
      isolate (a.afterHandler ending s₁) = (result, s)

end Setup

end AutoDev.Agents
