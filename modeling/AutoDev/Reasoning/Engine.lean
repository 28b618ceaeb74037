/-
# `AutoDev.Reasoning.Engine` — the mediator a reasoning strategy runs under

`reasoning/engine.py` runs a STRATEGY, arbitrary code, that reaches the outside
only through the mediator: model calls, tool calls, guardrail checks, trace
events.  A strategy is a tree (`Prog`) of mediator calls; every exception a call
raises is a reply like any other, so the tree may catch it, retry, or stop.  A
strategy that never stops is covered through its finite prefixes (`Steps`).

Each mediator method is a function of the run so far and of what the outside
answers it: the clock, the provider, the tool.  Guardrail checks are functions of
the output they judge; a check may raise.  The sink `on_event` does not.

`history` is a variable of the model only: what the mediator did outside, and each
time `check_budget` raised.

Left out: the run id and the timestamps of the trace, and messages whose role or
content is not a string.
-/
import AutoDev.Flows.Value
import AutoDev.Lib.Prog

namespace AutoDev.Reasoning

open AutoDev.Flows

/-! ## Budgets and usage -/

structure Budget where
  tokens : Int
  costUsd : PyFloat
  wallClockMs : Int
  maxSteps : Int
  deriving DecidableEq

structure Usage where
  tokens : Int := 0
  costUsd : PyFloat := .fin 0
  wallClockMs : Int := 0
  steps : Int := 0
  deriving DecidableEq

def Usage.accumulate (u : Usage) (tokens : Int) (costUsd : PyFloat) (wallClockMs steps : Int) :
    Usage :=
  { tokens := u.tokens + tokens
    costUsd := u.costUsd.add costUsd
    wallClockMs := u.wallClockMs + wallClockMs
    steps := u.steps + steps }

/-- `Usage.exceeds`: the steps are reached, or another dimension is crossed. -/
def Usage.exceeds (u : Usage) (budget : Budget) : Bool :=
  decide (u.steps ≥ budget.maxSteps) || decide (u.tokens > budget.tokens) ||
    budget.costUsd.lt u.costUsd || decide (u.wallClockMs > budget.wallClockMs)

def usagePayload (u : Usage) : Value :=
  .obj [("tokens", .int u.tokens), ("cost_usd", .float u.costUsd),
    ("wall_clock_ms", .int u.wallClockMs), ("steps", .int u.steps)]

/-! ## The types of the contract -/

/-- What may be raised: the two exceptions the engine knows, any other `Exception`, and what is
no `Exception` at all and passes through the engine. -/
inductive Exc where
  | budgetExceeded (usage : Usage)
  | guardrailBlocked (usage : Usage)
  | exception (type detail : String)
  | base (type : String)
  deriving DecidableEq

inductive OnViolation where
  | block
  | repairOnce
  | warn
  deriving DecidableEq

def OnViolation.text : OnViolation → String
  | .block => "block"
  | .repairOnce => "repair_once"
  | .warn => "warn"

def OnViolation.blocks : OnViolation → Bool
  | .block | .repairOnce => true
  | .warn => false

structure GuardrailSpec where
  id : String
  onViolation : OnViolation
  deriving DecidableEq

structure GuardrailResult where
  guardrailId : String
  passed : Bool
  action : Option OnViolation := none
  message : String := ""

/-- The answer of a provider. -/
structure LLMResponse where
  text : Value
  tokensInput : Int
  tokensOutput : Int
  costUsd : PyFloat

structure LLMResult where
  content : Value
  tokensInput : Int
  tokensOutput : Int
  costUsd : PyFloat

/-- `ToolResult`, whose cost and tokens keep their defaults here. -/
structure ToolResult where
  name : String
  output : Value

inductive StopReason where
  | completed
  | budgetExhausted
  | guardrailBlocked
  | error
  deriving DecidableEq

def StopReason.text : StopReason → String
  | .completed => "completed"
  | .budgetExhausted => "budget_exhausted"
  | .guardrailBlocked => "guardrail_blocked"
  | .error => "error"

def StopReason.ofText (text : String) : StopReason :=
  if text = "budget_exhausted" then .budgetExhausted
  else if text = "guardrail_blocked" then .guardrailBlocked
  else if text = "error" then .error
  else .completed

/-- The `ReasoningOutput` of a strategy: its stop reason may be any text.  The engine reads
neither its usage nor its trace id. -/
structure StrategyOutput where
  content : Value
  stopReason : String

structure ReasoningOutput where
  content : Value
  stopReason : StopReason
  usage : Usage

structure TraceEvent where
  sequence : Nat
  name : String
  payload : Obj

/-! ## The mediator -/

structure Mediator where
  budget : Budget
  guardrails : List GuardrailSpec
  tools : List String
  toolImpls : List String
  guardrailChecks : String → Option (Value → Except Exc Bool)
  strategyId : String
  recordPrompts : Bool

/-- What a run did outside, and the refusals of `check_budget`. -/
inductive Happening where
  | completion (raised : Bool)
  | tool (name : String) (raised : Bool)
  | refused (usage : Usage)
  deriving DecidableEq

def Happening.isWork : Happening → Bool
  | .completion _ | .tool _ _ => true
  | .refused _ => false

def Happening.raised : Happening → Bool
  | .completion r | .tool _ r => r
  | .refused _ => false

def Happening.isRefusal : Happening → Bool
  | .refused _ => true
  | _ => false

/-- The state of one run; `final` is the last output a streaming strategy has yielded. -/
structure Run where
  usage : Usage := {}
  events : List TraceEvent := []
  seq : Nat := 0
  final : Option StrategyOutput := none
  history : List Happening := []

namespace Run

/-- `emit`: the sequence number of the event is the mediator's. -/
def emit (s : Run) (event : TraceEvent) : Run :=
  { s with events := s.events ++ [{ event with sequence := s.seq }], seq := s.seq + 1 }

def emitNamed (s : Run) (name : String) (payload : Obj) : Run := s.emit ⟨0, name, payload⟩

def did (s : Run) (h : Happening) : Run := { s with history := s.history ++ [h] }

@[simp] theorem emitNamed_history (s : Run) (n : String) (p : Obj) :
    (s.emitNamed n p).history = s.history := rfl
@[simp] theorem emitNamed_usage (s : Run) (n : String) (p : Obj) :
    (s.emitNamed n p).usage = s.usage := rfl

end Run

namespace Mediator

variable (m : Mediator) (s : Run)

def checkBudget (elapsed : Int) : Except Exc Unit × Run :=
  let current := { s.usage with wallClockMs := elapsed }
  let s := { s with usage := current }
  if current.exceeds m.budget then
    (.error (.budgetExceeded current),
      (s.emitNamed "reasoning.budget.exhausted" [("usage", usagePayload current)]).did
        (.refused current))
  else (.ok (), s)

/-- One message: its role and its content, where it has them. -/
abbrev Message := Option String × Option String

def renderPrompt (messages : List Message) : String :=
  "\n".intercalate (messages.map fun msg => msg.1.getD "user" ++ ": " ++ msg.2.getD "")

/-- `call_llm`; the provider's answer is looked at only once the budget allows the call. -/
def callLlm (messages : List Message) (elapsed : Int) (answer : Except Exc LLMResponse) :
    Except Exc LLMResult × Run :=
  match m.checkBudget s elapsed with
  | (.error e, s) => (.error e, s)
  | (.ok _, s) =>
    let prompt := renderPrompt messages
    match answer with
    | .error e => (.error e, s.did (.completion true))
    | .ok response =>
      let tokens := response.tokensInput + response.tokensOutput
      let s := { s with usage := s.usage.accumulate tokens response.costUsd 0 1 }
      (.ok ⟨response.text, response.tokensInput, response.tokensOutput, response.costUsd⟩,
        (s.emitNamed "reasoning.llm.called"
          [("tokens", .int tokens), ("cost_usd", .float response.costUsd),
            ("prompt", if m.recordPrompts then .str prompt else .null)]).did
          (.completion false))

def callTool (name : String) (args : Obj) (elapsed : Int) (answer : Except Exc Value) :
    Except Exc ToolResult × Run :=
  match m.checkBudget s elapsed with
  | (.error e, s) => (.error e, s)
  | (.ok _, s) =>
    if name ∉ m.tools then
      (.error (.exception "ReasoningError" ("tool not available to this run: " ++ name)), s)
    else
      let called := fun (s : Run) =>
        { s with usage := s.usage.accumulate 0 (.fin 0) 0 1 }.emitNamed "reasoning.tool.called"
          [("name", .str name), ("args", if m.recordPrompts then .obj args else .null)]
      if name ∈ m.toolImpls then
        match answer with
        | .error e => (.error e, s.did (.tool name true))
        | .ok output => (.ok ⟨name, output⟩, (called s).did (.tool name false))
      else (.ok ⟨name, .null⟩, called s)

def verifyFrom (output : Value) : List GuardrailSpec → Run → Except Exc GuardrailResult × Run
  | [], s => (.ok { guardrailId := "", passed := true }, s)
  | spec :: rest, s =>
    match m.guardrailChecks spec.id with
    | none => verifyFrom output rest s
    | some check =>
      match check output with
      | .error e => (.error e, s)
      | .ok passed =>
        let s := s.emitNamed "reasoning.guardrail.evaluated"
          [("guardrail", .str spec.id), ("passed", .bool passed),
            ("action", .str spec.onViolation.text)]
        if passed then verifyFrom output rest s
        else
          (.ok
            { guardrailId := spec.id
              passed := false
              action := some spec.onViolation
              message := "guardrail '" ++ spec.id ++ "' violated" }, s)

/-- `verify`: the first failing guardrail, or a result that passed. -/
def verify (output : Value) : Except Exc GuardrailResult × Run :=
  m.verifyFrom output m.guardrails s

end Mediator

/-! ## Strategies -/

inductive Yielded where
  | output (out : StrategyOutput)
  | event (event : TraceEvent)
  | other

/-- What a strategy asks of the mediator; a streaming strategy also yields. -/
inductive Call where
  | callLlm (messages : List Mediator.Message)
  | callTool (name : String) (args : Obj)
  | verify (output : Value)
  | checkBudget
  | usage
  | emit (event : TraceEvent)
  | yielded (item : Yielded)

/-- The reply: a value, or the exception that reaches the strategy. -/
def Reply : Call → Type
  | .callLlm _ => Except Exc LLMResult
  | .callTool _ _ => Except Exc ToolResult
  | .verify _ => Except Exc GuardrailResult
  | .checkBudget => Except Exc Unit
  | .usage => Usage
  | .emit _ | .yielded _ => Unit

/-- How a strategy ends: with an output, with some other value, with the end of its stream, or
with an exception it lets through. -/
inductive Ending where
  | returned (out : StrategyOutput)
  | otherValue
  | streamEnd
  | raised (e : Exc)

/-- Any code over the mediator. -/
abbrev Strategy := Prog Call Reply Ending

def Sem (m : Mediator) : (c : Call) → Run → Reply c → Run → Prop
  | .callLlm messages, s, r, s' => ∃ elapsed answer, m.callLlm s messages elapsed answer = (r, s')
  | .callTool name args, s, r, s' =>
    ∃ elapsed answer, m.callTool s name args elapsed answer = (r, s')
  | .verify output, s, r, s' => m.verify s output = (r, s')
  | .checkBudget, s, r, s' => ∃ elapsed, m.checkBudget s elapsed = (r, s')
  | .usage, s, r, s' => ∃ elapsed, r = { s.usage with wallClockMs := elapsed } ∧ s' = s
  | .emit event, s, _, s' => s' = s.emit event
  | .yielded (.event event), s, _, s' => s' = s.emit event
  | .yielded (.output out), s, _, s' => s' = { s with final := some out }
  | .yielded .other, s, _, s' => s' = s

/-! ## The engine -/

/-- `_invoke`, once the strategy has ended. -/
def Ending.result (ending : Ending) (s : Run) : Except Exc StrategyOutput :=
  match ending with
  | .returned out => .ok out
  | .otherValue =>
    .error (.exception "ReasoningError" "strategy.run must return a ReasoningOutput")
  | .streamEnd =>
    match s.final with
    | some out => .ok out
    | none =>
      .error (.exception "ReasoningError" "streaming strategy did not yield a ReasoningOutput")
  | .raised e => .error e

/-- `_finalize`: the usage is the mediator's, at the time the clock shows. -/
def finalize (content : Value) (stop : StopReason) (s : Run) (elapsed : Int) : ReasoningOutput :=
  ⟨content, stop, { s.usage with wallClockMs := elapsed }⟩

def handle (e : Exc) (s : Run) (elapsed : Int) : Except Exc ReasoningOutput × Run :=
  match e with
  | .budgetExceeded usage =>
    (.ok ⟨.null, .budgetExhausted, usage⟩,
      s.emitNamed "reasoning.run.stopped" [("stop_reason", .str "budget_exhausted")])
  | .guardrailBlocked usage =>
    (.ok ⟨.null, .guardrailBlocked, usage⟩,
      s.emitNamed "reasoning.run.stopped" [("stop_reason", .str "guardrail_blocked")])
  | .exception type detail =>
    let s := s.emitNamed "reasoning.run.error" [("error", .str type), ("detail", .str detail)]
    (.ok (finalize .null .error s elapsed), s)
  | .base _ => (.error e, s)

def start (m : Mediator) (task : String) : Run :=
  ({} : Run).emitNamed "reasoning.run.started"
    [("strategy", .str m.strategyId), ("task", .str task)]

/-- The rest of `run`, once the strategy has ended. -/
def finish (m : Mediator) (ending : Ending) (s : Run) (elapsed : Int) :
    Except Exc ReasoningOutput × Run :=
  match ending.result s with
  | .error e => handle e s elapsed
  | .ok result =>
    match m.verify s result.content with
    | (.error e, s) => handle e s elapsed
    | (.ok guardrail, s) =>
      if !guardrail.passed && guardrail.action.any OnViolation.blocks then
        let s := s.emitNamed "reasoning.run.blocked"
          [("guardrail", .str guardrail.guardrailId),
            ("action", .str (guardrail.action.elim "" OnViolation.text))]
        (.ok (finalize result.content .guardrailBlocked s elapsed), s)
      else
        let stop := StopReason.ofText result.stopReason
        let s := s.emitNamed "reasoning.run.completed" [("stop_reason", .str stop.text)]
        (.ok (finalize result.content stop s elapsed), s)

/-- The states a run passes through, from the strategy's first call to the engine's answer. -/
inductive During (m : Mediator) (strategy : Strategy) (task : String) : Run → Prop
  | strategy {p : Strategy} {s : Run} (h : Prog.Steps (Sem m) strategy (start m task) p s) :
      During m strategy task s
  | finish {ending : Ending} {s : Run} (elapsed : Int)
      (h : Prog.Exec (Sem m) strategy (start m task) ending s) :
      During m strategy task (finish m ending s elapsed).2

end AutoDev.Reasoning
