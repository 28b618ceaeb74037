/-
# `AutoDev.Flows.Model` — the typed model of a flow manifest

`backend/flows/model.py` and `backend/flows/budgets.py`: the dataclasses a
validated `flow.yaml` becomes, the three identifier expressions, the lookups
`node`, `edges_from` and `entry_node`, and the budget arithmetic of ADR-006.

A lookup that raises in the source (`KeyError`, `ValueError`) is `none` here.
The identifier expressions end in `$`, which Python also matches in front of
one final newline; `matchDollar` keeps that.  Whether a version range is a
valid PEP 440 specifier set is decided by the `packaging` library, which is
not part of this repository: it is the parameter `specifierSet`.
-/
import AutoDev.Flows.Expressions

namespace AutoDev.Flows

open List

/-! ## Identifiers -/

def isKebabChar (c : Char) : Bool := (decide ('a' ≤ c) && decide (c ≤ 'z')) || isAsciiDigit c

def splitOnChar (sep : Char) : List Char → List (List Char)
  | [] => [[]]
  | c :: cs =>
    if c = sep then [] :: splitOnChar sep cs
    else
      match splitOnChar sep cs with
      | [] => [[c]]
      | p :: ps => (c :: p) :: ps

def isKebab (cs : List Char) : Bool :=
  (splitOnChar '-' cs).all fun p => !p.isEmpty && p.all isKebabChar

def isFlowIdText (cs : List Char) : Bool :=
  match splitOnChar '/' cs with
  | [ns, name] => isKebab ns && isKebab name
  | _ => false

/-- `p$`: the text, or the text before one final newline. -/
def matchDollar (p : List Char → Bool) (cs : List Char) : Bool :=
  p cs || (cs.getLast? == some '\n' && p cs.dropLast)

variable (s : String)

def nodeIdRe : Bool := matchDollar isKebab s.toList

def flowIdRe : Bool := matchDollar isFlowIdText s.toList

def digitRun? (isDigit : Char → Bool) (cs : List Char) : Option (List Char) :=
  if (cs.takeWhile isDigit).isEmpty then none else some (cs.dropWhile isDigit)

/-- Three digit runs joined by dots, and what follows them. -/
def versionCore? (isDigit : Char → Bool) (cs : List Char) : Option (List Char) := do
  let r₁ ← digitRun? isDigit cs
  let r₂ ← stripPrefix? ['.'] r₁
  let r₃ ← digitRun? isDigit r₂
  let r₄ ← stripPrefix? ['.'] r₃
  digitRun? isDigit r₄

def isSuffixChar (c : Char) : Bool := isAsciiDigit c || isAsciiLetter c || c == '.' || c == '-'

/-- The whole text is a version with an optional pre-release or build suffix. -/
def isSemverText (cs : List Char) : Bool :=
  match versionCore? isPyDigit cs with
  | none => false
  | some [] => true
  | some (c :: suffix) => (c == '-' || c == '+') && !suffix.isEmpty && suffix.all isSuffixChar

def isSemver : Bool := matchDollar isSemverText s.toList

def splitWs : List Char → List (List Char)
  | [] => []
  | c :: cs =>
    if isPySpace c then splitWs cs
    else
      match cs with
      | [] => [[c]]
      | d :: _ =>
        if isPySpace d then [c] :: splitWs cs
        else
          match splitWs cs with
          | [] => [[c]]
          | p :: ps => (c :: p) :: ps

def normalizeRange : String :=
  String.ofList (intercalate [','] (splitWs s.toList))

def isSupportedRange (specifierSet : String → Bool) (s : String) : Bool :=
  s == "*" || isSemver s || specifierSet (normalizeRange s)

/-! ## Vocabularies -/

inductive NodeType where
  | agent
  | skill
  | tool
  | conditional
  | human
  | subflow
  | map
  deriving DecidableEq

def NodeType.text : NodeType → String
  | .agent => "agent"
  | .skill => "skill"
  | .tool => "tool"
  | .conditional => "conditional"
  | .human => "human"
  | .subflow => "subflow"
  | .map => "map"

def NodeType.ofText? : Option NodeType :=
  [NodeType.agent, .skill, .tool, .conditional, .human, .subflow, .map].find? (·.text == s)

def NodeType.needsRef : NodeType → Bool
  | .conditional | .human => false
  | _ => true

def triggerTypes : List String := ["message", "webhook", "cron", "event"]

inductive Backoff where
  | fixed
  | exponential
  deriving DecidableEq

/-- The manifest's word for a backoff mode. -/
def Backoff.text : Backoff → String
  | .fixed => "fixed"
  | .exponential => "exponential"

def Backoff.ofText? : Option Backoff :=
  [Backoff.fixed, .exponential].find? (·.text == s)

def reduceModes : List String := ["collect"]

/-! ## The manifest -/

structure FlowRetryPolicy where
  maxAttempts : Nat := 1
  backoff : Backoff := .exponential
  initialDelaySec : PyFloat := .fin 2
  deriving DecidableEq

structure FlowDefaults where
  retries : FlowRetryPolicy := {}
  timeoutSec : Option Int := none
  deriving DecidableEq

structure FlowBudgets where
  maxCostUsd : PyFloat := .fin 10
  maxWallClockSec : Int := 3600
  maxTokens : Int := 2000000
  deriving DecidableEq

/-- `FlowTrigger`, without the metadata nothing reads. -/
structure FlowTrigger where
  type : String
  on : Option String := none
  schedule : Option String := none
  deriving DecidableEq

structure FlowNodeRef where
  id : String
  versionRange : String := "*"
  deriving DecidableEq

structure FlowNode where
  id : String
  type : NodeType
  ref : Option FlowNodeRef := none
  inputBindings : Obj := []
  prompt : Option String := none
  form : Option Obj := none
  timeoutSec : Option Int := none
  onTimeout : Option String := none
  retries : Option FlowRetryPolicy := none
  «over» : Option String := none
  reduce : String := "collect"
  maxParallel : Option Int := none
  deriving DecidableEq

structure FlowEdge where
  source : String
  target : String
  when : Option String := none
  on : Option String := none
  deriving DecidableEq

def FlowEdge.guarded (e : FlowEdge) : Bool := e.when.isSome || e.on.isSome

structure FlowIO where
  schemaVersion : String
  schema : Obj
  deriving DecidableEq

structure FlowManifest where
  schemaVersion : String
  id : String
  version : String
  hostApi : String
  name : Option String := none
  description : Option String := none
  triggers : List FlowTrigger := []
  input : Option FlowIO := none
  output : Option FlowIO := none
  defaults : FlowDefaults := {}
  nodes : List FlowNode := []
  edges : List FlowEdge := []
  budgets : FlowBudgets := {}
  deriving DecidableEq

namespace FlowManifest

variable (m : FlowManifest)

/-- `FlowManifest.node`; `none` is the `KeyError`. -/
def node? (nodeId : String) : Option FlowNode :=
  m.nodes.find? fun n => n.id == nodeId

def edgesFrom (nodeId : String) : List FlowEdge :=
  m.edges.filter fun e => e.source == nodeId

def entries : List FlowNode :=
  m.nodes.filter fun n => !(m.edges.map (·.target)).contains n.id

def entryNode? : Option FlowNode :=
  match m.entries with
  | [n] => some n
  | _ => none

variable {m : FlowManifest} {n : FlowNode}

theorem node?_id {i : String} (h : m.node? i = some n) :
    n.id = i := by
  have := find?_some h
  simpa using this

theorem node?_mem {i : String} (h : m.node? i = some n) :
    n ∈ m.nodes := mem_of_find?_eq_some h

theorem entryNode?_mem (h : m.entryNode? = some n) :
    n ∈ m.nodes := by
  unfold entryNode? at h
  split at h
  · rename_i n' hn
    cases h
    have : n ∈ m.entries := by simp [hn]
    exact (mem_filter.mp this).1
  · cases h

end FlowManifest

/-! ## Budgets -/

/-- `min(a, b)` on floats: the first argument unless the second is smaller. -/
def PyFloat.pyMin (a b : PyFloat) : PyFloat := if b.lt a then b else a

def mergeBudgets (budgets cap : FlowBudgets) : FlowBudgets where
  maxCostUsd := budgets.maxCostUsd.pyMin cap.maxCostUsd
  maxWallClockSec := min budgets.maxWallClockSec cap.maxWallClockSec
  maxTokens := min budgets.maxTokens cap.maxTokens

def effectiveBudgets (budgets : FlowBudgets) (persisted budgetCap : Option FlowBudgets) :
    FlowBudgets :=
  let e := match persisted with
    | some c => mergeBudgets budgets c
    | none => budgets
  match budgetCap with
  | some c => mergeBudgets e c
  | none => e

inductive BudgetViolation where
  | wallClock (elapsed : ℚ) (limit : Int)
  | tokens (used : PyFloat) (limit : Int)
  | cost (used limit : PyFloat)
  | stepCap (limit : Nat)
  deriving DecidableEq

def budgetViolation (b : FlowBudgets) (tokens costUsd : PyFloat) (elapsed : ℚ)
    (activations maxSteps : Nat) : Option BudgetViolation :=
  if elapsed > b.maxWallClockSec then some (.wallClock elapsed b.maxWallClockSec)
  else if (PyFloat.fin b.maxTokens).lt tokens then some (.tokens tokens b.maxTokens)
  else if b.maxCostUsd.lt costUsd then some (.cost costUsd b.maxCostUsd)
  else if activations ≥ maxSteps then some (.stepCap maxSteps)
  else none

theorem budgetViolation_eq_none {b : FlowBudgets} {t c : PyFloat} {e : ℚ} {a k : Nat} :
    budgetViolation b t c e a k = none ↔
      e ≤ b.maxWallClockSec ∧ (PyFloat.fin b.maxTokens).lt t = false ∧
      b.maxCostUsd.lt c = false ∧ a < k := by
  unfold budgetViolation
  split_ifs with h₁ h₂ h₃ h₄ <;> simp_all

def maxBackoffDelaySec : PyFloat := .fin 3600

def PyFloat.scale (x : PyFloat) (n : Nat) : PyFloat :=
  match x with
  | .fin q => .fin (q * 2 ^ n)
  | x => x

def backoffDelay (p : FlowRetryPolicy) (failedAttempt : Nat) : PyFloat :=
  match p.backoff with
  | .exponential =>
    (p.initialDelaySec.scale (min (failedAttempt - 1) 63)).pyMin maxBackoffDelaySec
  | .fixed => p.initialDelaySec

def overshoots (clock : ℚ) (delay : PyFloat) (deadline : ℚ) : Bool :=
  match delay with
  | .fin d => decide (clock + d > deadline)
  | .posInf => true
  | _ => false

end AutoDev.Flows
