/-
# `AutoDev.Flows.Manifest` — from a document to a validated manifest

`backend/flows/fields.py` and `backend/flows/manifest.py`.  Every parser of the
source appends to one list of errors and returns a value; here it returns the
value and the errors it appends, in order.  An error is a constructor with the
data its message quotes.

The document is a JSON object, so its keys are strings and `_normalize_on_key`
is the identity on it.  Three things of Python show:

  * `isinstance(x, int)` holds of a `bool`; only `_parse_timeout` excludes it;
  * `value.get(key, default)` gives the default for an absent key only, so an
    explicit `null` is checked like any other value;
  * a `backoff` that is a list or a dict is unhashable: the membership test
    raises `TypeError`, and nothing catches it (`backoffUnhashable`).  So does
    `float(n)` with `OverflowError` on an integer no double can hold
    (`initialDelayOverflow`, `budgetsCostOverflow`).
-/
import AutoDev.Flows.Graph

namespace AutoDev.Flows

open List Dict

/-! ## Errors -/

/-- Where a `retries` or `timeoutSec` value stands. -/
inductive FieldContext where
  | defaults
  | node (nodeId : String)
  deriving DecidableEq

inductive ManifestError where
  | required (key : String)
  | schemaVersion
  | flowId
  | version
  | hostApi
  | triggersList
  | triggerObject (index : Nat)
  | triggerType (index : Nat)
  | triggerOn (index : Nat)
  | triggerSchedule (index : Nat)
  | ioObject (key : String)
  | budgetsObject
  | budgetsCost
  | budgetsCostOverflow
  | budgetsWallClock
  | budgetsTokens
  | defaultsObject
  | retriesObject (context : FieldContext)
  | maxAttempts (context : FieldContext)
  | backoff (context : FieldContext)
  | backoffUnhashable (context : FieldContext)
  | initialDelay (context : FieldContext)
  | initialDelayOverflow (context : FieldContext)
  | timeoutSec (context : FieldContext)
  | nodesList
  | nodeObject (index : Nat)
  | nodeId (index : Nat)
  | nodeType (nodeId : String)
  | refRequired (nodeId : String)
  | refFormat (nodeId : String)
  | refRange (nodeId versionRange : String)
  | refNotAllowed (nodeId : String) (type : NodeType)
  | inputObject (nodeId : String)
  | formObject (nodeId : String)
  | promptRequired (nodeId : String)
  | overRequired (nodeId : String)
  | overNotAllowed (nodeId : String)
  | reduce (nodeId : String)
  | maxParallel (nodeId : String)
  | edgesList
  | edgeObject (index : Nat)
  | edgeEnds (index : Nat)
  | edgeGuards (index : Nat)
  | graph (error : GraphError)
  deriving DecidableEq

/-- A parsed value and the errors appended on the way. -/
abbrev Parsed (α : Type) := α × List ManifestError

/-! ## Scalars -/

def stringOrNone (v : Option Value) : Option String :=
  if Value.string v = "" then none else some (Value.string v)

theorem stringOrNone_eq_some {v : Option Value} {s : String} :
    stringOrNone v = some s ↔ v = some (.str s) ∧ s ≠ "" := by
  unfold stringOrNone Value.string
  split
  · rename_i t
    by_cases ht : t = ""
    · subst ht
      simp
    · simp only [if_neg ht, Option.some.injEq, Value.str.injEq]
      exact ⟨fun h => ⟨h, h ▸ ht⟩, fun h => h.1⟩
  · rename_i h
    simp only [if_true, reduceCtorEq, false_iff, not_and]
    exact fun hv => absurd hv (h s)

def pyInt? : Value → Option Int
  | .int i => some i
  | .bool b => some (if b then 1 else 0)
  | _ => none

/-- `float(value)` does not raise: every integer below this bound rounds to a double. -/
def fitsFloat : Value → Bool
  | .int i => decide (i.natAbs < 2 ^ 1024 - 2 ^ 970)
  | _ => true

/-! ## Fields -/

section

variable (specifierSet : String → Bool)

/-- `text.partition("@")`: what stands before the first `@`, and after it. -/
def partitionAt (cs : List Char) : List Char × List Char :=
  (cs.takeWhile (· != '@'), (cs.dropWhile (· != '@')).drop 1)

def parseRef (value : Option Value) (nodeId : String) : Parsed (Option FlowNodeRef) :=
  let text := Value.string value
  if text = "" then (none, [.refRequired nodeId])
  else
    let refId := String.ofList (partitionAt text.toList).1
    let stripped := strip (partitionAt text.toList).2
    let versionRange := if stripped.isEmpty then "*" else String.ofList stripped
    if flowIdRe refId = false then (none, [.refFormat nodeId])
    else if isSupportedRange specifierSet versionRange = false then
      (none, [.refRange nodeId versionRange])
    else (some ⟨refId, versionRange⟩, [])

end

def parseBackoff (v : Value) (ctx : FieldContext) : Except ManifestError Backoff :=
  match v with
  | .list _ | .obj _ => .error (.backoffUnhashable ctx)
  | .str s =>
    match Backoff.ofText? s with
    | some b => .ok b
    | none => .error (.backoff ctx)
  | _ => .error (.backoff ctx)

def defaultFlowRetries : FlowRetryPolicy := {}

/-- `_parse_retries` on a mapping: the checks in order, the first failure ends them. -/
def parseRetriesObj (kvs : Obj) (ctx : FieldContext) : Except ManifestError FlowRetryPolicy := do
  let maxAttempts ←
    match get? kvs "maxAttempts" with
    | none => .ok defaultFlowRetries.maxAttempts
    | some v =>
      match pyInt? v with
      | some i => if i < 1 then .error (.maxAttempts ctx) else .ok i.toNat
      | none => .error (.maxAttempts ctx)
  let backoff ←
    match get? kvs "backoff" with
    | none => .ok defaultFlowRetries.backoff
    | some v => parseBackoff v ctx
  let initialDelaySec ←
    match get? kvs "initialDelaySec" with
    | none => .ok defaultFlowRetries.initialDelaySec
    | some v =>
      match v.num? with
      | some x =>
        if x.lt (.fin 0) then .error (.initialDelay ctx)
        else if fitsFloat v then .ok x
        else .error (.initialDelayOverflow ctx)
      | none => .error (.initialDelay ctx)
  .ok ⟨maxAttempts, backoff, initialDelaySec⟩

variable {p : FlowRetryPolicy} {ctx : FieldContext} {m : FlowManifest}

theorem one_le_of_parseRetriesObj {kvs : Obj} (h : parseRetriesObj kvs ctx = .ok p) :
    1 ≤ p.maxAttempts := by
  simp only [parseRetriesObj, bind, Except.bind] at h
  split at h
  · (repeat' split at h) <;> cases h <;> exact le_rfl
  split at h
  · split_ifs at h with hi
    have hpos : ∀ i : Int, ¬ i < 1 → 1 ≤ i.toNat := fun i hi => by omega
    (repeat' split at h) <;> cases h <;> exact hpos _ hi
  · cases h

variable (value : Option Value)

def parseRetries (ctx : FieldContext) : Parsed (Option FlowRetryPolicy) :=
  match value with
  | none | some .null => (none, [])
  | some (.obj kvs) =>
    match parseRetriesObj kvs ctx with
    | .ok p => (some p, [])
    | .error e => (none, [e])
  | some _ => (none, [.retriesObject ctx])

theorem one_le_of_parseRetries {value : Option Value} (h : (parseRetries value ctx).1 = some p) :
    1 ≤ p.maxAttempts := by
  unfold parseRetries at h
  split at h
  · cases h
  · cases h
  · split at h
    · cases h
      exact one_le_of_parseRetriesObj ‹_›
    · cases h
  · cases h

def parseTimeout (ctx : FieldContext) : Parsed (Option Int) :=
  match value with
  | none | some .null => (none, [])
  | some (.int i) => if i < 1 then (none, [.timeoutSec ctx]) else (some i, [])
  | some _ => (none, [.timeoutSec ctx])

def parseIO (key : String) : Parsed (Option FlowIO) :=
  match value with
  | none | some .null => (none, [])
  | some (.obj kvs) =>
    (some ⟨(stringOrNone (get? kvs "schemaVersion")).getD "1",
      kvs.filter fun kv => kv.1 != "schemaVersion"⟩, [])
  | some _ => (none, [.ioObject key])

def parseTrigger (item : Value) (index : Nat) : Except ManifestError FlowTrigger :=
  match item with
  | .obj kvs =>
    let type := Value.string (get? kvs "type")
    let on := stringOrNone (get? kvs "on")
    let schedule := stringOrNone (get? kvs "schedule")
    if type ∉ triggerTypes then .error (.triggerType index)
    else if type = "event" ∧ on = none then .error (.triggerOn index)
    else if type = "cron" ∧ schedule = none then .error (.triggerSchedule index)
    else .ok ⟨type, on, schedule⟩
  | _ => .error (.triggerObject index)

def parseItems {α : Type} (parse : Value → Nat → Except ManifestError α) :
    List Value → Nat → Parsed (List α)
  | [], _ => ([], [])
  | x :: xs, i =>
    let rest := parseItems parse xs (i + 1)
    match parse x i with
    | .ok a => (a :: rest.1, rest.2)
    | .error e => (rest.1, e :: rest.2)

def parseTriggers : Parsed (List FlowTrigger) :=
  match value with
  | none | some .null => ([], [])
  | some (.list xs) => parseItems parseTrigger xs 0
  | some _ => ([], [.triggersList])

def defaultFlowBudgets : FlowBudgets := {}

/-- An integer field with a default and the bound one. -/
def positiveInt (v : Option Value) (dflt : Int) (err : ManifestError) : Except ManifestError Int :=
  match v with
  | none => .ok dflt
  | some v =>
    match pyInt? v with
    | some i => if i < 1 then .error err else .ok i
    | none => .error err

def parseBudgetsObj (kvs : Obj) : Except ManifestError FlowBudgets := do
  let cost ←
    match get? kvs "maxCostUsd" with
    | none => .ok defaultFlowBudgets.maxCostUsd
    | some v =>
      match v.num? with
      | some x => if x.le (.fin 0) then .error .budgetsCost else .ok x
      | none => .error .budgetsCost
  let wall ← positiveInt (get? kvs "maxWallClockSec") defaultFlowBudgets.maxWallClockSec
    .budgetsWallClock
  let tokens ← positiveInt (get? kvs "maxTokens") defaultFlowBudgets.maxTokens .budgetsTokens
  -- `float(cost)` stands in the constructor call, after every check
  if (get? kvs "maxCostUsd").all fitsFloat then .ok ⟨cost, wall, tokens⟩
  else .error .budgetsCostOverflow

def parseBudgets : Parsed FlowBudgets :=
  match value with
  | none | some .null => (defaultFlowBudgets, [])
  | some (.obj kvs) =>
    match parseBudgetsObj kvs with
    | .ok b => (b, [])
    | .error e => (defaultFlowBudgets, [e])
  | some _ => (defaultFlowBudgets, [.budgetsObject])

def parseDefaults : Parsed FlowDefaults :=
  match value with
  | none | some .null => ({}, [])
  | some (.obj kvs) =>
    let retries := parseRetries (get? kvs "retries") .defaults
    let timeout := parseTimeout (get? kvs "timeoutSec") .defaults
    (⟨retries.1.getD defaultFlowRetries, timeout.1⟩, retries.2 ++ timeout.2)
  | some _ => ({}, [.defaultsObject])

theorem one_le_of_parseDefaults (value : Option Value) :
    1 ≤ (parseDefaults value).1.retries.maxAttempts := by
  unfold parseDefaults
  split
  · exact le_rfl
  · exact le_rfl
  · next kvs =>
    change 1 ≤ ((parseRetries (get? kvs "retries") .defaults).1.getD
      defaultFlowRetries).maxAttempts
    rcases h : (parseRetries (get? kvs "retries") .defaults).1 with _ | p
    · exact le_rfl
    · exact one_le_of_parseRetries h
  · exact le_rfl

/-! ## Nodes and edges -/

section

variable (specifierSet : String → Bool)

variable (kvs : Obj) (nodeId : String)

/-- The `ref` of a node: required on five types, refused on the two others. -/
def parseNodeRef (type : NodeType) : Parsed (Option FlowNodeRef) :=
  if type.needsRef then parseRef specifierSet (get? kvs "ref") nodeId
  else
    match get? kvs "ref" with
    | none | some .null => (none, [])
    | some _ => (none, [.refNotAllowed nodeId type])

def parseInput : Parsed Obj :=
  match get? kvs "input" with
  | none => ([], [])
  | some (.obj b) => (b, [])
  | some _ => ([], [.inputObject nodeId])

def parseForm : Parsed (Option Obj) :=
  match get? kvs "form" with
  | none | some .null => (none, [])
  | some (.obj f) => (some f, [])
  | some _ => (none, [.formObject nodeId])

def parseMaxParallel : Parsed (Option Int) :=
  match get? kvs "maxParallel" with
  | none | some .null => (none, [])
  | some v =>
    match pyInt? v with
    | some i => if i < 1 then (none, [.maxParallel nodeId]) else (some i, [])
    | none => (none, [.maxParallel nodeId])

def parseNodeFields (type : NodeType) : Parsed FlowNode :=
  let ref := parseNodeRef specifierSet kvs nodeId type
  let input := parseInput kvs nodeId
  let prompt := stringOrNone (get? kvs "prompt")
  let form := parseForm kvs nodeId
  let overText := stringOrNone (get? kvs "over")
  let reduceMode := (stringOrNone (get? kvs "reduce")).getD "collect"
  let maxParallel := parseMaxParallel kvs nodeId
  let timeout := parseTimeout (get? kvs "timeoutSec") (.node nodeId)
  let retries := parseRetries (get? kvs "retries") (.node nodeId)
  ({ id := nodeId
     type := type
     ref := ref.1
     inputBindings := input.1
     prompt := prompt
     form := form.1
     timeoutSec := timeout.1
     onTimeout := stringOrNone (get? kvs "onTimeout")
     retries := retries.1
     «over» := overText
     reduce := if reduceMode ∈ reduceModes then reduceMode else "collect"
     maxParallel := maxParallel.1 },
   ref.2 ++ input.2 ++ form.2 ++
   (if type = .human ∧ prompt = none then [.promptRequired nodeId] else []) ++
   (if type = .map ∧ overText = none then [.overRequired nodeId] else []) ++
   (if type ≠ .map ∧ overText ≠ none then [.overNotAllowed nodeId] else []) ++
   (if reduceMode ∉ reduceModes then [.reduce nodeId] else []) ++
   maxParallel.2 ++ timeout.2 ++ retries.2)

def parseNode (item : Value) (index : Nat) : Parsed (Option FlowNode) :=
  match item with
  | .obj kvs =>
    let nodeId := Value.string (get? kvs "id")
    if nodeId = "" ∨ nodeIdRe nodeId = false then (none, [.nodeId index])
    else
      match NodeType.ofText? (Value.string (get? kvs "type")) with
      | none => (none, [.nodeType nodeId])
      | some type =>
        let n := parseNodeFields specifierSet kvs nodeId type
        (some n.1, n.2)
  | _ => (none, [.nodeObject index])

def parseNodesFrom : List Value → Nat → Parsed (List FlowNode)
  | [], _ => ([], [])
  | x :: xs, i =>
    let n := parseNode specifierSet x i
    let rest := parseNodesFrom xs (i + 1)
    (n.1.toList ++ rest.1, n.2 ++ rest.2)

theorem one_le_of_mem_nodes {n : FlowNode} :
    ∀ {xs : List Value} {i : Nat}, n ∈ (parseNodesFrom specifierSet xs i).1 →
      n.retries = some p → 1 ≤ p.maxAttempts
  | [], _, h, _ => by cases h
  | x :: xs, i, h, hp => by
    rcases mem_append.mp h with h | h
    · unfold parseNode at h
      split at h
      · dsimp only at h
        split at h
        · cases h
        · split at h
          · cases h
          · cases mem_singleton.mp h
            exact one_le_of_parseRetries hp
      · cases h
    · exact one_le_of_mem_nodes h hp

def parseNodes (value : Option Value) : Parsed (List FlowNode) :=
  match value with
  | none | some .null => ([], [])
  | some (.list xs) => parseNodesFrom specifierSet xs 0
  | some _ => ([], [.nodesList])

end

def parseEdge (item : Value) (index : Nat) : Except ManifestError FlowEdge :=
  match item with
  | .obj kvs =>
    let source := Value.string (get? kvs "from")
    let target := Value.string (get? kvs "to")
    let when := stringOrNone (get? kvs "when")
    let on := stringOrNone (get? kvs "on")
    if source = "" ∨ target = "" then .error (.edgeEnds index)
    else if when ≠ none ∧ on ≠ none then .error (.edgeGuards index)
    else .ok ⟨source, target, when, on⟩
  | _ => .error (.edgeObject index)

theorem edge_guard_of_mem {e : FlowEdge} : ∀ {xs : List Value} {i : Nat},
    e ∈ (parseItems parseEdge xs i).1 → e.when = none ∨ e.on = none
  | [], _, h => by cases h
  | x :: xs, i, h => by
    unfold parseItems at h
    split at h
    · next e' hx =>
      rcases mem_cons.mp h with rfl | h
      · unfold parseEdge at hx
        split at hx
        · dsimp only at hx
          split_ifs at hx with _ hg
          cases hx
          by_contra hne
          exact hg ((not_or.mp hne).imp id id)
        · cases hx
      · exact edge_guard_of_mem h
    · exact edge_guard_of_mem h

def parseEdges (value : Option Value) : Parsed (List FlowEdge) :=
  match value with
  | none => ([], [])
  | some (.list xs) => parseItems parseEdge xs 0
  | some _ => ([], [.edgesList])

/-! ## The document -/

def requiredKeys : List String := ["schemaVersion", "id", "version", "hostApi", "nodes", "edges"]

def flowSchemaVersion : String := "1"

section

variable (specifierSet : String → Bool)

/-- The checks of the four header texts; an empty text passes. -/
def headerErrors (raw : Obj) : List ManifestError :=
  let schemaVersion := Value.string (get? raw "schemaVersion")
  let flowId := Value.string (get? raw "id")
  let version := Value.string (get? raw "version")
  let hostApi := Value.string (get? raw "hostApi")
  (if schemaVersion ≠ "" ∧ schemaVersion ≠ flowSchemaVersion then [.schemaVersion] else []) ++
  (if flowId ≠ "" ∧ flowIdRe flowId = false then [.flowId] else []) ++
  (if version ≠ "" ∧ isSemver version = false then [.version] else []) ++
  (if hostApi ≠ "" ∧ isSupportedRange specifierSet hostApi = false then [.hostApi] else [])

def parseManifest (raw : Obj) : Parsed FlowManifest :=
  let triggers := parseTriggers (get? raw "triggers")
  let input := parseIO (get? raw "input") "input"
  let output := parseIO (get? raw "output") "output"
  let budgets := parseBudgets (get? raw "budgets")
  let defaults := parseDefaults (get? raw "defaults")
  let nodes := parseNodes specifierSet (get? raw "nodes")
  let edges := parseEdges (get? raw "edges")
  ({ schemaVersion := Value.string (get? raw "schemaVersion")
     id := Value.string (get? raw "id")
     version := Value.string (get? raw "version")
     hostApi := Value.string (get? raw "hostApi")
     name := stringOrNone (get? raw "name")
     description := stringOrNone (get? raw "description")
     triggers := triggers.1
     input := input.1
     output := output.1
     defaults := defaults.1
     nodes := nodes.1
     edges := edges.1
     budgets := budgets.1 },
   (requiredKeys.filter fun k => (get? raw k).isNone).map ManifestError.required ++
   headerErrors specifierSet raw ++ triggers.2 ++ input.2 ++ output.2 ++ budgets.2 ++
   defaults.2 ++ nodes.2 ++ edges.2)

def FlowManifest.graphErrors (m : FlowManifest) : List GraphError :=
  validateGraph m.nodes m.edges (m.input.map (·.schema))

def validateFlowManifest (raw : Obj) : Except (List ManifestError) FlowManifest :=
  let m := parseManifest specifierSet raw
  if m.2 ≠ [] then .error m.2
  else if m.1.graphErrors ≠ [] then .error (m.1.graphErrors.map .graph)
  else .ok m.1

end

/-! ## What an accepted document is -/

theorem validateFlowManifest_eq_ok {specifierSet : String → Bool} {raw : Obj} :
    validateFlowManifest specifierSet raw = .ok m ↔
      parseManifest specifierSet raw = (m, []) ∧
      GraphOk m.nodes m.edges (m.input.map (·.schema)) := by
  unfold validateFlowManifest
  rcases h : parseManifest specifierSet raw with ⟨m', errs⟩
  simp only [ne_eq, ite_not]
  by_cases he : errs = []
  · subst he
    have hgraph : m'.graphErrors = [] ↔ GraphOk m'.nodes m'.edges (m'.input.map (·.schema)) :=
      validateGraph_eq_nil
    simp only [if_true, Prod.mk.injEq, and_true]
    by_cases hg : GraphOk m'.nodes m'.edges (m'.input.map (·.schema))
    · rw [if_pos (hgraph.mpr hg), Except.ok.injEq]
      exact ⟨fun h => ⟨h, h ▸ hg⟩, fun h => h.1⟩
    · rw [if_neg (mt hgraph.mp hg)]
      simp only [reduceCtorEq, false_iff, not_and]
      rintro rfl h
      exact hg h
  · simp [he]

def FlowManifest.Valid (m : FlowManifest) : Prop :=
  ∃ specifierSet raw, validateFlowManifest specifierSet raw = .ok m

theorem FlowManifest.Valid.graphOk (h : m.Valid) :
    GraphOk m.nodes m.edges (m.input.map (·.schema)) := by
  obtain ⟨_, _, h⟩ := h
  exact (validateFlowManifest_eq_ok.mp h).2

namespace FlowManifest.Valid

variable {m : FlowManifest}

theorem node_of_mem {i : String} (h : i ∈ m.nodes.map (·.id)) : ∃ n, m.node? i = some n := by
  obtain ⟨n, hn, rfl⟩ := mem_map.mp h
  have : (m.node? n.id).isSome := by
    rw [FlowManifest.node?, find?_isSome]
    exact ⟨n, hn, by simp⟩
  exact Option.isSome_iff_exists.mp this

theorem entry (h : m.Valid) : ∃ n, m.entryNode? = some n := by
  obtain ⟨e, he, -⟩ := h.graphOk.entry
  have hmap : m.entries.map (·.id) = [e] := he
  rcases hE : m.entries with _ | ⟨n, _ | ⟨n', ns⟩⟩
  · simp [hE] at hmap
  · exact ⟨n, by simp [FlowManifest.entryNode?, hE]⟩
  · simp [hE] at hmap

theorem edge_target (h : m.Valid) {e : FlowEdge} (he : e ∈ m.edges) :
    ∃ n, m.node? e.target = some n :=
  node_of_mem (h.graphOk.endpoints e he).2

theorem parsed (h : m.Valid) : ∃ sp raw, m = (parseManifest sp raw).1 := by
  obtain ⟨sp, raw, h⟩ := h
  exact ⟨sp, raw, (congrArg Prod.fst (validateFlowManifest_eq_ok.mp h).1).symm⟩

theorem edge_guard (h : m.Valid) {e : FlowEdge} (he : e ∈ m.edges) :
    e.when = none ∨ e.on = none := by
  obtain ⟨sp, raw, rfl⟩ := h.parsed
  change e ∈ (parseEdges (get? raw "edges")).1 at he
  unfold parseEdges at he
  split at he
  · cases he
  · exact edge_guard_of_mem he
  · cases he

theorem one_le_maxAttempts (h : m.Valid) {n : FlowNode} (hn : n ∈ m.nodes) :
    1 ≤ (n.retries.getD m.defaults.retries).maxAttempts := by
  obtain ⟨sp, raw, rfl⟩ := h.parsed
  rcases hr : n.retries with _ | p
  · exact one_le_of_parseDefaults (get? raw "defaults")
  · change n ∈ (parseNodes sp (get? raw "nodes")).1 at hn
    unfold parseNodes at hn
    split at hn
    · cases hn
    · cases hn
    · exact one_le_of_mem_nodes sp hn hr
    · cases hn

end FlowManifest.Valid

def singleToolFlow : FlowManifest :=
  { schemaVersion := "1", id := "demo/single", version := "1.0.0", hostApi := "*",
    nodes := [{ id := "only", type := .tool, ref := some ⟨"demo/tool", "*"⟩ }] }

def reviewDocument : Obj :=
  [("schemaVersion", .str "1"), ("id", .str "demo/review"), ("version", .str "1.0.0"),
   ("hostApi", .str "*"),
   ("nodes", .list [
     .obj [("id", .str "draft"), ("type", .str "tool"), ("ref", .str "demo/tool")],
     .obj [("id", .str "review"), ("type", .str "human"), ("prompt", .str "Publish?"),
           ("timeoutSec", .int 60)],
     .obj [("id", .str "publish"), ("type", .str "tool"), ("ref", .str "demo/tool"),
           ("input", .obj [("ok", .str "\x7b\x7b nodes.draft.output.ok \x7d\x7d")])],
     .obj [("id", .str "escalate"), ("type", .str "tool"), ("ref", .str "demo/tool")]]),
   ("edges", .list [
     .obj [("from", .str "draft"), ("to", .str "review")],
     .obj [("from", .str "review"), ("to", .str "publish")],
     .obj [("from", .str "review"), ("to", .str "escalate"), ("on", .str "timeout")]])]

def reviewFlow : FlowManifest :=
  { schemaVersion := "1", id := "demo/review", version := "1.0.0", hostApi := "*",
    nodes := [
      { id := "draft", type := .tool, ref := some ⟨"demo/tool", "*"⟩ },
      { id := "review", type := .human, prompt := some "Publish?", timeoutSec := some 60 },
      { id := "publish", type := .tool, ref := some ⟨"demo/tool", "*"⟩,
        inputBindings := [("ok", .str "\x7b\x7b nodes.draft.output.ok \x7d\x7d")] },
      { id := "escalate", type := .tool, ref := some ⟨"demo/tool", "*"⟩ }]
    edges := [
      { source := "draft", target := "review" },
      { source := "review", target := "publish" },
      { source := "review", target := "escalate", on := some "timeout" }] }

theorem reviewFlow_valid : reviewFlow.Valid :=
  ⟨fun _ => true, reviewDocument, by decide +kernel⟩

def loopDocument : Obj :=
  [("schemaVersion", .str "1"), ("id", .str "demo/loop"), ("version", .str "1.0.0"),
   ("hostApi", .str "*"),
   ("nodes", .list [
     .obj [("id", .str "start"), ("type", .str "tool"), ("ref", .str "demo/tool")],
     .obj [("id", .str "work"), ("type", .str "tool"), ("ref", .str "demo/tool"),
           ("input", .obj [("again", .str "\x7b\x7b nodes.check.output.again \x7d\x7d")])],
     .obj [("id", .str "check"), ("type", .str "tool"), ("ref", .str "demo/tool"),
           ("input", .obj [("last", .str "\x7b\x7b nodes.work.output.last \x7d\x7d")])],
     .obj [("id", .str "done"), ("type", .str "tool"), ("ref", .str "demo/tool")]]),
   ("edges", .list [
     .obj [("from", .str "start"), ("to", .str "work")],
     .obj [("from", .str "work"), ("to", .str "check")],
     .obj [("from", .str "check"), ("to", .str "work"),
           ("when", .str "nodes.check.output.again")],
     .obj [("from", .str "check"), ("to", .str "done"),
           ("when", .str "not nodes.check.output.again")]])]

def loopFlow : FlowManifest :=
  { schemaVersion := "1", id := "demo/loop", version := "1.0.0", hostApi := "*",
    nodes := [
      { id := "start", type := .tool, ref := some ⟨"demo/tool", "*"⟩ },
      { id := "work", type := .tool, ref := some ⟨"demo/tool", "*"⟩,
        inputBindings := [("again", .str "\x7b\x7b nodes.check.output.again \x7d\x7d")] },
      { id := "check", type := .tool, ref := some ⟨"demo/tool", "*"⟩,
        inputBindings := [("last", .str "\x7b\x7b nodes.work.output.last \x7d\x7d")] },
      { id := "done", type := .tool, ref := some ⟨"demo/tool", "*"⟩ }]
    edges := [
      { source := "start", target := "work" },
      { source := "work", target := "check" },
      { source := "check", target := "work", when := some "nodes.check.output.again" },
      { source := "check", target := "done", when := some "not nodes.check.output.again" }] }

theorem loopFlow_valid : loopFlow.Valid :=
  ⟨fun _ => true, loopDocument, by decide +kernel⟩

/-! ## The graph checks -/

def EdgeStep (edges : List FlowEdge) (source target : String) : Prop :=
  ∃ e ∈ edges, e.source = source ∧ e.target = target

abbrev UnguardedStep (edges : List FlowEdge) : String → String → Prop :=
  EdgeStep (edges.filter fun e => !e.guarded)

theorem edge_edgePairs (edges : List FlowEdge) :
    Digraph.Edge (edgePairs edges) = EdgeStep edges := by
  funext v w
  simp [Digraph.Edge, edgePairs, EdgeStep]

/-- The searches of `graph.py` decide what they are for.  The cycle check reports exactly the
graphs with a cycle of unguarded edges, and reports one; the unreachable nodes are those without
a path from the entry; and in an accepted manifest an unguarded walk meets no node twice. -/
theorem graph_checks_exact (nodes : List FlowNode) (edges : List FlowEdge) :
    (validateUnconditionalCycles edges ≠ [] ↔
      ∃ v, Relation.TransGen (UnguardedStep edges) v v) ∧
    (∀ error ∈ validateUnconditionalCycles edges, ∃ v path,
      error = .unconditionalCycle (v :: path ++ [v]) ∧
      (v :: path ++ [v]).IsChain (UnguardedStep edges)) ∧
    (∀ entry, entryIds nodes edges = [entry] →
      (∀ ids, .unreachable ids ∈ validateEntryAndReachability nodes edges → ∀ i, i ∈ ids ↔
        i ∈ nodes.map (·.id) ∧ ¬ Relation.ReflTransGen (EdgeStep edges) entry i) ∧
      ((∃ ids, .unreachable ids ∈ validateEntryAndReachability nodes edges) ↔
        ∃ n ∈ nodes, ¬ Relation.ReflTransGen (EdgeStep edges) entry n.id)) ∧
    ∀ m : FlowManifest, m.Valid → ∀ walk : List String, walk.IsChain (UnguardedStep m.edges) →
      walk.Nodup := by
  refine ⟨?_, ?_, ?_, ?_⟩
  · rw [ne_eq, validateUnconditionalCycles_eq_nil, UnguardedStep, ← edge_edgePairs]
    simp only [Digraph.Acyclic, not_forall, not_not]
  · intro error herror
    obtain ⟨cycle, rfl, hcycle⟩ := isCycle_of_validateUnconditionalCycles herror
    obtain ⟨v, path, rfl⟩ := hcycle.closed
    have hchain := hcycle.chain
    rw [edge_edgePairs] at hchain
    exact ⟨v, path, rfl, hchain⟩
  · intro entry hentry
    rw [← edge_edgePairs]
    refine ⟨fun ids hids i => mem_of_unreachable hentry hids i, ?_, ?_⟩
    · rintro ⟨ids, hids⟩
      obtain ⟨i, hi⟩ := exists_mem_of_ne_nil ids (unreachable_ne_nil hids)
      obtain ⟨hnode, hreach⟩ := (mem_of_unreachable hentry hids i).mp hi
      obtain ⟨n, hn, rfl⟩ := mem_map.mp hnode
      exact ⟨n, hn, hreach⟩
    · rintro ⟨n, hn, hreach⟩
      exact exists_unreachable hentry hn hreach
  · intro m hm walk hwalk
    rw [UnguardedStep, ← edge_edgePairs] at hwalk
    exact hm.graphOk.acyclic.nodup_walk hwalk

theorem graph_checks_exact_loop :
    ["start", "work", "check"].IsChain (UnguardedStep loopFlow.edges) ∧
      ["start", "work", "check"].Nodup := by
  have hchain : ["start", "work", "check"].IsChain (UnguardedStep loopFlow.edges) := by
    simp [EdgeStep, loopFlow, FlowEdge.guarded]
  exact ⟨hchain, (graph_checks_exact loopFlow.nodes loopFlow.edges).2.2.2 loopFlow loopFlow_valid _
    hchain⟩

/-! ## Payload schemas

Run inputs and human decisions are checked against a schema by two copies of one
function that differ in the noun of their messages. -/

/-- The messages of `validate_run_input` and `_validate_decision`. -/
inductive InputError where
  | missing (keys : List Value)
  | unknown (keys : List String)
  deriving DecidableEq

/-- `key in payload` for an entry of the `required` list. -/
def payloadHas (payload : Obj) : Value → Bool
  | .str s => (get? payload s).isSome
  | _ => false

def schemaErrors (schema payload : Obj) : List InputError :=
  (match get? schema "required" with
   | some (.list keys) =>
     let missing := keys.filter fun k => !payloadHas payload k
     if missing = [] then [] else [.missing missing]
   | _ => []) ++
  (match get? schema "properties" with
   | some (.obj properties) =>
     if get? schema "additionalProperties" = some (.bool false) then
       let unknown := (payload.map (·.1)).filter fun k => (get? properties k).isNone
       if unknown = [] then [] else [.unknown unknown]
     else []
   | _ => [])

def validateRunInput (m : FlowManifest) (runInput : Obj) : List InputError :=
  match m.input with
  | none => []
  | some io => schemaErrors io.schema runInput

def validateDecision (form : Option Obj) (decision : Obj) : List InputError :=
  match form with
  | none => []
  | some schema => schemaErrors schema decision

end AutoDev.Flows
