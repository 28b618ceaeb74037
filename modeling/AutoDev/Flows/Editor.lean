/-
# `AutoDev.Flows.Editor` — the flow editor's own validation

`frontend/lib/flow/yaml.ts` and `validate.ts`: the editor parses a document into
a manifest and checks it in the browser, with rules that mirror the backend's.

The parser looks at the SHAPE only (`structuralErrors`), and casts the rest.  So
a field of the manifest holds whatever the document has there, and what
`validateFlow` does with it is JavaScript's reading of that value:

  * a missing field is `undefined`, and most checks ask for that: an explicit
    `null` is a declared field;
  * `!x` is JavaScript's: an empty list or object is true, `nan` is false;
  * `String(x)`, and the text a regular expression is tested on, is defined on
    every value (`["a/b"]` reads `a/b`).  How a number is written is a parameter;
  * reading a property of `null`, or calling `matchAll` on what is no text,
    throws: the check has no result then (`TypeError`);
  * a number is a double.  Only an integer's overflow shows, since the checks ask
    whether a number is integral and compare it with 0 and 1;
  * `$` matches at the very end only, `\d` and `\w` are ASCII, and `.` stops at a
    line terminator.

The regular expressions that look into templates and predicates are scanners
over characters.  An issue is a constructor with the data its message quotes.

The document is a JSON object, as it is for `validateFlowManifest`; texts with
unpaired surrogates are not among its values.
-/
import AutoDev.Flows.Manifest

namespace AutoDev.Flows.Editor

open Dict

/-! ## Values, as JavaScript reads them -/

/-- `value.key`; what is no object has none of the keys asked for here. -/
def property : Value → String → Option Value
  | .obj kvs, key => get? kvs key
  | _, _ => none

def truthy : Value → Bool
  | .null => false
  | .bool b => b
  | .int i => decide (i ≠ 0)
  | .float x => decide (x ≠ .fin 0) && decide (x ≠ .nan)
  | .str s => decide (s ≠ "")
  | .list _ | .obj _ => true

/-- `!field`, of a field that may be missing. -/
def falsy (v : Option Value) : Bool := !v.any truthy

section

variable (numberText : Value → String)

mutual

def jsString : Value → String
  | .null => "null"
  | .bool b => if b then "true" else "false"
  | .str s => s
  | .list xs => ",".intercalate (jsStrings xs)
  | .obj _ => "[object Object]"
  | v => numberText v

/-- The members of a list as `join` writes them: `null` is empty. -/
def jsStrings : List Value → List String
  | [] => []
  | .null :: xs => "" :: jsStrings xs
  | x :: xs => jsString x :: jsStrings xs

end

end

/-! ## Parsing -/

def normalizeOnKey (entry : Obj) : Obj :=
  if (get? entry "true").isNone || (get? entry "on").isSome then entry
  else entry.map fun kv => (if kv.1 = "true" then "on" else kv.1, kv.2)

def flatMapIdx {α β : Type} (f : α → Nat → List β) : List α → Nat → List β
  | [], _ => []
  | x :: xs, i => f x i ++ flatMapIdx f xs (i + 1)

def items : Option Value → List Value
  | some (.list xs) => xs
  | _ => []

def isNullish : Option Value → Bool
  | none | some .null => true
  | _ => false

/-- `FlowNode`: the two texts the parser checks, and every field. -/
structure Node where
  id : String
  type : String
  fields : Obj

structure Edge where
  source : String
  target : String
  when : Option Value
  on : Option Value

/-- `FlowManifest`, as far as `validateFlow` reads it. -/
structure Manifest where
  schemaVersion : String
  id : String
  version : String
  hostApi : String
  triggers : List Value
  defaults : Option Value
  nodes : List Node
  edges : List Edge

/-- The fields of a mapping. -/
def entries : Value → Obj
  | .obj kvs => kvs
  | _ => []

def Node.get? (n : Node) (key : String) : Option Value := Dict.get? n.fields key

def nodeOf (v : Value) : Node :=
  ⟨Value.string (property v "id"), Value.string (property v "type"), entries v⟩

def edgeOf (v : Value) : Edge :=
  let entry := normalizeOnKey (entries v)
  ⟨Value.string (get? entry "from"), Value.string (get? entry "to"),
    get? entry "when", get? entry "on"⟩

def Edge.isGuarded (e : Edge) : Bool := e.when.isSome || e.on.isSome

/-- White space and line terminators, as `trim` removes them. -/
def isJsSpace (c : Char) : Bool :=
  [0x9, 0xa, 0xb, 0xc, 0xd, 0x20, 0xa0, 0x1680, 0x2000, 0x2001, 0x2002, 0x2003, 0x2004, 0x2005,
    0x2006, 0x2007, 0x2008, 0x2009, 0x200a, 0x2028, 0x2029, 0x202f, 0x205f, 0x3000,
    0xfeff].contains c.toNat

def isLineTerminator (c : Char) : Bool := [0xa, 0xd, 0x2028, 0x2029].contains c.toNat

def isWord (c : Char) : Bool := isAsciiLetter c || isAsciiDigit c || c == '_'

/-- Every match of a pattern that takes at least one character, from left to right.  The pattern
sees the character before the position, and gives what it captures and how much it takes. -/
def matchAll {β : Type} (pattern : Option Char → List Char → Option (β × Nat)) :
    Nat → Option Char → List Char → List β
  | _, _, [] => []
  | skip + 1, _, c :: cs => matchAll pattern skip (some c) cs
  | 0, before, c :: cs =>
    match pattern before (c :: cs) with
    | some (captured, taken) => captured :: matchAll pattern (taken - 1) (some c) cs
    | none => matchAll pattern 0 (some c) cs

def wordStart (text : String) (before : Option Char) (cs : List Char) : Option (List Char) :=
  if before.any isWord then none else stripPrefix? text.toList cs

def segment (cs : List Char) : Option (List Char) :=
  match cs with
  | '.' :: rest =>
    if (rest.takeWhile isWord).isEmpty then none else some ('.' :: rest.takeWhile isWord)
  | _ => none

/-- A captured node id and the segment behind it. -/
abbrev NodePath := String × Option String

/-- What a node pattern captures, `taken` characters before the segment. -/
def capture (nodeId rest : List Char) (taken : Nat) : NodePath × Nat :=
  let seg := segment rest
  ((String.ofList nodeId, seg.map String.ofList), taken + (seg.getD []).length)

variable (before : Option Char) (cs : List Char)

def nodesDot : Option (NodePath × Nat) := do
  let rest ← wordStart "nodes." before cs
  let nodeId := rest.takeWhile isIdentChar
  if nodeId.isEmpty then none
  else some (capture nodeId (rest.dropWhile isIdentChar) (6 + nodeId.length))

def nodesBracket : Option (NodePath × Nat) := do
  let rest ← wordStart "nodes['" before cs
  let nodeId := rest.takeWhile (· != '\'')
  let tail ← stripPrefix? ['\'', ']'] (rest.dropWhile (· != '\''))
  if nodeId.isEmpty then none else some (capture nodeId tail (9 + nodeId.length))

def flowDot : Option (String × Nat) := do
  let rest ← wordStart "flow." before cs
  let root := rest.takeWhile isWord
  if root.isEmpty then none else some (String.ofList root, 5 + root.length)

def itemWord : Option (Unit × Nat) := do
  let rest ← wordStart "item" before cs
  if rest.head?.any isWord then none else some ((), 4)

def beforeClose : List Char → Option (List Char)
  | [] => none
  | '}' :: '}' :: _ => some []
  | c :: cs => (beforeClose cs).map (c :: ·)

def templatePattern (_ : Option Char) (cs : List Char) : Option (String × Nat) := do
  let rest ← stripPrefix? ['{', '{'] cs
  let content ← beforeClose rest
  some (String.ofList content, content.length + 4)

/-! ## Issues -/

/-- Where an expression stands. -/
inductive Place where
  | when (edgeIndex : Nat)
  | input (nodeId : String)
  | «over» (nodeId : String)
  deriving DecidableEq

inductive Issue where
  | schemaVersion (got : String)
  | flowId (got : String)
  | flowVersion (got : String)
  | hostApi
  | triggerType (got : Option Value)
  | triggerCron
  | triggerEvent
  | maxAttempts (nodeId : Option String)
  | backoff (nodeId : Option String)
  | initialDelaySec (nodeId : Option String)
  | nodeType (nodeId got : String)
  | nodeRefMissing (nodeId : String)
  | nodeRef (nodeId : String) (ref : Value)
  | conditionalFields (nodeId : String)
  | humanPrompt (nodeId : String)
  | onTimeout (nodeId : String)
  | mapOver (nodeId : String)
  | timeout (nodeId : String)
  | duplicateId (nodeId : String)
  | nodeId (nodeId : String)
  | edgeEndpoint (edgeIndex : Nat) (endpoint : String)
  | edgeGuard (edgeIndex : Nat)
  | edgeSignal (edgeIndex : Nat) (signal : Value)
  | timeoutSource (edgeIndex : Nat)
  | timeoutMissing (nodeId : String)
  | timeoutTarget (nodeId : String) (onTimeout : Value) (target : String)
  | timeoutEdgeMissing (nodeId : String)
  | entryNode (entries : List String)
  | terminalNode
  | unreachable (nodeId : String)
  | unconditionalCycle (nodeIds : List String)
  | conditionalFanout (nodeId : String) (count : Nat)
  | conditionalGuards (nodeId : String)
  | implicitFanout (nodeId : String)
  | exprUnknownNode (place : Place) (nodeId : String)
  | exprNodeOutput (place : Place) (nodeId segment : String)
  | exprFlowRoot (place : Place) (root : String)
  | exprItemScope (place : Place)
  deriving DecidableEq

inductive TypeError where
  | triggerNull
  | notText (place : Place)
  deriving DecidableEq

/-- The issues a check pushes, unless it throws. -/
abbrev Checked := Except TypeError (List Issue)

def inOrder : List Checked → Checked
  | [] => .ok []
  | .error e :: _ => .error e
  | .ok issues :: rest => (inOrder rest).map (issues ++ ·)

theorem inOrder_eq_nil : ∀ {cs : List Checked}, inOrder cs = .ok [] ↔ ∀ c ∈ cs, c = .ok []
  | [] => by simp [inOrder]
  | .error e :: cs => by simp [inOrder]
  | .ok issues :: cs => by
    have ih : inOrder cs = .ok [] ↔ ∀ c ∈ cs, c = .ok [] := inOrder_eq_nil
    simp only [inOrder, List.mem_cons, forall_eq_or_imp, Except.ok.injEq, ← ih]
    cases inOrder cs <;> simp [Except.map]

def issueIf (p : Prop) [Decidable p] (i : Issue) : List Issue := if p then [i] else []

@[simp] theorem issueIf_eq_nil {p : Prop} [Decidable p] {i : Issue} : issueIf p i = [] ↔ ¬ p := by
  unfold issueIf
  split <;> simp [*]

/-! ## Fields -/

def refNodeTypes : List String := ["agent", "skill", "tool", "subflow", "map"]

section

variable (numberText : Value → String)

end

/-! ## Expressions -/

variable (place : Place) (nodeIds : List String)

def validateNodePath (path : NodePath) : List Issue :=
  issueIf (path.1 ∉ nodeIds) (.exprUnknownNode place path.1) ++
    path.2.elim [] fun seg => issueIf (seg ≠ ".output") (.exprNodeOutput place path.1 seg)

def validateExpression (allowItem : Bool) (expression : String) : List Issue :=
  let cs := expression.toList
  (matchAll nodesDot 0 none cs ++ matchAll nodesBracket 0 none cs).flatMap
      (validateNodePath place nodeIds) ++
    (matchAll flowDot 0 none cs).flatMap
      (fun root => issueIf (root ≠ "input") (.exprFlowRoot place root)) ++
    issueIf (allowItem = false ∧ matchAll itemWord 0 none cs ≠ []) (.exprItemScope place)

def validateExpressionValue : Value → Checked
  | .str s => .ok (validateExpression place nodeIds false s)
  | _ => .error (.notText place)

def templates (s : String) : List String := matchAll templatePattern 0 none s.toList

def collectTemplates (v : Option Value) : List String :=
  (v.elim [] Value.strings).flatMap templates

def validateWhen (e : Edge) (index : Nat) : List Checked :=
  e.when.elim [] fun v => [validateExpressionValue (.when index) nodeIds v]

def validateOver (n : Node) : Checked :=
  let ts := collectTemplates (n.get? "over")
  if ts = [] then validateExpressionValue (.over n.id) nodeIds ((n.get? "over").getD .null)
  else .ok (ts.flatMap (validateExpression (.over n.id) nodeIds false))

def validateBindings (n : Node) : Checked :=
  inOrder
    [.ok ((collectTemplates (n.get? "input")).flatMap
        (validateExpression (.input n.id) nodeIds (n.type == "map"))),
      if n.type = "map" ∧ falsy (n.get? "over") = false then validateOver nodeIds n else .ok []]

def validateExpressions (m : Manifest) : Checked :=
  let nodeIds := m.nodes.map Node.id
  inOrder (flatMapIdx (validateWhen nodeIds) m.edges 0 ++ m.nodes.map (validateBindings nodeIds))

/-! ## The graph -/

def validateIds : List Node → List String → List Issue
  | [], _ => []
  | n :: rest, seen =>
    issueIf (n.id ∈ seen) (.duplicateId n.id) ++
      issueIf (isKebab n.id.toList = false) (.nodeId n.id) ++ validateIds rest (n.id :: seen)

def nodeById (nodes : List Node) (nodeId : String) : Option Node :=
  nodes.reverse.find? (·.id == nodeId)

def validateTimeoutEdge (source : Node) (e : Edge) (index : Nat) : List Issue :=
  if source.type ≠ "human" then [.timeoutSource index]
  else
    issueIf ((source.get? "timeoutSec").isNone = true) (.timeoutMissing source.id) ++
      (source.get? "onTimeout").elim [] fun t =>
        issueIf (t ≠ .str e.target) (.timeoutTarget source.id t e.target)

def validateEdge (nodes : List Node) (e : Edge) (index : Nat) : List Issue :=
  issueIf (e.source ∉ nodes.map Node.id) (.edgeEndpoint index e.source) ++
    issueIf (e.target ∉ nodes.map Node.id) (.edgeEndpoint index e.target) ++
    issueIf (e.when.isSome = true ∧ e.on.isSome = true) (.edgeGuard index) ++
    e.on.elim [] fun signal =>
      if signal ≠ .str "timeout" then [.edgeSignal index signal]
      else (nodeById nodes e.source).elim [] fun source => validateTimeoutEdge source e index

variable (edges : List Edge)

def outgoing (nodeId : String) : List Edge :=
  edges.filter (·.source == nodeId)

def edgePairs : List (String × String) :=
  edges.map fun e => (e.source, e.target)

def validateOnTimeout (n : Node) : List Issue :=
  issueIf (n.type = "human" ∧ (n.get? "onTimeout").isSome = true ∧
    ((outgoing edges n.id).any fun e => e.on == some (.str "timeout")) = false)
    (.timeoutEdgeMissing n.id)

variable (m : Manifest)

def entryIds : List String :=
  (m.nodes.map Node.id).filter (· ∉ m.edges.map Edge.target)

def terminalIds : List String :=
  (m.nodes.map Node.id).filter (· ∉ m.edges.map Edge.source)

/-- The breadth-first search from the entry node, along edges to declared nodes. -/
def reachable (entry : String) : List String :=
  let pairs := edgePairs (m.edges.filter (·.target ∈ m.nodes.map Node.id))
  Digraph.closeQueue pairs (pairs.length + 1) [entry] [entry]

def validateShape : List Issue :=
  issueIf (m.nodes ≠ [] ∧ (entryIds m).length ≠ 1) (.entryNode (entryIds m)) ++
    issueIf (m.nodes ≠ [] ∧ terminalIds m = []) .terminalNode ++
    match entryIds m with
    | [entry] => (m.nodes.filter (·.id ∉ reachable m entry)).map fun n => .unreachable n.id
    | _ => []

def unguardedPairs : List (String × String) :=
  edgePairs (m.edges.filter fun e =>
    !e.isGuarded && decide (e.source ∈ m.nodes.map Node.id) &&
      decide (e.target ∈ m.nodes.map Node.id))

def validateCycles : List Issue :=
  let members := Digraph.cycleMembers (unguardedPairs m) (m.nodes.map Node.id)
  issueIf (members ≠ []) (.unconditionalCycle members)

def validateFanout (n : Node) : List Issue :=
  let out := outgoing edges n.id
  if n.type = "conditional" then
    issueIf (out.length < 2) (.conditionalFanout n.id out.length) ++
      issueIf ((out.any fun e => !e.isGuarded) = true) (.conditionalGuards n.id)
  else issueIf ((out.filter fun e => !e.isGuarded).length > 1) (.implicitFanout n.id)

def validateGraph : List Issue :=
  validateIds m.nodes [] ++ flatMapIdx (validateEdge m.nodes) m.edges 0 ++
    m.nodes.flatMap (validateOnTimeout m.edges) ++ validateShape m ++ validateCycles m ++
    m.nodes.flatMap (validateFanout m.edges)

end AutoDev.Flows.Editor
