/-
# `AutoDev.Flows.EditorFields` — the field rules of the two validators

A flow document is checked twice: by the editor (`validateFlow`) and by the
backend (`validateFlowManifest`).  This file takes the rules for single fields, of
the header, a trigger, a retry policy and a node.

The editor goes by what JavaScript makes of a value, the backend by its Python
type, so the two rules for a field are seldom the same.  They agree on a PLAIN
field: it is of the type the backend reads, and holds none of the characters on
which the regular expressions of the two sides part.  A field that only one side
looks into keeps that side's rule.
-/
import AutoDev.Flows.Editor
import AutoDev.Flows.Rendering

namespace AutoDev.Flows.Editor

open List Dict

/-! ## Reading a document -/

variable {key nodeId s : String} {α β : Type} {v r : Option Value} {doc kvs : Obj}
    {ctx : FieldContext} {numberText : Value → String} {n : Node} {t : NodeType}
    {specifierSet : String → Bool}

theorem get?_rename (hon : key ≠ "on") (htrue : key ≠ "true") :
    ∀ kvs : Obj, get? (kvs.map fun kv => (if kv.1 = "true" then "on" else kv.1, kv.2)) key =
      get? kvs key
  | [] => rfl
  | (k, v) :: kvs => by
    have ih := get?_rename hon htrue kvs
    by_cases hk : k = "true"
    · subst hk
      simpa [get?, Ne.symm hon, Ne.symm htrue] using ih
    · simp only [map_cons, get?, if_neg hk, ih]

theorem get?_rename_on : ∀ {kvs : Obj}, get? kvs "on" = none →
    get? (kvs.map fun kv => (if kv.1 = "true" then "on" else kv.1, kv.2)) "on" =
      get? kvs "true"
  | [], _ => rfl
  | (k, v) :: kvs, h => by
    by_cases hon : k = "on"
    · simp [get?, hon] at h
    have hrest : get? kvs "on" = none := by simpa [get?, hon] using h
    have ih := get?_rename_on hrest
    by_cases hk : k = "true"
    · simp [get?, hk]
    · simp only [map_cons, get?, if_neg hk, if_neg hon, ih]

theorem get?_normalizeOnKey (hon : key ≠ "on") (htrue : key ≠ "true") (kvs : Obj) :
    get? (normalizeOnKey kvs) key = get? kvs key := by
  unfold normalizeOnKey
  split
  · rfl
  · exact get?_rename hon htrue kvs

theorem get?_normalizeOnKey_on (kvs : Obj) :
    get? (normalizeOnKey kvs) "on" = (get? kvs "on").or (get? kvs "true") := by
  unfold normalizeOnKey
  rcases hon : get? kvs "on" with _ | v
  · rcases htrue : get? kvs "true" with _ | w
    · simp [hon]
    · simp [get?_rename_on hon, htrue]
  · simp [hon]

/-- The documents the editor's parser accepts. -/
structure Readable (doc : Obj) : Prop where
  header : ∀ key ∈ ["schemaVersion", "id", "version", "hostApi"],
    isNullish (get? doc key) = false
  nodes : ∃ vs, get? doc "nodes" = some (.list vs)
  edges : ∃ vs, get? doc "edges" = some (.list vs)
  triggers : ∀ v, get? doc "triggers" = some v → ∃ ts, v = .list ts
  node : ∀ v ∈ items (get? doc "nodes"), ∃ kvs, v = .obj kvs ∧ (nodeOf v).id ≠ ""
  edge : ∀ v ∈ items (get? doc "edges"),
    ∃ kvs, v = .obj kvs ∧ (edgeOf v).source ≠ "" ∧ (edgeOf v).target ≠ ""

def ObjectField (v : Option Value) : Prop := isNullish v = true ∨ ∃ kvs, v = some (.obj kvs)

structure BudgetsOk (v : Option Value) : Prop where
  object : ObjectField v
  maxCostUsd : ∀ w, v.bind (property · "maxCostUsd") = some w →
    ∃ x, w.num? = some x ∧ x.le (.fin 0) = false ∧ fitsFloat w = true
  maxWallClockSec : ∀ w, v.bind (property · "maxWallClockSec") = some w →
    ∃ i, pyInt? w = some i ∧ 1 ≤ i
  maxTokens : ∀ w, v.bind (property · "maxTokens") = some w → ∃ i, pyInt? w = some i ∧ 1 ≤ i

/-- A policy for retries whose numbers a double holds. -/
structure RetriesPlain (r : Option Value) : Prop where
  object : ObjectField r
  maxAttempts : ∀ v, r.bind (property · "maxAttempts") = some v →
    ∃ i, v = .int i ∧ fitsFloat v = true
  initialDelaySec : ∀ v, r.bind (property · "initialDelaySec") = some v →
    (∃ i, v = .int i ∧ fitsFloat v = true) ∨ ∃ x, v = .float x

/-- The header is four texts; the version is written without a suffix, in digits both sides know. -/
structure HeaderPlain (specifierSet : String → Bool) (doc : Obj) : Prop where
  texts : ∀ key ∈ ["schemaVersion", "id", "version", "hostApi"], Value.string (get? doc key) ≠ ""
  id : (Value.string (get? doc "id")).toList.getLast? ≠ some '\n'
  version : ∀ c ∈ (Value.string (get? doc "version")).toList,
    c ∉ ['-', '+', '\n'] ∧ isPyDigit c = isAsciiDigit c
  range : isSupportedRange specifierSet (Value.string (get? doc "hostApi")) = true
  blank : (Value.string (get? doc "hostApi")).toList.all isJsSpace = false

section Versions

variable {p q : Char → Bool} {cs rest : List Char}

end Versions

structure TriggerPlain (t : Value) : Prop where
  texts : ∀ key ∈ ["schedule", "on"], ∀ w, property t key = some w → ∃ s, w = .str s
  noTrue : property t "true" = none

def refRange (s : String) : String :=
  let stripped := strip (partitionAt s.toList).2
  if stripped.isEmpty then "*" else String.ofList stripped

structure RefPlain (specifierSet : String → Bool) (s : String) : Prop where
  name : (partitionAt s.toList).1.getLast? ≠ some '\n'
  range : isSupportedRange specifierSet (refRange s) = true
  line : '@' ∈ s.toList → (partitionAt s.toList).2 ≠ [] ∧
    ∀ c ∈ (partitionAt s.toList).2, isLineTerminator c = false

/-- The fields of a node are of the types the backend reads, and a node has only those of its own
type. -/
structure NodePlain (specifierSet : String → Bool) (n : Node) : Prop where
  id : n.id.toList.getLast? ≠ some '\n'
  ref : n.type ∈ refNodeTypes → ∃ s, n.get? "ref" = some (.str s) ∧ RefPlain specifierSet s
  conditional : n.type = "conditional" → n.get? "ref" = none ∧ n.get? "input" = none
  human : n.type = "human" → isNullish (n.get? "ref") = true
  input : ∀ v, n.get? "input" = some v → ∃ kvs, v = .obj kvs
  form : ∀ v, n.get? "form" = some v → v = .null ∨ ∃ kvs, v = .obj kvs
  prompt : ∀ v, n.get? "prompt" = some v → ∃ s, v = .str s
  «over» : ∀ v, n.get? "over" = some v → n.type = "map" ∧ ∃ s, s ≠ "" ∧ v = .str s
  reduce : (stringOrNone (n.get? "reduce")).getD "collect" ∈ reduceModes
  maxParallel : ∀ v, n.get? "maxParallel" = some v → v = .null ∨ ∃ i, pyInt? v = some i ∧ 1 ≤ i
  onTimeout : ∀ v, n.get? "onTimeout" = some v → ∃ s, s ≠ "" ∧ v = .str s
  timeoutSec : ∀ v, n.get? "timeoutSec" = some v → ∃ i, v = .int i
  retries : RetriesPlain (n.get? "retries")

end AutoDev.Flows.Editor
