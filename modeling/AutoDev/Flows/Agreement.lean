/-
# `AutoDev.Flows.Agreement` — the graph rules of the two flow validators

The editor's `validateFlow` and the backend's `validateFlowManifest` read the SAME
document here.  `EditorFields` compares their rules for single fields; this file
compares those for the graph, and says what it is to be accepted by either side.

The two do NOT agree on every document, and neither side is the stricter one.  The
editor scans expressions for names where the backend parses them: it accepts a
predicate that is no expression, and refuses one whose string literal looks like a
path (`validators_disagree`).  It accepts a flow without nodes.
-/
import AutoDev.Flows.EditorFields

namespace AutoDev.Flows.Editor

open List Dict

/-! ## The two readings of an edge and a node -/

def parsedEdge (v : Value) : FlowEdge :=
  ⟨Value.string (property v "from"), Value.string (property v "to"),
    stringOrNone (property v "when"), stringOrNone (property v "on")⟩

/-- The guards of an edge are texts that are not empty, and the signal stands under `on`. -/
structure EdgePlain (v : Value) : Prop where
  guards : ∀ key ∈ ["when", "on"], ∀ w, property v key = some w → ∃ s, s ≠ "" ∧ w = .str s
  noTrue : property v "true" = none

variable {v : Value} {n : Node} {m : Manifest} {vs edges : List Value} {doc : Obj}
    {specifierSet : String → Bool}

theorem get?_entries (v : Value) (key : String) : get? (entries v) key = property v key := by
  cases v <;> rfl

theorem get?_edge {key : String} (hon : key ≠ "on") (htrue : key ≠ "true") :
    get? (normalizeOnKey (entries v)) key = property v key := by
  rw [get?_normalizeOnKey hon htrue, get?_entries]

theorem property_eq_map {key : String} (h : ∀ w, property v key = some w → ∃ s, s ≠ "" ∧ w = .str s) :
    property v key = (stringOrNone (property v key)).map .str := by
  cases hp : property v key with
  | none => rfl
  | some w =>
    obtain ⟨s, hne, rfl⟩ := h w hp
    rw [stringOrNone_eq_some.mpr ⟨rfl, hne⟩]
    rfl

theorem EdgePlain.when (h : EdgePlain v) : (edgeOf v).when = (parsedEdge v).when.map .str :=
  (get?_edge (by decide) (by decide)).trans (property_eq_map (h.guards "when" (by decide)))

theorem EdgePlain.on (h : EdgePlain v) : (edgeOf v).on = (parsedEdge v).on.map .str := by
  have hon : (edgeOf v).on = property v "on" := by
    show get? (normalizeOnKey (entries v)) "on" = _
    rw [get?_normalizeOnKey_on, get?_entries, get?_entries, h.noTrue, Option.or_none]
  exact hon.trans (property_eq_map (h.guards "on" (by decide)))

theorem EdgePlain.guarded (h : EdgePlain v) : (edgeOf v).isGuarded = (parsedEdge v).guarded := by
  simp [Edge.isGuarded, FlowEdge.guarded, h.when, h.on]

/-- There is a node, the edges are read alike, and no two timeout edges leave one node for
different ones. -/
structure GraphPlain (nodes : List Node) (edges : List Value) : Prop where
  nonempty : nodes ≠ []
  reads : ∀ v ∈ edges, EdgePlain v
  single : ∀ v ∈ edges, ∀ w ∈ edges, (parsedEdge v).on = some "timeout" →
    (parsedEdge w).on = some "timeout" → (parsedEdge v).source = (parsedEdge w).source →
    (parsedEdge v).target = (parsedEdge w).target

def nodesOf (doc : Obj) : List Node := (items (get? doc "nodes")).map nodeOf

def inputSchema (doc : Obj) : Option Obj :=
  match get? doc "input" with
  | some (.obj kvs) => some (kvs.filter fun kv => kv.1 != "schemaVersion")
  | _ => none

end AutoDev.Flows.Editor
