/-
# `AutoDev.Flows.Graph` — structural validation of a flow graph

`backend/flows/graph.py`.  An error is a constructor that carries the data its
message quotes; the list of errors is built in the order of the source, with
its two early returns.

`validateGraph_eq_nil` says what an accepted graph is, in its own terms: the
two searches are replaced by what they decide (`Digraph`), and every remaining
rule is a statement about one node, one edge or one path.
-/
import Mathlib.Data.List.Sort
import Mathlib.Data.List.Dedup
import Mathlib.Data.String.Basic
import AutoDev.Lib.Digraph
import AutoDev.Flows.Model

namespace AutoDev.Flows

open List

/-! ## Errors -/

inductive PathError where
  | unknownFlowScope (scope : String)
  | inputNotDeclared (name : String)
  | unknownNode (referenced : String)
  | ownOutput
  | onlyOutputs (nodeId : String)
  | itemOutsideMap
  | unknownRoot (root : String)
  deriving DecidableEq

inductive PathLocation where
  | edge (source target : String)
  | nodeInput (nodeId : String)
  deriving DecidableEq

inductive GraphError where
  | duplicateNode (nodeId : String)
  | noNodes
  | unknownEndpoint (nodeId : String)
  | entryCount (entries : List String)
  | noTerminal
  | unreachable (nodeIds : List String)
  | unknownSignal (source target signal : String)
  | timeoutSource (source target : String)
  | conditionalFanout (nodeId : String)
  | conditionalGuards (nodeId : String)
  | unguardedFanout (nodeId : String) (count : Nat)
  | timeoutEdgeMissing (nodeId : String)
  | timeoutTarget (nodeId onTimeout : String)
  | timeoutSecMissing (nodeId : String)
  | onTimeoutNotHuman (nodeId : String)
  | unconditionalCycle (path : List String)
  | whenExpression (source target : String) (error : ExprError)
  | templateExpression (nodeId : String) (error : ExprError)
  | path (location : PathLocation) (error : PathError)
  deriving DecidableEq

/-! ## Sorted sets, as the messages list them -/

def sortedSet (xs : List String) : List String := xs.dedup.insertionSort (· ≤ ·)

variable {xs : List String} {ps : List (List String)} {es : List FlowEdge}
    {declared : Option (List String)}

theorem mem_sortedSet {x : String} : x ∈ sortedSet xs ↔ x ∈ xs := by
  simp [sortedSet]

theorem sortedSet_eq_nil : sortedSet xs = [] ↔ xs = [] := by
  simp only [eq_nil_iff_forall_not_mem, mem_sortedSet]

/-- Tuples of strings compare lexicographically. -/
def pathLe : List String → List String → Bool
  | [], _ => true
  | _ :: _, [] => false
  | a :: as, b :: bs => if a = b then pathLe as bs else decide (a < b)

def sortedPaths (ps : List (List String)) : List (List String) :=
  ps.dedup.insertionSort fun p q => pathLe p q = true

theorem mem_sortedPaths {p : List String} :
    p ∈ sortedPaths ps ↔ p ∈ ps := by
  simp [sortedPaths]

/-! ## Entry, terminals, reachability -/

variable (nodes : List FlowNode) (edges : List FlowEdge)

def edgePairs : List (String × String) :=
  edges.map fun e => (e.source, e.target)

def entryIds : List String :=
  (nodes.filter fun n => !(edges.map (·.target)).contains n.id).map (·.id)

def terminalIds : List String :=
  (nodes.filter fun n => !(edges.map (·.source)).contains n.id).map (·.id)

/-- The ids the worklist of `_validate_entry_and_reachability` marks from `entry`. -/
def reachableIds (entry : String) : List String :=
  Digraph.closeStack (edgePairs edges) (edges.length + 1) [] [entry]

def validateEntryAndReachability : List GraphError :=
  let entries := entryIds nodes edges
  (if entries.length ≠ 1 then [.entryCount (entries.insertionSort (· ≤ ·))] else []) ++
  (if terminalIds nodes edges = [] then [.noTerminal] else []) ++
  (match entries with
   | [entry] =>
     let reachable := reachableIds edges entry
     let missing := sortedSet ((nodes.map (·.id)).filter (· ∉ reachable))
     if missing = [] then [] else [.unreachable missing]
   | _ => [])

/-! ## Guards -/

def typeOf? (nodeId : String) : Option NodeType :=
  (nodes.find? (·.id == nodeId)).map (·.type)

def validateSignal (e : FlowEdge) : List GraphError :=
  (match e.on with
   | some s => if s ≠ "timeout" then [.unknownSignal e.source e.target s] else []
   | none => []) ++
  (if e.on = some "timeout" ∧ typeOf? nodes e.source ≠ some .human then
     [.timeoutSource e.source e.target]
   else [])

variable (n : FlowNode) (nodeEdges : List FlowEdge)

def validateFanout : List GraphError :=
  let unguarded := nodeEdges.filter fun e => !e.guarded
  if n.type = .conditional then
    (if nodeEdges.length < 2 then [.conditionalFanout n.id] else []) ++
    (if unguarded ≠ [] then [.conditionalGuards n.id] else [])
  else if unguarded.length > 1 then [.unguardedFanout n.id unguarded.length]
  else []

def validateTimeout : List GraphError :=
  if n.type = .human then
    let timeoutEdges := nodeEdges.filter fun e => e.on == some "timeout"
    (match n.onTimeout with
     | some target =>
       if timeoutEdges = [] then [.timeoutEdgeMissing n.id]
       else if timeoutEdges.all (·.target != target) then [.timeoutTarget n.id target]
       else []
     | none => []) ++
    (if timeoutEdges ≠ [] ∧ n.timeoutSec = none then [.timeoutSecMissing n.id] else [])
  else if n.onTimeout ≠ none then [.onTimeoutNotHuman n.id]
  else []

def outgoing (nodeId : String) : List FlowEdge :=
  edges.filter fun e => e.source == nodeId

def validateGuards : List GraphError :=
  edges.flatMap (validateSignal nodes) ++
  nodes.flatMap fun n =>
    validateFanout n (outgoing edges n.id) ++ validateTimeout n (outgoing edges n.id)

def validateUnconditionalCycles : List GraphError :=
  let unguarded := edgePairs (edges.filter fun e => !e.guarded)
  match Digraph.findCycle unguarded (unguarded.map (·.1)) with
  | some path => [.unconditionalCycle path]
  | none => []

/-! ## Expressions -/

structure PathScope where
  nodeIds : List String
  declaredInputs : Option (List String)
  allowItem : Bool := false
  selfId : Option String := none

def checkPath (sc : PathScope) (path : List String) : Option PathError :=
  let root := path.headD ""
  if root = "flow" then
    match path.tail with
    | scope :: names =>
      if scope ≠ "input" then some (.unknownFlowScope (root ++ "." ++ scope))
      else
        match sc.declaredInputs, names with
        | some declared, name :: _ =>
          if name ∉ declared then some (.inputNotDeclared name) else none
        | _, _ => none
    | [] => none
  else if root = "nodes" then
    match path.tail with
    | [] => some (.unknownNode "?")
    | nodeId :: names =>
      if nodeId ∉ sc.nodeIds then some (.unknownNode nodeId)
      else if some nodeId = sc.selfId then some .ownOutput
      else
        match names with
        | name :: _ => if name ≠ "output" then some (.onlyOutputs nodeId) else none
        | [] => none
  else if root = "item" then
    if sc.allowItem then none else some .itemOutsideMap
  else some (.unknownRoot root)

def checkPaths (sc : PathScope) (loc : PathLocation) (paths : List (List String)) :
    List GraphError :=
  (sortedPaths paths).filterMap fun p => (checkPath sc p).map (.path loc)

def stripTemplate (value : String) : List Char :=
  let text := strip value.toList
  if (['{', '{'].isPrefixOf text && ['}', '}'].isSuffixOf text) then (text.drop 2).dropLast.dropLast
  else text

variable (inputSchema : Option Obj)

def declaredInputs : Option (List String) :=
  match inputSchema.bind (Dict.get? · "properties") with
  | some (.obj kvs) => some (kvs.map (·.1))
  | _ => none

def validateWhen (nodeIds : List String) (declared : Option (List String)) (e : FlowEdge) :
    List GraphError :=
  match e.when with
  | none => []
  | some w =>
    match compileExpression (stripTemplate w) with
    | .error err => [.whenExpression e.source e.target err]
    | .ok root => checkPaths ⟨nodeIds, declared, false, none⟩ (.edge e.source e.target) root.paths

def nodePaths (n : FlowNode) : Except ExprError (List (List String)) := do
  let ps ← extractTemplatePaths (.obj n.inputBindings)
  match n.over with
  | some template => do
    let qs ← extractTemplatePaths (.str template)
    .ok (ps ++ qs)
  | none => .ok ps

def validateBindings (nodeIds : List String) (declared : Option (List String)) (n : FlowNode) :
    List GraphError :=
  match nodePaths n with
  | .error err => [.templateExpression n.id err]
  | .ok paths =>
    checkPaths ⟨nodeIds, declared, n.type == .map, some n.id⟩ (.nodeInput n.id) paths

def validateExpressions : List GraphError :=
  let nodeIds := nodes.map (·.id)
  let declared := declaredInputs inputSchema
  edges.flatMap (validateWhen nodeIds declared) ++ nodes.flatMap (validateBindings nodeIds declared)

/-! ## The whole check -/

def duplicateIds : List String :=
  (nodes.map (·.id)).filter fun i => (nodes.map (·.id)).count i > 1

def validateEndpoints (e : FlowEdge) : List GraphError :=
  (if e.source ∉ nodes.map (·.id) then [.unknownEndpoint e.source] else []) ++
  (if e.target ∉ nodes.map (·.id) then [.unknownEndpoint e.target] else [])

def validateGraph : List GraphError :=
  let duplicates := (sortedSet (duplicateIds nodes)).map GraphError.duplicateNode
  if nodes = [] then duplicates ++ [.noNodes]
  else if duplicates ≠ [] then duplicates
  else
    let endpoints := edges.flatMap (validateEndpoints nodes)
    if endpoints ≠ [] then endpoints
    else
      validateEntryAndReachability nodes edges ++ validateGuards nodes edges ++
      validateUnconditionalCycles edges ++ validateExpressions nodes edges inputSchema

/-! ## What an accepted graph is -/

def SignalOk (e : FlowEdge) : Prop :=
  ∀ s, e.on = some s → s = "timeout" ∧ typeOf? nodes e.source = some .human

def FanoutOk (n : FlowNode) (nodeEdges : List FlowEdge) : Prop :=
  if n.type = .conditional then 2 ≤ nodeEdges.length ∧ ∀ e ∈ nodeEdges, e.guarded = true
  else (nodeEdges.filter fun e => !e.guarded).length ≤ 1

def TimeoutOk (n : FlowNode) (nodeEdges : List FlowEdge) : Prop :=
  if n.type = .human then
    (∀ t, n.onTimeout = some t → ∃ e ∈ nodeEdges, e.on = some "timeout" ∧ e.target = t) ∧
    ((∃ e ∈ nodeEdges, e.on = some "timeout") → n.timeoutSec ≠ none)
  else n.onTimeout = none

def PathsOk (sc : PathScope) (r : Except ExprError (List (List String))) : Prop :=
  ∃ ps, r = .ok ps ∧ ∀ p ∈ ps, checkPath sc p = none

structure GraphOk : Prop where
  nonempty : nodes ≠ []
  nodup : (nodes.map (·.id)).Nodup
  endpoints : ∀ e ∈ edges, e.source ∈ nodes.map (·.id) ∧ e.target ∈ nodes.map (·.id)
  entry : ∃ entry, entryIds nodes edges = [entry] ∧
    ∀ n ∈ nodes, Digraph.Reach (edgePairs edges) entry n.id
  terminal : terminalIds nodes edges ≠ []
  signals : ∀ e ∈ edges, SignalOk nodes e
  fanout : ∀ n ∈ nodes, FanoutOk n (outgoing edges n.id)
  timeouts : ∀ n ∈ nodes, TimeoutOk n (outgoing edges n.id)
  acyclic : Digraph.Acyclic (edgePairs (edges.filter fun e => !e.guarded))
  predicates : ∀ e ∈ edges, ∀ w, e.when = some w →
    PathsOk ⟨nodes.map (·.id), declaredInputs inputSchema, false, none⟩
      ((compileExpression (stripTemplate w)).map ExprNode.paths)
  bindings : ∀ n ∈ nodes,
    PathsOk ⟨nodes.map (·.id), declaredInputs inputSchema, n.type == .map, some n.id⟩ (nodePaths n)

variable {nodes : List FlowNode} {e : FlowEdge} {edges : List FlowEdge} {entry : String}
    {ids : List String} {n : FlowNode}

theorem duplicateIds_eq_nil : duplicateIds nodes = [] ↔ (nodes.map (·.id)).Nodup := by
  simp only [duplicateIds, filter_eq_nil_iff, nodup_iff_count_le_one,
    decide_eq_true_eq, not_lt]
  refine ⟨fun h a => ?_, fun h a _ => h a⟩
  by_cases ha : a ∈ nodes.map (·.id)
  · exact h a ha
  · rw [count_eq_zero_of_not_mem ha]
    exact Nat.zero_le 1

theorem validateEndpoints_eq_nil :
    validateEndpoints nodes e = [] ↔
      e.source ∈ nodes.map (·.id) ∧ e.target ∈ nodes.map (·.id) := by
  unfold validateEndpoints
  split_ifs <;> simp_all

theorem mem_reachableIds {v : String} :
    v ∈ reachableIds edges entry ↔ Digraph.Reach (edgePairs edges) entry v := by
  have h := Digraph.mem_closeStack (edgePairs edges) entry v
  rwa [show (edgePairs edges).length = edges.length from by simp [edgePairs]] at h

theorem validateEntryAndReachability_eq_nil :
    validateEntryAndReachability nodes edges = [] ↔
      (∃ entry, entryIds nodes edges = [entry] ∧
        ∀ n ∈ nodes, Digraph.Reach (edgePairs edges) entry n.id) ∧
      terminalIds nodes edges ≠ [] := by
  unfold validateEntryAndReachability
  rcases hE : entryIds nodes edges with _ | ⟨entry, _ | ⟨e₂, es⟩⟩
  · simp
  · simp only [length_cons, length_nil, ne_eq, not_true_eq_false, if_false,
      nil_append, append_eq_nil_iff, ite_eq_right_iff, cons_ne_nil, imp_false,
      ite_eq_left_iff, sortedSet_eq_nil, not_not, filter_eq_nil_iff,
      mem_map, decide_eq_true_eq, mem_reachableIds, cons.injEq, and_true, exists_eq_left',
      forall_exists_index, and_imp, forall_apply_eq_imp_iff₂]
    exact And.comm
  · simp

theorem mem_of_unreachable (hentry : entryIds nodes edges = [entry])
    (h : GraphError.unreachable ids ∈ validateEntryAndReachability nodes edges) (i : String) :
    i ∈ ids ↔ i ∈ nodes.map (·.id) ∧ ¬ Digraph.Reach (edgePairs edges) entry i := by
  unfold validateEntryAndReachability at h
  simp only [hentry, length_singleton, ne_eq, not_true_eq_false, if_false, nil_append,
    mem_append] at h
  rcases h with h | h
  · split_ifs at h <;> simp at h
  · split_ifs at h with hnil
    · cases h
    · rw [mem_singleton, GraphError.unreachable.injEq] at h
      rw [h, mem_sortedSet, mem_filter, decide_eq_true_eq, mem_reachableIds]

theorem unreachable_ne_nil
    (h : GraphError.unreachable ids ∈ validateEntryAndReachability nodes edges) : ids ≠ [] := by
  unfold validateEntryAndReachability at h
  simp only [mem_append] at h
  rcases h with (h | h) | h
  · split_ifs at h <;> simp at h
  · split_ifs at h <;> simp at h
  · split at h
    · split_ifs at h with hnil
      · cases h
      · rw [mem_singleton, GraphError.unreachable.injEq] at h
        exact h ▸ hnil
    · cases h

theorem exists_unreachable (hentry : entryIds nodes edges = [entry]) (hn : n ∈ nodes)
    (hreach : ¬ Digraph.Reach (edgePairs edges) entry n.id) :
    ∃ ids, GraphError.unreachable ids ∈ validateEntryAndReachability nodes edges := by
  have hmissing : sortedSet ((nodes.map (·.id)).filter (· ∉ reachableIds edges entry)) ≠ [] := by
    refine ne_nil_of_mem (mem_sortedSet.mpr (mem_filter.mpr ⟨mem_map_of_mem hn, ?_⟩))
    rw [decide_eq_true_eq, mem_reachableIds]
    exact hreach
  refine ⟨sortedSet ((nodes.map (·.id)).filter (· ∉ reachableIds edges entry)),
    mem_append_right _ ?_⟩
  simp only [hentry, if_neg hmissing]
  exact mem_singleton_self _

theorem validateSignal_eq_nil : validateSignal nodes e = [] ↔ SignalOk nodes e := by
  unfold validateSignal SignalOk
  rcases e.on with _ | s
  · simp
  · by_cases hs : s = "timeout"
    · subst hs
      by_cases ht : typeOf? nodes e.source = some .human <;> simp [ht]
    · simp [hs]

theorem validateFanout_eq_nil : validateFanout n es = [] ↔ FanoutOk n es := by
  unfold validateFanout FanoutOk
  by_cases ht : n.type = .conditional
  · simp only [if_pos ht, append_eq_nil_iff, ite_eq_right_iff, cons_ne_nil, imp_false,
      not_lt, ne_eq, Decidable.not_not, filter_eq_nil_iff, Bool.not_eq_true',
      Bool.not_eq_false]
  · simp only [if_neg ht]
    split_ifs with h
    · simp; omega
    · simp; omega

theorem validateTimeout_eq_nil :
    validateTimeout n es = [] ↔ TimeoutOk n es := by
  unfold validateTimeout TimeoutOk
  by_cases ht : n.type = .human
  · simp only [if_pos ht, append_eq_nil_iff]
    refine and_congr ?_ ?_
    · rcases n.onTimeout with _ | t
      · simp
      by_cases hE : (es.filter fun e => e.on == some "timeout") = []
      · dsimp only
        rw [if_pos hE]
        simp only [filter_eq_nil_iff, beq_iff_eq] at hE
        simp only [cons_ne_nil, Option.some.injEq, forall_eq', false_iff, not_exists,
          not_and]
        exact fun e he h => absurd h (hE e he)
      · dsimp only
        rw [if_neg hE]
        simp [all_eq_true]
    · simp only [ite_eq_right_iff, cons_ne_nil, imp_false, not_and, ne_eq,
        filter_eq_nil_iff, beq_iff_eq, not_forall, not_not, exists_prop]
  · simp [if_neg ht]

theorem validateUnconditionalCycles_eq_nil :
    validateUnconditionalCycles edges = [] ↔
      Digraph.Acyclic (edgePairs (edges.filter fun e => !e.guarded)) := by
  rw [← Digraph.findCycle_eq_none ((edgePairs (edges.filter fun e => !e.guarded)).map (·.1))
    fun e he => mem_map_of_mem he]
  unfold validateUnconditionalCycles
  dsimp only
  split <;> simp_all

theorem isCycle_of_validateUnconditionalCycles {error : GraphError}
    (h : error ∈ validateUnconditionalCycles edges) : ∃ path, error = .unconditionalCycle path ∧
      Digraph.IsCycle (edgePairs (edges.filter fun e => !e.guarded)) path := by
  unfold validateUnconditionalCycles at h
  dsimp only at h
  split at h
  · next path hpath =>
    exact ⟨path, mem_singleton.mp h, Digraph.isCycle_of_findCycle hpath⟩
  · cases h

theorem checkPaths_eq_nil {sc : PathScope} {loc : PathLocation} :
    checkPaths sc loc ps = [] ↔ ∀ p ∈ ps, checkPath sc p = none := by
  simp [checkPaths, mem_sortedPaths]

theorem validateWhen_eq_nil :
    validateWhen ids declared e = [] ↔ ∀ w, e.when = some w →
      PathsOk ⟨ids, declared, false, none⟩
        ((compileExpression (stripTemplate w)).map ExprNode.paths) := by
  unfold validateWhen PathsOk
  rcases e.when with _ | w
  · simp
  · simp only [Option.some.injEq, forall_eq']
    rcases compileExpression (stripTemplate w) with err | root
    · simp [Except.map]
    · simp [Except.map, checkPaths_eq_nil]

theorem validateBindings_eq_nil :
    validateBindings ids declared n = [] ↔
      PathsOk ⟨ids, declared, n.type == .map, some n.id⟩ (nodePaths n) := by
  unfold validateBindings PathsOk
  rcases nodePaths n with err | ps
  · simp
  · simp [checkPaths_eq_nil]

theorem validateGraph_eq_nil {inputSchema : Option Obj} :
    validateGraph nodes edges inputSchema = [] ↔ GraphOk nodes edges inputSchema := by
  have hdup : (sortedSet (duplicateIds nodes)).map GraphError.duplicateNode = [] ↔
      (nodes.map (·.id)).Nodup := by
    rw [map_eq_nil_iff, sortedSet_eq_nil, duplicateIds_eq_nil]
  have hend : edges.flatMap (validateEndpoints nodes) = [] ↔
      ∀ e ∈ edges, e.source ∈ nodes.map (·.id) ∧ e.target ∈ nodes.map (·.id) := by
    simp only [flatMap_eq_nil_iff, validateEndpoints_eq_nil]
  unfold validateGraph
  by_cases h₁ : nodes = []
  · simp only [if_pos h₁]
    exact ⟨fun h => by simp at h, fun h => absurd h₁ h.nonempty⟩
  simp only [if_neg h₁]
  by_cases h₂ : (nodes.map (·.id)).Nodup
  swap
  · rw [if_pos (mt hdup.mp h₂)]
    exact ⟨fun h => absurd (hdup.mp h) h₂, fun h => absurd h.nodup h₂⟩
  rw [if_neg (not_not.mpr (hdup.mpr h₂))]
  by_cases h₃ : ∀ e ∈ edges, e.source ∈ nodes.map (·.id) ∧ e.target ∈ nodes.map (·.id)
  swap
  · rw [if_pos (mt hend.mp h₃)]
    exact ⟨fun h => absurd (hend.mp h) h₃, fun h => absurd h.endpoints h₃⟩
  rw [if_neg (not_not.mpr (hend.mpr h₃))]
  simp only [append_eq_nil_iff, validateEntryAndReachability_eq_nil, validateGuards,
    validateUnconditionalCycles_eq_nil, validateExpressions, flatMap_eq_nil_iff,
    validateSignal_eq_nil, validateFanout_eq_nil, validateTimeout_eq_nil, validateWhen_eq_nil,
    validateBindings_eq_nil]
  constructor
  · rintro ⟨⟨⟨⟨he, ht⟩, hs, hn⟩, hc⟩, hw, hb⟩
    exact ⟨h₁, h₂, h₃, he, ht, hs, fun n hm => (hn n hm).1, fun n hm => (hn n hm).2, hc, hw, hb⟩
  · intro h
    exact ⟨⟨⟨⟨h.entry, h.terminal⟩, h.signals, fun n hm => ⟨h.fanout n hm, h.timeouts n hm⟩⟩,
      h.acyclic⟩, h.predicates, h.bindings⟩

end AutoDev.Flows
