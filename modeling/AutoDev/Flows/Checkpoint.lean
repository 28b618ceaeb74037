/-
# `AutoDev.Flows.Checkpoint` — routing, and replay of a decision path

`backend/flows/checkpoint.py`.  ADR-005 splits a run into recorded effects
(the outputs of its completed steps) and pure derivation (rendering a node's
bindings, choosing the next node).  `replayDecisionPath` repeats the second
over the first and reports every divergence.

A `DecisionStep` takes the derivation over ONE completed step, a `DecisionPath`
over a list of them.  `manifest.node` raises `KeyError` for a cursor that names no
node; the replay does not catch it, and its result is then `none`.
-/
import AutoDev.Flows.Records

namespace AutoDev.Flows

open List

/-! ## Routing -/

def evalState (runInput : Obj) (nodes : Dict Value) : Value :=
  .obj [("flow", .obj [("input", .obj runInput)]),
    ("nodes", .obj (Dict.mapVal (fun v => .obj [("output", v)]) nodes))]

/-- The two ways `select_next_node` raises. -/
inductive RouteError where
  | predicate (error : ExprError)
  | noRoute (nodeId : String)
  deriving DecidableEq

def firstMatch (state : Value) : List FlowEdge → Except ExprError (Option String)
  | [] => .ok none
  | e :: es =>
    match e.when with
    | none => firstMatch state es
    | some w => do
      let v ← evaluateExpression (stripTemplate w) state
      if v.truthy then .ok (some e.target) else firstMatch state es

def selectNextNode (m : FlowManifest) (node : FlowNode) (state : Value) :
    Except RouteError (Option String) :=
  let edges := m.edgesFrom node.id
  if edges = [] then .ok none
  else
    match firstMatch state edges with
    | .error e => .error (.predicate e)
    | .ok (some target) => .ok (some target)
    | .ok none =>
      match edges.find? fun e => !e.guarded with
      | some e => .ok (some e.target)
      | none => if edges.all (·.on.isSome) then .ok none else .error (.noRoute node.id)

variable {state : Value} {t : String} {m : FlowManifest} {node : FlowNode}

theorem firstMatch_mem :
    ∀ {es : List FlowEdge}, firstMatch state es = .ok (some t) →
      ∃ e ∈ es, e.target = t ∧ e.when.isSome
  | [], h => by simp [firstMatch] at h
  | e :: es, h => by
    unfold firstMatch at h
    split at h
    · obtain ⟨e', he', ht⟩ := firstMatch_mem h
      exact ⟨e', .tail _ he', ht⟩
    rename_i w hw
    rcases hv : evaluateExpression (stripTemplate w) state with err | v
    · rw [hv] at h
      cases h
    rw [hv] at h
    change (if v.truthy = true then _ else _) = _ at h
    split at h
    · cases h
      exact ⟨e, by simp, rfl, by simp [hw]⟩
    · obtain ⟨e', he', ht⟩ := firstMatch_mem h
      exact ⟨e', .tail _ he', ht⟩

theorem selectNextNode_edge (h : selectNextNode m node state = .ok (some t)) :
    ∃ e ∈ m.edgesFrom node.id, e.target = t ∧ (e.when.isSome ∨ e.guarded = false) := by
  unfold selectNextNode at h
  simp only at h
  split at h
  · cases h
  split at h
  · cases h
  · cases h
    obtain ⟨e, he, ht, hw⟩ := firstMatch_mem ‹_›
    exact ⟨e, he, ht, .inl hw⟩
  · split at h
    · cases h
      have hf := find?_some ‹find? _ _ = some _›
      exact ⟨_, mem_of_find?_eq_some ‹_›, rfl, .inr (by simpa using hf)⟩
    · split at h <;> cases h

theorem selectNextNode_mem (h : selectNextNode m node state = .ok (some t)) :
    ∃ e ∈ m.edges, e.target = t := by
  obtain ⟨e, he, ht, -⟩ := selectNextNode_edge h
  exact ⟨e, (mem_filter.mp he).1, ht⟩

theorem selectNextNode_none (h : selectNextNode m node state = .ok none) :
    ∀ e ∈ m.edgesFrom node.id, e.on.isSome := by
  unfold selectNextNode at h
  simp only at h
  split at h
  · rename_i hnil
    rw [hnil]
    exact fun e he => absurd he not_mem_nil
  split at h
  · cases h
  · cases h
  · split at h
    · cases h
    · split at h
      · rename_i hall
        exact fun e he => all_eq_true.mp hall e he
      · cases h

def finalOutput (m : FlowManifest) (nodes : Dict Value) : Obj :=
  m.nodes.foldl (fun last n =>
    match Dict.get? nodes n.id with
    | some (.obj o) => o
    | _ => last) []

/-! ## Replay -/

/-- What is wrong at a position of the trace. -/
inductive Divergence where
  | noEntry (entries : List String)
  | terminalCursor (index : Nat) (recorded : String)
  | node (index : Nat) (derived recorded : String)
  | bindings (index : Nat) (nodeId : String) (error : ExprError)
  | input (index : Nat) (nodeId : String)
  | routing (index : Nat) (nodeId : String) (error : RouteError)
  | finalCursor (derived : Option String) (recorded : Value)
  deriving DecidableEq

structure FlowReplayReport where
  deterministic : Bool
  recordedSequence : List String
  replayedSequence : List String
  divergences : List Divergence
  deriving DecidableEq

/-- What replay reads of a run record: `state.get("cursor")` may be any document. -/
structure ReplayRun where
  input : Obj
  stopReason : StopReason
  cursor : Value
  deriving DecidableEq

def cursorValue : Option String → Value
  | some c => .str c
  | none => .null

theorem pyEq_cursorValue {c : Option String} {v : Value} :
    (cursorValue c).pyEq v = true ↔ v = cursorValue c := by
  rcases c with _ | c
  · rcases v with _ | _ | _ | (_ | _ | _ | _) | _ | _ | _ <;>
      simp [cursorValue, Value.pyEq, Value.eqv, Value.numEq, Value.num?]
  rcases v with _ | _ | _ | (_ | _ | _ | _) | t | _ | _
  case str =>
      simp only [cursorValue, Value.pyEq, Value.eqv, Bool.or_self, decide_eq_true_eq,
        Value.str.injEq]
      exact eq_comm
  all_goals simp [cursorValue, Value.pyEq, Value.eqv, Value.numEq, Value.num?]

def FlowRunRecord.replayView (r : FlowRunRecord) : ReplayRun :=
  ⟨r.input, r.stopReason, cursorValue r.state.cursor⟩

section

variable (strOf : Value → String)

def renderBindings (node : FlowNode) (runInput : Obj) (nodes : Dict Value) :
    Except ExprError Obj :=
  if node.type = .map then .ok []
  else renderEntries strOf (evalState runInput nodes) node.inputBindings

structure ReplayState where
  replayed : List String
  divergences : List Divergence
  nodes : Dict Value
  cursor : Option String

def ReplayState.diverge (st : ReplayState) (d : Divergence) : ReplayState :=
  { st with divergences := st.divergences ++ [d] }

def foldOutput (nodes : Dict Value) (step : FlowStepRecord) : Dict Value :=
  Dict.set nodes step.nodeId (.obj (step.output.getD []))

/-- The stop reasons of a run that failed at a routing decision. -/
def StopReason.routing (r : StopReason) : Bool := r == .predicateError || r == .noRoute

/-- The loop over the recorded steps.  The flag of the result is the early `return` that
accepts a reproduced routing failure. -/
def replayLoop (m : FlowManifest) (run : ReplayRun) :
    List FlowStepRecord → Nat → ReplayState → Option (Bool × ReplayState)
  | [], _, st => some (false, st)
  | step :: rest, index, st =>
    match st.cursor with
    | none => some (false, st.diverge (.terminalCursor index step.nodeId))
    | some cursor =>
      let st := { st with replayed := st.replayed ++ [cursor] }
      if cursor ≠ step.nodeId then
        some (false, st.diverge (.node index cursor step.nodeId))
      else
        match m.node? step.nodeId with
        | none => none
        | some node =>
          match renderBindings strOf node run.input st.nodes with
          | .error e => some (false, st.diverge (.bindings index node.id e))
          | .ok rendered =>
            let st := if rendered.pyEq step.input then st
              else st.diverge (.input index node.id)
            let nodes := foldOutput st.nodes step
            match selectNextNode m node (evalState run.input nodes) with
            | .ok next =>
              replayLoop m run rest (index + 1) { st with nodes := nodes, cursor := next }
            | .error e =>
              if rest = [] ∧ run.stopReason.routing = true ∧
                  (Value.str step.nodeId).pyEq run.cursor = true then
                some (true, { st with nodes := nodes })
              else
                some (false, ({ st with nodes := nodes, cursor := none }).diverge
                  (.routing index node.id e))

def replayDecisionPath (m : FlowManifest) (run : ReplayRun) (steps : List FlowStepRecord) :
    Option FlowReplayReport :=
  let recorded := completedSteps steps
  let recordedSequence := recorded.map (·.nodeId)
  match m.entryNode? with
  | none => some ⟨false, recordedSequence, [], [.noEntry (m.entries.map (·.id))]⟩
  | some entry =>
    match replayLoop strOf m run recorded 0 ⟨[], [], [], some entry.id⟩ with
    | none => none
    | some (true, st) =>
      some ⟨decide (st.divergences = []), recordedSequence, st.replayed, st.divergences⟩
    | some (false, st) =>
      let st :=
        if st.divergences = [] ∧ st.replayed.length = recordedSequence.length ∧
            (cursorValue st.cursor).pyEq run.cursor = false then
          st.diverge (.finalCursor st.cursor run.cursor)
        else st
      some ⟨decide (st.divergences = []), recordedSequence, st.replayed, st.divergences⟩

/-! ## What replay checks -/

/-- The outputs folded so far and the node to come. -/
structure PathState where
  nodes : Dict Value
  cursor : Option String

def InputMatches (node : FlowNode) (runInput : Obj) (nodes : Dict Value) (step : FlowStepRecord) :
    Prop :=
  if node.type = .map then step.input = []
  else ∃ rendered, renderEntries strOf (evalState runInput nodes) node.inputBindings
    = .ok rendered ∧ Obj.pyEq rendered step.input = true

variable (m : FlowManifest) (runInput : Obj)

/-- The derivation over one completed step, up to its routing decision. -/
def Activates (a : PathState) (step : FlowStepRecord) (node : FlowNode) : Prop :=
  a.cursor = some step.nodeId ∧ m.node? step.nodeId = some node ∧
  InputMatches strOf node runInput a.nodes step

def DecisionStep (a : PathState) (step : FlowStepRecord) (b : PathState) : Prop :=
  ∃ node, Activates strOf m runInput a step node ∧ b.nodes = foldOutput a.nodes step ∧
    selectNextNode m node (evalState runInput b.nodes) = .ok b.cursor

inductive DecisionPath : PathState → List FlowStepRecord → PathState → Prop
  | nil {a : PathState} : DecisionPath a [] a
  | cons {a b c : PathState} {step : FlowStepRecord} {steps : List FlowStepRecord} :
      DecisionStep strOf m runInput a step b → DecisionPath b steps c →
      DecisionPath a (step :: steps) c

def RoutingFails (a : PathState) (step : FlowStepRecord) : Prop :=
  ∃ node err, Activates strOf m runInput a step node ∧
    selectNextNode m node (evalState runInput (foldOutput a.nodes step)) = .error err

/-- Where every derivation starts. -/
def PathState.init (m : FlowManifest) : PathState := ⟨[], m.entryNode?.map (·.id)⟩

variable {strOf}

variable {m : FlowManifest} {steps : List FlowStepRecord} {run : ReplayRun}

variable {b : PathState} {step : FlowStepRecord} {entry : FlowNode}

theorem DecisionPath.snoc {i : Obj} {a c : PathState} (h : DecisionPath strOf m i a steps b)
    (hs : DecisionStep strOf m i b step c) :
    DecisionPath strOf m i a (steps ++ [step]) c := by
  induction h with
  | nil => exact .cons hs .nil
  | cons h₁ _ ih => exact .cons h₁ (ih hs)

theorem inputMatches_iff {i : Obj} {nodes : Dict Value} :
    InputMatches strOf node i nodes step ↔
      ∃ rendered, renderBindings strOf node i nodes = .ok rendered ∧
        rendered.pyEq step.input = true := by
  unfold InputMatches renderBindings
  split
  · simp only [Except.ok.injEq, exists_eq_left']
    constructor
    · intro h
      rw [h]
      rfl
    · intro h
      rcases hi : step.input with _ | ⟨kv, kvs⟩
      · rfl
      · simp [hi, Obj.pyEq, Value.pyEq, Value.eqv] at h
  · rfl

/-! ## The loop ends clean exactly on a decision path -/

theorem replayLoop_diverged :
    ∀ {steps : List FlowStepRecord} {index : Nat} {st st' : ReplayState} {early : Bool},
      replayLoop strOf m run steps index st = some (early, st') → st.divergences ≠ [] →
      st'.divergences ≠ []
  | [], _, st, st', early, h, hd => by
    simp only [replayLoop, Option.some.injEq, Prod.mk.injEq] at h
    exact h.2 ▸ hd
  | step :: rest, index, st, st', early, h, hd => by
    have happ : ∀ (l : List Divergence) (d : Divergence), l ++ [d] ≠ [] := by simp
    unfold replayLoop at h
    dsimp only at h
    split at h
    · cases h
      exact happ _ _
    split at h
    · cases h
      exact happ _ _
    split at h
    · cases h
    split at h
    · cases h
      exact happ _ _
    have hst : ∀ (b : Bool) (s : ReplayState) (d : Divergence), s.divergences ≠ [] →
        (if b then s else s.diverge d).divergences ≠ [] := by
      intro b s d hs
      split
      · exact hs
      · exact happ _ _
    split at h
    · exact replayLoop_diverged h (hst _ _ _ hd)
    split at h
    · cases h
      exact hst _ _ _ hd
    · cases h
      exact happ _ _

theorem replayLoop_clean :
    ∀ {steps : List FlowStepRecord} {index : Nat} {st st' : ReplayState} {early : Bool},
      replayLoop strOf m run steps index st = some (early, st') → st'.divergences = [] →
      st.divergences = [] ∧
      (early = false →
        DecisionPath strOf m run.input ⟨st.nodes, st.cursor⟩ steps ⟨st'.nodes, st'.cursor⟩ ∧
        st'.replayed = st.replayed ++ steps.map (·.nodeId)) ∧
      (early = true → ∃ init last b, steps = init ++ [last] ∧
        DecisionPath strOf m run.input ⟨st.nodes, st.cursor⟩ init b ∧
        RoutingFails strOf m run.input b last ∧ run.stopReason.routing = true ∧
        run.cursor = .str last.nodeId)
  | [], _, st, st', early, h, hd => by
    simp only [replayLoop, Option.some.injEq, Prod.mk.injEq] at h
    obtain ⟨rfl, rfl⟩ := h
    exact ⟨hd, fun _ => ⟨.nil, by simp⟩, nofun⟩
  | step :: rest, index, st, st', early, h, hd => by
    have hclean : st.divergences = [] := by
      by_contra hne
      exact replayLoop_diverged h hne hd
    have happ : ∀ (l : List Divergence) (d : Divergence), l ++ [d] ≠ [] := by simp
    refine ⟨hclean, ?_⟩
    unfold replayLoop at h
    dsimp only at h
    split at h
    · cases h
      exact absurd hd (happ _ _)
    rename_i cursor hcur
    split at h
    · cases h
      exact absurd hd (happ _ _)
    rename_i hne
    have hce : cursor = step.nodeId := not_not.mp hne
    subst hce
    split at h
    · cases h
    rename_i node hnode
    split at h
    · cases h
      exact absurd hd (happ _ _)
    rename_i rendered hren
    by_cases heq : rendered.pyEq step.input = true
    swap
    · -- an input that differs is a divergence the rest of the loop cannot take back
      exfalso
      simp only [heq, Bool.false_eq_true, if_false] at h
      split at h
      · exact replayLoop_diverged h (happ _ _) hd
      split at h
      · cases h
        exact happ _ _ hd
      · cases h
        exact happ _ _ hd
    have hact : Activates strOf m run.input ⟨st.nodes, st.cursor⟩ step node :=
      ⟨hcur, hnode, inputMatches_iff.mpr ⟨rendered, hren, heq⟩⟩
    simp only [heq, if_true] at h
    split at h
    · rename_i next hsel
      obtain ⟨-, h₁, h₂⟩ := replayLoop_clean h hd
      have hstep : DecisionStep strOf m run.input ⟨st.nodes, st.cursor⟩ step
          ⟨foldOutput st.nodes step, next⟩ := ⟨node, hact, rfl, hsel⟩
      refine ⟨fun he => ?_, fun he => ?_⟩
      · obtain ⟨hp, hr⟩ := h₁ he
        exact ⟨.cons hstep hp, by simp [hr]⟩
      · obtain ⟨init, last, b, rfl, hp, hrest⟩ := h₂ he
        exact ⟨step :: init, last, b, rfl, .cons hstep hp, hrest⟩
    · rename_i err hsel
      split at h
      · rename_i hcond
        cases h
        refine ⟨nofun, fun _ => ⟨[], step, _, by simp [hcond.1], .nil,
          ⟨node, err, hact, hsel⟩, hcond.2.1, ?_⟩⟩
        exact pyEq_cursorValue (c := some step.nodeId).mp hcond.2.2
      · cases h
        exact absurd hd (happ _ _)

theorem replayLoop_of_path {a : PathState} (h : DecisionPath strOf m run.input a steps b) :
    ∀ (index : Nat) (replayed : List String) (rest : List FlowStepRecord),
      replayLoop strOf m run (steps ++ rest) index ⟨replayed, [], a.nodes, a.cursor⟩ =
        replayLoop strOf m run rest (index + steps.length)
          ⟨replayed ++ steps.map (·.nodeId), [], b.nodes, b.cursor⟩ := by
  induction h with
  | nil => intro index replayed rest; simp
  | @cons a b c step steps hs _ ih =>
    intro index replayed rest
    obtain ⟨node, ⟨hcur, hnode, hin⟩, hb, hsel⟩ := hs
    obtain ⟨rendered, hren, heq⟩ := inputMatches_iff.mp hin
    rw [hb] at hsel
    have := ih (index + 1) (replayed ++ [step.nodeId]) rest
    rw [hb] at this
    simp only [cons_append, replayLoop, hcur, ne_eq, not_true_eq_false, if_false, hnode,
      hren, heq, if_true, hsel, this, length_cons, map_cons, append_assoc,
      nil_append]
    congr 1
    omega

theorem replay_of_path (hentry : m.entryNode? = some entry)
    (h : DecisionPath strOf m run.input (.init m) (completedSteps steps) b)
    (hcur : run.cursor = cursorValue b.cursor) :
    replayDecisionPath strOf m run steps =
      some ⟨true, (completedSteps steps).map (·.nodeId), (completedSteps steps).map (·.nodeId),
        []⟩ := by
  have hloop := replayLoop_of_path h 0 [] []
  simp only [append_nil, nil_append, PathState.init, hentry, Option.map_some] at hloop
  have heq : (cursorValue b.cursor).pyEq run.cursor = true := pyEq_cursorValue.mpr hcur
  simp [replayDecisionPath, hentry, hloop, replayLoop, heq]

theorem replay_of_failure {init : List FlowStepRecord} {last : FlowStepRecord}
    (hentry : m.entryNode? = some entry) (hsteps : completedSteps steps = init ++ [last])
    (h : DecisionPath strOf m run.input (.init m) init b)
    (hfail : RoutingFails strOf m run.input b last) (hstop : run.stopReason.routing = true)
    (hcur : run.cursor = .str last.nodeId) :
    replayDecisionPath strOf m run steps =
      some ⟨true, (completedSteps steps).map (·.nodeId), (completedSteps steps).map (·.nodeId),
        []⟩ := by
  have hloop := replayLoop_of_path h 0 [] [last]
  obtain ⟨node, err, ⟨hc, hnode, hin⟩, hsel⟩ := hfail
  obtain ⟨rendered, hren, heq⟩ := inputMatches_iff.mp hin
  have hpy : (Value.str last.nodeId).pyEq run.cursor = true :=
    pyEq_cursorValue (c := some last.nodeId).mpr hcur
  simp only [nil_append, PathState.init, hentry, Option.map_some, replayLoop, hc, ne_eq,
    not_true_eq_false, if_false, hnode, hren, heq, if_true, hsel, hstop, hpy, and_self] at hloop
  simp [replayDecisionPath, hentry, hsteps, hloop]

/-- Replay is sound on every trace, forged ones included: a report without divergence means
that the completed steps are a decision path from the entry node which ends at the stored
cursor, or which ends at a routing decision that fails, as the stop reason says it did. -/
theorem replayDecisionPath_sound {m : FlowManifest} {run : ReplayRun} {steps : List FlowStepRecord}
    {report : FlowReplayReport} (h : replayDecisionPath strOf m run steps = some report)
    (hd : report.deterministic = true) :
    ∃ entry, m.entryNode? = some entry ∧
      ((∃ b, DecisionPath strOf m run.input ⟨[], some entry.id⟩ (completedSteps steps) b ∧
          run.cursor = cursorValue b.cursor) ∨
       (∃ init last b, completedSteps steps = init ++ [last] ∧
          DecisionPath strOf m run.input ⟨[], some entry.id⟩ init b ∧
          RoutingFails strOf m run.input b last ∧
          (run.stopReason = .predicateError ∨ run.stopReason = .noRoute) ∧
          run.cursor = .str last.nodeId)) := by
  unfold replayDecisionPath at h
  rcases hentry : m.entryNode? with _ | entry
  · rw [hentry] at h
    cases h
    cases hd
  refine ⟨entry, rfl, ?_⟩
  rw [hentry] at h
  dsimp only at h
  rcases hloop : replayLoop strOf m run (completedSteps steps) 0 ⟨[], [], [], some entry.id⟩
    with _ | ⟨early, st⟩
  · rw [hloop] at h
    cases h
  rw [hloop] at h
  cases early with
  | true =>
    cases h
    obtain ⟨-, -, h₂⟩ := replayLoop_clean hloop (of_decide_eq_true hd)
    obtain ⟨init, last, b, hs, hp, hf, hstop, hc⟩ := h₂ rfl
    refine Or.inr ⟨init, last, b, hs, hp, hf, ?_, hc⟩
    simpa [StopReason.routing] using hstop
  | false =>
    cases h
    have hclean := of_decide_eq_true hd
    split at hclean
    · exact absurd hclean (by simp [ReplayState.diverge])
    rename_i hcond
    obtain ⟨-, h₁, -⟩ := replayLoop_clean hloop hclean
    obtain ⟨hp, hr⟩ := h₁ rfl
    -- every recorded step was replayed, so the final cursors were compared
    have hcur : (cursorValue st.cursor).pyEq run.cursor = true := by
      by_contra hne
      exact hcond ⟨hclean, by simp [hr], by simpa using hne⟩
    exact Or.inl ⟨_, hp, pyEq_cursorValue.mp hcur⟩

end

/-- The records of a run through the guarded loop that the check lets go on at once. -/
def contentSteps : List FlowStepRecord :=
  let ok : Option Obj := some [("ok", .bool true)]
  [⟨0, "start", .tool, .completed, 1, [], ok, ""⟩,
   ⟨1, "work", .tool, .completed, 1, [("again", .null)], ok, ""⟩,
   ⟨2, "check", .tool, .completed, 1, [("last", .null)], ok, ""⟩,
   ⟨3, "done", .tool, .completed, 1, [], ok, ""⟩]

theorem replayDecisionPath_sound_content :
    ∃ entry, loopFlow.entryNode? = some entry ∧
      ((∃ b, DecisionPath Value.typeName loopFlow [] ⟨[], some entry.id⟩
          (completedSteps contentSteps) b ∧ Value.null = cursorValue b.cursor) ∨
       (∃ init last b, completedSteps contentSteps = init ++ [last] ∧
          DecisionPath Value.typeName loopFlow [] ⟨[], some entry.id⟩ init b ∧
          RoutingFails Value.typeName loopFlow [] b last ∧
          (StopReason.completed = .predicateError ∨ StopReason.completed = .noRoute) ∧
          Value.null = .str last.nodeId)) :=
  @replayDecisionPath_sound Value.typeName loopFlow ⟨[], .completed, .null⟩ _
    ⟨true, ["start", "work", "check", "done"], ["start", "work", "check", "done"], []⟩
    (by decide +kernel) rfl

end AutoDev.Flows
