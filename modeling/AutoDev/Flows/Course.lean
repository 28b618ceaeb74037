/-
# `AutoDev.Flows.Course` — what a run with deterministic handlers is bound to do

When the outcome of a handler is a function of its node and its rendered
input, and no budget is hit, nothing is left to chance: the outputs and the
cursor determine the next activation, its output and the cursor after it.
This module states that course ABOVE the store — no rows, no events, no
crashes — as the abstract model that the engine's runs are compared with.

`Course.visit` is one activation as a function of the outputs and the cursor.
`Course.Halts` says how the course ends, and `Course.Halts.unique` that it
ends in one way.  A course may start anywhere: at the entry node, or in the
state a human decision left.
-/
import AutoDev.Lib.Trail
import AutoDev.Flows.Engine

namespace AutoDev.Flows

def RunState.place (state : RunState) : PathState := ⟨state.nodes, state.cursor⟩

@[simp] theorem RunState.place_nodes (state : RunState) : state.place.nodes = state.nodes := rfl

@[simp] theorem RunState.place_cursor (state : RunState) : state.place.cursor = state.cursor := rfl

structure Course where
  cfg : EngineConfig
  m : FlowManifest
  /-- What the handler of a node returns or raises for a rendered input. -/
  outcome : String → Obj → HandlerResult
  /-- The row at the start. -/
  row : FlowRunRecord
  /-- The steps completed before the start. -/
  prior : List (String × Option Obj) := []
  /-- The run has not been cut since its first step. -/
  unbroken : Prop := False

inductive Visit where
  /-- There is no cursor. -/
  | finished
  /-- The cursor is not a node. -/
  | lost
  /-- The bindings do not render, the handler raises, or the output is not serializable. -/
  | refused (reason : StopReason)
  /-- A human is asked. -/
  | pauses
  /-- The node completes and no edge is taken. -/
  | misrouted (nodeId : String) (out : HandlerOutput) (nodes : Dict Value)
  /-- The node completes and the run goes on. -/
  | moves (nodeId : String) (out : HandlerOutput) (next : PathState)

namespace Course

variable (w : Course)

/-- The outputs and the cursor at the start. -/
def origin : PathState := w.row.state.place

/-- What a node that is not human answers; `conditional` is answered by the engine. -/
def answer (node : FlowNode) (input : Obj) : HandlerResult :=
  if node.type = .conditional then .ok { output := some [] } else w.outcome node.id input

def visit (p : PathState) : Visit :=
  match p.cursor with
  | none => .finished
  | some c =>
    match w.m.node? c with
    | none => .lost
    | some node =>
      match renderBindings w.cfg.strOf node w.row.input p.nodes with
      | .error _ => .refused .bindingError
      | .ok input =>
        if node.type = .human then .pauses
        else
          match w.answer node input with
          | .error e => .refused e.reason
          | .ok out =>
            match out.output with
            | none => .refused .nodeFailed
            | some output =>
              let nodes := Dict.set p.nodes node.id (.obj output)
              match selectNextNode w.m node (evalState w.row.input nodes) with
              | .error _ => .misrouted node.id out nodes
              | .ok next => .moves node.id out ⟨nodes, next⟩

/-- The course as a process: it goes on while nodes complete and route. -/
def move (p : PathState) : Option ((String × HandlerOutput) × PathState) :=
  match w.visit p with
  | .moves c out next => some ((c, out), next)
  | _ => none

/-- The course from its start to `p`, through the activations `t`. -/
def To (t : List (String × HandlerOutput)) (p : PathState) : Prop :=
  Trail w.move w.origin t p

/-- The completed steps after the activations `t`. -/
def trace (t : List (String × HandlerOutput)) : List (String × Option Obj) :=
  w.prior ++ t.map fun e => (e.1, e.2.output)

theorem trace_snoc (w : Course) (t : List (String × HandlerOutput)) (c : String)
    (out : HandlerOutput) : w.trace (t ++ [(c, out)]) = w.trace t ++ [(c, out.output)] := by
  simp [trace]

variable {w : Course} {t : List (String × HandlerOutput)} {p : PathState}

variable {next : PathState} {out : HandlerOutput}

theorem move_eq_some {e : String × HandlerOutput} :
    w.move p = some (e, next) ↔ w.visit p = .moves e.1 e.2 next := by
  unfold move
  constructor
  · intro h
    split at h
    · cases h
      assumption
    · cases h
  · intro h
    rw [h]

theorem To.snoc {c : String} (h : w.To t p) (hv : w.visit p = .moves c out next) :
    w.To (t ++ [(c, out)]) next :=
  Trail.snoc h (move_eq_some.mpr hv)

theorem To.last {c : String} (h : w.To (t ++ [(c, out)]) next) :
    ∃ p, w.To t p ∧ w.visit p = .moves c out next := by
  obtain ⟨p, hp, hm⟩ := Trail.last h
  exact ⟨p, hp, move_eq_some.mp hm⟩

/-- How the course ends: the completed steps, the outputs and the cursor, and the status. -/
inductive Halts (w : Course) : List (String × Option Obj) → PathState → RunStatus → Prop
  | finished {t : List (String × HandlerOutput)} {p : PathState} : w.To t p →
      w.visit p = .finished → Halts w (w.trace t) p .completed
  | refused {t : List (String × HandlerOutput)} {p : PathState} {reason : StopReason} : w.To t p →
      w.visit p = .refused reason → Halts w (w.trace t) p .failed
  | misrouted {t : List (String × HandlerOutput)} {p : PathState} {c : String}
      {out : HandlerOutput} {nodes : Dict Value} : w.To t p → w.visit p = .misrouted c out nodes →
      Halts w (w.trace t ++ [(c, out.output)]) ⟨nodes, p.cursor⟩ .failed
  | pauses {t : List (String × HandlerOutput)} {p : PathState} : w.To t p →
      w.visit p = .pauses → Halts w (w.trace t) p .waitingHuman

theorem Halts.place {tr : List (String × Option Obj)} {q : PathState} {e : RunStatus}
    (h : w.Halts tr q e) : ∃ t p, w.To t p ∧ w.move p = none ∧
      ((w.visit p = .finished ∧ tr = w.trace t ∧ q = p ∧ e = .completed) ∨
       (∃ r, w.visit p = .refused r ∧ tr = w.trace t ∧ q = p ∧ e = .failed) ∨
       (∃ c out n, w.visit p = .misrouted c out n ∧ tr = w.trace t ++ [(c, out.output)] ∧
          q = ⟨n, p.cursor⟩ ∧ e = .failed) ∨
       (w.visit p = .pauses ∧ tr = w.trace t ∧ q = p ∧ e = .waitingHuman)) := by
  cases h with
  | finished ht hv => exact ⟨_, _, ht, by simp [move, hv], .inl ⟨hv, rfl, rfl, rfl⟩⟩
  | refused ht hv => exact ⟨_, _, ht, by simp [move, hv], .inr (.inl ⟨_, hv, rfl, rfl, rfl⟩)⟩
  | misrouted ht hv =>
    exact ⟨_, _, ht, by simp [move, hv], .inr (.inr (.inl ⟨_, _, _, hv, rfl, rfl, rfl⟩))⟩
  | pauses ht hv => exact ⟨_, _, ht, by simp [move, hv], .inr (.inr (.inr ⟨hv, rfl, rfl, rfl⟩))⟩

theorem Halts.unique {tr tr' : List (String × Option Obj)} {q q' : PathState} {e e' : RunStatus}
    (h : w.Halts tr q e) (h' : w.Halts tr' q' e') :
    tr = tr' ∧ q = q' ∧ e = e' := by
  obtain ⟨t, p, ht, hp, hc⟩ := h.place
  obtain ⟨t', p', ht', hp', hc'⟩ := h'.place
  obtain ⟨rfl, rfl⟩ := Trail.halt_unique ht hp ht' hp'
  rcases hc with ⟨hv, rfl, rfl, rfl⟩ | ⟨r, hv, rfl, rfl, rfl⟩ | ⟨c, out, n, hv, rfl, rfl, rfl⟩ |
      ⟨hv, rfl, rfl, rfl⟩ <;>
    rcases hc' with ⟨hv', rfl, rfl, rfl⟩ | ⟨r', hv', rfl, rfl, rfl⟩ |
      ⟨c', out', n', hv', rfl, rfl, rfl⟩ | ⟨hv', rfl, rfl, rfl⟩ <;>
    cases hv.symm.trans hv' <;> exact ⟨rfl, rfl, rfl⟩

end Course

end AutoDev.Flows
