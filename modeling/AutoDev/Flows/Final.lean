/-
# `AutoDev.Flows.Final` — runs that ended, and decisions that are refused

Every call looks at the status of the run before it writes.  Of a run that is
completed or failed `execute_run` returns the record, `resume_run` and
`decide` raise, `expire_due` does not list it, and `replay_run` appends its
report: so nothing else of it ever changes (`FlowCall.untouched`), whatever
else the store is used for in between.

A decision is checked to its end before the first write.  `_apply_edits` does
merge the edits in place, one by one and before the later ones are checked —
but into the document that `get_run` decoded for this very call, and that
document is dropped with the exception.
-/
import AutoDev.Flows.Waiting

namespace AutoDev.Flows

open Prog List

variable {env : Env} {cfg : EngineConfig} {m : FlowManifest} {s s' s'' : RunStore}

/-! ## Runs that ended -/

def RunStore.Ended (s : RunStore) : Prop := ∃ run, s.run = some run ∧ run.status.terminal = true

/-- Between the two stores there were replays at most. -/
structure Untouched (s s' : RunStore) : Prop where
  run : s'.run = s.run
  steps : s'.steps = s.steps
  calls : s'.calls = s.calls
  events : ∃ reports : List FlowReplayReport, s'.events = s.events ++ reports.map .runReplayed

theorem Untouched.refl (s : RunStore) : Untouched s s := ⟨rfl, rfl, rfl, [], by simp⟩

theorem Untouched.trans (h : Untouched s s') (h' : Untouched s' s'') : Untouched s s'' := by
  obtain ⟨reports, he⟩ := h.events
  obtain ⟨reports', he'⟩ := h'.events
  refine ⟨h'.run.trans h.run, h'.steps.trans h.steps, h'.calls.trans h.calls,
    reports ++ reports', ?_⟩
  rw [he', he, map_append, append_assoc]

theorem FlowCall.untouched {c : FlowCall} (hend : s.Ended) (h : c.Runs env cfg m s s') :
    Untouched s s' := by
  obtain ⟨row, hrow, hterm⟩ := hend
  have hopen : ∀ {run : FlowRunRecord} {p : Prop}, s.run = some run →
      run.status.terminal = false → p := by
    intro run p hrun hnt
    cases hrow.symm.trans hrun
    cases hterm.symm.trans hnt
  have hwait : ∀ {run : FlowRunRecord} {p : Prop}, s.run = some run →
      run.status = .waitingHuman → p := fun hrun hw => hopen hrun (by rw [hw]; rfl)
  cases c with
  | execute cap =>
    obtain ⟨r, h⟩ := h
    exact h.of_wp (wp_executeRun (I := fun _ => True) (Q := fun _ s' => Untouched s s') trivial
      (fun _ => .refl s) (fun _ _ _ => .refl s) fun run hrun hnt => hopen hrun hnt)
  | resume =>
    obtain ⟨r, h⟩ := h
    exact h.of_wp (wp_resumeRun (I := fun _ => True) (Q := fun _ s' => Untouched s s') trivial
      (fun _ => .refl s) (fun _ _ _ => .refl s) fun run s₁ hrun hnt _ => hopen hrun hnt)
  | decide d actor =>
    obtain ⟨r, h⟩ := h
    exact h.of_wp (wp_decideRun (I := fun _ => True) (Q := fun _ s' => Untouched s s') trivial
      (fun _ => .refl s) (fun w hw _ => hwait hw.row hw.status)
      fun w nodes hw _ => hwait hw.row hw.status)
  | expire moment =>
    obtain ⟨r, h⟩ := h
    exact h.of_wp (wp_expireDue (I := fun _ => True) trivial (.refl s)
      fun w hw _ => hwait hw.row hw.status)
  | replay =>
    obtain ⟨r, h⟩ := h
    rcases h.of_wp replayRun_keeps with rfl | ⟨report, rfl⟩
    · exact .refl s'
    · exact ⟨rfl, rfl, rfl, [report], rfl⟩

abbrev RunBook := List (FlowManifest × RunStore)

/-- A complete call.  `start_run` adds a run, whether the API called it or a composite node of
another run did; the other calls are about one run each.  `expire_due` goes through the waiting
runs one by one, and is a call for each. -/
inductive RunBook.Step : RunBook → RunBook → Prop
  | start {env : Env} {cfg : EngineConfig} {m : FlowManifest} {input : Obj} {execute : Bool}
      {cap : Option FlowBudgets} {r : RunResult} {s : RunStore} {b : RunBook} :
      Exec (Sem env) (startRun cfg m input execute cap) .empty r s → Step b (b ++ [(m, s)])
  | call {env : Env} {cfg : EngineConfig} {m : FlowManifest} {c : FlowCall} {i : Nat}
      {s s' : RunStore} {b : RunBook} :
      b[i]? = some (m, s) → c.Runs env cfg m s s' → Step b (b.set i (m, s'))

theorem RunBook.Step.untouched {b b' : RunBook} {i : Nat} (h : Step b b')
    (hrow : b[i]? = some (m, s)) (hend : s.Ended) :
    ∃ s', b'[i]? = some (m, s') ∧ Untouched s s' := by
  have hi := (List.getElem?_eq_some_iff.mp hrow).1
  cases h with
  | start _ => exact ⟨s, (List.getElem?_append_left hi).trans hrow, .refl s⟩
  | @call _ _ _ _ j _ s' _ hj hc =>
    by_cases hij : j = i
    · subst hij
      cases hrow.symm.trans hj
      exact ⟨s', getElem?_set_self hi, FlowCall.untouched hend hc⟩
    · exact ⟨s, (getElem?_set_ne hij).trans hrow, .refl s⟩

/-- Whatever complete calls follow, a run that ended keeps its row — status, stop reason, state
and output — and its steps, no handler is called for it again, and its events are only extended
by reports of replays. -/
theorem ended_run_is_final {b b' : RunBook} {i : Nat} (hrow : b[i]? = some (m, s))
    (hend : s.Ended) (h : Relation.ReflTransGen RunBook.Step b b') :
    ∃ s', b'[i]? = some (m, s') ∧ Untouched s s' := by
  induction h with
  | refl => exact ⟨s, hrow, .refl s⟩
  | tail _ hstep ih =>
    obtain ⟨s₁, hrow₁, hu⟩ := ih
    have hend₁ : s₁.Ended := by
      obtain ⟨run, hrun, ht⟩ := hend
      exact ⟨run, hu.run.trans hrun, ht⟩
    obtain ⟨s₂, hrow₂, hu₂⟩ := hstep.untouched hrow₁ hend₁
    exact ⟨s₂, hrow₂, hu.trans hu₂⟩

theorem ended_run_is_final_review :
    ∃ b s', Relation.ReflTransGen RunBook.Step [(reviewFlow, expiredStore)] b ∧
      b[0]? = some (reviewFlow, s') ∧ Untouched expiredStore s' := by
  have hend : expiredStore.run.any (·.status.terminal) = true := by decide +kernel
  obtain ⟨run, hrun, ht⟩ := (Option.any_eq_true _ _).mp hend
  have hexec : Exec (Sem steadyOracle.env) (decideRun demoConfig reviewFlow [] "reviewer")
      expiredStore _ _ := steadyOracle.exec
  have hlate : RunBook.Step [(reviewFlow, expiredStore)] _ :=
    .call (i := 0) (c := .decide [] "reviewer") rfl ⟨_, hexec⟩
  obtain ⟨s', h⟩ := ended_run_is_final (i := 0) rfl ⟨run, hrun, ht⟩ (.single hlate)
  exact ⟨_, s', .single hlate, h⟩

/-! ## Decisions that are refused -/

def HumanError.ofDecision : HumanError → Bool
  | .expired | .invalidDecision _ | .editsNotObject | .editNotObject _ | .editsHumanNode
  | .editsUnknownNode _ => true
  | _ => false

theorem HumanError.ofDecision_ofRun {r : RunResult} {e : HumanError}
    (h : HumanResult.ofRun r = .error e) : e.ofDecision = false := by
  cases r with
  | ok run => cases h
  | error e' =>
    cases h
    rfl

theorem recordDecision_ofRun {w : Waiting} {d : Obj} {actor : String} {nodes : Dict Value}
    {r : HumanResult} (h : Exec (Sem env) (recordDecision cfg m w d actor nodes) s r s') :
    ∃ r', r = HumanResult.ofRun r' := by
  obtain ⟨_, _, -, h⟩ := h.of_bind
  obtain ⟨_, _, -, h⟩ := h.of_bind
  obtain ⟨a, _, -, h⟩ := h.of_bind
  cases a with
  | stop r' =>
    cases h
    exact ⟨r', rfl⟩
  | next state =>
    obtain ⟨r', _, -, h⟩ := h.of_bind
    cases h
    exact ⟨r', rfl⟩

/-- A decision refused while the wait has not expired leaves every row of the run as it was,
and a later decision cannot tell that it was made. -/
theorem refused_decision_leaves_no_trace {d : Obj} {actor : String} {e : HumanError}
    (hfresh : ∀ run, s.run = some run → ¬ Due env run none)
    (h : Exec (Sem env) (decideRun cfg m d actor) s (.error e) s') (he : e.ofDecision = true) :
    s' = s ∧ ∀ (env' : Env) (d' : Obj) (actor' : String) (r : HumanResult) (s'' : RunStore),
      Exec (Sem env') (decideRun cfg m d' actor') s' r s'' ↔
        Exec (Sem env') (decideRun cfg m d' actor') s r s'' := by
  have hsame : s' = s := by
    refine h.of_wp (wp_decideRun (I := fun _ => True) (Q := fun r s' => r = .error e → s' = s)
      trivial (fun _ _ => rfl) (fun w hw hdue => absurd hdue (hfresh w.run hw.row)) fun w nodes _ _ => ?_) rfl
    refine wp_of_runs (fun _ _ _ => trivial) fun r s₁ hr heq => ?_
    obtain ⟨r', rfl⟩ := recordDecision_ofRun hr
    cases (HumanError.ofDecision_ofRun heq).symm.trans he
  subst hsame
  exact ⟨rfl, fun _ _ _ _ _ => Iff.rfl⟩

/-- An edit of the draft, then one of a node the flow does not have. -/
def editTwice : Obj :=
  [("edits", .obj [("draft", .obj [("ok", .bool false)]), ("ghost", .obj [])])]

theorem refused_decision_leaves_no_trace_review : decidedStore editTwice = reviewStore := by
  have hres : (Prog.run steadyOracle.ans (decideRun demoConfig reviewFlow editTwice "reviewer")
      reviewStore).1 = .error (.editsUnknownNode "ghost") := by decide +kernel
  have hpause : reviewStore.run.bind (·.state.pause.bind (·.expiresAt)) = some 60 := by
    decide +kernel
  have hexec : Exec (Sem steadyOracle.env) (decideRun demoConfig reviewFlow editTwice "reviewer")
      reviewStore _ _ := steadyOracle.exec
  rw [hres] at hexec
  refine (refused_decision_leaves_no_trace (fun run hrun => ?_) hexec rfl).1
  rintro ⟨e, t, he, rfl, hle⟩
  rw [hrun, Option.bind_some, he] at hpause
  cases hpause
  exact absurd hle (by decide)

end AutoDev.Flows
