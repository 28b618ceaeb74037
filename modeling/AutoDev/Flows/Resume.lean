/-
# `AutoDev.Flows.Resume` — what `resume_run` does to the store

Three pieces, one rule each.  The orphans of a crash are marked failed, which
touches no completed and no waiting step (`Superseded`).  If the last completed
step of the cursor node has no `run.step.completed` event, the crash is taken
to have hit between the step and its checkpoint: the step is folded in and
routed again (`CrashWindow`).  Then the run is executed from its stored state.

The rules hold for every invariant of the intermediate states, so that a
resume can itself be cut.
-/
import AutoDev.Flows.Effects

namespace AutoDev.Flows

open Prog List

variable {env : Env} {I : RunStore → Prop} {s s₁ s₂ : RunStore} {m : FlowManifest}

/-! ## Orphans -/

structure Superseded (s s' : RunStore) : Prop where
  run : s'.run = s.run
  events : s'.events = s.events
  calls : s'.calls = s.calls
  kept : ∀ t, t ≠ StepStatus.running → t ≠ StepStatus.failed →
    s'.steps.filter (·.status == t) = s.steps.filter (·.status == t)

theorem Superseded.refl (s : RunStore) : Superseded s s := ⟨rfl, rfl, rfl, fun _ _ _ => rfl⟩

theorem Superseded.trans (h : Superseded s s₁) (h' : Superseded s₁ s₂) : Superseded s s₂ :=
  ⟨h'.run.trans h.run, h'.events.trans h.events, h'.calls.trans h.calls,
    fun t h₁ h₂ => (h'.kept t h₁ h₂).trans (h.kept t h₁ h₂)⟩

theorem Superseded.completed (h : Superseded s s₁) :
    completedSteps s₁.steps = completedSteps s.steps :=
  h.kept .completed (by decide) (by decide)

def Orphaned (s : RunStore) (i : Nat) : Prop :=
  ∀ r ∈ s.steps, r.stepId = i → r.status = .running ∨ r.status = .failed

theorem superseded_completeStep {i : Nat} {e : String} (h : Orphaned s i) :
    Superseded s (s.completeStep i .failed none e) := by
  refine ⟨rfl, rfl, rfl, fun t h₁ h₂ => ?_⟩
  rw [RunStore.completeStep_steps, filter_map]
  -- a row that is rewritten is not in status `t`, before or after
  have hrow : ∀ r ∈ s.steps, ((r.finish i .failed none e).status == t) = (r.status == t) ∧
      ((r.status == t) = true → r.finish i .failed none e = r) := by
    intro r hr
    unfold FlowStepRecord.finish
    split
    · rename_i hi
      have hne : r.status ≠ t := by
        rcases h r hr hi with hs | hs <;> rw [hs] <;> exact Ne.symm ‹_›
      simp [FlowStepRecord.close, hne, Ne.symm h₂]
    · exact ⟨rfl, fun _ => rfl⟩
  have hfil : s.steps.filter ((fun r => r.status == t) ∘ FlowStepRecord.finish i .failed none e)
      = s.steps.filter fun r => r.status == t := filter_congr fun r hr => (hrow r hr).1
  rw [hfil]
  conv_rhs => rw [← map_id (s.steps.filter fun r => r.status == t)]
  refine map_congr_left fun r hr => ?_
  obtain ⟨hr, ht⟩ := mem_filter.mp hr
  exact (hrow r hr).2 ht

theorem Orphaned.completeStep {i j : Nat} {e : String} (h : Orphaned s j) :
    Orphaned (s.completeStep i .failed none e) j := by
  intro r hr hj
  obtain ⟨r₀, hr₀, rfl⟩ := mem_map.mp hr
  rw [FlowStepRecord.finish_stepId] at hj
  unfold FlowStepRecord.finish
  split
  · exact Or.inr rfl
  · exact h r₀ hr₀ hj

theorem orphaned_of_running {st : FlowStepRecord} (hst : st ∈ s.steps) (hr : st.status = .running) :
    Orphaned s st.stepId := by
  intro r hmem hid
  rw [s.eq_of_stepId hmem hst hid]
  exact Or.inl hr

theorem wp_failRunning {Q : Unit → RunStore → Prop} :
    ∀ {l : List FlowStepRecord} {s : RunStore},
      (∀ st ∈ l, st.status = .running → Orphaned s st.stepId) →
      (∀ s', Superseded s s' → I s' ∧ Q () s') → wp (Sem env) I Q (failRunning l) s
  | [], s, _, h => (h s (.refl s)).2
  | st :: rest, s, horph, h => by
    unfold failRunning
    split
    · rename_i hst
      have hsup := superseded_completeStep (e := "interrupted: attempt superseded by resume")
        (horph st mem_cons_self hst)
      simp only [wp_bind, wp_completeStep]
      refine ⟨(h _ hsup).1, wp_failRunning (fun r hr hrun => ?_) fun s' h' => h s' (hsup.trans h')⟩
      exact (horph r (mem_cons_of_mem _ hr) hrun).completeStep
    · exact wp_failRunning (fun r hr => horph r (mem_cons_of_mem _ hr)) h

/-! ## The crash window -/

structure CrashWindow (run : FlowRunRecord) (s : RunStore) (c : String) (last : FlowStepRecord) :
    Prop where
  cursor : run.state.cursor = some c
  isLast : lastCompletedOf c s.steps = some last
  unrouted : last.stepId ∉ routedStepIds s.events

theorem lastCompletedOf_nodeId {c : String} {steps : List FlowStepRecord} {last : FlowStepRecord}
    (h : lastCompletedOf c steps = some last) : last.nodeId = c := by
  have hmem := mem_of_getLast? h
  simpa using (mem_filter.mp hmem).2

def RunState.folded (state : RunState) (c : String) (last : FlowStepRecord) : RunState :=
  { state with nodes := Dict.set state.nodes c ((last.output.map Value.obj).getD .null) }

theorem wp_reconcile {Q : RunResult → RunStore → Prop} {run : FlowRunRecord} (hI : I s)
    (hclosed : (∀ c last, ¬ CrashWindow run s c last) → Q (.ok run) s)
    (hopen : ∀ c last, CrashWindow run s c last → ∃ node, m.node? c = some node ∧
      wp (Sem env) I (fun a s' => match a with
        | .stop r => Q r s'
        | .next _ => I s' ∧ Q s'.loaded s')
        (leaveNode m run.input node last (run.state.folded c last) true) s) :
    wp (Sem env) I Q (reconcileCrashWindow m run) s := by
  unfold reconcileCrashWindow
  rcases hc : run.state.cursor with _ | c
  · exact hclosed fun c last h => by cases hc.symm.trans h.cursor
  simp only [wp_bind, wp_listSteps]
  refine ⟨hI, ?_⟩
  rcases hl : lastCompletedOf c s.steps with _ | last
  · refine hclosed fun c' last h => ?_
    cases hc.symm.trans h.cursor
    cases hl.symm.trans h.isLast
  simp only [wp_bind, wp_listEvents]
  refine ⟨hI, ?_⟩
  split
  · rename_i hin
    refine hclosed fun c' last' h => ?_
    cases hc.symm.trans h.cursor
    cases hl.symm.trans h.isLast
    exact h.unrouted hin
  · rename_i hout
    obtain ⟨node, hn, hwp⟩ := hopen c last ⟨hc, hl, hout⟩
    obtain rfl := FlowManifest.node?_id hn
    simp only [hn, wp_bind]
    refine wp_post hwp fun a s' h => ?_
    cases a with
    | stop r => exact h
    | next _ => exact wp_reload.mpr h

/-! ## The call -/

theorem wp_resumeRun {cfg : EngineConfig} {Q : RunResult → RunStore → Prop} (hI : I s)
    (hnone : s.run = none → Q (.error .unknownRun) s)
    (hterm : ∀ run, s.run = some run → run.status.terminal = true →
      Q (.error (.terminal run.status)) s)
    (hgo : ∀ run s', s.run = some run → run.status.terminal = false → Superseded s s' → I s' ∧
      wp (Sem env) I (fun r s'' => match r with
        | .error e => Q (.error e) s''
        | .ok run' => (run'.status.terminal = true → Q (.ok run') s'') ∧
            (run'.status.terminal = false →
              I (s''.appendEvent (.runResumed run'.state.cursor)) ∧
              wp (Sem env) I Q (executeRun cfg m none)
                (s''.appendEvent (.runResumed run'.state.cursor))))
        (reconcileCrashWindow m run) s') :
    wp (Sem env) I Q (resumeRun cfg m) s := by
  simp only [resumeRun, wp_bind, wp_getRun]
  refine ⟨hI, ?_⟩
  rcases hrun : s.run with _ | run
  · exact hnone hrun
  dsimp only
  split
  · exact hterm run hrun ‹_›
  rename_i hnt
  simp only [wp_bind, wp_listSteps]
  refine ⟨hI, wp_failRunning (fun st hst hr => orphaned_of_running hst hr) fun s' hsup => ?_⟩
  obtain ⟨hI', hwp⟩ := hgo run s' hrun (Bool.eq_false_iff.mpr hnt) hsup
  refine ⟨hI', ?_⟩
  refine wp_post hwp fun r s'' h => ?_
  cases r with
  | error e => exact h
  | ok run' =>
    dsimp only
    split
    · exact h.1 ‹_›
    · rename_i hnt'
      simp only [wp_bind, wp_appendEvent]
      exact h.2 (Bool.eq_false_iff.mpr hnt')

end AutoDev.Flows
