/-
# `AutoDev.Execution.Approval` — what a human approved in approval mode

A decision is looked up by run and task alone.  So the decision that a human
approved for the actions of a validation task also answers the request for the
writes of the repair pass, which go under the same task, and a plan that is
derived anew on a resume may put other actions under a task id that is
approved already (`repair_write_not_vouched`).

What holds is the guarded statement `handed_over_vouched`: where every request
that finds an APPROVED decision comes with actions that were in the list this
decision was requested for, every action handed over in approval mode was in a
list that a human approved.
-/
import AutoDev.Execution.Discipline

namespace AutoDev.Execution

/-- A human approved a decision that was requested while this action was in the list. -/
def Vouched (s : RunState) (a : ExecutionAction) : Prop :=
  ∃ listed ∈ s.vouched, a.work ∈ listed.map ExecutionAction.work

def ApprovedOnly (s : RunState) : Prop :=
  ∀ turn a, .handed turn .approval a ∈ s.log → Vouched s a

/-- A request in approval mode that finds an APPROVED decision comes with actions that were in the
list of this decision. -/
def SameActions : Cmd → RunState → Prop
  | .request q, s => q.mode = .approval → ∀ d ∈ s.decisions q.taskId,
      d.status = .approved → ∀ a ∈ q.listed, a.work ∈ d.listed.map ExecutionAction.work
  | _, _ => True

instance : ∀ c s, Decidable (SameActions c s)
  | .request q, s => inferInstanceAs (Decidable (q.mode = .approval → ∀ d ∈ s.decisions q.taskId,
      d.status = .approved → ∀ a ∈ q.listed, a.work ∈ d.listed.map ExecutionAction.work))
  | .take, _ | .provision, _ | .preview _, _ | .evaluate _ _, _ | .run _ _ _, _ | .readText _, _
  | .coder _, _ | .raise, _ => .isTrue trivial

instance (s : RunState) (a : ExecutionAction) : Decidable (Vouched s a) :=
  inferInstanceAs (Decidable (∃ listed ∈ s.vouched, a.work ∈ listed.map ExecutionAction.work))

variable {s s' : RunState}

variable {a : ExecutionAction} {o : Orchestrator} {guard : Cmd → RunState → Prop}

theorem Vouched.mono (h : Vouched s a) (hv : s.vouched ⊆ s'.vouched) :
    Vouched s' a :=
  let ⟨listed, hl, ha⟩ := h
  ⟨listed, hv hl, ha⟩

/-- The decisions are the humans', and so is everything that ran. -/
structure Vetted (s : RunState) : Prop where
  sound : s.Sound
  only : ApprovedOnly s

theorem Vetted.onward (h : Vetted s) (hs : s.Onward s') : Vetted s' where
  sound := hs.sound h.sound
  only turn a ha := (h.only turn a (hs.log ▸ ha)).mono hs.vouched

theorem vetted_effect {c : Cmd} {r : Reply c} (hs : Vetted s) (h : Effect o c s r s')
    (hrun : ∀ t a, c = .run t .approval a → Vouched s a) : Vetted s' := by
  refine ⟨h.keeps.sound hs.sound, fun turn a ha => ?_⟩
  refine Vouched.mono ?_ h.keeps.vouched
  rcases h.log with hl | ⟨q, -, hl⟩ | ⟨t, m, b, hc, hl⟩ <;> rw [hl] at ha
  · exact hs.only turn a ha
  · exact hs.only turn a ((List.mem_cons.mp ha).resolve_left nofun)
  · rcases List.mem_cons.mp ha with ha | ha
    · obtain ⟨rfl, rfl, rfl⟩ := Entry.handed.inj ha
      exact hrun turn a hc
    · exact hs.only turn a ha

theorem Vouched.sem {allowed : Act → Prop} {c : Cmd} {r : Reply c} (h : Vouched s a)
    (hc : Sem o allowed guard c s r s') : Vouched s' a := by
  obtain ⟨acts, -, -, he⟩ := hc
  exact (h.mono (RunState.Onward.acts s acts).vouched).mono he.keeps.vouched

def approvalDiscipline (o : Orchestrator) : Discipline o (fun _ => True) SameActions where
  Inv := Vetted
  May _ m a s := m = .approval → Vouched s a
  Gate _ m a s := m = .approval → Vouched s a
  Open _ _ := True
  keep {c s r s'} hs hc hrun _ := by
    obtain ⟨acts, -, -, he⟩ := hc
    have ho := RunState.Onward.acts s acts
    exact vetted_effect (hs.onward ho) he fun t a e =>
      (hrun t .approval a e rfl).mono ho.vouched
  may_evaluate h hc hm := (h hm).sem hc
  may_run h hc hm := (h hm).sem hc
  gate_keep h hc _ hm := (h hm).sem hc
  open_keep _ _ _ := trivial
  gate_may h hc _ hm := (h hm).sem hc
  open_take _ _ := trivial
  open_request _ _ _ := trivial
  gate_request h hc _ hm := (h hm).sem hc
  gate_policy hm _ h := absurd h hm
  approved {q s d s'} hs hc hd _ a ha := by
    obtain ⟨acts, -, hg, now, rfl, rfl⟩ := hc
    have hsound := (hs.onward (RunState.Onward.acts s acts)).sound
    obtain ⟨hrow, hsame⟩ := request_approved _ now q _ hd
    have hv : q.mode = .approval → Vouched (acts.foldl Act.apply s) a := fun hm =>
      ⟨_, hsound _ _ hrow hd, hg hm _ hrow hd a ha⟩
    refine ⟨fun hm => ?_, fun hm => ?_⟩ <;>
    · refine (hv hm).mono ?_
      rw [vouched_observe, hsame]
      exact List.Subset.refl _

/-- **In approval mode nothing runs that no human approved**, as long as an APPROVED decision
answers only for actions it was requested for. -/
theorem handed_over_vouched {o : Orchestrator} {s : RunState}
    (h : Reached o (fun _ => True) SameActions s) : ApprovedOnly s := by
  have hv : (approvalDiscipline o).Inv s := by
    refine Discipline.of_reached (fun policy => ⟨fun _ _ hd => (nomatch hd), fun _ _ ha => ?_⟩)
      (fun s a hs => hs.onward (RunState.Onward.act s a)) h
    exact absurd ha List.not_mem_nil
  exact hv.only

/-! ## The repair pass under the approval of another list -/

/-- Files are written, the tests fail, and the coder answers with another text for the file. -/
def repairScript : Script where
  runner a :=
    match a.type with
    | .runValidation =>
      { actionId := a.actionId, taskId := a.taskId, stepKey := a.stepKey, status := .failed,
        failureKind := some .codeFailure }
    | _ =>
      { actionId := a.actionId, taskId := a.taskId, stepKey := a.stepKey, status := .succeeded,
        artifacts := a.path.toList }
  coder := [⟨"app.py", some "print(2)"⟩]
  text _ := .text "print(1)"

/-- The plan is executed in approval mode; after each pause the human approves what is asked.  The
second batch is not recorded, so that the third starts with the file again. -/
def repairedRun (check : Cmd → RunState → Bool) : RunState :=
  let o := demoOrchestrator
  let plan := [writeTask, validateTask]
  let s₁ := o.playBatch repairScript check .approval plan {}
  let s₂ := o.playBatch repairScript check .approval plan
    (Act.apply s₁ (.resolve "coding-file-1" true "alice" 1))
  o.playBatch repairScript check .approval plan
    (Act.apply s₂ (.resolve "validation-1" true "alice" 2))

theorem repairedRun_reached {modes : ExecutionMode → Prop} {check : Cmd → RunState → Bool}
    (hg : ∀ c s, check c s = true → guard c s) (hm : modes .approval) :
    Reached demoOrchestrator modes guard (repairedRun check) :=
  .playBatch (.act _ (.playBatch (.act _ (.playBatch (.start {}) _ _ _ hg hm)) _ _ _ hg hm))
    _ _ _ hg hm

def repairWrite : ExecutionAction :=
  { actionId := "run-1-batch-repair-write-1", type := .createFile, taskId := "validation-1",
    stepKey := "validation-1", path := some "app.py", content := some "print(2)" }

/-- The approval of the test command hands the new text of the file to the runner. -/
theorem repair_write_not_vouched :
    ∃ s, Reached demoOrchestrator (· = .approval) (fun _ _ => True) s ∧
      .handed 4 .approval repairWrite ∈ s.log ∧ ¬ ApprovedOnly s := by
  have hmem : .handed 4 .approval repairWrite ∈ (repairedRun anyCommand).log := by decide +kernel
  have hno : ¬ Vouched (repairedRun anyCommand) repairWrite := by decide +kernel
  exact ⟨_, repairedRun_reached (fun _ _ _ => trivial) rfl, hmem, fun h => hno (h 4 _ hmem)⟩

theorem handed_over_vouched_demo :
    (repairedRun fun c s => decide (SameActions c s)).log.length = 3 ∧
      ApprovedOnly (repairedRun fun c s => decide (SameActions c s)) :=
  ⟨by decide +kernel, handed_over_vouched
    (repairedRun_reached (fun _ _ h => of_decide_eq_true h) trivial)⟩

end AutoDev.Execution
