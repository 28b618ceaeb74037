/-
# `AutoDev.Plans.Resumes` — several resumes of one paused plan run

`resume_plan_execution` of `backend/orchestrator/service/plan_lifecycle.py`,
for any number of calls on one run.  A call READS the stored run, takes the
lease, works off the tasks that are not terminal in what it read, lets the
lease go, and WRITES the run back whole.  Behind its loop it repairs the
validation tasks that failed and dispatches each of them again
(`_maybe_batch_self_repair`).

Nothing keeps two calls apart: the status is checked when the run is read, and
`acquire_run_lease` grants the lease of a run to whoever asks while it is held.
What is needed is that a run is only read when no call is under way and the stored
steps account for every task that was dispatched (`Settled`).
-/
import AutoDev.Lib.History
import AutoDev.Quotas.Store

namespace AutoDev.Plans

open History List
open AutoDev.Quotas (QuotaStore)

/-! ## The code -/

inductive StepStatus where
  | completed
  | failed
  | awaitingApproval
  deriving DecidableEq

structure RunStep where
  stepKey : String
  status : StepStatus

/-- `ExecutionTask`: its id, and whether it is a validation task with commands of its own. -/
structure PlanTask where
  taskId : String
  validates : Bool := false

structure RunRecord where
  awaiting : Bool
  steps : List RunStep

/-- The steps that a resume keeps: the terminal ones. -/
def terminal (steps : List RunStep) : List RunStep := steps.filter (·.status ≠ .awaitingApproval)

def taskIds (steps : List RunStep) : List String := steps.map (·.stepKey)

/-- What becomes of a task; an exception may come before or after its dispatch.  A failure that a
change of the code may mend is `repairable`. -/
inductive TaskOutcome where
  | completed
  | failed (repairable : Bool)
  | denied
  | pending
  | raised (dispatched : Bool)

inductive RepairOutcome where
  | unwritten
  | written (completed : Bool)
  | raised (dispatched : Bool)

/-- How far a call is: what it has still to do, its steps so far, and those of its tasks that wait
for the repair pass.  `paused` is the task that needs a decision. -/
inductive Phase where
  | idle
  | loaded (todo : List PlanTask) (steps : List RunStep)
  | working (todo : List PlanTask) (steps : List RunStep) (repairable : List String)
  /-- `_render_dispatch_records`. -/
  | rendering (paused : Option String) (steps : List RunStep) (repairable : List String)
  | revalidating (paused : Option String) (steps : List RunStep) (repairable : List String)
  /-- `_process_tasks` is over; `none` is an exception. -/
  | ended (result : Option RunRecord)
  | saving (result : RunRecord)
  | finished

/-- A dispatch of a task by a call, in its loop or in its repair pass. -/
structure Dispatch where
  call : ℕ
  task : String
  repair : Bool := false
  deriving DecidableEq

/-- The stored run, the leases, the calls, and their dispatches. -/
structure Resumes where
  record : RunRecord
  quota : QuotaStore := {}
  phase : ℕ → Phase := fun _ => .idle
  dispatched : List Dispatch := []

/-- The operations of a call. -/
inductive Move where
  | load
  | lease (maxConcurrentRuns : ℕ) (leaseSeconds : ℤ) (now later : ℚ)
  /-- The next turn of the loop. -/
  | task (outcome : TaskOutcome)
  | repair (outcome : RepairOutcome)
  /-- The next task of the repair pass; `none` is an exception. -/
  | revalidate (completed : Option Bool)
  /-- The teardown of the environment raises. -/
  | raise
  | release (now : ℚ)
  | save

namespace Resumes

def goes (s : Resumes) (i : ℕ) (p : Phase) : Resumes :=
  { s with phase := Function.update s.phase i p }

/-- One turn of the loop of `_process_tasks`, and whether its task is dispatched. -/
def turn (steps : List RunStep) (repairable : List String) :
    List PlanTask → TaskOutcome → Phase × List String
  | [], _ => (.rendering none steps repairable, [])
  | t :: todo, .completed =>
    (.working todo (steps ++ [⟨t.taskId, .completed⟩]) repairable, [t.taskId])
  | t :: todo, .failed mendable =>
    (.working todo (steps ++ [⟨t.taskId, .failed⟩])
      (if t.validates && mendable then repairable ++ [t.taskId] else repairable), [t.taskId])
  | t :: todo, .denied => (.working todo (steps ++ [⟨t.taskId, .failed⟩]) repairable, [])
  | t :: _, .pending => (.rendering (some t.taskId) steps repairable, [])
  | t :: _, .raised dispatched => (.ended none, if dispatched then [t.taskId] else [])

/-- The steps are rendered, and the task that needs a decision is put behind them. -/
def render (paused : Option String) (steps : List RunStep) : Phase :=
  .ended (some ⟨paused.isSome, steps ++ paused.toList.map (RunStep.mk · .awaitingApproval)⟩)

/-- The repair pass up to its write, which is made in the name of the first task. -/
def write (paused : Option String) (steps : List RunStep) :
    List String → RepairOutcome → Phase × List String
  | [], _ => (render paused steps, [])
  | _ :: _, .unwritten => (render paused steps, [])
  | t :: rest, .written completed =>
    (if completed then .revalidating paused steps (t :: rest) else render paused steps, [t])
  | t :: _, .raised dispatched => (.ended none, if dispatched then [t] else [])

/-- The step of a task that was validated again. -/
def verdict (steps : List RunStep) (t : String) (completed : Bool) : List RunStep :=
  steps.map fun step =>
    if step.stepKey = t then ⟨t, if completed then .completed else .failed⟩ else step

/-- One turn of the loop that validates the repaired tasks again. -/
def revalidate (paused : Option String) (steps : List RunStep) :
    List String → Option Bool → Phase × List String
  | [], _ => (render paused steps, [])
  | t :: rest, some completed => (.revalidating paused (verdict steps t completed) rest, [t])
  | t :: _, none => (.ended none, [t])

variable (plan : List PlanTask) (tenantId runId : String)

def ran (s : Resumes) (i : ℕ) (repair : Bool) (tasks : List String) : Resumes :=
  { s with dispatched := s.dispatched ++ tasks.map (Dispatch.mk i · repair) }

/-- One operation of one call; one that is not due does nothing. -/
def step (s : Resumes) (o : ℕ × Move) : Resumes :=
  match o.2, s.phase o.1 with
  | .load, .idle =>
    let steps := terminal s.record.steps
    let todo := plan.filter (·.taskId ∉ taskIds steps)
    s.goes o.1 (if s.record.awaiting then .loaded todo steps else .finished)
  | .lease maxConcurrentRuns leaseSeconds now later, .loaded todo steps =>
    let (quota, result) :=
      s.quota.acquireRunLease tenantId runId maxConcurrentRuns leaseSeconds now later
    { s with quota }.goes o.1 (if result.granted then .working todo steps [] else .finished)
  | .task outcome, .working todo steps repairable =>
    let (phase, tasks) := turn steps repairable todo outcome
    (s.ran o.1 false tasks).goes o.1 phase
  | .repair outcome, .rendering paused steps repairable =>
    let (phase, tasks) := write paused steps repairable outcome
    (s.ran o.1 true tasks).goes o.1 phase
  | .revalidate completed, .revalidating paused steps repairable =>
    let (phase, tasks) := revalidate paused steps repairable completed
    (s.ran o.1 true tasks).goes o.1 phase
  | .raise, .ended _ => s.goes o.1 (.ended none)
  | .release now, .ended result =>
    { s with quota := s.quota.releaseRunLease runId now }.goes o.1 (result.elim .finished .saving)
  | .save, .saving record => { s with record }.goes o.1 .finished
  | _, _ => s

end Resumes

/-! ## One call at a time -/

/-- The call is under way. -/
def Phase.Active : Phase → Prop
  | .idle | .finished => False
  | _ => True

/-- The tasks that a call has still to do, and the steps it will store. -/
def Phase.left : Phase → Option (List String × List RunStep)
  | .loaded todo steps | .working todo steps _ => some (todo.map (·.taskId), steps)
  | .rendering paused steps _ | .revalidating paused steps _ => some (paused.toList, steps)
  | .ended (some r) | .saving r => some ([], r.steps)
  | _ => none

/-- The tasks that the repair pass of the call may dispatch again. -/
def Phase.repairable : Phase → List String
  | .working _ _ repairable | .rendering _ _ repairable | .revalidating _ _ repairable => repairable
  | _ => []

namespace Resumes

def tasks (s : Resumes) : List String := s.dispatched.map (·.task)

/-- The tasks that were dispatched by the loop of a call. -/
def looped (s : Resumes) : List String := (s.dispatched.filter (!·.repair)).map (·.task)

end Resumes

/-- The run is read when no call is under way, and its steps account for what was dispatched. -/
def Settled (s : Resumes) (o : ℕ × Move) : Prop :=
  o.2 = .load → (∀ j, ¬ (s.phase j).Active) ∧ s.tasks ⊆ taskIds (terminal s.record.steps)

/-- Each task was dispatched by one call at most, once at most by its loop, and by its repair pass
only behind that; it stands once at most in the stored steps. -/
def Once (s : Resumes) : Prop :=
  (∀ d ∈ s.dispatched, ∀ d' ∈ s.dispatched, d.task = d'.task → d.call = d'.call) ∧
  s.looped.Nodup ∧ (∀ d ∈ s.dispatched, { d with repair := false } ∈ s.dispatched) ∧
  (taskIds s.record.steps).Nodup

instance : DecidablePred Once := fun _ => inferInstanceAs (Decidable (_ ∧ _))

/-- The tasks a call has steps for and those it has still to do are distinct; none of the latter was
dispatched, and what it may repair was dispatched by its loop. -/
structure Orderly (s : Resumes) : Prop where
  once : Once s
  sole : ∀ i j, (s.phase i).Active → (s.phase j).Active → i = j
  left : ∀ i todo steps, (s.phase i).left = some (todo, steps) →
    (taskIds steps ++ todo).Nodup ∧ s.tasks ⊆ taskIds steps
  repairable : ∀ i, ∀ t ∈ (s.phase i).repairable, ⟨i, t, false⟩ ∈ s.dispatched

variable {s : Resumes} {i : ℕ} {p : Phase} {plan : List PlanTask} {tenantId runId : String}

theorem Phase.active_of_left {l : List String × List RunStep} (h : p.left = some l) : p.Active := by
  cases p with
  | idle | finished => cases h
  | _ => trivial

theorem Phase.active_of_repairable {t : String} (h : t ∈ p.repairable) : p.Active := by
  cases p with
  | idle | finished => cases h
  | _ => trivial

theorem Phase.left_of_ite {c : Prop} [Decidable c] {l : List String × List RunStep}
    (h : (if c then p else .finished).left = some l) : p.left = some l := by
  split at h
  · exact h
  · cases h

theorem Phase.repairable_of_ite {c : Prop} [Decidable c] {t : String}
    (h : t ∈ (if c then p else .finished).repairable) : t ∈ p.repairable := by
  split at h
  · exact h
  · cases h

theorem Orderly.goes (hi : ∀ j, (s.phase j).Active → j = i) (honce : Once s)
    (hp : ∀ todo steps, p.left = some (todo, steps) →
      (taskIds steps ++ todo).Nodup ∧ s.tasks ⊆ taskIds steps)
    (hr : ∀ t ∈ p.repairable, ⟨i, t, false⟩ ∈ s.dispatched) : Orderly (s.goes i p) := by
  have hsole (j : ℕ) (hj : (Function.update s.phase i p j).Active) : j = i := by
    by_contra hne
    rw [Function.update_of_ne hne] at hj
    exact hne (hi j hj)
  have hself : (s.goes i p).phase i = p := Function.update_self ..
  refine ⟨honce, fun j k hj hk => (hsole j hj).trans (hsole k hk).symm, fun j todo steps hl => ?_,
    fun j t ht => ?_⟩
  · obtain rfl := hsole j (Phase.active_of_left hl)
    rw [hself] at hl
    exact hp todo steps hl
  · obtain rfl := hsole j (Phase.active_of_repairable ht)
    rw [hself] at ht
    exact hr t ht

/-! ## Dispatches -/

section Turns

open Resumes

variable {steps : List RunStep} {repairable : List String} {paused : Option String}

variable {todo : List PlanTask} {outcome : TaskOutcome} {l : List String × List RunStep}

theorem turn_ran : (turn steps repairable todo outcome).2 <+ todo.map (·.taskId) := by
  rcases todo with _ | ⟨t, todo⟩
  · exact .slnil
  cases outcome with
  | completed | failed _ => exact (nil_sublist (todo.map (·.taskId))).cons_cons t.taskId
  | raised dispatched => cases dispatched <;> simp [turn]
  | denied | pending => exact nil_sublist _

theorem turn_left (h : (turn steps repairable todo outcome).1.left = some l) :
    taskIds l.2 ++ l.1 <+ taskIds steps ++ todo.map (·.taskId) ∧
      taskIds steps ⊆ taskIds l.2 ∧ (turn steps repairable todo outcome).2 ⊆ taskIds l.2 := by
  rcases todo with _ | ⟨t, todo⟩ <;> cases outcome <;> cases h <;> simp [turn, taskIds]

theorem turn_repairable {t : String}
    (h : t ∈ (turn steps repairable todo outcome).1.repairable) :
    t ∈ repairable ∨ t ∈ (turn steps repairable todo outcome).2 := by
  rcases todo with _ | ⟨u, todo⟩
  · exact .inl h
  cases outcome with
  | completed | denied | pending => exact .inl h
  | raised _ => cases h
  | failed mendable =>
    simp only [turn, Phase.repairable] at h
    split at h
    · exact mem_append.mp h
    · exact .inl h

/-- What a turn of the repair pass leaves: the same steps and tasks, and a part of what may be
repaired; what it dispatches is among that. -/
structure Repairs (paused : Option String) (steps : List RunStep) (repairable : List String)
    (next : Phase × List String) : Prop where
  ran : next.2 ⊆ repairable
  left : ∀ {l}, next.1.left = some l → taskIds l.2 ++ l.1 = taskIds steps ++ paused.toList ∧
    taskIds steps ⊆ taskIds l.2
  rest : next.1.repairable ⊆ repairable

theorem repairs_render {ran : List String} (h : ran ⊆ repairable) :
    Repairs paused steps repairable (render paused steps, ran) where
  ran := h
  left hl := by
    cases hl
    cases paused <;> simp [taskIds]
  rest := nil_subset _

theorem repairs_raised {ran : List String} (h : ran ⊆ repairable) :
    Repairs paused steps repairable (.ended none, ran) where
  ran := h
  left hl := by cases hl
  rest := nil_subset _

@[simp] theorem taskIds_verdict (t : String) (completed : Bool) :
    taskIds (verdict steps t completed) = taskIds steps := by
  unfold taskIds verdict
  rw [map_map]
  refine map_congr_left fun step _ => ?_
  by_cases h : step.stepKey = t <;> simp [h]

theorem repairs_write (outcome : RepairOutcome) :
    Repairs paused steps repairable (write paused steps repairable outcome) := by
  rcases repairable with _ | ⟨t, rest⟩
  · exact repairs_render (nil_subset _)
  have ht : [t] ⊆ t :: rest := cons_subset_cons t (nil_subset rest)
  cases outcome with
  | unwritten => exact repairs_render (nil_subset _)
  | raised dispatched =>
    cases dispatched with
    | true => exact repairs_raised ht
    | false => exact repairs_raised (nil_subset _)
  | written completed =>
    cases completed with
    | false => exact repairs_render ht
    | true => exact ⟨ht, fun hl => by cases hl; exact ⟨rfl, Subset.refl _⟩, Subset.refl _⟩

theorem repairs_revalidate (completed : Option Bool) :
    Repairs paused steps repairable (revalidate paused steps repairable completed) := by
  rcases repairable with _ | ⟨t, rest⟩
  · exact repairs_render (nil_subset _)
  have ht : [t] ⊆ t :: rest := cons_subset_cons t (nil_subset rest)
  cases completed with
  | none => exact repairs_raised ht
  | some completed =>
    refine ⟨ht, fun hl => ?_, subset_cons_self ..⟩
    cases hl
    simp

end Turns

section Dispatches

variable {steps : List RunStep} {next : Phase × List String} {ran : List String} {r : Bool}

theorem tasks_ran : (s.ran i r ran).tasks = s.tasks ++ ran := by
  simp [Resumes.tasks, Resumes.ran, Function.comp_def]

theorem looped_ran : (s.ran i r ran).looped = s.looped ++ if r then [] else ran := by
  cases r <;> simp [Resumes.looped, Resumes.ran, filter_map, Function.comp_def]

theorem Once.loop (h : Once s) (hran : ran.Nodup) (hnew : ∀ t ∈ ran, t ∉ s.tasks) :
    Once (s.ran i false ran) := by
  obtain ⟨hcall, hloop, hfirst, hsteps⟩ := h
  have hold {d : Dispatch} (hd : d ∈ s.dispatched) : d.task ∈ s.tasks := mem_map_of_mem hd
  refine ⟨?_, ?_, ?_, hsteps⟩
  · intro d hd d' hd' e
    rcases mem_append.mp hd with hd | hd <;> rcases mem_append.mp hd' with hd' | hd'
    · exact hcall d hd d' hd' e
    · obtain ⟨t, ht, rfl⟩ := mem_map.mp hd'
      exact absurd (hold hd) (e.symm ▸ hnew t ht)
    · obtain ⟨t, ht, rfl⟩ := mem_map.mp hd
      exact absurd (hold hd') (e ▸ hnew t ht)
    · obtain ⟨t, -, rfl⟩ := mem_map.mp hd
      obtain ⟨t', -, rfl⟩ := mem_map.mp hd'
      rfl
  · rw [looped_ran]
    refine nodup_append.mpr ⟨hloop, hran, fun t ht t' ht' e => hnew t' ht' (e ▸ ?_)⟩
    exact filter_sublist.map _ |>.subset ht
  · intro d hd
    rcases mem_append.mp hd with hd | hd
    · exact mem_append_left _ (hfirst d hd)
    · obtain ⟨t, ht, rfl⟩ := mem_map.mp hd
      exact mem_append_right _ (mem_map.mpr ⟨t, ht, rfl⟩)

theorem Once.repair (h : Once s) (hran : ∀ t ∈ ran, ⟨i, t, false⟩ ∈ s.dispatched) :
    Once (s.ran i true ran) := by
  obtain ⟨hcall, hloop, hfirst, hsteps⟩ := h
  -- every dispatch has one of a loop in front, of the same call
  have hloop' : ∀ d ∈ (s.ran i true ran).dispatched, { d with repair := false } ∈ s.dispatched := by
    intro d hd
    rcases mem_append.mp hd with hd | hd
    · exact hfirst d hd
    · obtain ⟨t, ht, rfl⟩ := mem_map.mp hd
      exact hran t ht
  refine ⟨fun d hd d' hd' e => ?_, ?_, fun d hd => mem_append_left _ (hloop' d hd), hsteps⟩
  · exact hcall { d with repair := false } (hloop' d hd) { d' with repair := false }
      (hloop' d' hd') e
  · rwa [looped_ran, if_pos rfl, append_nil]

theorem Orderly.turn {todo : List PlanTask} {repairable : List String} {outcome : TaskOutcome}
    (h : Orderly s) (hp : s.phase i = .working todo steps repairable) :
    let (phase, tasks) := Resumes.turn steps repairable todo outcome
    Orderly ((s.ran i false tasks).goes i phase) := by
  obtain ⟨hleft, hsub⟩ := h.left i (todo.map (·.taskId)) steps (hp ▸ rfl)
  have hrepairable := h.repairable i
  rw [hp] at hrepairable
  obtain ⟨-, hran, hnew⟩ := nodup_append.mp (hleft.sublist (turn_ran.append_left _))
  refine Orderly.goes (fun j hj => h.sole j i hj (hp ▸ trivial))
    (h.once.loop hran fun t ht hold => hnew t (hsub hold) t ht rfl) (fun todo' steps' hl => ?_)
    fun t ht => ?_
  · obtain ⟨hrest, hkept, hdone⟩ := turn_left hl
    refine ⟨hleft.sublist hrest, ?_⟩
    rw [tasks_ran]
    exact append_subset.mpr ⟨Subset.trans hsub hkept, hdone⟩
  · rcases turn_repairable ht with ht | ht
    · exact mem_append_left _ (hrepairable t ht)
    · exact mem_append_right _ (mem_map.mpr ⟨t, ht, rfl⟩)

theorem Orderly.repairs {paused : Option String} (h : Orderly s)
    (hp : s.phase i = p) (hl : p.left = some (paused.toList, steps))
    (hn : Repairs paused steps p.repairable next) :
    Orderly ((s.ran i true next.2).goes i next.1) := by
  subst hp
  obtain ⟨hleft, hsub⟩ := h.left i _ steps hl
  refine Orderly.goes (fun j hj => h.sole j i hj (Phase.active_of_left hl))
    (h.once.repair fun t ht => h.repairable i t (hn.ran ht)) (fun todo' steps' hl => ?_)
    fun t ht => mem_append_left _ (h.repairable i t (hn.rest ht))
  obtain ⟨hsame, hkept⟩ := hn.left hl
  refine ⟨hsame ▸ hleft, ?_⟩
  rw [tasks_ran]
  refine Subset.trans (append_subset.mpr ⟨hsub, fun t ht => hsub ?_⟩) hkept
  exact mem_map_of_mem (f := Dispatch.task) (h.repairable i t (hn.ran ht))

end Dispatches

/-! ## Whole histories -/

theorem nodup_load (hplan : (plan.map (·.taskId)).Nodup) {steps : List RunStep}
    (h : (taskIds steps).Nodup) :
    (taskIds (terminal steps) ++
      (plan.filter (·.taskId ∉ taskIds (terminal steps))).map (·.taskId)).Nodup := by
  refine nodup_append.mpr
    ⟨h.sublist (filter_sublist.map _), hplan.sublist (filter_sublist.map _), ?_⟩
  rintro a ha b hb rfl
  obtain ⟨t, ht, rfl⟩ := mem_map.mp hb
  exact of_decide_eq_true (mem_filter.mp ht).2 ha

theorem orderly_step (hplan : (plan.map (·.taskId)).Nodup) (s : Resumes) (o : ℕ × Move)
    (h : Orderly s) (ho : Settled s o) : Orderly (s.step plan tenantId runId o) := by
  -- the call whose operation is due is the only one under way
  have hsole (hi : (s.phase o.1).Active) (j : ℕ) (hj : (s.phase j).Active) : j = o.1 :=
    h.sole j o.1 hj hi
  unfold Resumes.step
  split
  · next hload _ =>
    obtain ⟨hnone, hsub⟩ := ho hload
    refine Orderly.goes (fun j hj => absurd hj (hnone j)) h.once (fun todo steps hl => ?_)
      fun t ht => absurd (Phase.repairable_of_ite ht) not_mem_nil
    cases Phase.left_of_ite hl
    exact ⟨nodup_load hplan h.once.2.2.2, hsub⟩
  · next todo steps _ hp =>
    refine Orderly.goes (hsole (hp ▸ trivial)) h.once (fun todo' steps' hl => ?_)
      fun t ht => absurd (Phase.repairable_of_ite ht) not_mem_nil
    cases Phase.left_of_ite hl
    exact h.left o.1 (todo.map (·.taskId)) steps (hp ▸ rfl)
  · next hp => exact h.turn hp
  · next hp => exact h.repairs hp rfl (repairs_write _)
  · next hp => exact h.repairs hp rfl (repairs_revalidate _)
  · next hp =>
    exact Orderly.goes (hsole (hp ▸ trivial)) h.once (fun _ _ hl => (by cases hl)) nofun
  · next result _ hp =>
    refine Orderly.goes (hsole (hp ▸ trivial)) h.once (fun todo steps hl => ?_) fun t ht => ?_
    · cases result with
      | none => cases hl
      | some r => exact h.left o.1 todo steps (hp ▸ hl)
    · cases result <;> cases ht
  · next record _ hp =>
    have hrecord := (h.left o.1 [] record.steps (hp ▸ rfl)).1
    rw [append_nil] at hrecord
    obtain ⟨hcall, hloop, hfirst, -⟩ := h.once
    exact Orderly.goes (hsole (hp ▸ trivial)) ⟨hcall, hloop, hfirst, hrecord⟩ nofun nofun
  · exact h

/-- **No task is executed by two resumes** of a paused run of a plan with distinct tasks, however
many there are, in any interleaving in which the run is read only when it is settled. -/
theorem resumes_once (hplan : (plan.map (·.taskId)).Nodup) (record : RunRecord)
    (hrecord : (taskIds record.steps).Nodup) (quota : QuotaStore) (ops : List (ℕ × Move))
    (h : Meets (Resumes.step plan tenantId runId) Settled { record, quota } ops) :
    Throughout (Resumes.step plan tenantId runId) Once { record, quota } ops := by
  have hstart : Orderly { record, quota } :=
    ⟨⟨nofun, nodup_nil, nofun, hrecord⟩, fun _ _ hi => False.elim hi, fun _ _ _ hl => (by cases hl),
      nofun⟩
  exact (throughout_of_meets (orderly_step hplan) hstart h).imp fun _ h => h.once

/-- A run that waits for the first of two tasks. -/
def pausedRecord : RunRecord := ⟨true, [⟨"coding-1", .awaitingApproval⟩]⟩

theorem resumes_once_alone :
    Throughout (Resumes.step [⟨"coding-1", false⟩, ⟨"validation-1", true⟩] "acme" "run-1") Once
      { record := pausedRecord }
      [(0, .load), (0, .lease 1 90 0 0), (0, .task .completed), (0, .task (.failed true)),
        (0, .task .completed), (0, .repair (.written true)), (0, .revalidate (some true)),
        (0, .revalidate none), (0, .release 1), (0, .save)] :=
  resumes_once (by decide) pausedRecord (by decide) {} _
    ⟨fun _ => ⟨fun _ => id, nofun⟩, nofun, nofun, nofun, nofun, nofun, nofun, nofun, nofun, nofun,
      trivial⟩

/-- Two resumes read the run before either writes it; both get the lease, and both dispatch the
task. -/
theorem task_dispatched_twice :
    ¬ Throughout (Resumes.step [⟨"coding-1", false⟩] "acme" "run-1") Once { record := pausedRecord }
      [(0, .load), (1, .load), (0, .lease 1 90 0 0), (1, .lease 1 90 1 1),
        (0, .task .completed), (1, .task .completed)] := by
  decide +kernel

end AutoDev.Plans
