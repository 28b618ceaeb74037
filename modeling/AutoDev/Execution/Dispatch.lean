/-
# `AutoDev.Execution.Dispatch` — processing the tasks of an execution plan

`TaskExecutor.dispatch` and `deny_all` of `backend/execution/executor.py`,
`_process_tasks`, `_render_dispatch_records` and `_resolve_task_actions` of
`backend/orchestrator/service/task_dispatch.py`, and
`_maybe_batch_self_repair` of `backend/orchestrator/service/self_repair.py`,
as programs over the commands that reach outside: the policy, the decisions,
the runner, the coder and the files of the project.

Before every command the humans, the sweep of due decisions and the
administrators may act any number of times (`Sem`).  The runner, the coder and
the file system answer as they like; an exception of theirs, or a
`PolicyMissingError`, ends the program (`raise` has no reply).

The turn of a task is the number of tasks taken up before it in the run.  It is
carried along to tell in the log whose action was handed over; the source has
no such number.
-/
import AutoDev.Lib.Prog
import AutoDev.Lib.Table
import AutoDev.Execution.Policy

namespace AutoDev.Execution

/-! ## Commands -/

structure AgentContext where
  sessionId : String
  goal : String
  userRequest : String

/-- An entry of the coder's `files` whose path is a text; the content may be missing. -/
structure CoderFile where
  path : String
  content : Option String
  deriving DecidableEq

inductive FileReply where
  | text (content : String)
  | osError
  | broken
  deriving DecidableEq

inductive Cmd where
  | take
  | provision
  | preview (a : ExecutionAction)
  | evaluate (turn : ℕ) (a : ExecutionAction)
  | request (q : DecisionRequest)
  | run (turn : ℕ) (mode : ExecutionMode) (a : ExecutionAction)
  | readText (path : String)
  | coder (context : AgentContext)
  | raise

/-- What each command answers; `none` is an exception, except for `provision`, which answers with
the reason why there is no environment. -/
abbrev Reply : Cmd → Type
  | .take => ℕ
  | .provision => Option String
  | .preview _ => Option PolicyDecision
  | .evaluate _ _ => Option PolicyDecision
  | .request _ => PendingDecision
  | .run _ _ _ => Option ExecutionResult
  | .readText _ => FileReply
  | .coder _ => Option (List CoderFile)
  | .raise => Empty

/-- Programs of the orchestrator. -/
abbrev P := Prog Cmd Reply

/-- The exception goes up. -/
def raise {α : Type} : P α := .op .raise Empty.elim

def orRaise {α : Type} : Option α → P α
  | none => raise
  | some a => .ret a

/-- The services behind the orchestrator, and the run it works for. -/
structure Orchestrator where
  settings : Settings
  py : PyText
  runId : String
  projectRoot : Bool := true

def RunState.observe (turn : ℕ) (d : PendingDecision) (s : RunState) : RunState :=
  if d.status = .timedOut then { s with log := .observedTimeout turn :: s.log } else s

@[simp] theorem vouched_observe (turn : ℕ) (d : PendingDecision) (s : RunState) :
    (s.observe turn d).vouched = s.vouched := by
  unfold RunState.observe
  split <;> rfl

@[simp] theorem decisions_observe (turn : ℕ) (d : PendingDecision) (s : RunState) :
    (s.observe turn d).decisions = s.decisions := by
  unfold RunState.observe
  split <;> rfl

@[simp] theorem policy_observe (turn : ℕ) (d : PendingDecision) (s : RunState) :
    (s.observe turn d).policy = s.policy := by
  unfold RunState.observe
  split <;> rfl

@[simp] theorem turn_observe (turn : ℕ) (d : PendingDecision) (s : RunState) :
    (s.observe turn d).turn = s.turn := by
  unfold RunState.observe
  split <;> rfl

/-- What a command does at the moment it takes place. -/
def Effect (o : Orchestrator) : (c : Cmd) → RunState → Reply c → RunState → Prop
  | .take, s, r, s' => r = s.turn ∧ s' = { s with turn := s.turn + 1 }
  | .provision, s, _, s' => s' = s
  | .preview a, s, r, s' => r = o.settings.decide s.policy a ∧ s' = s
  | .evaluate _ a, s, r, s' => r = o.settings.decide s.policy a ∧ s' = s
  | .request q, s, r, s' => ∃ now, r = (s.request o.settings now q).1 ∧
      s' = (s.request o.settings now q).2.observe q.turn r
  | .run turn mode a, s, _, s' => s' = { s with log := .handed turn mode a :: s.log }
  | .readText _, s, _, s' => s' = s
  | .coder _, s, _, s' => s' = s
  | .raise, _, _, _ => False

variable {o : Orchestrator}

theorem Effect.log {c : Cmd} {s s' : RunState} {r : Reply c} (h : Effect o c s r s') :
    s'.log = s.log ∨
      (∃ q, c = .request q ∧ s'.log = .observedTimeout q.turn :: s.log) ∨
      ∃ t m a, c = .run t m a ∧ s'.log = .handed t m a :: s.log := by
  cases c with
  | take | preview _ | evaluate _ _ => obtain ⟨-, rfl⟩ := h; exact .inl rfl
  | provision | readText _ | coder _ => cases h; exact .inl rfl
  | request q =>
    obtain ⟨now, -, rfl⟩ := h
    unfold RunState.observe
    split
    · exact .inr (.inl ⟨q, rfl, congrArg _ (log_request ..)⟩)
    · exact .inl (log_request ..)
  | run t m a => cases h; exact .inr (.inr ⟨t, m, a, rfl, rfl⟩)
  | raise => exact h.elim

/-- What a command does to the policy, the approvals and the rows. -/
structure Effect.Keeps (s s' : RunState) : Prop where
  policy : s'.policy = s.policy
  vouched : s.vouched ⊆ s'.vouched
  sound : s.Sound → s'.Sound
  row : ∀ task d, s.decisions task = some d → ∃ d', s'.decisions task = some d' ∧ d.Follows d'

theorem Effect.Keeps.refl (s : RunState) : Keeps s s :=
  ⟨rfl, List.Subset.refl _, id, fun _ d h => ⟨d, h, .refl d⟩⟩

theorem Effect.keeps {c : Cmd} {s s' : RunState} {r : Reply c} (h : Effect o c s r s') :
    Keeps s s' := by
  cases c with
  | take => obtain ⟨-, rfl⟩ := h; exact { Keeps.refl s with }
  | provision | readText _ | coder _ => cases h; exact .refl _
  | preview _ | evaluate _ _ => obtain ⟨-, rfl⟩ := h; exact .refl _
  | run _ _ _ => cases h; exact { Keeps.refl s with }
  | request q =>
    obtain ⟨now, -, rfl⟩ := h
    constructor
    · rw [policy_observe]; exact policy_request ..
    · rw [vouched_observe]; exact vouched_request ..
    · intro hs task d hd
      rw [vouched_observe]
      exact sound_request _ now q s hs task d (by simpa using hd)
    · intro task d hd
      rw [decisions_observe]
      exact row_request _ now q s hd
  | raise => exact h.elim

theorem Effect.turn_le {c : Cmd} {s s' : RunState} {r : Reply c} (h : Effect o c s r s') :
    s.turn ≤ s'.turn := by
  cases c with
  | take => obtain ⟨-, rfl⟩ := h; exact Nat.le_succ _
  | provision | readText _ | coder _ | run _ _ _ => cases h; exact Nat.le_refl _
  | preview _ | evaluate _ _ => obtain ⟨-, rfl⟩ := h; exact Nat.le_refl _
  | request q =>
    obtain ⟨now, -, rfl⟩ := h
    rw [turn_observe, turn_request]
  | raise => exact h.elim

/-- A command after any number of `allowed` acts of others, in a state where `guard` holds. -/
def Sem (o : Orchestrator) (allowed : Act → Prop) (guard : Cmd → RunState → Prop) (c : Cmd)
    (s : RunState) (r : Reply c) (s' : RunState) : Prop :=
  ∃ acts : List Act, (∀ a ∈ acts, allowed a) ∧ guard c (acts.foldl Act.apply s) ∧
    Effect o c (acts.foldl Act.apply s) r s'

/-! ## `TaskExecutor` -/

def deniedResult (a : ExecutionAction) (reason : String) (kind : ExecutionFailureKind) :
    ExecutionResult :=
  { actionId := a.actionId, taskId := a.taskId, stepKey := a.stepKey, status := .failed,
    error := some reason, failureKind := some kind }

def denyAll (actions : List ExecutionAction) (reason : String)
    (kind : ExecutionFailureKind := .policyDenied) : TaskExecutionOutcome :=
  ⟨.failed, actions.map (deniedResult · reason kind)⟩

variable (o) (turn : ℕ) (mode : ExecutionMode)

def runAction (a : ExecutionAction) : P ExecutionResult := do
  orRaise (← Prog.send (.run turn mode a))

def dispatchOne (preApproved : List String) (a : ExecutionAction) : P ExecutionResult :=
  if preApproved.contains a.actionId then runAction turn mode a
  else do
    let decision ← orRaise (← Prog.send (.evaluate turn a))
    if decision.allowed then runAction turn mode a
    else .ret (deniedResult a s!"policy denied: {decision.reason}" .policyDenied)

/-- One more result in front of an outcome. -/
def TaskExecutionOutcome.cons (r : ExecutionResult) (o : TaskExecutionOutcome) :
    TaskExecutionOutcome :=
  ⟨if r.status = .failed then .failed else o.status, r :: o.results⟩

def dispatch (preApproved : List String) : List ExecutionAction → P TaskExecutionOutcome
  | [] => .ret ⟨.completed, []⟩
  | a :: rest => do
    let result ← dispatchOne turn mode preApproved a
    let outcome ← dispatch preApproved rest
    .ret (outcome.cons result)

/-! ## `_resolve_task_actions` -/

def anyUncovered : List ExecutionAction → P Bool
  | [] => .ret false
  | a :: rest => do
    let decision ← orRaise (← Prog.send (.preview a))
    if decision.matched then anyUncovered rest else .ret true

def needsDecision (actions : List ExecutionAction) : P Bool :=
  match mode with
  | .approval => .ret true
  | .hybrid => anyUncovered actions
  | .auto => .ret false

def Orchestrator.decisionRequest (task : ExecutionTask) (primary : ExecutionAction)
    (actions : List ExecutionAction) : DecisionRequest :=
  { turn, mode, taskId := task.taskId, action := primary, category := primary.type.category,
    prompt := s!"Approve {primary.type.value} for task {o.py.repr task.title}?",
    pattern := matchTarget primary, listed := actions }

def actOn (actions : List ExecutionAction) (pending : PendingDecision) :
    P (TaskExecutionOutcome ⊕ PendingDecision) :=
  match pending.status with
  | .pending => .ret (.inr pending)
  | .approved => do
    let outcome ← dispatch turn mode (actions.map (·.actionId)) actions
    .ret (.inl outcome)
  | .denied => .ret (.inl (denyAll actions "human denied this action"))
  | .timedOut => .ret (.inl (denyAll actions "decision timed out (deny-and-stop fallback)"))

def Orchestrator.resolveTaskActions (environmentDeniedReason : Option String) (task : ExecutionTask) :
    List ExecutionAction → P (TaskExecutionOutcome ⊕ PendingDecision)
  | [] => do
    let outcome ← dispatch turn mode [] []
    .ret (.inl outcome)
  | primary :: rest =>
    match environmentDeniedReason with
    | some reason => .ret (.inl (denyAll (primary :: rest) reason .environmentUnavailable))
    | none => do
      if ← needsDecision mode (primary :: rest) then
        let pending ← Prog.send
          (.request (o.decisionRequest turn mode task primary (primary :: rest)))
        actOn turn mode (primary :: rest) pending
      else
        let outcome ← dispatch turn mode [] (primary :: rest)
        .ret (.inl outcome)

/-! ## `_maybe_batch_self_repair` -/

structure DispatchRecord where
  turn : ℕ
  task : ExecutionTask
  outcome : TaskExecutionOutcome

inductive SelfCheck where
  | firstTryPass
  | repairedThenPass
  | failedAfterRetry
  | skippedNonRepairable
  deriving DecidableEq

/-- The mapping that the repair pass returns. -/
abbrev Verdicts := Table String (TaskExecutionOutcome × SelfCheck)

/-- The verdict of a candidate that does not join the pass. -/
def Verdicts.screen (v : Verdicts) (c : DispatchRecord) : Verdicts :=
  if c.outcome.status = .completed then v.insert c.task.taskId (c.outcome, .firstTryPass)
  else if c.outcome.nonRepairable then
    v.insert c.task.taskId (c.outcome, .skippedNonRepairable)
  else v

def repairables (candidates : List DispatchRecord) : List DispatchRecord :=
  candidates.filter (·.outcome.repairable)

def Verdicts.giveUp (v : Verdicts) (repairable : List DispatchRecord) : Verdicts :=
  repairable.foldl (fun v c => v.insert c.task.taskId (c.outcome, .failedAfterRetry)) v

def Verdicts.giveUpWith (v : Verdicts) (repairable : List DispatchRecord)
    (written : List ExecutionResult) : Verdicts :=
  repairable.foldl (fun v c => v.insert c.task.taskId
    (⟨.failed, c.outcome.results ++ written⟩, .failedAfterRetry)) v

def readWritten : List String → P (List (String × String))
  | [] => .ret []
  | path :: rest => do
    let reply : FileReply ← Prog.send (Cmd.readText path)
    match reply with
    | .text content =>
      let files ← readWritten rest
      .ret ((path, content) :: files)
    | .osError => readWritten rest
    | .broken => raise

def ExecutionResult.evidence (r : ExecutionResult) : List String :=
  (if r.stdout ≠ "" then [s!"stdout:\n{r.stdout}"] else []) ++
  (if r.stderr ≠ "" then [s!"stderr:\n{r.stderr}"] else []) ++
  (match r.error with
    | some error => if error ≠ "" then [s!"error: {error}"] else []
    | none => [])

def failureLines (repairable : List DispatchRecord) : List String :=
  repairable.flatMap fun c =>
    let commands := ", ".intercalate c.task.commands
    s!"## {c.task.title} ({commands})" ::
      c.outcome.failedResults.flatMap ExecutionResult.evidence

def Orchestrator.repairContext (primary : ExecutionTask) (repairable : List DispatchRecord)
    (files : List (String × String)) : AgentContext :=
  let failureOutput := "\n".intercalate (failureLines repairable)
  let filesSection := "\n\n".intercalate (files.map fun (path, content) => s!"# {path}\n{content}")
  let count := repairable.length
  { sessionId := s!"{o.runId}-repair", goal := primary.description,
    userRequest := s!"The following files were written but failed validation across {count} " ++
      "task(s). Fix them so every command passes.\n\n" ++
      s!"Failure output:\n{failureOutput}\n\nCurrent file contents:\n{filesSection}" }

def repairedFiles (files : List (String × String)) (reply : List CoderFile) :
    Option (List FileEntry) :=
  (reply.filter fun f => files.any (·.1 == f.path)).mapM fun f => f.content.map (⟨f.path, ·⟩)

def Orchestrator.writeActions (primary : ExecutionTask) (entries : List FileEntry) :
    List ExecutionAction :=
  (entries.zipIdx 1).map fun (entry, index) =>
    { actionId := s!"{o.runId}-batch-repair-write-{index}", type := .createFile,
      taskId := primary.taskId, stepKey := primary.taskId, path := some entry.path,
      content := some entry.content }

/-- The verdicts of a pass and the results of the batch with those it added. -/
structure Repair where
  verdicts : Verdicts
  batchResults : List ExecutionResult

/-- The repaired tasks are validated once more. -/
def Orchestrator.revalidate (written : List ExecutionResult) :
    List DispatchRecord → Repair → P Repair
  | [], acc => .ret acc
  | c :: rest, acc => do
    let again ← dispatch c.turn mode [] (deriveActions o.py c.task)
    let check := if again.status = .completed then .repairedThenPass else .failedAfterRetry
    revalidate written rest
      { verdicts := acc.verdicts.insert c.task.taskId
          (⟨again.status, c.outcome.results ++ written ++ again.results⟩, check),
        batchResults := acc.batchResults ++ again.results }

/-- The pass from the coder's reply on; `primary` is the first candidate. -/
def Orchestrator.applyRepair (primary : DispatchRecord) (repairable : List DispatchRecord)
    (entries : List FileEntry) (acc : Repair) : P Repair := do
  match ← o.resolveTaskActions primary.turn mode none primary.task
      (o.writeActions primary.task entries) with
  | .inr _ => .ret { acc with verdicts := acc.verdicts.giveUpWith repairable [] }
  | .inl write =>
    let acc := { acc with batchResults := acc.batchResults ++ write.results }
    if write.status = .completed then o.revalidate mode write.results repairable acc
    else .ret { acc with verdicts := acc.verdicts.giveUpWith repairable write.results }

def Orchestrator.batchSelfRepair (candidates : List DispatchRecord)
    (batchResults : List ExecutionResult) : P Repair :=
  let verdicts := candidates.foldl Verdicts.screen ∅
  match repairables candidates with
  | [] => .ret ⟨verdicts, batchResults⟩
  | primary :: others => do
    let repairable := primary :: others
    let giveUp : Repair := ⟨verdicts.giveUp repairable, batchResults⟩
    let writtenPaths := Flows.sortedSet (batchResults.flatMap (·.artifacts))
    if writtenPaths = [] ∨ o.projectRoot = false then .ret giveUp
    else
      let files ← readWritten writtenPaths
      if files = [] then .ret giveUp
      else
        let reply ← orRaise
          (← Prog.send (.coder (o.repairContext primary.task repairable files)))
        let entries ← orRaise (repairedFiles files reply)
        if entries = [] then .ret giveUp
        else o.applyRepair mode primary repairable entries ⟨verdicts, batchResults⟩

/-! ## `_process_tasks` -/

/-- The final entry of a task, with the verdict of the repair pass if it has one. -/
structure TaskEntry where
  task : ExecutionTask
  outcome : TaskExecutionOutcome
  selfCheck : Option SelfCheck

def DispatchRecord.isCandidate (r : DispatchRecord) : Bool :=
  r.task.category == .validation && !r.task.commands.isEmpty

def Orchestrator.renderDispatchRecords (records : List DispatchRecord)
    (actionResults : List ExecutionResult) : P (List TaskEntry × List ExecutionResult) := do
  let candidates := records.filter (·.isCandidate)
  let repair ← if candidates = [] then .ret ⟨∅, actionResults⟩
    else o.batchSelfRepair mode candidates actionResults
  let entries := records.map fun r =>
    match repair.verdicts.lookup r.task.taskId with
    | some (outcome, check) => ⟨r.task, outcome, some check⟩
    | none => ⟨r.task, r.outcome, none⟩
  .ret (entries, repair.batchResults)

/-- What `_process_tasks` returns and leaves behind. -/
structure Batch where
  currentState : String
  paused : Bool
  entries : List TaskEntry
  actionResults : List ExecutionResult

def Orchestrator.processLoop (deniedReason : Option String) :
    List ExecutionTask → String → List DispatchRecord → List ExecutionResult → P Batch
  | [], currentState, records, actionResults => do
    let (entries, results) ← o.renderDispatchRecords mode records actionResults
    .ret ⟨currentState, false, entries, results⟩
  | task :: rest, _, records, actionResults => do
    let turn ← Prog.send .take
    match ← o.resolveTaskActions turn mode deniedReason task (deriveActions o.py task) with
    | .inr _ =>
      let (entries, results) ← o.renderDispatchRecords mode records actionResults
      .ret ⟨task.taskId, true, entries, results⟩
    | .inl outcome =>
      processLoop deniedReason rest task.taskId (records ++ [⟨turn, task, outcome⟩])
        (actionResults ++ outcome.results)

def Orchestrator.processTasks (currentState : String) (tasks : List ExecutionTask) : P Batch := do
  match tasks with
  | [] => .ret ⟨currentState, false, [], []⟩
  | _ :: _ =>
    let deniedReason ← Prog.send .provision
    o.processLoop mode deniedReason tasks currentState [] []

variable {o}

/-! ## Runs

A run is processed in batches: the first execution and every resume, each with
the tasks that are left by then and the mode it is called with.  A batch may be
cut anywhere. -/

/-- The states of a run, all commands meeting `guard`, all batches in a mode of `modes`. -/
inductive Reached (o : Orchestrator) (modes : ExecutionMode → Prop)
    (guard : Cmd → RunState → Prop) : RunState → Prop
  | start (policy : Policy) : Reached o modes guard { policy }
  | act {s : RunState} (a : Act) : Reached o modes guard s → Reached o modes guard (a.apply s)
  | batch {s s' : RunState} {p : P Batch} (mode : ExecutionMode) (currentState : String)
      (tasks : List ExecutionTask) : modes mode → Reached o modes guard s →
      Prog.Steps (Sem o (fun _ => True) guard) (o.processTasks mode currentState tasks) s p s' →
      Reached o modes guard s'

/-! ## Runs with told answers -/

/-- A runner, a coder and a project that answer as told, while nobody else acts. -/
structure Script where
  runner : ExecutionAction → ExecutionResult
  coder : List CoderFile := []
  text : String → FileReply := fun _ => .osError
  now : ℤ := 0

/-- The answers of a script, as long as the commands pass `check`. -/
def Orchestrator.answer (o : Orchestrator) (script : Script) (check : Cmd → RunState → Bool)
    (c : Cmd) (s : RunState) : Option (Reply c × RunState) :=
  if check c s then
    match c with
    | .take => some (s.turn, { s with turn := s.turn + 1 })
    | .provision => some (none, s)
    | .preview a => some (o.settings.decide s.policy a, s)
    | .evaluate _ a => some (o.settings.decide s.policy a, s)
    | .request q =>
      let d := (s.request o.settings script.now q).1
      some (d, (s.request o.settings script.now q).2.observe q.turn d)
    | .run turn mode a =>
      some (some (script.runner a), { s with log := .handed turn mode a :: s.log })
    | .readText path => some (script.text path, s)
    | .coder _ => some (some script.coder, s)
    | .raise => none
  else none

variable {check : Cmd → RunState → Bool} {guard : Cmd → RunState → Prop}

theorem sem_answer {script : Script} {allowed : Act → Prop}
    (hg : ∀ c s, check c s = true → guard c s) (c : Cmd) (s : RunState) (r : Reply c)
    (s' : RunState) (h : o.answer script check c s = some (r, s')) :
    Sem o allowed guard c s r s' := by
  unfold Orchestrator.answer at h
  split at h
  · next hc =>
    refine ⟨[], fun a ha => absurd ha List.not_mem_nil, hg c s hc, ?_⟩
    cases c <;> cases h <;> first
      | rfl
      | exact ⟨rfl, rfl⟩
      | exact ⟨script.now, rfl, rfl⟩
  · cases h

def Orchestrator.playBatch (o : Orchestrator) (script : Script) (check : Cmd → RunState → Bool)
    (mode : ExecutionMode) (tasks : List ExecutionTask) (s : RunState) : RunState :=
  (Prog.play (o.answer script check) (o.processTasks mode "starting" tasks) s).2

theorem Reached.playBatch {modes : ExecutionMode → Prop} {s : RunState}
    (h : Reached o modes guard s) (script : Script) (mode : ExecutionMode)
    (tasks : List ExecutionTask) (hg : ∀ c s, check c s = true → guard c s) (hm : modes mode) :
    Reached o modes guard (o.playBatch script check mode tasks s) :=
  .batch mode "starting" tasks hm h (Prog.steps_play (sem_answer hg) _ s)

def anyCommand : Cmd → RunState → Bool := fun _ _ => true

/-! ## A plan with a file to write and a command to validate it -/

/-- Outside production, a decision is open for an hour. -/
def demoOrchestrator : Orchestrator where
  settings := { decisionTimeout := 3600000000, fnmatch := fun target pattern => target == pattern }
  py := { lower := id, repr := fun s => s }
  runId := "run-1"

def writeTask : ExecutionTask :=
  { taskId := "coding-file-1", title := "Write app", description := "", category := .implementation,
    files := [⟨"app.py", "print(1)"⟩] }

def validateTask : ExecutionTask :=
  { taskId := "validation-1", title := "Run tests", description := "", category := .validation,
    commands := ["pytest -q"] }

def succeedingScript : Script where
  runner a :=
    { actionId := a.actionId, taskId := a.taskId, stepKey := a.stepKey, status := .succeeded }

end AutoDev.Execution
