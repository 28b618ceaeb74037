/-
# `AutoDev.Execution.Actions` — tasks, the actions derived from them, and their results

`backend/execution/contracts.py` and `derive_actions` of
`backend/execution/executor.py`.  A task of an execution plan becomes a list of
actions by its category; the runner answers each action with a result, and a
failed result may carry a kind that says whether a change of the code could
repair it.

Two functions of Python's string library are parameters: `lower` (`str.lower`)
and `repr`.
-/
import AutoDev.Flows.Graph

namespace AutoDev.Execution

/-- The parts of Python's `str` that a task's texts go through. -/
structure PyText where
  lower : String → String
  repr : String → String

inductive ExecutionActionType where
  | createFile
  | editFile
  | applyPatch
  | runCommand
  | runValidation
  deriving DecidableEq

def ExecutionActionType.value : ExecutionActionType → String
  | .createFile => "create_file"
  | .editFile => "edit_file"
  | .applyPatch => "apply_patch"
  | .runCommand => "run_command"
  | .runValidation => "run_validation"

structure ExecutionAction where
  actionId : String
  type : ExecutionActionType
  taskId : String
  stepKey : String
  path : Option String := none
  content : Option String := none
  command : Option (List String) := none
  cwd : String := "."
  stepLabel : Option String := none
  deriving DecidableEq

/-- What an action does, whatever id and label it goes under. -/
structure Work where
  type : ExecutionActionType
  path : Option String
  command : Option (List String)
  content : Option String
  deriving DecidableEq

def ExecutionAction.work (a : ExecutionAction) : Work := ⟨a.type, a.path, a.command, a.content⟩

inductive ExecutionFailureKind where
  | codeFailure
  | commandNotAllowed
  | policyDenied
  | environmentUnavailable
  | dependencyMissing
  | timeout
  | internalError
  deriving DecidableEq

inductive ActionStatus where
  | succeeded
  | failed
  deriving DecidableEq

structure ExecutionResult where
  actionId : String
  taskId : String
  stepKey : String
  status : ActionStatus
  stdout : String := ""
  stderr : String := ""
  artifacts : List String := []
  error : Option String := none
  failureKind : Option ExecutionFailureKind := none
  deriving DecidableEq

def ExecutionResult.repairableByCodeChange (r : ExecutionResult) : Bool :=
  r.failureKind == some .codeFailure

inductive TaskStatus where
  | completed
  | failed
  deriving DecidableEq

structure TaskExecutionOutcome where
  status : TaskStatus
  results : List ExecutionResult
  deriving DecidableEq

variable (o : TaskExecutionOutcome)

def TaskExecutionOutcome.failedResults : List ExecutionResult :=
  o.results.filter (·.status = .failed)

/-- The gate of the repair pass: every failure is classified, and none is one of the code. -/
def TaskExecutionOutcome.nonRepairable : Bool :=
  !o.failedResults.isEmpty && !o.failedResults.any (·.failureKind.isNone) &&
    !o.failedResults.any (·.repairableByCodeChange)

/-- The outcome joins the repair pass. -/
def TaskExecutionOutcome.repairable : Bool :=
  o.status == .failed && !o.nonRepairable

/-! ## Tasks -/

inductive TaskCategory where
  | validation
  | operations
  | implementation
  | other (category : String)
  deriving DecidableEq

structure FileEntry where
  path : String
  content : String
  deriving DecidableEq

structure ExecutionTask where
  taskId : String
  title : String
  description : String
  category : TaskCategory
  files : List FileEntry := []
  commands : List String := []
  deriving DecidableEq

/-! ## `derive_actions` -/

def validationCommands : List String := ["pytest", "ruff", "npm", "python3", "python"]

def isTokenChar (c : Char) : Bool :=
  Flows.isAsciiLetter c || Flows.isAsciiDigit c || c == '_' || c == '.' || c == '/' || c == '-'

def tokens (s : String) : List String :=
  ((s.toList.splitOnP fun c => !isTokenChar c).filter (!·.isEmpty)).map String.ofList

def extractValidationCommand (py : PyText) (description : String) : Option (List String) :=
  ((tokens (py.lower description)).find? (validationCommands.contains ·)).map ([·])

def splitCommand (command : String) : List String :=
  (Flows.splitWs command.toList).map String.ofList

def fileName (path : String) : String :=
  let segment := (path.toList.reverse.takeWhile (· ≠ '/')).reverse
  if segment.isEmpty then path else String.ofList segment

variable (task : ExecutionTask)

def ExecutionTask.label : Option String :=
  if task.title = "" then none else some task.title

def ExecutionTask.commandActions (type : ExecutionActionType) (kind : String) :
    List ExecutionAction :=
  (task.commands.zipIdx 1).map fun (command, index) =>
    { actionId := s!"{task.taskId}-{kind}-{index}", type, taskId := task.taskId,
      stepKey := task.taskId, command := some (splitCommand command), stepLabel := task.label }

def ExecutionTask.fileActions : List ExecutionAction :=
  (task.files.zipIdx 1).map fun (entry, index) =>
    { actionId := s!"{task.taskId}-write-{index}", type := .createFile, taskId := task.taskId,
      stepKey := task.taskId, path := some entry.path, content := some entry.content,
      stepLabel := some s!"Creating {fileName entry.path}" }

def deriveActions (py : PyText) (task : ExecutionTask) : List ExecutionAction :=
  match task.category with
  | .validation =>
    if task.commands ≠ [] then task.commandActions .runValidation "validate"
    else
      match extractValidationCommand py task.description with
      | none => []
      | some command =>
        [{ actionId := s!"{task.taskId}-validate", type := .runValidation,
           taskId := task.taskId, stepKey := task.taskId, command := some command,
           stepLabel := task.label }]
  | .operations =>
    if task.commands ≠ [] then task.commandActions .runCommand "run" else []
  | .implementation =>
    if task.files ≠ [] then task.fileActions
    else
      [{ actionId := s!"{task.taskId}-note", type := .createFile, taskId := task.taskId,
         stepKey := task.taskId, path := some s!".autodev/execution-notes/{task.taskId}.md",
         content := some s!"# {task.title}\n\n{task.description}\n", stepLabel := task.label }]
  | .other _ => []

end AutoDev.Execution
