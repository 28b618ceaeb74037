/-
# `AutoDev.Execution.Runner` — how an action is carried out

`CompositeActionRunner` of `backend/execution/runner.py` with no environment
bound: file and patch actions go through `apply_patch` of
`backend/patches/engine.py`, commands and validations through the
`SandboxRunner` of `backend/validation/sandbox.py`.

What they issue to the operating system is a list of commands (`RunnerCmd`);
where a path LEADS is for the operating system to say, at every command anew
(`RunnerEffect`), and any command may fail at any time.  What docker reads from
its options is a parameter (`Host.binds`).

The diff of a patch and the time stamps of a result are left out.
-/
import AutoDev.Lib.FileTree
import AutoDev.Lib.Prog
import AutoDev.Execution.Actions

namespace AutoDev.Sandbox

open Prog FileTree
open Execution (PyText ExecutionAction ExecutionActionType ExecutionFailureKind ExecutionResult)

/-! ## The operating system -/

/-- What is raised: an `OSError` — for want of something, or else —, a `ValueError`, or another. -/
inductive Raised where
  | fileNotFound (message : String)
  | osError (message : String)
  | valueError (message : String)
  | other (message : String)
  deriving DecidableEq

inductive ProcessReply where
  | completed (returncode : ℤ) (stdout stderr : String)
  | timeoutExpired
  | raised (error : Raised)
  deriving DecidableEq

/-- What the runners issue.  Files and directories are named by the components of their absolute
path. -/
inductive RunnerCmd where
  | resolve (strict : Bool) (path : PurePath)
  | pathExists (path : List String)
  | isDir (path : List String)
  | readText (path : List String)
  /-- `os.mkdir`. -/
  | mkdir (path : List String)
  | writeText (path : List String) (text : String)
  /-- `subprocess.run(argv, cwd=dir)`. -/
  | spawn (argv : List String) (dir : List String)
  /-- `subprocess.run(["docker", "run", *options, image, *argv])`. -/
  | docker (options : List String) (image : String) (argv : List String)

def RunnerReply : RunnerCmd → Type
  | .resolve _ _ => Except Raised (List String)
  | .pathExists _ => Except Raised Bool
  | .isDir _ => Bool
  | .readText _ => Except Raised String
  | .mkdir _ => Except Raised Unit
  | .writeText _ _ => Except Raised Unit
  | .spawn _ _ => ProcessReply
  | .docker _ _ _ => ProcessReply

/-- A process and the real path of the directory it was started in. -/
structure Process where
  argv : List String
  dir : List String
  deriving DecidableEq

/-- The files, the places where one was created or overwritten, and the processes that were started
for actions. -/
structure World where
  tree : FileTree
  written : List (List String) := []
  started : List Process := []

/-- What does not change: the directory the service works in, the home directories, whether
`docker` is on the PATH, the directory that docker binds at `/workspace` given its options, and
whether `AUTODEV_ENABLE_PATCH_APPLY` is `1`. -/
structure Host where
  cwd : List String
  home : String → Option String
  dockerOnPath : Bool
  binds : List String → Option String
  enablePatchApply : Bool
  py : PyText

/-- Docker, given these options, binds the directory `dir`. -/
def Host.Binds (host : Host) (t : FileTree) (options : List String) (dir : List String) : Prop :=
  ∃ source ∈ host.binds options, t.RealPath [] (.parse source) dir ∧ t.node dir = some .dir

def MadeDir (path : List String) (w w' : World) : Prop :=
  ∃ parent place name hdir hold hname, path = parent ++ [name] ∧ Walk w.tree [] parent place ∧
    w.tree.node (place ++ [name]) = none ∧
    w' = { w with tree := w.tree.put place name .dir hdir hold hname }

def WroteFile (path : List String) (text : String) (w w' : World) : Prop :=
  ∃ place name hdir hold hname, Walk w.tree [] path (place ++ [name]) ∧
    w' = { w with
      tree := w.tree.put place name (.file text) hdir hold hname
      written := w.written ++ [place ++ [name]] }

def RunnerEffect (host : Host) : (c : RunnerCmd) → World → RunnerReply c → World → Prop
  | .resolve _ path, w, r, w' =>
    (∀ place, r = .ok place → w.tree.RealPath host.cwd path place) ∧ w' = w
  | .pathExists _, w, _, w' => w' = w
  | .isDir path, w, r, w' =>
    (r = true → ∃ place, Walk w.tree [] path place ∧ w.tree.node place = some .dir) ∧ w' = w
  | .readText _, w, _, w' => w' = w
  | .mkdir path, w, r, w' => r = .ok () ∧ MadeDir path w w' ∨ (∃ e, r = .error e) ∧ w' = w
  | .writeText path text, w, r, w' =>
    r = .ok () ∧ WroteFile path text w w' ∨
    -- a write may fail when the file is open already
    (∃ e, r = .error e) ∧ (w' = w ∨ ∃ written, WroteFile path written w w')
  | .spawn argv dir, w, _, w' =>
    -- without a program nothing can be started
    (argv ≠ [] ∧ ∃ place, Walk w.tree [] dir place ∧ w.tree.node place = some .dir ∧
      w' = { w with started := w.started ++ [⟨argv, place⟩] }) ∨ w' = w
  | .docker options _ argv, w, _, w' =>
    (∃ place, host.Binds w.tree options place ∧
      w' = { w with started := w.started ++ [⟨argv, place⟩] }) ∨ w' = w

abbrev RunnerProg := Prog RunnerCmd RunnerReply

def issue (c : RunnerCmd) : RunnerProg (RunnerReply c) := send c

/-! ## Patches -/

/-- `Patch`, without its diff. -/
structure Patch where
  path : String
  original : String
  updated : String
  deriving DecidableEq

structure PatchResult where
  path : String
  applied : Bool
  dryRun : Bool
  message : String
  deriving DecidableEq

structure RunnerAction extends ExecutionAction where
  patch : Option Patch := none
  deriving DecidableEq

def generatePatch (path original updated : String) : Patch := ⟨path, original, updated⟩

def orIsDir (path : List String) : Raised → RunnerProg (Except Raised Unit)
  | .osError message => do
    let isDir : Bool ← issue (.isDir path)
    if isDir then pure (.ok ()) else pure (.error (.osError message))
  | e => pure (.error e)

/-- `Path.mkdir(parents=True, exist_ok=True)`; the names are those of the path, the last first. -/
def mkdirParents : List String → RunnerProg (Except Raised Unit)
  | [] => do
    let made : Except Raised Unit ← issue (.mkdir [])
    match made with
    | .ok () => pure (.ok ())
    | .error e => orIsDir [] e
  | name :: parents => do
    let path := (name :: parents).reverse
    let made : Except Raised Unit ← issue (.mkdir path)
    match made with
    | .ok () => pure (.ok ())
    | .error (.fileNotFound _) =>
      match ← mkdirParents parents with
      | .error e => pure (.error e)
      | .ok () =>
        let again : Except Raised Unit ← issue (.mkdir path)
        match again with
        | .ok () => pure (.ok ())
        | .error e => orIsDir path e
    | .error e => orIsDir path e

def writePatch (patch : Patch) (target : List String) :
    RunnerProg (Except Raised PatchResult) := do
  match ← mkdirParents target.dropLast.reverse with
  | .error e => pure (.error e)
  | .ok () =>
    let written : Except Raised Unit ← issue (.writeText target patch.updated)
    match written with
    | .error e => pure (.error e)
    | .ok () =>
      let path := (PurePath.absolute target).text
      pure (.ok ⟨patch.path, true, false, s!"Patch applied to {path}."⟩)

def dryRunMessage : String :=
  "Dry-run: patch not written (set enable=True or AUTODEV_ENABLE_PATCH_APPLY=1)."

def applyPatch (host : Host) (patch : Patch) (root : PurePath) (enable : Option Bool) :
    RunnerProg (Except Raised PatchResult) := do
  let resolved : Except Raised (List String) ← issue (.resolve false root)
  match resolved with
  | .error e => pure (.error e)
  | .ok resolvedRoot =>
    let found : Except Raised (List String) ←
      issue (.resolve false ((PurePath.absolute resolvedRoot).join (.parse patch.path)))
    match found with
    | .error e => pure (.error e)
    | .ok target =>
      if ¬ resolvedRoot <+: target then
        let path := host.py.repr patch.path
        let root := host.py.repr root.text
        pure (.error (.valueError
          s!"Path traversal rejected: {path} resolves outside root {root}."))
      else if enable.getD host.enablePatchApply then writePatch patch target
      else pure (.ok ⟨patch.path, false, true, dryRunMessage⟩)

structure PatchRunner where
  projectRoot : PurePath
  enableWrites : Option Bool := none

variable (runner : PatchRunner) (host : Host) (action : RunnerAction)

def failed (error : String) : ExecutionResult where
  actionId := action.actionId
  taskId := action.taskId
  stepKey := action.stepKey
  status := .failed
  error := some error

def patchOutcome : Except Raised PatchResult → Except Raised ExecutionResult
  | .error (.valueError message) => .ok (failed action message)
  | .error e => .error e
  | .ok result => .ok
      { actionId := action.actionId, taskId := action.taskId, stepKey := action.stepKey
        status := .succeeded, stdout := result.message
        artifacts := if result.applied then [result.path] else [] }

def PatchRunner.apply (patch : Patch) : RunnerProg (Except Raised ExecutionResult) := do
  let outcome ← applyPatch host patch runner.projectRoot runner.enableWrites
  pure (patchOutcome action outcome)

def readOriginal (target : List String) : RunnerProg (Except Raised String) := do
  let there : Except Raised Bool ← issue (.pathExists target)
  match there with
  | .error e => pure (.error e)
  | .ok false => pure (.ok "")
  | .ok true => issue (.readText target)

def PatchRunner.editFile (path : String) (target : List String) :
    RunnerProg (Except Raised ExecutionResult) := do
  match ← readOriginal target with
  | .error (.fileNotFound message) => pure (.ok (failed action message))
  | .error (.osError message) => pure (.ok (failed action message))
  | .error e => pure (.error e)
  | .ok original => runner.apply host action (generatePatch path original (action.content.getD ""))

def PatchRunner.runFileAction : RunnerProg (Except Raised ExecutionResult) := do
  match action.path with
  | none => pure (.error (.other "AssertionError"))
  | some path =>
    let resolved : Except Raised (List String) ← issue (.resolve false runner.projectRoot)
    match resolved with
    | .error e => pure (.error e)
    | .ok resolvedRoot =>
      let found : Except Raised (List String) ←
        issue (.resolve false ((PurePath.absolute resolvedRoot).join (.parse path)))
      match found with
      | .error e => pure (.error e)
      | .ok target =>
        if ¬ resolvedRoot <+: target then
          let path := host.py.repr path
          pure (.ok (failed action
            s!"Path traversal rejected: {path} resolves outside root."))
        else runner.editFile host action path target

def PatchRunner.runPatchAction : RunnerProg (Except Raised ExecutionResult) :=
  match action.patch with
  | none => pure (.error (.other "AssertionError"))
  | some patch => runner.apply host action patch

/-! ## The sandbox -/

structure SandboxPolicy where
  enabled : Bool
  allowLocal : Bool
  dockerNetwork : String
  projectRoot : PurePath
  timeoutSeconds : ℤ
  deriving DecidableEq

def defaultAllowed : List String := ["pytest", "ruff", "npm", "python", "python3"]

structure SandboxRunner where
  allowed : List String := defaultAllowed
  policy : SandboxPolicy
  deriving DecidableEq

structure ValidationJob where
  jobId : String
  command : List String
  cwd : String := "."
  extraEnv : List (String × String) := []
  deriving DecidableEq

structure ValidationResult where
  jobId : String
  returncode : ℤ
  stdout : String := ""
  stderr : String := ""
  backend : String
  skipped : Bool
  failureKind : Option ExecutionFailureKind := none
  deriving DecidableEq

def cdChainSeparators : List String := ["&&", ";"]

/-- The text without a separator at its end, if it ends with it. -/
def chop? (text sep : String) : Option String :=
  if sep.toList <:+ text.toList then
    some (.ofList (text.toList.take (text.toList.length - sep.toList.length)))
  else none

def chained? (cdPath : String) (rest : List String) : Option (String × List String) :=
  match cdChainSeparators.findSome? (chop? cdPath), rest with
  | some path, rest => some (path, rest)
  | none, sep :: command => if sep ∈ cdChainSeparators then some (cdPath, command) else none
  | none, [] => none

def stripCdPrefix (job : ValidationJob) : ValidationJob :=
  match job.command with
  | cd :: cdPath :: rest =>
    if cd ≠ "cd" then job
    else
      match chained? cdPath rest with
      | none => job
      | some (path, command) =>
        if path = "" ∨ command = [] then job else { job with command := command, cwd := path }
  | _ => job

def baseName (text : String) : String := .ofList ((text.toList.splitOn '/').getLastD [])

def exeName (command : List String) : String := (command.head?.map baseName).getD ""

/-- `Path.expanduser`; `none` raises. -/
def Host.expanduser (host : Host) (path : PurePath) : Option PurePath :=
  match path.anchor, path.parts with
  | .relative, name :: rest =>
    if ['~'] <+: name.toList then
      (host.home name).map fun home =>
        ⟨(PurePath.parse home).anchor, (PurePath.parse home).parts ++ rest⟩
    else some path
  | _, _ => some path

/-- What a working directory is looked up as. -/
def Host.candidate (host : Host) (root : PurePath) (cwd : String) : Option PurePath :=
  (host.expanduser (.parse cwd)).map root.join

def RelativeTo (resolved : List String) (root : PurePath) : Prop :=
  root.anchor = .slash ∧ root.parts <+: resolved

instance (resolved : List String) (root : PurePath) : Decidable (RelativeTo resolved root) :=
  inferInstanceAs (Decidable (_ ∧ _))

/-- Why a job has no directory: the policy denies it, or something else is raised. -/
inductive NoWorkspace where
  | denied (message : String)
  | raised (error : Raised)
  deriving DecidableEq

def resolveWorkspace (host : Host) (policy : SandboxPolicy) (cwd : String) :
    RunnerProg (Except NoWorkspace (List String)) := do
  match host.candidate policy.projectRoot cwd with
  | none => pure (.error (.raised (.other "Could not determine home directory.")))
  | some candidate =>
    let found : Except Raised (List String) ← issue (.resolve true candidate)
    match found with
    | .error (.fileNotFound _) => pure (.error (.denied "validation cwd does not exist"))
    | .error (.osError _) => pure (.error (.denied "validation cwd does not exist"))
    | .error e => pure (.error (.raised e))
    | .ok resolved =>
      if ¬ RelativeTo resolved policy.projectRoot then
        pure (.error (.denied "validation cwd is outside AUTODEV_PROJECT_ROOT"))
      else
        let isDir : Bool ← issue (.isDir resolved)
        if isDir then pure (.ok resolved)
        else pure (.error (.denied "validation cwd must be a directory"))

def dockerImage : String := "python:3.11-slim"

def mountOption (workspace : List String) : String :=
  let source := (PurePath.absolute workspace).text
  s!"type=bind,source={source},target=/workspace,readonly"

section

variable (policy : SandboxPolicy) (job : ValidationJob) (workspace : List String)

def dockerOptions : List String :=
  ["--rm", "--network=" ++ policy.dockerNetwork, "--user=65534:65534", "--cap-drop=ALL",
    "--security-opt=no-new-privileges", "--pids-limit=256", "--memory=512m", "--cpus=1",
    "--read-only", "--tmpfs=/tmp:rw,noexec,nosuid,size=256m", "--env", "HOME=/tmp", "--env",
    "PYTHONDONTWRITEBYTECODE=1"] ++
  job.extraEnv.map (fun e => "--env=" ++ e.1 ++ "=" ++ e.2) ++
  ["--mount", mountOption workspace, "--workdir=/workspace"]

def processResult (backend : String) : ProcessReply → Except Raised ValidationResult
  | .raised e => .error e
  | .timeoutExpired =>
    let seconds := policy.timeoutSeconds
    .ok { jobId := job.jobId, returncode := 124, backend := backend, skipped := false
          stderr := s!"validation timed out after {seconds}s", failureKind := some .timeout }
  | .completed returncode stdout stderr => .ok
      { jobId := job.jobId, returncode := returncode, stdout := stdout, stderr := stderr
        backend := backend, skipped := false
        failureKind := if returncode ≠ 0 then some .codeFailure else none }

def runDocker : RunnerProg (Except Raised ValidationResult) := do
  let reply : ProcessReply ←
    issue (.docker (dockerOptions policy job workspace) dockerImage job.command)
  pure (processResult policy job "docker" reply)

def runLocal : RunnerProg (Except Raised ValidationResult) := do
  let reply : ProcessReply ← issue (.spawn job.command workspace)
  pure (processResult policy job "local" reply)

def skippedResult (backend stderr : String) (kind : ExecutionFailureKind) : ValidationResult where
  jobId := job.jobId
  returncode := 1
  stderr := stderr
  backend := backend
  skipped := true
  failureKind := some kind

end

def unavailableMessage : String :=
  "Docker is not available and unsandboxed local execution is disabled. " ++
  "Install Docker or set AUTODEV_SANDBOX_ALLOW_LOCAL=1 " ++
  "to run commands directly on the host (unsafe)."

section

variable (runner : SandboxRunner) (host : Host) (job : ValidationJob)

/-- The job passes the allowlist; an empty one lets everything pass. -/
def SandboxRunner.Admits (command : List String) : Prop :=
  runner.allowed ≠ [] → exeName command ∈ runner.allowed

instance (runner : SandboxRunner) (command : List String) : Decidable (runner.Admits command) :=
  inferInstanceAs (Decidable (_ → _))

/-- `_execute` from the directory on. -/
def SandboxRunner.start (workspace : List String) : RunnerProg (Except Raised ValidationResult) :=
  if host.dockerOnPath then runDocker runner.policy job workspace
  else if runner.policy.allowLocal then runLocal runner.policy job workspace
  else pure (.ok (skippedResult job "unavailable" unavailableMessage .environmentUnavailable))

/-- `_execute` of a job whose `cd` prefix is stripped. -/
def SandboxRunner.screen : RunnerProg (Except Raised ValidationResult) := do
  if ¬ runner.Admits job.command then
    let exe := exeName job.command
    pure (.ok (skippedResult job "blocked" s!"Command '{exe}' is not in the allowed list."
      .commandNotAllowed))
  else
    match ← resolveWorkspace host runner.policy job.cwd with
    | .error (.denied message) => pure (.ok (skippedResult job "blocked" message .policyDenied))
    | .error (.raised e) => pure (.error e)
    | .ok workspace => runner.start host job workspace

/-- `_execute`; `run` adds a trace. -/
def SandboxRunner.execute : RunnerProg (Except Raised ValidationResult) :=
  if !runner.policy.enabled then
    pure (.ok { jobId := job.jobId, returncode := 0, backend := "disabled", skipped := true })
  else runner.screen host (stripCdPrefix job)

end

def RunnerAction.job (action : RunnerAction) : ValidationJob where
  jobId := action.actionId
  command := action.command.getD []
  cwd := action.cwd

def sandboxOutcome (action : RunnerAction) (result : ValidationResult) : ExecutionResult :=
  if result.returncode = 0 then
    { actionId := action.actionId, taskId := action.taskId, stepKey := action.stepKey
      status := .succeeded, stdout := result.stdout, stderr := result.stderr }
  else
    { actionId := action.actionId, taskId := action.taskId, stepKey := action.stepKey
      status := .failed, stdout := result.stdout, stderr := result.stderr
      error := some result.stderr
      failureKind := some (result.failureKind.getD .codeFailure) }

def runViaSandbox (host : Host) (action : RunnerAction) (runner : SandboxRunner) :
    RunnerProg (Except Raised ExecutionResult) := do
  match ← runner.execute host action.job with
  | .error e => pure (.error e)
  | .ok result => pure (.ok (sandboxOutcome action result))

/-! ## The composite -/

structure CompositeActionRunner where
  patchRunner : PatchRunner
  sandbox : SandboxRunner

def CompositeActionRunner.run (runner : CompositeActionRunner) (host : Host)
    (action : RunnerAction) : RunnerProg (Except Raised ExecutionResult) :=
  match action.type with
  | .createFile | .editFile => runner.patchRunner.runFileAction host action
  | .applyPatch => runner.patchRunner.runPatchAction host action
  | .runCommand | .runValidation => runViaSandbox host action runner.sandbox

end AutoDev.Sandbox
