/-
# `AutoDev.Execution.Containment` — what an action can reach

A file action writes where its path leads, and the guard looked at where it
leads before: `Path.resolve` gives a REAL path, and a real path leads to itself,
also after the directories on the way have been made.

A process is started for the command that is left when one `cd` prefix is
stripped (`StripsTo`), if its base name is allowed, in a directory that was
looked at in the same way.  Docker, however, gets the directory inside the text of
an option whose parts are separated by commas, and nothing keeps a comma out of a
directory's name (`starts_in_etc`).

What docker makes of an option is not in the source.  Of its documentation only
this is used (`ReadsMount`): the fields of `--mount` are separated by commas, and
a source without a separator or a quote is read as it stands (`MountText`).
-/
import AutoDev.Execution.Runner

namespace AutoDev.Sandbox

open Prog FileTree List

/-! ## Containment -/

/-- One leading `cd dir &&` or `cd dir;` is removed, in any of its tokenisations, or nothing. -/
inductive StripsTo : List String → List String → Prop
  | whole {command : List String} : StripsTo command command
  | glued {dir sep : String} {command : List String} : sep ∈ cdChainSeparators →
      StripsTo ("cd" :: (dir ++ sep) :: command) command
  | apart {dir sep : String} {command : List String} : sep ∈ cdChainSeparators →
      StripsTo ("cd" :: dir :: sep :: command) command

variable (runner : CompositeActionRunner) (host : Host) (action : RunnerAction)

def Host.Inside (t : FileTree) (root : PurePath) (place : List String) : Prop :=
  ∃ resolved, t.RealPath host.cwd root resolved ∧ resolved <+: place

structure Permitted (t : FileTree) (process : Process) : Prop where
  stripped : StripsTo (action.command.getD []) process.argv
  allowed : ∃ program ∈ process.argv.head?, baseName program ∈ runner.sandbox.allowed
  directory : t.node process.dir = some .dir
  inside : host.Inside t runner.sandbox.policy.projectRoot process.dir

/-- Between two states of the world only files in the project root were written, and only permitted
processes started. -/
structure Contained (w w' : World) : Prop where
  files : ∃ new, w'.written = w.written ++ new ∧
    ∀ place ∈ new, host.Inside w.tree runner.patchRunner.projectRoot place
  processes : ∃ new, w'.started = w.started ++ new ∧
    ∀ process ∈ new, Permitted runner host action w.tree process

/-- Docker gets the action's process, in this directory. -/
structure Dockered (t : FileTree) (workspace : List String) : Prop where
  command : action.type = .runCommand ∨ action.type = .runValidation
  enabled : runner.sandbox.policy.enabled = true
  docker : host.dockerOnPath = true
  admitted : runner.sandbox.Admits (stripCdPrefix action.job).command
  resolved : ∃ candidate ∈
      host.candidate runner.sandbox.policy.projectRoot (stripCdPrefix action.job).cwd,
    t.RealPath host.cwd candidate workspace
  guarded : RelativeTo workspace runner.sandbox.policy.projectRoot
  directory : t.node workspace = some .dir

/-- Nothing in the text separates or quotes fields. -/
def MountText (text : String) : Prop :=
  ∀ c ∈ text.toList, c ≠ ',' ∧ c ≠ '"' ∧ c ≠ '\n' ∧ c ≠ '\r'

instance : DecidablePred MountText := fun text => decidableBAll _ text.toList

/-- The options that bind a directory, or say where the process works. -/
def mountFlags : List String := ["--mount", "--volume", "-v", "--workdir", "-w"]

def MountsOrMoves (option : String) : Prop := ∃ flag ∈ mountFlags, flag.toList <+: option.toList

instance : DecidablePred MountsOrMoves := fun _ => inferInstanceAs (Decidable (∃ flag ∈ _, _))

/-- Docker reads the source of a bind mount as it stands, if it and the target are texts for it;
the process works there if nothing else is bound and its directory is the target. -/
def Host.ReadsMount : Prop :=
  ∀ options source target, (∀ option ∈ options, ¬ MountsOrMoves option) →
    MountText source → MountText target →
    host.binds (options ++ ["--mount", "type=bind,source=" ++ source ++ ",target=" ++ target ++
      ",readonly", "--workdir=" ++ target]) = some source

/-- If docker gets the action's process, there is a program in it, and docker reads a directory of
the project root from its options. -/
def BindsInside (t : FileTree) : Prop :=
  ∀ workspace dir, Dockered runner host action t workspace →
    host.Binds t (dockerOptions runner.sandbox.policy (stripCdPrefix action.job) workspace) dir →
    (stripCdPrefix action.job).command ≠ [] ∧ runner.sandbox.policy.projectRoot.parts <+: dir

variable {runner host action} {w w' : World}

/-! ## Stripping -/

theorem chop?_eq_some {text sep path : String} (h : chop? text sep = some path) :
    text = path ++ sep := by
  unfold chop? at h
  split at h
  · next hsuffix =>
      cases h
      obtain ⟨front, hfront⟩ := hsuffix
      refine String.toList_injective ?_
      simp [← hfront]
  · cases h

theorem chained?_stripsTo {cdPath path : String} {rest command : List String}
    (h : chained? cdPath rest = some (path, command)) :
    StripsTo ("cd" :: cdPath :: rest) command := by
  unfold chained? at h
  split at h
  · next path' rest' hchop =>
      cases h
      obtain ⟨sep, hsep, hpath⟩ := exists_of_findSome?_eq_some hchop
      rw [chop?_eq_some hpath]
      exact .glued hsep
  · split at h
    · next hsep =>
        cases h
        exact .apart hsep
    · cases h
  · cases h

theorem stripCdPrefix_stripsTo (job : ValidationJob) :
    StripsTo job.command (stripCdPrefix job).command := by
  unfold stripCdPrefix
  split
  · next cd cdPath rest hcommand =>
      split
      · exact .whole
      next hcd =>
      obtain rfl := not_not.mp hcd
      split
      · exact .whole
      next path command hchained =>
        split
        · exact .whole
        · rw [hcommand]
          exact chained?_stripsTo hchained
  · exact .whole

/-! ## Directories and files -/

theorem Contained.refl (w : World) : Contained runner host action w w :=
  ⟨⟨[], by simp, by simp⟩, ⟨[], by simp, by simp⟩⟩

/-- On the way to writing `target` only directories were made. -/
structure Making (target : List String) (w w' : World) : Prop where
  grown : Grown target w.tree w'.tree
  written : w'.written = w.written
  started : w'.started = w.started

theorem Making.refl (target : List String) (w : World) : Making target w w :=
  ⟨.refl target w.tree, rfl, rfl⟩

variable {target workspace : List String} {α : Type} {w₁ : World} {patch : Patch}
    {policy : SandboxPolicy} {cwd : String}

theorem Making.contained (h : Making target w w') : Contained runner host action w w' :=
  ⟨⟨[], by simp [h.written], by simp⟩, ⟨[], by simp [h.started], by simp⟩⟩

/-- Every run of the program, cut anywhere, is contained. -/
abbrev Contains (runner : CompositeActionRunner) (host : Host) (action : RunnerAction) (w : World)
    {α : Type} (Q : α → World → Prop) (p : RunnerProg α) (w' : World) : Prop :=
  wp (RunnerEffect host) (Contained runner host action w) Q p w'

/-- The program keeps to what the action may do, to its end. -/
abbrev Keeps (runner : CompositeActionRunner) (host : Host) (action : RunnerAction) (w : World)
    {α : Type} (p : RunnerProg α) : Prop :=
  Contains runner host action w (fun _ w₂ => Contained runner host action w w₂) p w

variable {Q : α → World → Prop} {place : List String}

theorem contains_issue (c : RunnerCmd) {f : RunnerReply c → RunnerProg α}
    (h : ∀ r w₂, RunnerEffect host c w₁ r w₂ → Contained runner host action w w₂ ∧
      Contains runner host action w Q (f r) w₂) :
    Contains runner host action w Q (issue c >>= f) w₁ := h

theorem contains_orIsDir {path : List String} (h : Making target w w₁) (e : Raised) :
    Contains runner host action w (fun _ w₂ => Making target w w₂) (orIsDir path e) w₁ := by
  cases e with
  | osError message =>
    refine contains_issue (.isDir path) fun isDir w₂ hsem => ?_
    obtain ⟨-, rfl⟩ := hsem
    refine ⟨h.contained, ?_⟩
    split
    · exact h
    · exact h
  | fileNotFound _ | valueError _ | other _ => exact h

theorem contains_mkdir {path : List String} {f : RunnerReply (.mkdir path) → RunnerProg α}
    (h : Making target w w₁)
    (hf : ∀ r w₂, Making target w w₂ → Contains runner host action w Q (f r) w₂) :
    Contains runner host action w Q (issue (.mkdir path) >>= f) w₁ := by
  refine contains_issue (.mkdir path) fun made w₂ hsem => ?_
  have h₂ : Making target w w₂ := by
    rcases hsem with ⟨-, parent, place, name, hdir, hold, hname, -, -, -, rfl⟩ | ⟨-, rfl⟩
    · exact ⟨h.grown.put hdir hold hname (.inl rfl), h.written, h.started⟩
    · exact h
  exact ⟨h₂.contained, hf made w₂ h₂⟩

theorem contains_mkdirParents : ∀ {names : List String} {w₁ : World},
    Making target w w₁ →
    Contains runner host action w (fun _ w₂ => Making target w w₂) (mkdirParents names) w₁
  | [], w₁, h => by
    refine contains_mkdir h fun made w₂ h₂ => ?_
    split
    · exact h₂
    · exact contains_orIsDir h₂ _
  | name :: parents, w₁, h => by
    refine contains_mkdir h fun made w₂ h₂ => ?_
    split
    · exact h₂
    · refine wp_bind.mpr (wp_post (contains_mkdirParents h₂) fun above w₃ h₃ => ?_)
      split
      · exact h₃
      · refine contains_mkdir h₃ fun again w₄ h₄ => ?_
        split
        · exact h₄
        · exact contains_orIsDir h₄ _
    · exact contains_orIsDir h₂ _

theorem WroteFile.contained {text : String} {w₂ : World} (h : Making target w w₁)
    (hreal : Real w.tree target) (hin : host.Inside w.tree runner.patchRunner.projectRoot target)
    (hwrote : WroteFile target text w₁ w₂) : Contained runner host action w w₂ := by
  obtain ⟨place, name, hdir, hold, -, hwalk, rfl⟩ := hwrote
  have hplace : place ++ [name] = target := (hreal.grown h.grown).leads_only hwalk
  refine ⟨⟨[target], by rw [hplace, h.written], fun p hp => ?_⟩, ⟨[], by simp [h.started], by simp⟩⟩
  rw [mem_singleton.mp hp]
  exact hin

theorem contains_writePatch (hreal : Real w.tree target)
    (hin : host.Inside w.tree runner.patchRunner.projectRoot target) :
    Keeps runner host action w (writePatch patch target) := by
  refine wp_bind.mpr (wp_post (contains_mkdirParents (.refl target w)) fun made w₁ h₁ => ?_)
  split
  · exact h₁.contained
  refine contains_issue (.writeText target patch.updated) fun written w₂ hsem => ?_
  have h₂ : Contained runner host action w w₂ := by
    rcases hsem with ⟨-, hwrote⟩ | ⟨-, rfl | ⟨text, hwrote⟩⟩
    · exact hwrote.contained h₁ hreal hin
    · exact h₁.contained
    · exact hwrote.contained h₁ hreal hin
  refine ⟨h₂, ?_⟩
  split
  · exact h₂
  · exact h₂

theorem contains_look (c : RunnerCmd) {f : RunnerReply c → RunnerProg α}
    (hc : ∀ r w', RunnerEffect host c w r w' → w' = w)
    (h : ∀ r, RunnerEffect host c w r w → Contains runner host action w Q (f r) w) :
    Contains runner host action w Q (issue c >>= f) w := by
  refine contains_issue c fun r w₂ hsem => ?_
  obtain rfl := hc r w₂ hsem
  exact ⟨.refl w₂, h r hsem⟩

theorem contains_resolve {strict : Bool} {path : PurePath}
    {f : RunnerReply (.resolve strict path) → RunnerProg α}
    (h : ∀ r : Except Raised (List String), (∀ place, r = .ok place →
      w.tree.RealPath host.cwd path place) → Contains runner host action w Q (f r) w) :
    Contains runner host action w Q (issue (.resolve strict path) >>= f) w :=
  contains_look _ (fun _ _ hsem => hsem.2) fun r hsem => h r hsem.1

theorem contains_applyPatch {enable : Option Bool} :
    Keeps runner host action w (applyPatch host patch runner.patchRunner.projectRoot enable) := by
  refine contains_resolve fun resolved hroot => ?_
  split
  · exact .refl w
  next root =>
  refine contains_resolve fun found htarget => ?_
  split
  · exact .refl w
  next target =>
  split
  · exact .refl w
  next hinside =>
  split
  · exact contains_writePatch (htarget target rfl).real ⟨root, hroot root rfl, not_not.mp hinside⟩
  · exact .refl w

theorem contains_apply : Keeps runner host action w (runner.patchRunner.apply host action patch) :=
  wp_bind.mpr (wp_post contains_applyPatch fun _ _ h => h)

theorem contains_readOriginal :
    Contains runner host action w (fun _ w₂ => w₂ = w) (readOriginal target) w := by
  refine contains_look (.pathExists target) (fun _ _ hsem => hsem) fun there _ => ?_
  split
  · rfl
  · rfl
  · intro text w₂ hsem
    obtain rfl : w₂ = w := hsem
    exact ⟨.refl w₂, rfl⟩

theorem contains_runFileAction :
    Keeps runner host action w (runner.patchRunner.runFileAction host action) := by
  unfold PatchRunner.runFileAction
  split
  · exact .refl w
  refine contains_resolve fun resolved _ => ?_
  split
  · exact .refl w
  refine contains_resolve fun found _ => ?_
  split
  · exact .refl w
  split
  · exact .refl w
  refine wp_bind.mpr (wp_post contains_readOriginal ?_)
  rintro original _ rfl
  split
  · exact .refl _
  · exact .refl _
  · exact .refl _
  · exact contains_apply

theorem contains_runPatchAction :
    Keeps runner host action w (runner.patchRunner.runPatchAction host action) := by
  unfold PatchRunner.runPatchAction
  split
  · exact .refl w
  · exact contains_apply

/-! ## Processes -/

theorem inside_of_relativeTo {t : FileTree} {root : PurePath} (hanchor : root.anchor = .slash)
    (hreal : Real t workspace) (hroot : root.parts <+: workspace) (hplace : root.parts <+: place) :
    host.Inside t root place := by
  refine ⟨root.parts, ?_, hplace⟩
  have hfrom : root.fromRoot host.cwd = root.parts := by rw [PurePath.fromRoot, hanchor]
  rw [RealPath, hfrom]
  exact (hreal.of_prefix hroot).leads

structure Workspace (host : Host) (policy : SandboxPolicy) (cwd : String) (t : FileTree)
    (workspace : List String) : Prop where
  resolved : ∃ candidate ∈ host.candidate policy.projectRoot cwd,
    t.RealPath host.cwd candidate workspace
  guarded : RelativeTo workspace policy.projectRoot
  directory : t.node workspace = some .dir

theorem Workspace.real {t : FileTree} (h : Workspace host policy cwd t workspace) :
    Real t workspace := by
  obtain ⟨candidate, -, hpath⟩ := h.resolved
  exact hpath.real

theorem contains_resolveWorkspace :
    Contains runner host action w
      (fun r w₂ => w₂ = w ∧ ∀ workspace, r = .ok workspace →
        Workspace host policy cwd w.tree workspace)
      (resolveWorkspace host policy cwd) w := by
  have hno : ∀ e : NoWorkspace, w = w ∧ ∀ workspace, Except.error e = .ok workspace →
      Workspace host policy cwd w.tree workspace := fun _ => ⟨rfl, nofun⟩
  unfold resolveWorkspace
  split
  · exact hno _
  next candidate hcandidate =>
  refine contains_resolve fun found hpath => ?_
  split
  · exact hno _
  · exact hno _
  · exact hno _
  next resolved =>
  split
  · exact hno _
  next hguard =>
  refine contains_look (.isDir resolved) (fun _ _ hsem => hsem.2) fun isDir hsem => ?_
  have hreal := (hpath resolved rfl).real
  split
  · next htrue =>
      obtain ⟨place, hwalk, hdir⟩ := hsem.1 htrue
      obtain rfl : place = resolved := hreal.leads_only hwalk
      refine ⟨rfl, fun workspace heq => ?_⟩
      cases heq
      exact ⟨⟨candidate, hcandidate, hpath _ rfl⟩, not_not.mp hguard, hdir⟩
  · exact hno _

theorem Permitted.contained {process : Process} (h : Permitted runner host action w.tree process) :
    Contained runner host action w { w with started := w.started ++ [process] } :=
  ⟨⟨[], by simp, by simp⟩, [process], rfl, by simpa using h⟩

theorem allowed_of_admits {command : List String} (hallowed : runner.sandbox.allowed ≠ [])
    (h : runner.sandbox.Admits command) (hne : command ≠ []) :
    ∃ program ∈ command.head?, baseName program ∈ runner.sandbox.allowed := by
  obtain ⟨program, args, rfl⟩ := exists_cons_of_ne_nil hne
  exact ⟨program, rfl, h hallowed⟩

section

variable (hallowed : runner.sandbox.allowed ≠ []) (hcommand : action.type = .runCommand ∨ action.type = .runValidation)

include hallowed hcommand

theorem contains_start (henabled : runner.sandbox.policy.enabled = true)
    (hadmits : runner.sandbox.Admits (stripCdPrefix action.job).command)
    (hbinds : BindsInside runner host action w.tree)
    (hwork : Workspace host runner.sandbox.policy (stripCdPrefix action.job).cwd w.tree workspace) :
    Keeps runner host action w
      (runner.sandbox.start host (stripCdPrefix action.job) workspace) := by
  have hpermitted : ∀ dir, (stripCdPrefix action.job).command ≠ [] →
      runner.sandbox.policy.projectRoot.parts <+: dir → w.tree.node dir = some .dir →
      Permitted runner host action w.tree ⟨(stripCdPrefix action.job).command, dir⟩ :=
    fun dir hne hin hdir => ⟨stripCdPrefix_stripsTo action.job,
      allowed_of_admits hallowed hadmits hne, hdir,
      inside_of_relativeTo hwork.guarded.1 hwork.real hwork.guarded.2 hin⟩
  unfold SandboxRunner.start
  split
  · next hdocker =>
      refine contains_issue (.docker _ _ _) fun reply w₂ hsem => ?_
      have h₂ : Contained runner host action w w₂ := by
        rcases hsem with ⟨place, hbound, rfl⟩ | rfl
        · obtain ⟨hne, hin⟩ := hbinds workspace place
            ⟨hcommand, henabled, hdocker, hadmits, hwork.resolved, hwork.guarded, hwork.directory⟩
            hbound
          obtain ⟨source, -, -, hdir⟩ := hbound
          exact (hpermitted place hne hin hdir).contained
        · exact .refl _
      exact ⟨h₂, h₂⟩
  split
  · refine contains_issue (.spawn _ _) fun reply w₂ hsem => ?_
    have h₂ : Contained runner host action w w₂ := by
      rcases hsem with ⟨hne, place, hwalk, hdir, rfl⟩ | rfl
      · obtain rfl : place = workspace := hwork.real.leads_only hwalk
        exact (hpermitted place hne hwork.guarded.2 hdir).contained
      · exact .refl _
    exact ⟨h₂, h₂⟩
  · exact .refl w

theorem contains_runViaSandbox (hbinds : BindsInside runner host action w.tree) :
    Keeps runner host action w (runViaSandbox host action runner.sandbox) := by
  have hrun : Keeps runner host action w (runner.sandbox.execute host action.job) := by
    unfold SandboxRunner.execute
    split
    · exact .refl w
    next henabled =>
    unfold SandboxRunner.screen
    split
    · exact .refl w
    next hadmits =>
    refine wp_bind.mpr (wp_post contains_resolveWorkspace ?_)
    rintro found _ ⟨rfl, hwork⟩
    split
    · exact .refl _
    · exact .refl _
    · next workspace =>
        exact contains_start hallowed hcommand (by simpa using henabled) (not_not.mp hadmits) hbinds
          (hwork workspace rfl)
  refine wp_bind.mpr (wp_post hrun fun result w₂ h₂ => ?_)
  split
  · exact h₂
  · exact h₂

end

theorem contains_run (hallowed : runner.sandbox.allowed ≠ [])
    (hbinds : BindsInside runner host action w.tree) :
    Keeps runner host action w (runner.run host action) := by
  unfold CompositeActionRunner.run
  split
  · exact contains_runFileAction
  · exact contains_runFileAction
  · exact contains_runPatchAction
  · next htype => exact contains_runViaSandbox hallowed (.inl htype) hbinds
  · next htype => exact contains_runViaSandbox hallowed (.inr htype) hbinds

/-! ## The condition is needed -/

theorem exec_resolveWorkspace (h : Workspace host policy cwd w.tree workspace) :
    Exec (RunnerEffect host) (resolveWorkspace host policy cwd) w (.ok workspace) w := by
  obtain ⟨candidate, hcandidate, hpath⟩ := h.resolved
  rw [resolveWorkspace, Option.mem_def.mp hcandidate]
  refine .op (r := Except.ok workspace) ⟨fun place heq => ?_, rfl⟩ ?_
  · cases heq
    exact hpath
  dsimp only [Prog.bind]
  rw [if_neg (not_not.mpr h.guarded)]
  exact .op (r := true)
    ⟨fun _ => ⟨workspace, h.real.leads, h.directory⟩, rfl⟩ .ret

theorem exec_docker {dir : List String} (h : Dockered runner host action w.tree workspace)
    (hbound : host.Binds w.tree
      (dockerOptions runner.sandbox.policy (stripCdPrefix action.job) workspace) dir) :
    ∃ outcome, Exec (RunnerEffect host) (runner.run host action) w outcome
      { w with started := w.started ++ [⟨(stripCdPrefix action.job).command, dir⟩] } := by
  have hrun : runner.run host action = runViaSandbox host action runner.sandbox := by
    rcases h.command with htype | htype
    · simp only [CompositeActionRunner.run, htype]
    · simp only [CompositeActionRunner.run, htype]
  have hexecute : runner.sandbox.execute host action.job =
      runner.sandbox.screen host (stripCdPrefix action.job) := by
    simp only [SandboxRunner.execute, h.enabled, Bool.not_true, Bool.false_eq_true, if_false]
  have hstart : ∀ job, runner.sandbox.start host job workspace =
      runDocker runner.sandbox.policy job workspace := fun job => if_pos h.docker
  have hadmit : Exec (RunnerEffect host) (runner.sandbox.screen host (stripCdPrefix action.job)) w
      (processResult runner.sandbox.policy (stripCdPrefix action.job) "docker" .timeoutExpired)
      { w with started := w.started ++ [⟨(stripCdPrefix action.job).command, dir⟩] } := by
    rw [SandboxRunner.screen, if_neg (not_not.mpr h.admitted)]
    refine (exec_resolveWorkspace ⟨h.resolved, h.guarded, h.directory⟩).bind ?_
    dsimp only
    rw [hstart]
    exact .op (.inl ⟨dir, hbound, rfl⟩) .ret
  rw [hrun, runViaSandbox, hexecute]
  exact ⟨_, hadmit.bind .ret⟩

/-! ## What docker reads -/

theorem not_mountsOrMoves_append {option : String} (h : ∀ flag ∈ mountFlags,
    ¬ flag.toList <+: option.toList ∧ ¬ option.toList <+: flag.toList) (value : String) :
    ¬ MountsOrMoves (option ++ value) := by
  rintro ⟨flag, hflag, hprefix⟩
  rw [String.toList_append] at hprefix
  rcases prefix_or_prefix_of_prefix hprefix (prefix_append _ _) with h' | h'
  · exact (h flag hflag).1 h'
  · exact (h flag hflag).2 h'

theorem binds_dockerOptions (hreads : host.ReadsMount) (policy : SandboxPolicy)
    (job : ValidationJob) {workspace : List String}
    (htext : MountText (PurePath.absolute workspace).text) :
    host.binds (dockerOptions policy job workspace) =
      some (PurePath.absolute workspace).text := by
  have hmount : mountOption workspace = "type=bind,source=" ++ (PurePath.absolute workspace).text ++
      ",target=" ++ "/workspace" ++ ",readonly" := by
    have htarget : ",target=/workspace,readonly" = ",target=" ++ ("/workspace" ++ ",readonly") := by
      decide
    rw [String.append_assoc, String.append_assoc, ← htarget]
    rfl
  rw [dockerOptions, hmount]
  refine hreads _ _ "/workspace" (forall_mem_append.mpr ⟨?_, ?_⟩) htext (by decide)
  · simp only [forall_mem_cons]
    refine ⟨by decide, not_mountsOrMoves_append (by decide) _, ?_⟩
    decide
  · intro option hmem
    obtain ⟨e, -, rfl⟩ := mem_map.mp hmem
    rw [String.append_assoc, String.append_assoc]
    exact not_mountsOrMoves_append (by decide) _

theorem Dockered.binds_iff (h : Dockered runner host action w.tree workspace)
    (hreads : host.ReadsMount) (htext : MountText (PurePath.absolute workspace).text)
    {dir : List String} :
    host.Binds w.tree
      (dockerOptions runner.sandbox.policy (stripCdPrefix action.job) workspace) dir ↔
      dir = workspace := by
  obtain ⟨candidate, -, hpath⟩ := h.resolved
  have hparse : PurePath.parse (PurePath.absolute workspace).text = .absolute workspace :=
    PurePath.parse_text (isName_of_node (t := w.tree) (by simp [h.directory]))
  unfold Host.Binds
  rw [binds_dockerOptions hreads _ _ htext]
  simp only [Option.mem_def, Option.some.injEq, exists_eq_left', hparse]
  constructor
  · rintro ⟨hdir, -⟩
    exact hpath.real.leads_only hdir
  · rintro rfl
    exact ⟨hpath.real.leads, h.directory⟩

/-- Where docker reads its options as documented and gets only directories whose texts it can read,
an action of the composite runner, carried out up to any point, stays in the project root exactly
if docker gets a program with every process. -/
theorem contained_iff (runner : CompositeActionRunner) (host : Host) (action : RunnerAction)
    (w : World) (hallowed : runner.sandbox.allowed ≠ []) (hreads : host.ReadsMount)
    (htext : ∀ workspace, Dockered runner host action w.tree workspace →
      MountText (PurePath.absolute workspace).text) :
    (∀ p w', Steps (RunnerEffect host) (runner.run host action) w p w' →
      Contained runner host action w w') ↔
    ∀ workspace, Dockered runner host action w.tree workspace →
      (stripCdPrefix action.job).command ≠ [] := by
  constructor
  · intro h workspace hdocker hnil
    obtain ⟨outcome, hexec⟩ := exec_docker hdocker
      ((hdocker.binds_iff hreads (htext workspace hdocker)).mpr rfl)
    obtain ⟨-, new, hnew, hall⟩ := h _ _ hexec.steps
    have hprocess := hall _ (append_cancel_left hnew ▸ mem_singleton_self _)
    obtain ⟨program, hprogram, -⟩ := hprocess.allowed
    simp [hnil] at hprogram
  · intro hcommand p w' hsteps
    have hbinds : BindsInside runner host action w.tree := by
      intro workspace dir hdocker hbound
      obtain rfl := (hdocker.binds_iff hreads (htext workspace hdocker)).mp hbound
      exact ⟨hcommand dir hdocker, hdocker.guarded.2⟩
    exact (hsteps.of_wp (.refl w) (contains_run hallowed hbinds)).1

/-! ## Two directories of a project -/

def lastSource (value : String) : Option String :=
  (((value.toList.splitOn ',').filter fun field => "source=".toList <+: field).map fun field =>
    String.ofList (field.drop 7)).getLast?

def dockerHost : Host where
  cwd := ["srv"]
  home _ := none
  dockerOnPath := true
  binds options := ((options.dropWhile (· ≠ "--mount")).drop 1).head?.bind lastSource
  enablePatchApply := false
  py := ⟨id, id⟩

theorem readsMount_dockerHost : dockerHost.ReadsMount := by
  intro options source target hoptions hsource htarget
  have hskip : ∀ option ∈ options, decide (option ≠ "--mount") = true := by
    intro option hmem
    refine decide_eq_true fun heq => hoptions option hmem ⟨"--mount", by decide, ?_⟩
    rw [heq]
  have hfields : ("type=bind,source=" ++ source ++ ",target=" ++ target ++ ",readonly").toList =
      [','].intercalate ["type=bind".toList, "source=".toList ++ source.toList,
        "target=".toList ++ target.toList, "readonly".toList] := by
    simp
  have hcomma : ∀ field ∈ ["type=bind".toList, "source=".toList ++ source.toList,
      "target=".toList ++ target.toList, "readonly".toList], ',' ∉ field := by
    simpa using ⟨fun h => (hsource ',' h).1 rfl, fun h => (htarget ',' h).1 rfl⟩
  have hlast : lastSource ("type=bind,source=" ++ source ++ ",target=" ++ target ++ ",readonly") =
      some source := by
    rw [lastSource, hfields, splitOn_intercalate ',' hcomma (by simp)]
    simp
  unfold dockerHost
  dsimp only
  rw [dropWhile_append_of_pos hskip]
  exact hlast

def srvRunner : CompositeActionRunner where
  patchRunner := ⟨.parse "/srv", some true⟩
  sandbox := { policy := ⟨true, false, "none", .parse "/srv", 60⟩ }

def pytestIn (cwd : String) : RunnerAction where
  actionId := "a1"
  type := .runCommand
  taskId := "t1"
  stepKey := "k1"
  command := some ["pytest"]
  cwd := cwd

def dirsOnly (dirs : List (List String)) (hroot : [] ∈ dirs)
    (hparent : ∀ d ∈ dirs, d.dropLast ∈ dirs) (hnamed : ∀ d ∈ dirs, ∀ n ∈ d, PurePath.IsName n) :
    FileTree where
  node place := if place ∈ dirs then some .dir else none
  root := if_pos hroot
  parent place name h := by
    by_cases hmem : place ++ [name] ∈ dirs
    · have := hparent _ hmem
      rw [dropLast_concat] at this
      exact if_pos this
    · exact absurd (if_neg hmem) h
  named place name h := by
    by_cases hmem : place ++ [name] ∈ dirs
    · exact hnamed _ hmem name (by simp)
    · exact absurd (if_neg hmem) h

def srvWorld : World where
  tree := dirsOnly [[], ["etc"], ["srv"], ["srv", "tests"], ["srv", "x,source="],
    ["srv", "x,source=", "etc"]] (by decide) (by decide) (by decide)

theorem real_srv (h : ".." ∉ place) : Real srvWorld.tree place := by
  refine ⟨h, fun q _ target hlink => ?_⟩
  simp only [srvWorld, dirsOnly] at hlink
  split at hlink
  · cases hlink
  · cases hlink

/-- In a directory of the project whose name has a comma, `pytest` starts in `/etc`. -/
theorem starts_in_etc : dockerHost.ReadsMount ∧
    ¬ ∀ p w', Steps (RunnerEffect dockerHost) (srvRunner.run dockerHost (pytestIn "x,source=/etc"))
        srvWorld p w' → Contained srvRunner dockerHost (pytestIn "x,source=/etc") srvWorld w' := by
  refine ⟨readsMount_dockerHost, fun h => ?_⟩
  have hdocker : Dockered srvRunner dockerHost (pytestIn "x,source=/etc") srvWorld.tree
      ["srv", "x,source=", "etc"] :=
    ⟨.inl rfl, rfl, rfl, by decide +kernel, ⟨_, rfl, (real_srv (by decide)).leads⟩,
      ⟨by decide +kernel, by decide +kernel⟩, by decide +kernel⟩
  have hbound : dockerHost.Binds srvWorld.tree (dockerOptions srvRunner.sandbox.policy
      (stripCdPrefix (pytestIn "x,source=/etc").job) ["srv", "x,source=", "etc"]) ["etc"] :=
    ⟨"/etc", by decide +kernel, (real_srv (by decide)).leads, by decide +kernel⟩
  obtain ⟨outcome, hexec⟩ := exec_docker hdocker hbound
  obtain ⟨-, new, hnew, hall⟩ := h _ _ hexec.steps
  have hprocess := hall _ (append_cancel_left hnew ▸ mem_singleton_self _)
  obtain ⟨root, hroot, hin⟩ := hprocess.inside
  have hsrv : root = ["srv"] := (real_srv (by decide +kernel)).leads_only hroot
  rw [hsrv] at hin
  exact absurd hin (by decide)

theorem contained_iff_tests : dockerHost.ReadsMount ∧
    ∀ p w', Steps (RunnerEffect dockerHost) (srvRunner.run dockerHost (pytestIn "tests"))
      srvWorld p w' → Contained srvRunner dockerHost (pytestIn "tests") srvWorld w' := by
  refine ⟨readsMount_dockerHost, (contained_iff srvRunner dockerHost (pytestIn "tests") srvWorld
    (by decide) readsMount_dockerHost fun workspace hdocker => ?_).mpr fun _ _ => by decide +kernel⟩
  obtain ⟨candidate, hcandidate, hpath⟩ := hdocker.resolved
  have hval : dockerHost.candidate srvRunner.sandbox.policy.projectRoot
      (stripCdPrefix (pytestIn "tests").job).cwd = some (.absolute ["srv", "tests"]) := by
    decide +kernel
  obtain rfl := Option.some.inj (hcandidate.symm.trans hval)
  obtain rfl : workspace = ["srv", "tests"] := (real_srv (by decide)).leads_only hpath
  decide +kernel

end AutoDev.Sandbox
