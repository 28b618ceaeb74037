/-
# `AutoDev.Persistence.Runs` — the run store and its tenants

`create_run`, `update_run`, `get_run` and `list_run_steps` of
`backend/persistence/sqlite_adapter/runs.py`.

A run row has a tenant, its step rows have none: a reader reaches them through
the run row.  The UPDATE of `update_run` asks for the tenant; `_persist_run_steps`
behind it does not, and runs whether or not the UPDATE matched a row.  So
another tenant's call leaves the row of a run alone and rewrites its STEPS
(`steps_overwritten`), unless it happens to hand in the very steps that are
stored: `run_isolated_iff`.

A call is one transaction.  A step without one of its columns raises in the
middle of it, and the connection rolls it back.
-/
import AutoDev.Flows.Value
import AutoDev.Lib.Grouped
import AutoDev.Lib.History

namespace AutoDev.Persistence

open History List

/-! ## Rows -/

structure RunStep where
  stepKey : String
  agent : String
  status : String
  startedAt : String
  completedAt : String
  attempt : ℤ
  deriving DecidableEq

/-- A step as a caller hands it in; `none` where the column is missing, or `None`. -/
structure StepDoc where
  stepKey : Option String
  agent : Option String
  status : Option String
  startedAt : Option String
  completedAt : Option String
  attempt : Option (Option ℤ) := none
  deriving DecidableEq

structure RunRow where
  sessionId : String
  status : String
  runType : String
  currentState : String
  triggerMessage : String
  results : List Flows.Obj
  createdAt : String
  completedAt : String
  tenantId : String

structure RunStore where
  runs : Table String RunRow := ∅
  steps : Table (String × ℕ) RunStep := ∅

inductive StoreError where
  /-- `tenant_id must be a non-empty string`. -/
  | emptyTenant
  /-- The primary key of `runs`. -/
  | runExists
  /-- A column is missing, or `NOT NULL`. -/
  | badStep
  deriving DecidableEq

/-- The columns of a step; `attempt` is 1 where it is not given. -/
def StepDoc.prepare (step : StepDoc) : Option RunStep := do
  let stepKey ← step.stepKey
  let agent ← step.agent
  let status ← step.status
  let startedAt ← step.startedAt
  let completedAt ← step.completedAt
  let attempt ← step.attempt.getD (some 1)
  pure { stepKey, agent, status, startedAt, completedAt, attempt }

def prepareStepBatch (steps : List StepDoc) : Option (List RunStep) := steps.mapM StepDoc.prepare

/-! ## Statements -/

/-- `INSERT … ON CONFLICT DO UPDATE … WHERE` some column differs. -/
def upsertStep (steps : Table (String × ℕ) RunStep) (key : String × ℕ) (row : RunStep) :
    Table (String × ℕ) RunStep :=
  if steps.lookup key = some row then steps else steps.insert key row

def persistRunSteps (steps : Table (String × ℕ) RunStep) (runId : String) (rows : List RunStep) :
    Table (String × ℕ) RunStep :=
  rows.zipIdx.foldl (fun steps row => upsertStep steps (runId, row.2) row.1)
    (steps.deleteWhere fun key _ => key.1 = runId ∧ rows.length ≤ key.2)

structure CreateRun where
  runId : String
  sessionId : String
  status : String
  runType : String
  currentState : String
  triggerMessage : String
  results : List Flows.Obj
  steps : List StepDoc
  tenantId : String
  now : String

structure UpdateRun where
  runId : String
  status : String
  currentState : String
  results : List Flows.Obj
  steps : List StepDoc
  tenantId : String
  now : String

namespace RunStore

variable (s : RunStore)

def createRun (c : CreateRun) : Except StoreError RunStore :=
  match s.runs.lookup c.runId with
  | some _ => .error .runExists
  | none =>
    match prepareStepBatch c.steps with
    | none => .error .badStep
    | some rows =>
      let row : RunRow := ⟨c.sessionId, c.status, c.runType, c.currentState, c.triggerMessage,
        c.results, c.now, c.now, c.tenantId⟩
      .ok ⟨s.runs.insert c.runId row, persistRunSteps s.steps c.runId rows⟩

def updateRun (u : UpdateRun) : Except StoreError RunStore :=
  if u.tenantId = "" then .error .emptyTenant
  else
    match prepareStepBatch u.steps with
    | none => .error .badStep
    | some rows =>
      let update := fun row : RunRow =>
        if row.tenantId = u.tenantId then
          { row with
            status := u.status, currentState := u.currentState, results := u.results
            completedAt := u.now }
        else row
      .ok ⟨s.runs.modify u.runId update, persistRunSteps s.steps u.runId rows⟩

def listRunSteps (runId tenantId : String) : List RunStep :=
  match s.runs.lookup runId with
  | none => []
  | some row => if row.tenantId = tenantId then (s.steps.group runId).map (·.2) else []

def getRun (runId tenantId : String) : Except StoreError (Option (RunRow × List RunStep)) :=
  if tenantId = "" then .error .emptyTenant
  else
    match s.runs.lookup runId with
    | none => .ok none
    | some row =>
      if row.tenantId = tenantId then .ok (some (row, (s.steps.group runId).map (·.2)))
      else .ok none

def readsAbout (runId tenantId : String) :
    Except StoreError (Option (RunRow × List RunStep)) × List RunStep :=
  (s.getRun runId tenantId, s.listRunSteps runId tenantId)

end RunStore

inductive RunCall where
  | create (c : CreateRun)
  | update (u : UpdateRun)

def RunCall.tenantId : RunCall → String
  | .create c => c.tenantId
  | .update u => u.tenantId

/-- The store after a call; one that raises leaves it. -/
def RunStore.step (s : RunStore) (call : RunCall) : RunStore :=
  let result := match call with
    | .create c => s.createRun c
    | .update u => s.updateRun u
  match result with
  | .ok s' => s'
  | .error _ => s

def HandsInStored (runId : String) (s : RunStore) : RunCall → Prop
  | .create _ => True
  | .update u => u.runId = runId → u.tenantId ≠ "" → ∀ rows, prepareStepBatch u.steps = some rows →
      rows = (s.steps.group runId).map (·.2)

/-! ## What is written is read -/

theorem lookup_upsertStep (steps : Table (String × ℕ) RunStep) (key : String × ℕ) (row : RunStep)
    (key' : String × ℕ) :
    (upsertStep steps key row).lookup key' = if key' = key then some row else steps.lookup key' := by
  rw [upsertStep]
  by_cases hk : key' = key
  · subst hk
    split
    · rename_i hrow
      rw [hrow, if_pos rfl]
    · rw [AList.lookup_insert, if_pos rfl]
  · rw [if_neg hk]
    split
    · rfl
    · rw [AList.lookup_insert_ne hk]

theorem lookup_foldl_upsertStep (runId : String) : ∀ (rows : List RunStep) (n : ℕ)
    (steps : Table (String × ℕ) RunStep) (key : String × ℕ),
    ((rows.zipIdx n).foldl (fun steps row => upsertStep steps (runId, row.2) row.1) steps).lookup key
      = if key.1 = runId ∧ n ≤ key.2 ∧ key.2 < n + rows.length then rows[key.2 - n]?
        else steps.lookup key
  | [], n, steps, key => by
    rw [if_neg (fun h => absurd h.2.2 (by simpa using h.2.1))]
    rfl
  | row :: rows, n, steps, (r, p) => by
    rw [zipIdx_cons, foldl_cons, lookup_foldl_upsertStep runId rows (n + 1),
      lookup_upsertStep]
    simp only [length_cons, Prod.mk.injEq]
    by_cases hr : r = runId
    · simp only [hr, true_and]
      rcases lt_trichotomy p n with hlt | rfl | hgt
      · rw [if_neg (by omega), if_neg (by omega), if_neg (by omega)]
      · rw [if_neg (by omega), if_pos rfl, if_pos (by omega), Nat.sub_self, getElem?_cons_zero]
      · obtain ⟨k, rfl⟩ : ∃ k, p = n + 1 + k := ⟨p - (n + 1), by omega⟩
        rw [show n + 1 + k - (n + 1) = k by omega, show n + 1 + k - n = k + 1 by omega,
          getElem?_cons_succ]
        by_cases hk : k < rows.length
        · rw [if_pos (by omega), if_pos (by omega)]
        · rw [if_neg (by omega), if_neg (by omega), if_neg (by omega)]
    · simp only [hr, false_and, if_false]

theorem lookup_persistRunSteps (steps : Table (String × ℕ) RunStep) (runId : String)
    (rows : List RunStep) (r : String) (p : ℕ) :
    (persistRunSteps steps runId rows).lookup (r, p)
      = if r = runId then rows[p]? else steps.lookup (r, p) := by
  rw [persistRunSteps, lookup_foldl_upsertStep]
  by_cases hr : r = runId
  · simp only [hr, true_and, Nat.zero_le, Nat.zero_add, Nat.sub_zero, if_true]
    by_cases hp : p < rows.length
    · rw [if_pos hp]
    · rw [if_neg hp, Table.lookup_deleteWhere, getElem?_eq_none (not_lt.mp hp)]
      rw [Option.filter_eq_none_iff]
      intro row _
      simpa [hr] using hp
  · rw [if_neg (fun h => hr h.1), if_neg hr, Table.lookup_deleteWhere]
    rcases steps.lookup (r, p) with _ | row
    · rfl
    · simp [hr]

theorem group_persistRunSteps (steps : Table (String × ℕ) RunStep) (runId : String)
    (rows : List RunStep) : ((persistRunSteps steps runId rows).group runId).map (·.2) = rows := by
  have hlook : ∀ p, (persistRunSteps steps runId rows).lookup (runId, p) = rows[p]? := by
    intro p
    rw [lookup_persistRunSteps, if_pos rfl]
  rw [Table.group_eq_zipIdx hlook, map_map]
  exact zipIdx_map_fst 0 rows

theorem group_persistRunSteps_ne {steps : Table (String × ℕ) RunStep} {runId r : String}
    (rows : List RunStep) (hr : r ≠ runId) :
    (persistRunSteps steps runId rows).group r = steps.group r :=
  Table.group_congr fun p => by rw [lookup_persistRunSteps, if_neg hr]

/-! ## Another tenant's call -/

section Others

variable {s : RunStore} {runId : String} {row : RunRow} {call : RunCall}

theorem lookup_runs_step (hrow : s.runs.lookup runId = some row)
    (hother : call.tenantId ≠ row.tenantId) : (s.step call).runs.lookup runId = some row := by
  cases call with
  | create c =>
    by_cases hr : runId = c.runId
    · subst hr
      simp only [RunStore.step, RunStore.createRun, hrow]
    simp only [RunStore.step, RunStore.createRun]
    rcases s.runs.lookup c.runId with _ | _
    · rcases prepareStepBatch c.steps with _ | rows
      · exact hrow
      · simp only [AList.lookup_insert_ne hr, hrow]
    · exact hrow
  | update u =>
    simp only [RunStore.step, RunStore.updateRun]
    by_cases ht : u.tenantId = ""
    · simp only [if_pos ht, hrow]
    rw [if_neg ht]
    rcases prepareStepBatch u.steps with _ | rows
    · exact hrow
    by_cases hr : runId = u.runId
    · subst hr
      simp only [Table.modify_of_some hrow, AList.lookup_insert]
      have hne : row.tenantId ≠ u.tenantId := fun h => hother h.symm
      rw [if_neg hne]
    · simp only [Table.modify]
      rcases s.runs.lookup u.runId with _ | _
      · exact hrow
      · rw [AList.lookup_insert_ne hr, hrow]

theorem group_steps_step (hrow : s.runs.lookup runId = some row) :
    ((s.step call).steps.group runId).map (·.2) = (s.steps.group runId).map (·.2) ↔
      HandsInStored runId s call := by
  cases call with
  | create c =>
    simp only [HandsInStored, iff_true, RunStore.step, RunStore.createRun]
    by_cases hr : runId = c.runId
    · subst hr
      rw [hrow]
    rcases s.runs.lookup c.runId with _ | _
    · rcases prepareStepBatch c.steps with _ | rows
      · rfl
      · simp only [group_persistRunSteps_ne rows hr]
    · rfl
  | update u =>
    simp only [HandsInStored, RunStore.step, RunStore.updateRun]
    by_cases ht : u.tenantId = ""
    · simp [ht]
    rw [if_neg ht]
    rcases prepareStepBatch u.steps with _ | rows
    · simp
    · by_cases hr : u.runId = runId
      · subst hr
        simp [group_persistRunSteps, ht]
      · simp [group_persistRunSteps_ne rows (Ne.symm hr), hr]

theorem readsAbout_eq_iff {s' : RunStore} {r : RunRow} (h : s.runs.lookup runId = some r)
    (h' : s'.runs.lookup runId = some r) :
    s'.readsAbout runId r.tenantId = s.readsAbout runId r.tenantId ↔
      (s'.steps.group runId).map (·.2) = (s.steps.group runId).map (·.2) := by
  simp only [RunStore.readsAbout, RunStore.getRun, RunStore.listRunSteps, h, h', if_true,
    Prod.mk.injEq]
  constructor
  · exact fun h => h.2
  · intro h
    rw [h]
    exact ⟨rfl, rfl⟩

end Others

/-- What the owner of a run reads about it stays the same throughout the calls of other tenants
exactly if those that rewrite its steps hand in the stored ones; and an update by the owner is read
back step by step. -/
theorem run_isolated_iff (s : RunStore) (runId : String) (row : RunRow)
    (hrow : s.runs.lookup runId = some row) :
    (∀ calls : List RunCall, (∀ call ∈ calls, call.tenantId ≠ row.tenantId) →
      (Throughout RunStore.step
          (fun s' => s'.readsAbout runId row.tenantId = s.readsAbout runId row.tenantId) s calls ↔
        Meets RunStore.step (HandsInStored runId) s calls)) ∧
    ∀ (u : UpdateRun) (rows : List RunStep), u.runId = runId → u.tenantId = row.tenantId →
      u.tenantId ≠ "" → prepareStepBatch u.steps = some rows →
      ∃ s', s.updateRun u = .ok s' ∧ s'.listRunSteps runId row.tenantId = rows := by
  constructor
  · -- along the calls the row stays, and the reads are those of the start
    intro calls hother
    refine throughout_iff_meets (J := fun s₁ => s₁.runs.lookup runId = some row)
      (fun s₁ call hrow₁ hne _ => lookup_runs_step hrow₁ hne) (fun s₁ call hrow₁ hne hreads => ?_)
      hother hrow rfl
    rw [← hreads, readsAbout_eq_iff hrow₁ (lookup_runs_step hrow₁ hne), group_steps_step hrow₁]
  · rintro u rows rfl htenant hne hrows
    refine ⟨_, by rw [RunStore.updateRun, if_neg hne, hrows], ?_⟩
    have hmod := Table.modify_of_some hrow
    simp only [RunStore.listRunSteps, hmod, AList.lookup_insert, if_pos htenant.symm, if_true]
    exact group_persistRunSteps s.steps u.runId rows

def acmeRun : RunRow :=
  { sessionId := "s1", status := "running", runType := "existing_repo_change"
    currentState := "planning", triggerMessage := "go", results := [], createdAt := "t0"
    completedAt := "t0", tenantId := "acme" }

def plannerStep : RunStep := ⟨"plan", "planner", "completed", "t0", "t1", 1⟩

def acmeStore : RunStore :=
  { runs := (∅ : Table String RunRow).insert "r1" acmeRun
    steps := (∅ : Table (String × ℕ) RunStep).insert ("r1", 0) plannerStep }

def updateOf (tenantId : String) (steps : List StepDoc) : UpdateRun :=
  { runId := "r1", status := "completed", currentState := "done", results := [], steps, tenantId
    now := "t2" }

def plannerDoc : StepDoc := ⟨some "plan", some "planner", some "completed", some "t0", some "t1", none⟩

/-- Another tenant hands in the stored step, and nothing changes; the owner hands in two steps, and
reads two. -/
theorem run_isolated_iff_acme :
    Throughout RunStore.step
      (fun s' => s'.readsAbout "r1" "acme" = acmeStore.readsAbout "r1" "acme") acmeStore
      [.update (updateOf "globex" [plannerDoc])] ∧
    ∃ s', acmeStore.updateRun (updateOf "acme" [plannerDoc, plannerDoc]) = .ok s' ∧
      s'.listRunSteps "r1" "acme" = [plannerStep, plannerStep] := by
  have hrow : acmeStore.runs.lookup "r1" = some acmeRun := rfl
  have h := run_isolated_iff acmeStore "r1" acmeRun hrow
  refine ⟨(h.1 [.update (updateOf "globex" [plannerDoc])] ?_).mpr ?_, ?_⟩
  · intro call hcall
    rw [mem_singleton.mp hcall]
    decide
  · refine ⟨fun _ _ rows hrows => ?_, trivial⟩
    have hplan : prepareStepBatch [plannerDoc] = some [plannerStep] := by decide
    exact (Option.some.inj (hrows.symm.trans hplan)).trans (by decide)
  · exact h.2 (updateOf "acme" [plannerDoc, plannerDoc]) _ rfl rfl (by decide) (by decide)

/-- A tenant that does not own the run empties its steps. -/
theorem steps_overwritten :
    acmeStore.listRunSteps "r1" "acme" = [plannerStep] ∧
      (acmeStore.step (.update (updateOf "globex" []))).listRunSteps "r1" "acme" = [] := by
  decide

end AutoDev.Persistence
