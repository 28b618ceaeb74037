/-
# `AutoDev.Execution.Policy` — the policy of a tenant and the decisions of a run

`PolicyService._decide` of `backend/execution/policy.py` and the
`DecisionService` of `backend/execution/decisions.py`.

The policy answers with three values: allowed, denied by a rule, or not covered
by any rule.  A decision is a row of `pending_action_decisions` that a human
resolves; it is looked up by run and task, so the rows of one run are a
function of the task.  The row records the id of ONE action, the first of the
list it was requested for.  The list itself is not recorded by the source; it is
kept here as `listed`, which no modelled function reads.

Times are microseconds: `isoformat` in UTC keeps their order, since a text
without a fraction sorts before the same second with one.
-/
import Mathlib.Logic.Function.Basic
import AutoDev.Execution.Actions

namespace AutoDev.Execution

open List Function

/-! ## Rules -/

inductive PolicyCategory where
  | shell
  | fsWrite
  | patch
  | network
  | secretsRead
  | validation
  deriving DecidableEq

def PolicyCategory.value : PolicyCategory → String
  | .shell => "shell"
  | .fsWrite => "fs-write"
  | .patch => "patch"
  | .network => "network"
  | .secretsRead => "secrets-read"
  | .validation => "validation"

def PolicyCategory.all : List PolicyCategory :=
  [.shell, .fsWrite, .patch, .network, .secretsRead, .validation]

def ExecutionActionType.category : ExecutionActionType → PolicyCategory
  | .createFile | .editFile => .fsWrite
  | .applyPatch => .patch
  | .runCommand => .shell
  | .runValidation => .validation

inductive PolicyEffect where
  | allow
  | deny
  deriving DecidableEq

def PolicyEffect.value : PolicyEffect → String
  | .allow => "allow"
  | .deny => "deny"

/-- `PolicyRule`, without its scope, which `_decide` does not read. -/
structure PolicyRule where
  category : PolicyCategory
  effect : PolicyEffect
  pattern : Option String := none
  deriving DecidableEq

structure PolicyDecision where
  allowed : Bool
  matched : Bool
  reason : String
  deriving DecidableEq

/-- The stored rules of the tenant and its dynamic permissions. -/
structure Policy where
  rules : List PolicyRule := []
  dynamic : List PolicyRule := []
  deriving DecidableEq

/-- What the two services take from the settings, and `fnmatch.fnmatch`. -/
structure Settings where
  production : Bool := false
  decisionTimeout : ℤ
  fnmatch : String → String → Bool

def localDefaultRules : List PolicyRule :=
  PolicyCategory.all.map fun category => ⟨category, .allow, none⟩

variable (cfg : Settings) (p : Policy) (a : ExecutionAction)

def Settings.resolveRules : Option (List PolicyRule) :=
  if p.rules ≠ [] then some p.rules
  else if cfg.production then none
  else some localDefaultRules

def matchTarget : String :=
  match a.command with
  | some (token :: _) => token
  | _ => a.path.getD ""

def Settings.covers (rule : PolicyRule) : Bool :=
  rule.category == a.type.category && rule.pattern.all (cfg.fnmatch (matchTarget a))

/-- A rule counts one more for its pattern. -/
def PolicyRule.score (base : ℕ) (rule : PolicyRule) : ℕ :=
  base + if rule.pattern.isSome then 1 else 0

/-- The rule that decides: of the highest score, a deny before the first allow. -/
def decidingRule (scored : List (ℕ × PolicyRule)) : Option PolicyRule :=
  let topScore := (scored.map Prod.fst).foldl max 0
  let top := (scored.filter (·.1 = topScore)).map Prod.snd
  (top.find? (·.effect = .deny)).or top.head?

/-- `_decide`, without the category it also returns; `none` is a `PolicyMissingError`. -/
def Settings.decide : Option PolicyDecision :=
  (cfg.resolveRules p).map fun rules =>
    let scored := (p.dynamic.filter (cfg.covers a)).map (fun r => (r.score 2, r)) ++
      (rules.filter (cfg.covers a)).map (fun r => (r.score 0, r))
    match decidingRule scored with
    | none => ⟨false, false, "no matching policy rule"⟩
    | some rule =>
      ⟨rule.effect = .allow, true, s!"{rule.effect.value} rule for {a.type.category.value}"⟩

theorem Settings.decide_eq_none {cfg : Settings} {p : Policy} {a : ExecutionAction} :
    cfg.decide p a = none ↔ cfg.resolveRules p = none :=
  Option.map_eq_none_iff

/-- No rule covers the action. -/
def Settings.Uncovered : Prop :=
  ∃ d ∈ cfg.decide p a, d.matched = false

def Settings.Denied : Prop :=
  ∃ d ∈ cfg.decide p a, d.matched = true ∧ d.allowed = false

/-- The policy lets the action through. -/
def Settings.Allowed : Prop :=
  ∃ d ∈ cfg.decide p a, d.allowed = true

instance (cfg : Settings) (p : Policy) (a : ExecutionAction) : Decidable (cfg.Uncovered p a) :=
  inferInstanceAs (Decidable (∃ d ∈ cfg.decide p a, d.matched = false))

instance (cfg : Settings) (p : Policy) (a : ExecutionAction) : Decidable (cfg.Denied p a) :=
  inferInstanceAs (Decidable (∃ d ∈ cfg.decide p a, d.matched = true ∧ d.allowed = false))

instance (cfg : Settings) (p : Policy) (a : ExecutionAction) : Decidable (cfg.Allowed p a) :=
  inferInstanceAs (Decidable (∃ d ∈ cfg.decide p a, d.allowed = true))

/-! ## The state of a run -/

inductive ExecutionMode where
  | auto
  | approval
  | hybrid
  deriving DecidableEq

inductive DecisionStatus where
  | pending
  | approved
  | denied
  | timedOut
  deriving DecidableEq

structure PendingDecision where
  actionId : String
  category : PolicyCategory
  prompt : String
  pattern : String
  status : DecisionStatus
  expiresAt : ℤ
  decidedBy : Option String := none
  listed : List ExecutionAction
  deriving DecidableEq

/-- What is observed of a run: a timed-out decision read while a task is processed, and an action
handed to the runner.  Tasks are told apart by the turn in which they were taken up. -/
inductive Entry where
  | observedTimeout (turn : ℕ)
  | handed (turn : ℕ) (mode : ExecutionMode) (action : ExecutionAction)
  deriving DecidableEq

/-- The tenant's policy, the decisions of the run, and its log, newest entry first.  `vouched` has
the list of every decision that a human resolved to APPROVED. -/
structure RunState where
  policy : Policy := {}
  decisions : String → Option PendingDecision := fun _ => none
  turn : ℕ := 0
  vouched : List (List ExecutionAction) := []
  log : List Entry := []

/-! ## `DecisionService` -/

/-- One row under a sweep. -/
def PendingDecision.expire (cutoff : ℤ) (d : PendingDecision) : PendingDecision :=
  if d.status = .pending ∧ d.expiresAt ≤ cutoff then
    { d with status := .timedOut, decidedBy := some "system:timeout" }
  else d

def RunState.expireDue (cutoff : ℤ) (s : RunState) : RunState :=
  { s with decisions := fun task => (s.decisions task).map (·.expire cutoff) }

/-- `resolve`, of the decision of a task; where it raises, the state stays. -/
def RunState.resolve (taskId : String) (approve : Bool) (actor : String) (now : ℤ) (s : RunState) :
    RunState :=
  match s.decisions taskId with
  | none => s
  | some d =>
    if d.status ≠ .pending then s
    else if d.expiresAt ≤ now then s.expireDue now
    else
      { s with
        decisions := update s.decisions taskId (some
          { d with status := if approve then .approved else .denied, decidedBy := some actor })
        vouched := if approve then d.listed :: s.vouched else s.vouched }

structure DecisionRequest where
  turn : ℕ
  mode : ExecutionMode
  taskId : String
  action : ExecutionAction
  category : PolicyCategory
  prompt : String
  pattern : String
  listed : List ExecutionAction

def RunState.request (cfg : Settings) (now : ℤ) (q : DecisionRequest) (s : RunState) :
    PendingDecision × RunState :=
  match s.decisions q.taskId with
  | some d =>
    if d.status = .pending ∧ d.expiresAt ≤ now then (d.expire now, s.expireDue now) else (d, s)
  | none =>
    let d : PendingDecision :=
      { actionId := q.action.actionId, category := q.category, prompt := q.prompt,
        pattern := q.pattern, status := .pending, expiresAt := now + cfg.decisionTimeout,
        listed := q.listed }
    (d, { s with decisions := update s.decisions q.taskId (some d) })

/-- What the humans, the sweep and the administrators do while a run goes on. -/
inductive Act where
  | resolve (taskId : String) (approve : Bool) (actor : String) (now : ℤ)
  | expireDue (cutoff : ℤ)
  | amend (policy : Policy)

def Act.apply (s : RunState) : Act → RunState
  | .resolve taskId approve actor now => s.resolve taskId approve actor now
  | .expireDue cutoff => s.expireDue cutoff
  | .amend policy => { s with policy }

def Act.OfDecisions : Act → Prop
  | .amend _ => False
  | _ => True

/-! ## What acts can do to a decision

Everything below follows from this: a row that is no longer pending stays as it
is, and a pending one only gets its verdict. -/

/-- A row and what became of it. -/
structure PendingDecision.Follows (d d' : PendingDecision) : Prop where
  actionId : d'.actionId = d.actionId
  listed : d'.listed = d.listed
  settled : d.status ≠ .pending → d'.status = d.status

namespace PendingDecision.Follows

theorem refl (d : PendingDecision) : d.Follows d := ⟨rfl, rfl, fun _ => rfl⟩

theorem trans {d₁ d₂ d₃ : PendingDecision} (h₁ : d₁.Follows d₂) (h₂ : d₂.Follows d₃) :
    d₁.Follows d₃ where
  actionId := h₂.actionId.trans h₁.actionId
  listed := h₂.listed.trans h₁.listed
  settled hn := by
    have h := h₁.settled hn
    exact (h₂.settled (h ▸ hn)).trans h

theorem expire (cutoff : ℤ) (d : PendingDecision) : d.Follows (d.expire cutoff) := by
  unfold PendingDecision.expire
  split
  · next h => exact ⟨rfl, rfl, fun hn => absurd h.1 hn⟩
  · exact refl d

theorem of_approved {d d' : PendingDecision} (h : d.Follows d') (ha : d'.status = .approved) :
    d.status = .approved ∨ d.status = .pending := by
  by_cases hp : d.status = .pending
  · exact .inr hp
  · exact .inl ((h.settled hp).symm.trans ha)

end PendingDecision.Follows

def RunState.Sound (s : RunState) : Prop :=
  ∀ task d, s.decisions task = some d → d.status = .approved → d.listed ∈ s.vouched

/-- How a state goes on while no program acts on it. -/
structure RunState.Onward (s s' : RunState) : Prop where
  row : ∀ task d, s.decisions task = some d → ∃ d', s'.decisions task = some d' ∧ d.Follows d'
  none : ∀ task, s.decisions task = none → s'.decisions task = none
  vouched : s.vouched ⊆ s'.vouched
  log : s'.log = s.log
  turn : s'.turn = s.turn
  sound : s.Sound → s'.Sound

namespace RunState.Onward

theorem refl (s : RunState) : s.Onward s where
  row _ d h := ⟨d, h, .refl d⟩
  none _ h := h
  vouched := List.Subset.refl _
  log := rfl
  turn := rfl
  sound := id

theorem trans {s₁ s₂ s₃ : RunState} (h₁ : s₁.Onward s₂) (h₂ : s₂.Onward s₃) : s₁.Onward s₃ where
  row task d h := by
    obtain ⟨d', h', hf⟩ := h₁.row task d h
    obtain ⟨d'', h'', hf'⟩ := h₂.row task d' h'
    exact ⟨d'', h'', hf.trans hf'⟩
  none task h := h₂.none task (h₁.none task h)
  vouched := List.Subset.trans h₁.vouched h₂.vouched
  log := h₂.log.trans h₁.log
  turn := h₂.turn.trans h₁.turn
  sound := h₂.sound ∘ h₁.sound

theorem row_before {s s' : RunState} (h : s.Onward s') {task : String} {d' : PendingDecision}
    (hd' : s'.decisions task = some d') : ∃ d, s.decisions task = some d ∧ d.Follows d' := by
  cases hd : s.decisions task with
  | none => rw [h.none task hd] at hd'; cases hd'
  | some d =>
    obtain ⟨d'', h'', hf⟩ := h.row task d hd
    obtain rfl : d'' = d' := Option.some.inj (h''.symm.trans hd')
    exact ⟨d, rfl, hf⟩

theorem expireDue (cutoff : ℤ) (s : RunState) : s.Onward (s.expireDue cutoff) where
  row task d h := ⟨d.expire cutoff, by simp [RunState.expireDue, h], .expire cutoff d⟩
  none task h := by simp [RunState.expireDue, h]
  vouched := List.Subset.refl _
  log := rfl
  turn := rfl
  sound hs task d' h ha := by
    obtain ⟨d, hd, rfl⟩ : ∃ d, s.decisions task = some d ∧ d.expire cutoff = d' := by
      simpa [RunState.expireDue] using h
    -- a sweep makes no row approved
    have hd' : d.expire cutoff = d := by
      unfold PendingDecision.expire at ha ⊢
      split at ha
      · cases ha
      · next hn => exact if_neg hn
    rw [hd'] at ha ⊢
    exact hs task d hd ha

theorem resolve (taskId : String) (approve : Bool) (actor : String) (now : ℤ) (s : RunState) :
    s.Onward (s.resolve taskId approve actor now) := by
  unfold RunState.resolve
  split
  · exact refl s
  next d hd =>
  by_cases hp : d.status ≠ .pending
  · rw [if_pos hp]
    exact refl s
  by_cases hdue : d.expiresAt ≤ now
  · rw [if_neg hp, if_pos hdue]
    exact .expireDue now s
  rw [if_neg hp, if_neg hdue]
  rw [not_not] at hp
  constructor
  case row =>
    intro task e he
    by_cases ht : task = taskId
    · subst ht
      obtain rfl : d = e := Option.some.inj (hd.symm.trans he)
      exact ⟨_, update_self .., ⟨rfl, rfl, fun hn => absurd hp hn⟩⟩
    · exact ⟨e, by simpa [update_of_ne ht] using he, .refl e⟩
  case none =>
    intro task he
    have ht : task ≠ taskId := fun h => by rw [h, hd] at he; cases he
    simpa [update_of_ne ht] using he
  case vouched =>
    show s.vouched ⊆ if approve then d.listed :: s.vouched else s.vouched
    split
    · exact subset_cons_self ..
    · exact List.Subset.refl _
  case log => rfl
  case turn => rfl
  case sound =>
    intro hs task e he ha
    show e.listed ∈ if approve then d.listed :: s.vouched else s.vouched
    by_cases ht : task = taskId
    · subst ht
      obtain rfl : _ = e := by simpa using he
      cases approve with
      | true => exact mem_cons_self ..
      | false => cases ha
    · have hv := hs task e (by simpa [update_of_ne ht] using he) ha
      split
      · exact mem_cons_of_mem _ hv
      · exact hv

theorem act (s : RunState) : ∀ a : Act, s.Onward (a.apply s)
  | .resolve taskId approve actor now => .resolve taskId approve actor now s
  | .expireDue cutoff => .expireDue cutoff s
  | .amend _ => { refl s with }

theorem acts (s : RunState) : ∀ as : List Act, s.Onward (as.foldl Act.apply s)
  | [] => refl s
  | a :: as => (act s a).trans (acts (a.apply s) as)

end RunState.Onward

/-! ## What `request` does -/

section Request

variable (cfg : Settings) (now : ℤ) (q : DecisionRequest) (s : RunState)

theorem request_approved (h : (s.request cfg now q).1.status = .approved) :
    s.decisions q.taskId = some (s.request cfg now q).1 ∧ (s.request cfg now q).2 = s := by
  cases hd : s.decisions q.taskId with
  | none => simp [RunState.request, hd] at h
  | some d =>
    by_cases hdue : d.status = .pending ∧ d.expiresAt ≤ now
    · simp [RunState.request, hd, hdue, PendingDecision.expire] at h
    · simp [RunState.request, hd, hdue]

theorem request_of_approved {d : PendingDecision} (hd : s.decisions q.taskId = some d)
    (hs : d.status = .approved) : s.request cfg now q = (d, s) := by
  simp [RunState.request, hd, hs]

theorem onward_request {d : PendingDecision} (hd : s.decisions q.taskId = some d) :
    s.Onward (s.request cfg now q).2 := by
  simp only [RunState.request, hd]
  split
  · exact .expireDue now s
  · exact .refl s

theorem request_of_none (hd : s.decisions q.taskId = none) :
    (s.request cfg now q).1.status = .pending ∧ (s.request cfg now q).2 = { s with
      decisions := update s.decisions q.taskId (some (s.request cfg now q).1) } := by
  simp [RunState.request, hd]

theorem policy_request : (s.request cfg now q).2.policy = s.policy := by
  unfold RunState.request
  split
  · split <;> rfl
  · rfl

theorem log_request : (s.request cfg now q).2.log = s.log := by
  cases hd : s.decisions q.taskId with
  | none => rw [(request_of_none cfg now q s hd).2]
  | some d => exact (onward_request cfg now q s hd).log

theorem turn_request : (s.request cfg now q).2.turn = s.turn := by
  cases hd : s.decisions q.taskId with
  | none => rw [(request_of_none cfg now q s hd).2]
  | some d => exact (onward_request cfg now q s hd).turn

theorem vouched_request : s.vouched ⊆ (s.request cfg now q).2.vouched := by
  cases hd : s.decisions q.taskId with
  | none => rw [(request_of_none cfg now q s hd).2]; exact List.Subset.refl _
  | some d => exact (onward_request cfg now q s hd).vouched

theorem row_request {task : String} {d : PendingDecision} (h : s.decisions task = some d) :
    ∃ d', (s.request cfg now q).2.decisions task = some d' ∧ d.Follows d' := by
  cases hd : s.decisions q.taskId with
  | some _ => exact (onward_request cfg now q s hd).row task d h
  | none =>
    have ht : task ≠ q.taskId := fun e => by rw [e, hd] at h; cases h
    refine ⟨d, ?_, .refl d⟩
    rw [(request_of_none cfg now q s hd).2]
    exact (update_of_ne ht ..).trans h

theorem sound_request (hs : s.Sound) : (s.request cfg now q).2.Sound := by
  cases hd : s.decisions q.taskId with
  | some _ => exact (onward_request cfg now q s hd).sound hs
  | none =>
    obtain ⟨hp, he⟩ := request_of_none cfg now q s hd
    rw [he]
    intro task d h ha
    by_cases ht : task = q.taskId
    · subst ht
      obtain rfl : (s.request cfg now q).1 = d := by simpa using h
      rw [hp] at ha
      cases ha
    · exact hs task d ((update_of_ne ht ..).symm.trans h) ha

end Request

theorem policy_acts : ∀ (as : List Act) (s : RunState), (∀ a ∈ as, a.OfDecisions) →
    (as.foldl Act.apply s).policy = s.policy
  | [], _, _ => rfl
  | a :: as, s, h => by
    have ha : (a.apply s).policy = s.policy := by
      cases a with
      | resolve taskId approve actor now =>
        simp only [Act.apply, RunState.resolve]
        split
        · rfl
        · split_ifs <;> rfl
      | expireDue cutoff => rfl
      | amend policy => exact (h _ (mem_cons_self ..)).elim
    exact (policy_acts as _ fun b hb => h b (mem_cons_of_mem _ hb)).trans ha

end AutoDev.Execution
