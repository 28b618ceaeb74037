/-
# `AutoDev.Execution.Hybrid` — an approval in hybrid mode and the policy's denies

In hybrid mode a list of actions needs a decision when some action of it is
not covered by any rule.  The decision records the id of the first action; its
approval pre-approves EVERY id of the list, so that the policy is not asked
about the others, and one of them may be denied by a rule
(`approval_lifts_deny`).

`denies_kept_iff` says exactly when a call of `_resolve_task_actions` cannot do
that, whatever humans and the sweep do meanwhile: no environment, no uncovered
action, no decision that is open or approved, or a decision that recorded the
id of every denied action.  The policy stays as it is during the call.
-/
import AutoDev.Execution.Discipline

namespace AutoDev.Execution

open Prog List Option

def RunState.since (s s' : RunState) : List Entry := s'.log.take (s'.log.length - s.log.length)

def Recorded (task : ExecutionTask) (a : ExecutionAction) (s : RunState) : Prop :=
  ∃ d ∈ s.decisions task.taskId, d.status = .approved ∧ d.actionId = a.actionId

instance (task : ExecutionTask) (a : ExecutionAction) (s : RunState) :
    Decidable (Recorded task a s) :=
  inferInstanceAs (Decidable (∃ d ∈ s.decisions task.taskId,
    d.status = .approved ∧ d.actionId = a.actionId))

def DeniesKept (o : Orchestrator) (task : ExecutionTask) (s s' : RunState) : Prop :=
  ∀ t m a, .handed t m a ∈ s.since s' → o.settings.Denied s.policy a → Recorded task a s'

def ApprovalFits (o : Orchestrator) (environmentDeniedReason : Option String)
    (task : ExecutionTask) (actions : List ExecutionAction) (s : RunState) : Prop :=
  environmentDeniedReason = none → (∃ a ∈ actions, o.settings.Uncovered s.policy a) →
    ∀ d ∈ s.decisions task.taskId, d.status = .pending ∨ d.status = .approved →
      ∀ a ∈ actions, o.settings.Denied s.policy a → d.actionId = a.actionId

/-- The steps of a call in hybrid mode, the policy being as it is. -/
abbrev HybridSteps (o : Orchestrator) (turn : ℕ) (environmentDeniedReason : Option String)
    (task : ExecutionTask) (actions : List ExecutionAction) (s s' : RunState) : Prop :=
  ∃ p, Steps (Sem o Act.OfDecisions fun _ _ => True)
    (o.resolveTaskActions turn .hybrid environmentDeniedReason task actions) s p s'

/-! ## Denied actions that are recorded -/

theorem Recorded.of_row {task : ExecutionTask} {a : ExecutionAction} {s s' : RunState}
    (h : Recorded task a s)
    (hr : ∀ d, s.decisions task.taskId = some d →
      ∃ d', s'.decisions task.taskId = some d' ∧ d.Follows d') : Recorded task a s' := by
  obtain ⟨d, hd, hs, ha⟩ := h
  obtain ⟨d', hd', hf⟩ := hr d hd
  have hne : d.status ≠ .pending := by rw [hs]; exact DecisionStatus.noConfusion
  exact ⟨d', hd', (hf.settled hne).trans hs, hf.actionId.trans ha⟩

section Calls

variable {o : Orchestrator} {s₀ s s' : RunState} {task : ExecutionTask}

variable {c : Cmd} {allowed : Act → Prop}

variable {r : Reply c} {a : ExecutionAction} {actions : List ExecutionAction} {d : PendingDecision}

theorem policy_sem (hc : Sem o Act.OfDecisions (fun _ _ => True) c s r s') :
    s'.policy = s.policy := by
  obtain ⟨acts, ha, -, he⟩ := hc
  exact he.keeps.policy.trans (policy_acts acts s ha)

theorem Recorded.sem (h : Recorded task a s)
    (hc : Sem o Act.OfDecisions (fun _ _ => True) c s r s') : Recorded task a s' := by
  obtain ⟨acts, -, -, he⟩ := hc
  exact (h.of_row ((RunState.Onward.acts s acts).row _)).of_row (he.keeps.row _)

/-- What the call keeps since it began in `s₀`. -/
structure Since (o : Orchestrator) (task : ExecutionTask) (s₀ s : RunState) : Prop where
  policy : s.policy = s₀.policy
  log : ∃ new, s.log = new ++ s₀.log ∧ ∀ t m a, .handed t m a ∈ new →
    o.settings.Denied s₀.policy a → Recorded task a s

theorem Since.of_onward (ho : s₀.Onward s) (hp : s.policy = s₀.policy) : Since o task s₀ s :=
  ⟨hp, [], ho.log, fun _ _ _ h => absurd h not_mem_nil⟩

theorem Since.deniesKept (h : Since o task s₀ s) : DeniesKept o task s₀ s := by
  obtain ⟨new, hl, hn⟩ := h.log
  intro t m a ha
  refine hn t m a ?_
  simpa [RunState.since, hl] using ha

theorem Since.sem (h : Since o task s₀ s) (hc : Sem o Act.OfDecisions (fun _ _ => True) c s r s')
    (hrun : ∀ t m a, c = .run t m a → o.settings.Denied s₀.policy a → Recorded task a s) :
    Since o task s₀ s' := by
  obtain ⟨new, hl, hn⟩ := h.log
  refine ⟨(policy_sem hc).trans h.policy, ?_⟩
  have hkeep : ∀ t m a, .handed t m a ∈ new → o.settings.Denied s₀.policy a →
      Recorded task a s' := fun t m a ha hd => (hn t m a ha hd).sem hc
  have hrec := fun (a : ExecutionAction) (ha : Recorded task a s) => ha.sem hc
  obtain ⟨acts, -, -, he⟩ := hc
  have hlog : (acts.foldl Act.apply s).log = new ++ s₀.log :=
    (RunState.Onward.acts s acts).log.trans hl
  rcases he.log with hl' | ⟨q, -, hl'⟩ | ⟨t, m, b, hb, hl'⟩ <;> rw [hlog] at hl'
  · exact ⟨new, hl', hkeep⟩
  · exact ⟨_ :: new, hl', fun t m a ha => hkeep t m a ((mem_cons.mp ha).resolve_left nofun)⟩
  · refine ⟨_ :: new, hl', fun t' m' a ha hd => ?_⟩
    rcases mem_cons.mp ha with ha | ha
    · obtain ⟨rfl, rfl, rfl⟩ := Entry.handed.inj ha
      exact hrec a (hrun t' m' a hb hd)
    · exact hkeep t' m' a ha hd

def hybridConduct (o : Orchestrator) (task : ExecutionTask) (s₀ : RunState) :
    Conduct o Act.OfDecisions (fun _ _ => True) where
  Inv := Since o task s₀
  May _ _ a s := o.settings.Denied s₀.policy a → Recorded task a s
  Gate _ _ _ s := s.policy = s₀.policy
  Open _ _ := True
  keep h hc hrun _ := h.sem hc hrun
  may_evaluate h hc hd := (h hd).sem hc
  may_run h hc hd := (h hd).sem hc
  gate_keep h hc _ := (policy_sem hc).trans h
  open_keep _ _ _ := trivial
  gate_may {t m a s d s'} h hc hd := by
    rintro ⟨d', hd', -, hno⟩
    obtain ⟨acts, ha, -, hr, -⟩ := hc
    rw [policy_acts acts s ha, h] at hr
    obtain rfl : d = d' := some.inj (hr.trans hd')
    exact absurd (hd.symm.trans hno) Bool.noConfusion

theorem wp_anyUncovered_since : ∀ {actions : List ExecutionAction} {s : RunState},
    s₀.Onward s → s.policy = s₀.policy →
    wp (Sem o Act.OfDecisions fun _ _ => True) (Since o task s₀)
      (fun b s' => s₀.Onward s' ∧ s'.policy = s₀.policy ∧
        (b = true → ∃ a ∈ actions, o.settings.Uncovered s₀.policy a)) (anyUncovered actions) s
  | [], _, ho, hp => ⟨ho, hp, fun h => nomatch h⟩
  | a :: rest, s, ho, hp => by
    refine wp_bind.mpr fun r s₁ hc => ?_
    have hp₁ := (policy_sem hc).trans hp
    obtain ⟨acts, ha, -, hr, rfl⟩ := hc
    have ho₁ := ho.trans (RunState.Onward.acts s acts)
    refine ⟨.of_onward ho₁ hp₁, ?_⟩
    rw [hp₁] at hr
    cases r with
    | none => exact fun e => e.elim
    | some d =>
      show wp _ _ _ (if d.matched then _ else _) _
      split
      · refine wp_post (wp_anyUncovered_since ho₁ hp₁) fun b s' h => ⟨h.1, h.2.1, fun hb => ?_⟩
        obtain ⟨c, hc, hu⟩ := h.2.2 hb
        exact ⟨c, mem_cons_of_mem _ hc, hu⟩
      · next hm =>
        exact ⟨ho₁, hp₁, fun _ => ⟨a, mem_cons_self .., d, hr.symm, by simpa using hm⟩⟩

theorem wp_resolve_hybrid {turn : ℕ} {reason : Option String}
    (h : ApprovalFits o reason task actions s) :
    wp (Sem o Act.OfDecisions fun _ _ => True) (Since o task s) (fun _ _ => True)
      (o.resolveTaskActions turn .hybrid reason task actions) s := by
  have hdispatch : ∀ {pre s'}, Since o task s s' →
      (∀ a ∈ actions, (hybridConduct o task s).Ready turn .hybrid pre s' a) →
      wp (Sem o Act.OfDecisions fun _ _ => True) (Since o task s) (fun _ _ => True)
        (dispatch turn .hybrid pre actions) s' := fun hi hr =>
    wp_post (Conduct.wp_dispatch hi hr) fun _ _ _ => trivial
  cases actions with
  | nil => trivial
  | cons primary rest =>
    cases reason with
    | some _ => trivial
    | none =>
      refine wp_bind.mpr (wp_post (wp_anyUncovered_since (RunState.Onward.refl s) rfl) ?_)
      rintro needed s₁ ⟨ho, hp, hneed⟩
      have hi : Since o task s s₁ := .of_onward ho hp
      cases needed with
      | false =>
        exact wp_bind.mpr (hdispatch hi fun a _ => ⟨fun hpre => by simp at hpre, fun _ => hp⟩)
      | true =>
      refine wp_bind.mpr fun d s₂ hc => ?_
      have hi₂ : Since o task s s₂ := hi.sem hc fun _ _ _ => nofun
      refine ⟨hi₂, ?_⟩
      show wp _ _ _ (actOn turn .hybrid (primary :: rest) d) s₂
      unfold actOn
      split
      · trivial
      · next hs =>
        refine wp_bind.mpr (hdispatch hi₂ fun a ha => ⟨fun _ hden => ?_, fun _ => hi₂.policy⟩)
        -- the row found approved was open or approved when the call began
        obtain ⟨acts, -, -, now, rfl, rfl⟩ := hc
        obtain ⟨hrow, hsame⟩ := request_approved _ now _ _ hs
        obtain ⟨d₀, hd₀, hf⟩ := (ho.trans (RunState.Onward.acts s₁ acts)).row_before hrow
        have hfit := h rfl (hneed rfl) d₀ hd₀ (hf.of_approved hs).symm a ha hden
        refine ⟨_, ?_, hs, hf.actionId.trans hfit⟩
        rw [decisions_observe, hsame]
        exact hrow
      · trivial
      · trivial

/-! ## The call that lifts a deny -/

theorem sem_of_effect (h : Effect o c s r s') :
    Sem o allowed (fun _ _ => True) c s r s' :=
  ⟨[], fun _ ha => absurd ha not_mem_nil, trivial, h⟩

theorem exec_of_act {α : Type} {p : P α} {x : α} {act : Act} (ha : allowed act)
    (hp : ∀ y, p ≠ .ret y) (h : Exec (Sem o allowed fun _ _ => True) p (act.apply s) x s') :
    Exec (Sem o allowed fun _ _ => True) p s x s' := by
  cases h with
  | ret => exact absurd rfl (hp _)
  | op hc hk =>
    obtain ⟨acts, hall, -, he⟩ := hc
    exact .op ⟨act :: acts, forall_mem_cons.mpr ⟨ha, hall⟩, trivial, he⟩ hk

theorem exec_anyUncovered :
    ∀ {actions : List ExecutionAction}, (∃ a ∈ actions, o.settings.Uncovered s.policy a) →
      Exec (Sem o allowed fun _ _ => True) (anyUncovered actions) s true s
  | [], h => absurd h (by simp)
  | a :: rest, h => by
    obtain ⟨b, hb, hu⟩ := h
    -- the policy answers for `b`, so it answers for every action
    have hsome : o.settings.decide s.policy a ≠ none := by
      obtain ⟨d, hd, -⟩ := hu
      rw [Ne, Settings.decide_eq_none, ← Settings.decide_eq_none, mem_def.mp hd]
      exact some_ne_none d
    obtain ⟨d, hd⟩ := ne_none_iff_exists'.mp hsome
    refine .op (sem_of_effect ⟨hd.symm, rfl⟩) ?_
    show Exec _ (if d.matched then anyUncovered rest else .ret true) s true s
    split
    · next hm =>
      refine exec_anyUncovered ⟨b, (mem_cons.mp hb).resolve_left ?_, hu⟩
      rintro rfl
      obtain ⟨d', hd', hm'⟩ := hu
      obtain rfl : d = d' := some.inj (hd.symm.trans hd')
      exact absurd (hm.symm.trans hm') Bool.noConfusion
    · exact .ret

theorem exec_dispatch (o : Orchestrator) (allowed : Act → Prop) {pre : List String} (turn : ℕ)
    (mode : ExecutionMode) :
    ∀ (actions : List ExecutionAction) (s : RunState),
      (∀ a ∈ actions, pre.contains a.actionId = true) →
      ∃ out new s', Exec (Sem o allowed fun _ _ => True) (dispatch turn mode pre actions) s out s' ∧
        s'.decisions = s.decisions ∧ s'.log = new ++ s.log ∧
        ∀ a ∈ actions, .handed turn mode a ∈ new
  | [], s, _ => ⟨_, [], s, .ret, rfl, rfl, fun _ h => absurd h not_mem_nil⟩
  | a :: rest, s, h => by
    let s₁ : RunState := { s with log := .handed turn mode a :: s.log }
    obtain ⟨out, new, s', hx, hd, hl, hn⟩ := exec_dispatch o allowed turn mode rest s₁
      fun b hb => h b (mem_cons_of_mem _ hb)
    let result : ExecutionResult := deniedResult a "" .internalError
    have hone : Exec (Sem o allowed fun _ _ => True) (dispatchOne turn mode pre a) s
        result s₁ := by
      rw [dispatchOne, if_pos (h a (mem_cons_self ..))]
      exact .op (r := some result) (sem_of_effect rfl) .ret
    refine ⟨out.cons result, new ++ [.handed turn mode a], s', hone.bind (hx.bind .ret), hd,
      by simp [hl, s₁], fun b hb => mem_append.mpr ?_⟩
    rcases mem_cons.mp hb with rfl | hb
    · exact .inr (mem_singleton.mpr rfl)
    · exact .inl (hn b hb)

theorem resolve_approves {taskId : String} (hd : s.decisions taskId = some d)
    (hs : d.status = .pending ∨ d.status = .approved) :
    ∃ d', (s.resolve taskId true "human" (d.expiresAt - 1)).decisions taskId = some d' ∧
      d'.status = .approved ∧ d'.actionId = d.actionId := by
  rcases hs with hs | hs
  · let d' : PendingDecision := { d with status := .approved, decidedBy := some "human" }
    exact ⟨d', by simp [RunState.resolve, hd, hs, d'], rfl, rfl⟩
  · exact ⟨d, by simp [RunState.resolve, hd, hs], hs, rfl⟩

theorem deny_lifted {turn : ℕ} (hu : ∃ b ∈ actions, o.settings.Uncovered s.policy b)
    (hd : s.decisions task.taskId = some d) (hs : d.status = .pending ∨ d.status = .approved)
    (ha : a ∈ actions) :
    ∃ s' d', HybridSteps o turn none task actions s s' ∧ .handed turn .hybrid a ∈ s.since s' ∧
      s'.decisions task.taskId = some d' ∧ d'.actionId = d.actionId := by
  let act : Act := .resolve task.taskId true "human" (d.expiresAt - 1)
  obtain ⟨d', hd', hs', hid⟩ := resolve_approves hd hs
  have hpol : (act.apply s).policy = s.policy :=
    policy_acts [act] s fun b hb => by rw [mem_singleton.mp hb]; trivial
  have hlog : (act.apply s).log = s.log := (RunState.Onward.act s act).log
  have hpre : ∀ b ∈ actions, (actions.map (·.actionId)).contains b.actionId = true :=
    fun b hb => by simpa using ⟨b, hb, rfl⟩
  obtain ⟨out, new, s', hx, hrows, hl, hn⟩ :=
    exec_dispatch o Act.OfDecisions turn .hybrid actions (act.apply s) hpre
  refine ⟨s', d', ⟨.ret (.inl out), Exec.steps ?_⟩, ?_, by rw [hrows]; exact hd', hid⟩
  · cases actions with
    | nil => exact absurd ha not_mem_nil
    | cons primary rest =>
      let q := o.decisionRequest turn .hybrid task primary (primary :: rest)
      have hreq : Effect o (.request q) (act.apply s) d' (act.apply s) := by
        refine ⟨0, ?_, ?_⟩ <;> rw [request_of_approved _ _ _ _ hd' hs']
        rw [RunState.observe, if_neg (by rw [hs']; exact DecisionStatus.noConfusion)]
      have hact : act.OfDecisions := trivial
      refine exec_of_act hact (fun _ h => by cases h) (Exec.bind (exec_anyUncovered ?_) ?_)
      · rwa [hpol]
      · refine .op (sem_of_effect hreq) ?_
        show Exec _ (actOn turn .hybrid (primary :: rest) d') _ _ _
        rw [actOn, hs']
        exact hx.bind .ret
  · simpa [RunState.since, hl, hlog] using hn a ha

/-- **A human approval in hybrid mode lifts no deny that it did not mention** exactly when the
decision that it may find approved has recorded every denied action of the list. -/
theorem denies_kept_iff (o : Orchestrator) (turn : ℕ) (environmentDeniedReason : Option String)
    (task : ExecutionTask) (actions : List ExecutionAction) (s : RunState) :
    (∀ s', HybridSteps o turn environmentDeniedReason task actions s s' → DeniesKept o task s s') ↔
      ApprovalFits o environmentDeniedReason task actions s := by
  constructor
  · rintro h rfl hu d hd hs a ha hden
    obtain ⟨s', d', hsteps, hmem, hd', hid⟩ := deny_lifted hu hd hs ha
    obtain ⟨e, he, -, hea⟩ := h s' hsteps _ _ a hmem hden
    obtain rfl : d' = e := some.inj (hd'.symm.trans he)
    exact hid.symm.trans hea
  · rintro h s' ⟨p, hsteps⟩
    have hi : Since o task s s := .of_onward (.refl s) rfl
    exact (hsteps.of_wp hi (wp_resolve_hybrid h)).1.deniesKept

end Calls

/-! ## A deploy that hides a removal -/

def noRemoval : Policy := { rules := [⟨.shell, .deny, some "rm"⟩] }

def deployTask : ExecutionTask :=
  { taskId := "devops-1", title := "Deploy", description := "", category := .operations,
    commands := ["make deploy", "rm -r build"] }

/-- The task is processed in hybrid mode, the human approves the prompt about `make`, and the run is
resumed. -/
def deployedRun : RunState :=
  let o := demoOrchestrator
  let s₁ := o.playBatch succeedingScript anyCommand .hybrid [deployTask] { policy := noRemoval }
  o.playBatch succeedingScript anyCommand .hybrid [deployTask]
    (Act.apply s₁ (.resolve "devops-1" true "alice" 1))

theorem deployedRun_reached {modes : ExecutionMode → Prop} {guard : Cmd → RunState → Prop}
    (hg : ∀ c s, anyCommand c s = true → guard c s) (hm : modes .hybrid) :
    Reached demoOrchestrator modes guard deployedRun :=
  .playBatch (.act _ (.playBatch (.start _) _ _ _ hg hm)) _ _ _ hg hm

def removal : ExecutionAction :=
  { actionId := "devops-1-run-2", type := .runCommand, taskId := "devops-1", stepKey := "devops-1",
    command := some ["rm", "-r", "build"], stepLabel := some "Deploy" }

/-- The approval of `make` runs `rm`, which a rule denies. -/
theorem approval_lifts_deny :
    removal ∈ deriveActions demoOrchestrator.py deployTask ∧
      Reached demoOrchestrator (· = .hybrid) (fun _ _ => True) deployedRun ∧
      .handed 1 .hybrid removal ∈ deployedRun.log ∧
      demoOrchestrator.settings.Denied deployedRun.policy removal ∧
      ¬ Recorded deployTask removal deployedRun := by
  exact ⟨by decide +kernel, deployedRun_reached (fun _ _ _ => trivial) rfl, by decide +kernel,
    by decide +kernel, by decide +kernel⟩

end AutoDev.Execution
