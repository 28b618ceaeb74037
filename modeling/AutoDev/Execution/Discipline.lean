/-
# `AutoDev.Execution.Discipline` — what it takes for a rule on handed-over actions to hold

An action goes to the runner either because the APPROVED answer of a request
pre-approved it, or because the policy let it through.  A `Discipline` has the
invariant of a rule, the right to hand an action over (`May`), the right to put
it before the policy (`Gate`) and whether a task is still open (`Open`): the
answer TIMED_OUT to a request of its own may close it, and the programs send
nothing of a task that was closed.  The programs of `AutoDev.Execution.Dispatch`
are gone through once, here; a rule is then a `Discipline`.
-/
import AutoDev.Execution.Dispatch

namespace AutoDev.Execution

open Prog List

/-- The invariant of a rule, and its rights. -/
structure Conduct (o : Orchestrator) (allowed : Act → Prop) (guard : Cmd → RunState → Prop) where
  /-- What holds of every state. -/
  Inv : RunState → Prop
  /-- The action may be handed to the runner. -/
  May : ℕ → ExecutionMode → ExecutionAction → RunState → Prop
  /-- The action may be handed to the runner if the policy allows it. -/
  Gate : ℕ → ExecutionMode → ExecutionAction → RunState → Prop
  /-- The task of the turn may send more. -/
  Open : ℕ → RunState → Prop
  keep : ∀ {c s r s'}, Inv s → Sem o allowed guard c s r s' →
    (∀ t m a, c = .run t m a → May t m a s) → (∀ q, c = .request q → q.turn < s.turn) → Inv s'
  may_evaluate : ∀ {t m a t' a' s r s'}, May t m a s →
    Sem o allowed guard (.evaluate t' a') s r s' → May t m a s'
  may_run : ∀ {t m a t' m' a' s r s'}, May t m a s →
    Sem o allowed guard (.run t' m' a') s r s' → May t m a s'
  gate_keep : ∀ {t m a c s r s'}, Gate t m a s → Sem o allowed guard c s r s' →
    (∀ q, c ≠ .request q) → Gate t m a s'
  open_keep : ∀ {t c s r s'}, Open t s → Sem o allowed guard c s r s' →
    (∀ q, c ≠ .request q) → Open t s'
  gate_may : ∀ {t m a s d s'}, Gate t m a s → Sem o allowed guard (.evaluate t a) s (some d) s' →
    d.allowed = true → May t m a s'

/-- A conduct for whole batches.  A task is open when it is taken up, and only the answer TIMED_OUT
closes it; while it is open the policy is its gate outside approval mode, and an APPROVED answer
gives both rights on the list of the request. -/
structure Discipline (o : Orchestrator) (allowed : Act → Prop) (guard : Cmd → RunState → Prop)
    extends Conduct o allowed guard where
  open_take : ∀ {s t s'}, Inv s → Sem o allowed guard .take s t s' → Open t s'
  open_request : ∀ {t q s d s'}, Open t s → Sem o allowed guard (.request q) s d s' →
    (q.turn = t → d.status ≠ .timedOut) → Open t s'
  gate_request : ∀ {t m a q s d s'}, Gate t m a s → Sem o allowed guard (.request q) s d s' →
    Open t s' → Gate t m a s'
  gate_policy : ∀ {t m a s}, m ≠ .approval → Open t s → Gate t m a s
  approved : ∀ {q s d s'}, Inv s → Sem o allowed guard (.request q) s d s' →
    d.status = .approved → Open q.turn s' →
    ∀ a ∈ q.listed, May q.turn q.mode a s' ∧ Gate q.turn q.mode a s'

theorem Sem.turn_le {o : Orchestrator} {allowed : Act → Prop} {guard : Cmd → RunState → Prop}
    {c : Cmd} {s s' : RunState} {r : Reply c} (h : Sem o allowed guard c s r s') :
    s.turn ≤ s'.turn := by
  obtain ⟨acts, -, -, he⟩ := h
  rw [← (RunState.Onward.acts s acts).turn]
  exact he.turn_le

theorem Sem.turn_take {o : Orchestrator} {allowed : Act → Prop} {guard : Cmd → RunState → Prop}
    {s s' : RunState} {t : ℕ} (h : Sem o allowed guard .take s t s') :
    t = s.turn ∧ s'.turn = s.turn + 1 := by
  obtain ⟨acts, -, -, rfl, rfl⟩ := h
  have ht := (RunState.Onward.acts s acts).turn
  exact ⟨ht, congrArg (· + 1) ht⟩

namespace Conduct

variable {o : Orchestrator} {allowed : Act → Prop} {guard : Cmd → RunState → Prop}
  (D : Conduct o allowed guard)

/-- Programs under the discipline: the invariant in every state, `Q` at the end. -/
abbrev W {α : Type} (Q : α → RunState → Prop) : P α → RunState → Prop :=
  wp (Sem o allowed guard) D.Inv Q

/-- The invariant holds, and of the turns in `T` nothing that was open has closed. -/
structure Kept (T : ℕ → Prop) (s s' : RunState) : Prop where
  inv : D.Inv s'
  turn : s.turn ≤ s'.turn
  live : ∀ {t}, T t → D.Open t s → D.Open t s'
  gate : ∀ {t m a}, T t → D.Open t s → D.Gate t m a s → D.Gate t m a s'

abbrev KeptAll (s s' : RunState) : Prop := D.Kept (fun _ => True) s s'

variable {D} {s s' s'' : RunState} {T : ℕ → Prop}

theorem Kept.refl (h : D.Inv s) : D.Kept T s s := ⟨h, Nat.le_refl _, fun _ => id, fun _ _ => id⟩

theorem Kept.trans (h : D.Kept T s s') (h' : D.Kept T s' s'') : D.Kept T s s'' where
  inv := h'.inv
  turn := h.turn.trans h'.turn
  live ht ho := h'.live ht (h.live ht ho)
  gate ht ho hg := h'.gate ht (h.live ht ho) (h.gate ht ho hg)

theorem Kept.on (h : D.KeptAll s s') : D.Kept T s s' :=
  ⟨h.inv, h.turn, fun _ => h.live trivial, fun _ => h.gate trivial⟩

theorem kept_of_sem {c : Cmd} {r : Reply c} (h : D.Inv s) (hc : Sem o allowed guard c s r s')
    (hq : ∀ q, c ≠ .request q) (hrun : ∀ t m a, c = .run t m a → D.May t m a s) :
    D.KeptAll s s' where
  inv := D.keep h hc hrun fun q e => absurd e (hq q)
  turn := hc.turn_le
  live _ ho := D.open_keep ho hc hq
  gate _ _ hg := D.gate_keep hg hc hq

theorem wp_send {c : Cmd} {Q : Reply c → RunState → Prop} (h : D.Inv s)
    (hq : ∀ q, c ≠ .request q) (hrun : ∀ t m a, c = .run t m a → D.May t m a s)
    (hQ : ∀ r s', Sem o allowed guard c s r s' → D.KeptAll s s' → Q r s') : D.W Q (send c) s :=
  fun r s' hc =>
    have hk := kept_of_sem h hc hq hrun
    ⟨hk.inv, hQ r s' hc hk⟩

theorem wp_raise {α : Type} {Q : α → RunState → Prop} : D.W Q raise s :=
  fun r => r.elim

theorem wp_orRaise {α : Type} {Q : α → RunState → Prop} {x : Option α}
    (h : ∀ a, x = some a → Q a s) : D.W Q (orRaise x) s := by
  cases x with
  | none => exact wp_raise
  | some a => exact h a rfl

/-! ## The executor -/

variable {m : ExecutionMode}

variable {a : ExecutionAction}

theorem wp_runAction {t : ℕ} {Q : ExecutionResult → RunState → Prop} (h : D.Inv s)
    (hm : D.May t m a s)
    (hQ : ∀ r s', Sem o allowed guard (.run t m a) s r s' → D.KeptAll s s' → ∀ x, Q x s') :
    D.W Q (runAction t m a) s := by
  refine wp_bind.mpr (wp_send h (by rintro _ ⟨⟩) (by rintro _ _ _ ⟨⟩; exact hm) ?_)
  exact fun r s' hc hk => wp_orRaise fun x _ => hQ r s' hc hk x

/-- What `dispatch` needs of one action. -/
def Ready (D : Conduct o allowed guard) (t : ℕ) (m : ExecutionMode) (pre : List String)
    (s : RunState) (a : ExecutionAction) : Prop :=
  (pre.contains a.actionId = true → D.May t m a s) ∧
    (pre.contains a.actionId = false → D.Gate t m a s)

theorem wp_dispatchOne {t : ℕ} {pre : List String} {rest : List ExecutionAction} (h : D.Inv s)
    (ha : D.Ready t m pre s a) (hrest : ∀ b ∈ rest, D.Ready t m pre s b) :
    D.W (fun _ s' => D.KeptAll s s' ∧ ∀ b ∈ rest, D.Ready t m pre s' b) (dispatchOne t m pre a) s := by
  -- the commands of this action leave the rights of the others as they are
  have hrun : ∀ {s₀ r s₁}, (∀ b ∈ rest, D.Ready t m pre s₀ b) →
      Sem o allowed guard (.run t m a) s₀ r s₁ → ∀ b ∈ rest, D.Ready t m pre s₁ b :=
    fun hr hc b hb => ⟨fun hp => D.may_run ((hr b hb).1 hp) hc,
      fun hp => D.gate_keep ((hr b hb).2 hp) hc (by rintro _ ⟨⟩)⟩
  unfold dispatchOne
  split
  · next hp => exact wp_runAction h (ha.1 hp) fun r s' hc hk _ => ⟨hk, hrun hrest hc⟩
  next hp =>
  rw [Bool.not_eq_true] at hp
  refine wp_bind.mpr (wp_send h (by rintro _ ⟨⟩) (by rintro _ _ _ ⟨⟩) fun r s₁ hc hk => ?_)
  have hrest₁ : ∀ b ∈ rest, D.Ready t m pre s₁ b := fun b hb =>
    ⟨fun hp => D.may_evaluate ((hrest b hb).1 hp) hc,
      fun hp => D.gate_keep ((hrest b hb).2 hp) hc (by rintro _ ⟨⟩)⟩
  refine wp_bind.mpr (wp_orRaise fun d hd => ?_)
  subst hd
  split
  · next hd =>
    exact wp_runAction hk.inv (D.gate_may (ha.2 hp) hc hd) fun r s₂ hc₂ hk₂ _ =>
      ⟨hk.trans hk₂, hrun hrest₁ hc₂⟩
  · exact ⟨hk, hrest₁⟩

theorem wp_dispatch {t : ℕ} {pre : List String} :
    ∀ {actions : List ExecutionAction} {s : RunState}, D.Inv s →
      (∀ a ∈ actions, D.Ready t m pre s a) →
      D.W (fun out s' => D.KeptAll s s' ∧ (actions = [] → out.status = .completed))
        (dispatch t m pre actions) s
  | [], _, h, _ => ⟨.refl h, fun _ => rfl⟩
  | a :: rest, s, h, hr => by
    refine wp_bind.mpr (wp_post (wp_dispatchOne h (hr a (mem_cons_self ..)) fun b hb =>
      hr b (mem_cons_of_mem _ hb)) fun r s₁ h₁ => ?_)
    refine wp_bind.mpr (wp_post (wp_dispatch h₁.1.inv h₁.2) fun out s₂ h₂ => ?_)
    exact ⟨h₁.1.trans h₂.1, fun e => nomatch e⟩

theorem wp_anyUncovered : ∀ {actions : List ExecutionAction} {s : RunState}, D.Inv s →
    D.W (fun _ s' => D.KeptAll s s') (anyUncovered actions) s
  | [], _, h => .refl h
  | a :: rest, s, h => by
    refine wp_bind.mpr (wp_send h (by rintro _ ⟨⟩) (by rintro _ _ _ ⟨⟩) fun r s₁ hc hk => ?_)
    refine wp_bind.mpr (wp_orRaise fun d _ => ?_)
    split
    · exact wp_post (wp_anyUncovered hk.inv) fun _ s₂ h₂ => hk.trans h₂
    · exact hk

theorem wp_needsDecision {actions : List ExecutionAction} (h : D.Inv s) :
    D.W (fun b s' => D.KeptAll s s' ∧ (b = false → m ≠ .approval)) (needsDecision m actions) s := by
  cases m with
  | approval => exact ⟨.refl h, fun e => nomatch e⟩
  | hybrid =>
    exact wp_post (wp_anyUncovered h) fun _ _ hk => ⟨hk, fun _ => ExecutionMode.noConfusion⟩
  | auto => exact ⟨.refl h, fun _ => ExecutionMode.noConfusion⟩

end Conduct

theorem not_repairable_denyAll {actions : List ExecutionAction} {reason : String}
    {kind : ExecutionFailureKind} (hne : actions ≠ []) (hk : kind ≠ .codeFailure) :
    (denyAll actions reason kind).repairable = false := by
  have hall : (denyAll actions reason kind).failedResults =
      (denyAll actions reason kind).results := by
    simp [TaskExecutionOutcome.failedResults, denyAll, deniedResult]
  simp only [TaskExecutionOutcome.repairable, TaskExecutionOutcome.nonRepairable, hall]
  simp [denyAll, deniedResult, ExecutionResult.repairableByCodeChange, hne, hk]

namespace Discipline

variable {o : Orchestrator} {allowed : Act → Prop} {guard : Cmd → RunState → Prop}
  {D : Discipline o allowed guard} {s : RunState}

open Conduct

/-! ## `_resolve_task_actions` -/

/-- Of an outcome that joins the repair pass the task is open, and its actions may be put before the
policy again. -/
def Repeatable (D : Discipline o allowed guard) (t : ℕ) (m : ExecutionMode)
    (actions : List ExecutionAction) (out : TaskExecutionOutcome) (s : RunState) : Prop :=
  out.repairable = true → D.Open t s ∧ ∀ a ∈ actions, D.Gate t m a s

/-- What `_resolve_task_actions` leaves: at most the task of the turn has closed, and it has not if
its actions were completed. -/
def Resolved (D : Discipline o allowed guard) (t : ℕ) (m : ExecutionMode)
    (actions : List ExecutionAction) (s : RunState) :
    TaskExecutionOutcome ⊕ PendingDecision → RunState → Prop
  | .inl out, s' => D.Kept (· ≠ t) s s' ∧ D.Repeatable t m actions out s' ∧
      (out.status = .completed → D.KeptAll s s')
  | .inr _, s' => D.Kept (· ≠ t) s s'

variable {m : ExecutionMode} {records : List DispatchRecord} {s' : RunState} {t : ℕ}

variable {actions : List ExecutionAction} {results : List ExecutionResult}

theorem kept_request {q : DecisionRequest} {d : PendingDecision} {T : ℕ → Prop} (h : D.Inv s)
    (hlt : q.turn < s.turn) (hc : Sem o allowed guard (.request q) s d s')
    (hT : ∀ {t}, T t → q.turn = t → d.status ≠ .timedOut) : D.Kept T s s' where
  inv := D.keep h hc (by rintro _ _ _ ⟨⟩) (by rintro _ ⟨⟩; exact hlt)
  turn := hc.turn_le
  live ht ho := D.open_request ho hc (hT ht)
  gate ht ho hg := D.gate_request hg hc (D.open_request ho hc (hT ht))

theorem resolved_denyAll {reason : String} {kind : ExecutionFailureKind}
    (hk : D.Kept (· ≠ t) s s') (hne : actions ≠ []) (hkind : kind ≠ .codeFailure) :
    D.Resolved t m actions s (.inl (denyAll actions reason kind)) s' := by
  refine ⟨hk, fun hr => ?_, TaskStatus.noConfusion⟩
  rw [not_repairable_denyAll hne hkind] at hr
  cases hr

theorem wp_dispatch_resolved {pre : List String} (h : D.KeptAll s s') (ho : D.Open t s')
    (hr : ∀ a ∈ actions, D.Ready t m pre s' a) (hg : ∀ a ∈ actions, D.Gate t m a s') :
    D.W (D.Resolved t m actions s) (do let outcome ← dispatch t m pre actions; .ret (.inl outcome))
      s' := by
  refine wp_bind.mpr (wp_post (wp_dispatch h.inv hr) fun out s₂ h₂ => ?_)
  have hk := h.trans h₂.1
  exact ⟨hk.on, fun _ => ⟨h₂.1.live trivial ho, fun a ha => h₂.1.gate trivial ho (hg a ha)⟩,
    fun _ => hk⟩

theorem wp_actOn {d : PendingDecision} (hne : actions ≠ []) (hk : D.Kept (· ≠ t) s s')
    (hall : d.status ≠ .timedOut → D.KeptAll s s') (ho : D.Open t s)
    (ha : d.status = .approved → D.Open t s' →
      ∀ a ∈ actions, D.May t m a s' ∧ D.Gate t m a s') :
    D.W (D.Resolved t m actions s) (actOn t m actions d) s' := by
  unfold actOn
  split
  · exact hk
  · next hs =>
    have hk := hall (by rw [hs]; exact DecisionStatus.noConfusion)
    have ho := hk.live trivial ho
    have ha := ha hs ho
    exact wp_dispatch_resolved hk ho (fun a hmem => ⟨fun _ => (ha a hmem).1,
      fun _ => (ha a hmem).2⟩) fun a hmem => (ha a hmem).2
  · exact resolved_denyAll hk hne ExecutionFailureKind.noConfusion
  · exact resolved_denyAll hk hne ExecutionFailureKind.noConfusion

theorem wp_resolveTaskActions {reason : Option String} {task : ExecutionTask}
    (h : D.Inv s) (hlt : t < s.turn) (ho : D.Open t s) :
    D.W (D.Resolved t m actions s) (o.resolveTaskActions t m reason task actions) s := by
  cases actions with
  | nil =>
    exact ⟨.refl h, fun _ => ⟨ho, fun a ha => absurd ha not_mem_nil⟩, fun _ => .refl h⟩
  | cons primary rest =>
    cases reason with
    | some reason =>
      exact resolved_denyAll (.refl h) (cons_ne_nil _ _) ExecutionFailureKind.noConfusion
    | none =>
      refine wp_bind.mpr (wp_post (wp_needsDecision h) fun b s₁ h₁ => ?_)
      have ho₁ := h₁.1.live trivial ho
      cases b with
      | false =>
        have hg : ∀ a ∈ primary :: rest, D.Gate t m a s₁ :=
          fun a _ => D.gate_policy (h₁.2 rfl) ho₁
        exact wp_dispatch_resolved h₁.1 ho₁
          (fun a ha => ⟨fun hp => by simp at hp, fun _ => hg a ha⟩) hg
      | true =>
        refine wp_bind.mpr fun d s₂ hc => ?_
        have hlt₁ := hlt.trans_le h₁.1.turn
        have hk : D.Kept (· ≠ t) s₁ s₂ :=
          kept_request h₁.1.inv hlt₁ hc fun hne e => absurd e.symm hne
        refine ⟨hk.inv, wp_actOn (cons_ne_nil _ _) (h₁.1.on.trans hk) (fun hd => ?_) ho ?_⟩
        · exact h₁.1.trans (kept_request h₁.1.inv hlt₁ hc fun _ _ => hd)
        · exact fun hs ho₂ => D.approved h₁.1.inv hc hs ho₂

/-! ## The repair pass -/

/-- The candidates of a pass have had their turn, and may be validated again. -/
def Renewable (D : Discipline o allowed guard) (m : ExecutionMode) (records : List DispatchRecord)
    (s : RunState) : Prop :=
  ∀ c ∈ records, c.turn < s.turn ∧ D.Repeatable c.turn m (deriveActions o.py c.task) c.outcome s

theorem Renewable.mono {T : ℕ → Prop} (h : D.Renewable m records s) (hk : D.Kept T s s')
    (hT : ∀ c ∈ records, T c.turn) : D.Renewable m records s' := by
  intro c hc
  refine ⟨(h c hc).1.trans_le hk.turn, fun hr => ?_⟩
  obtain ⟨ho, hg⟩ := (h c hc).2 hr
  exact ⟨hk.live (hT c hc) ho, fun a ha => hk.gate (hT c hc) ho (hg a ha)⟩

theorem wp_revalidate {written : List ExecutionResult} :
    ∀ {records : List DispatchRecord} {acc : Repair} {s : RunState}, D.Inv s →
      (∀ c ∈ records, c.outcome.repairable = true) → D.Renewable m records s →
      D.W (fun _ s' => D.Inv s') (o.revalidate m written records acc) s
  | [], _, _, h, _, _ => h
  | c :: rest, acc, s, h, hr, hn => by
    obtain ⟨-, hc⟩ := (hn c (mem_cons_self ..)).2 (hr c (mem_cons_self ..))
    refine wp_bind.mpr (wp_post (wp_dispatch h fun a ha =>
      ⟨fun hp => by simp at hp, fun _ => hc a ha⟩) fun again s₁ h₁ => ?_)
    exact wp_revalidate h₁.1.inv (fun c' hc' => hr c' (mem_cons_of_mem _ hc'))
      (Renewable.mono (fun c' hc' => hn c' (mem_cons_of_mem _ hc')) h₁.1 fun _ _ => trivial)

theorem wp_applyRepair {primary : DispatchRecord} {entries : List FileEntry} {acc : Repair}
    (h : D.Inv s) (hp : primary ∈ records) (hr : ∀ c ∈ records, c.outcome.repairable = true)
    (hn : D.Renewable m records s) :
    D.W (fun _ s' => D.Inv s') (o.applyRepair m primary records entries acc) s := by
  obtain ⟨hlt, hopen⟩ := hn primary hp
  refine wp_bind.mpr (wp_post (wp_resolveTaskActions h hlt (hopen (hr primary hp)).1)
    fun r s₁ h₁ => ?_)
  cases r with
  | inr d => exact h₁.inv
  | inl write =>
    obtain ⟨hk, -, hall⟩ := h₁
    show D.W _ (if write.status = .completed then _ else _) s₁
    split
    · next hw => exact wp_revalidate hk.inv hr (hn.mono (hall hw) fun _ _ => trivial)
    · exact hk.inv

theorem wp_readWritten : ∀ {paths : List String} {s : RunState}, D.Inv s →
    D.W (fun _ s' => D.KeptAll s s') (readWritten paths) s
  | [], _, h => .refl h
  | path :: rest, s, h => by
    refine wp_bind.mpr (wp_send h (by rintro _ ⟨⟩) (by rintro _ _ _ ⟨⟩) fun reply s₁ _ hk => ?_)
    cases reply with
    | text content =>
      exact wp_bind.mpr (wp_post (wp_readWritten hk.inv) fun _ s₂ h₂ => hk.trans h₂)
    | osError => exact wp_post (wp_readWritten hk.inv) fun _ s₂ h₂ => hk.trans h₂
    | broken => exact wp_raise

theorem wp_batchSelfRepair {candidates : List DispatchRecord} (h : D.Inv s)
    (hn : D.Renewable m candidates s) :
    D.W (fun _ s' => D.Inv s') (o.batchSelfRepair m candidates results) s := by
  have hsub : ∀ c ∈ repairables candidates, c ∈ candidates ∧ c.outcome.repairable = true :=
    fun c hc => mem_filter.mp hc
  unfold Orchestrator.batchSelfRepair
  split
  · exact h
  next primary others heq =>
  rw [heq] at hsub
  show D.W _ (if _ then _ else _) s
  split
  · exact h
  refine wp_bind.mpr (wp_post (wp_readWritten h) fun files s₁ h₁ => ?_)
  show D.W _ (if _ then _ else _) s₁
  split
  · exact h₁.inv
  refine wp_bind.mpr (wp_send h₁.inv (by rintro _ ⟨⟩) (by rintro _ _ _ ⟨⟩) fun reply s₂ _ h₂ => ?_)
  refine wp_bind.mpr (wp_orRaise fun reply _ => wp_bind.mpr (wp_orRaise fun entries _ => ?_))
  show D.W _ (if _ then _ else _) s₂
  split
  · exact h₂.inv
  · exact wp_applyRepair h₂.inv (mem_cons_self ..) (fun c hc => (hsub c hc).2)
      (Renewable.mono (fun c hc => hn c (hsub c hc).1) (h₁.trans h₂) fun _ _ => trivial)

/-! ## `_process_tasks` -/

theorem wp_renderDispatchRecords (h : D.Inv s) (hn : D.Renewable m records s) :
    D.W (fun _ s' => D.Inv s') (o.renderDispatchRecords m records results) s := by
  show D.W _ (if _ then _ else _) s
  split
  · exact h
  · exact wp_bind.mpr (wp_batchSelfRepair h fun c hc => hn c (mem_filter.mp hc).1)

theorem wp_processLoop {reason : Option String} :
    ∀ {tasks : List ExecutionTask} {currentState : String} {records : List DispatchRecord}
      {results : List ExecutionResult} {s : RunState}, D.Inv s → D.Renewable m records s →
      D.W (fun _ s' => D.Inv s') (o.processLoop m reason tasks currentState records results) s
  | [], _, _, _, _, h, hn => wp_bind.mpr (wp_renderDispatchRecords h hn)
  | task :: rest, _, records, results, s, h, hn => by
    refine wp_bind.mpr (wp_send h (by rintro _ ⟨⟩) (by rintro _ _ _ ⟨⟩) fun turn s₁ hc h₁ => ?_)
    obtain ⟨rfl, hturn⟩ := hc.turn_take
    refine wp_bind.mpr (wp_post (wp_resolveTaskActions h₁.inv (by omega) (D.open_take h hc))
      fun r s₂ h₂ => ?_)
    -- what was dispatched before had an earlier turn
    have hn₂ : D.Kept (· ≠ s.turn) s₁ s₂ → D.Renewable m records s₂ := fun hk =>
      (hn.mono h₁ fun _ _ => trivial).mono hk fun c hc => (hn c hc).1.ne
    cases r with
    | inr d => exact wp_bind.mpr (wp_renderDispatchRecords h₂.inv (hn₂ h₂))
    | inl out =>
      obtain ⟨hk, hrep, -⟩ := h₂
      have hlt : s.turn < s₂.turn := by have := hk.turn; omega
      exact wp_processLoop hk.inv
        (forall_mem_append.mpr ⟨hn₂ hk, forall_mem_singleton.mpr ⟨hlt, hrep⟩⟩)

theorem wp_processTasks {currentState : String} {tasks : List ExecutionTask} (h : D.Inv s) :
    D.W (fun _ s' => D.Inv s') (o.processTasks m currentState tasks) s := by
  cases tasks with
  | nil => exact h
  | cons task rest =>
    refine wp_bind.mpr (wp_send h (by rintro _ ⟨⟩) (by rintro _ _ _ ⟨⟩) fun reason s₁ _ hk => ?_)
    exact wp_processLoop hk.inv fun c hc => absurd hc not_mem_nil

/-- The invariant of a discipline that starts in force and survives the acts of others holds in
every state of a run. -/
theorem of_reached {D : Discipline o (fun _ => True) guard} {modes : ExecutionMode → Prop}
    (hstart : ∀ policy, D.Inv { policy }) (hact : ∀ s a, D.Inv s → D.Inv (Act.apply s a))
    (h : Reached o modes guard s) : D.Inv s := by
  induction h with
  | start policy => exact hstart policy
  | act a _ ih => exact hact _ a ih
  | batch mode currentState tasks _ _ hsteps ih => exact (hsteps.of_wp ih (wp_processTasks ih)).1

end Discipline

end AutoDev.Execution
