/-
# `AutoDev.Plans.Tenants` — plans of different tenants

Every endpoint is CONFINED to its session: what it answers and writes depends on
the document and the tracked steps of that session.  All of them but one ask
first whether the document is the caller's.  The one is `PUT /plans/{session_id}`:
it takes over whatever document the session has, and the steps that were tracked
under it are then the caller's to read (`plan_taken_over`).
-/
import AutoDev.Plans.Store

namespace AutoDev.Plans

open History Relational Table List AList

/-! ## What a tenant reads -/

variable (tenantId : String) (s : PlanStore)

def plansOf (sessionId : String) : Option (PlanRow × (ℕ → Option TrackedStep)) :=
  ((s.docs.lookup sessionId).filter fun row => row.tenantId = tenantId).map fun row =>
    (row, fun i => s.steps.lookup (sessionId, i))

def approvalsOf : List ApprovalRow :=
  s.approvals.filter fun row => row.tenantId = tenantId

def readable : (String → Option (PlanRow × (ℕ → Option TrackedStep))) × List ApprovalRow :=
  (plansOf tenantId s, approvalsOf tenantId s)

def Mine (sessionId : String) (s : PlanStore) : Prop :=
  ∃ row, s.docs.lookup sessionId = some row ∧ row.tenantId = tenantId

/-- A PUT does not meet a document of the tenant. -/
def Spares (r : PlanRequest) : Prop :=
  match r.call with
  | .putPlan _ => ¬ Mine tenantId r.sessionId s
  | _ => True

def OwnOrNew (r : PlanRequest) : Prop :=
  match r.call with
  | .putPlan _ => Mine tenantId r.sessionId s ∨
      (s.docs.lookup r.sessionId = none ∧ ∀ i, s.steps.lookup (r.sessionId, i) = none)
  | _ => True

variable {tenantId sessionId : String} {s : PlanStore}

theorem plansOf_eq_none : plansOf tenantId s sessionId = none ↔ ¬ Mine tenantId sessionId s := by
  simp only [plansOf, Option.map_eq_none_iff, Option.filter_eq_none_iff, decide_eq_true_eq, Mine,
    not_exists, not_and]

theorem plansOf_of_mine {row : PlanRow} (h : s.docs.lookup sessionId = some row)
    (ht : row.tenantId = tenantId) :
    plansOf tenantId s sessionId = some (row, fun i => s.steps.lookup (sessionId, i)) := by
  simp [plansOf, h, ht]

theorem Mine.unique {tenantId' : String} (h : Mine tenantId sessionId s)
    (h' : Mine tenantId' sessionId s) : tenantId = tenantId' := by
  obtain ⟨row, hrow, rfl⟩ := h
  obtain ⟨row', hrow', rfl⟩ := h'
  rw [Option.some.inj (hrow.symm.trans hrow')]

/-! ## Confinement -/

structure SameSession (sessionId : String) (s s' : PlanStore) : Prop where
  ticks : s.ticks = s'.ticks
  docs : s.docs.lookup sessionId = s'.docs.lookup sessionId
  steps : SameGroup sessionId s.steps s'.steps

structure Within (tenantId sessionId : String) (s s' : PlanStore) : Prop where
  docs : ∀ sid, sid ≠ sessionId → s'.docs.lookup sid = s.docs.lookup sid
  steps : ∀ sid, sid ≠ sessionId → SameGroup sid s.steps s'.steps
  approvals : ∀ t, t ≠ tenantId → approvalsOf t s' = approvalsOf t s
  mine : Mine tenantId sessionId s → Mine tenantId sessionId s'

theorem Within.refl (tenantId sessionId : String) (s : PlanStore) : Within tenantId sessionId s s :=
  ⟨fun _ _ => rfl, fun _ _ => .refl _ _, fun _ _ => rfl, id⟩

theorem Within.trans {s₁ s₂ : PlanStore} (h : Within tenantId sessionId s s₁)
    (h' : Within tenantId sessionId s₁ s₂) :
    Within tenantId sessionId s s₂ :=
  ⟨fun sid hne => (h'.docs sid hne).trans (h.docs sid hne),
    fun sid hne => (h.steps sid hne).trans (h'.steps sid hne),
    fun t hne => (h'.approvals t hne).trans (h.approvals t hne),
    fun hm => h'.mine (h.mine hm)⟩

/-- What a computation of the tenant returns and writes depends on the session, and it writes
nowhere else. -/
structure Confined (tenantId sessionId : String) {α : Type} (m : PlanM α) : Prop where
  agrees : Agrees (SameSession sessionId) m
  moves : Moves (Within tenantId sessionId) m

namespace Confined

variable {tenantId sessionId : String} {α β : Type}

theorem pure (a : α) : Confined tenantId sessionId (pure a) :=
  ⟨.pure a, .pure (Within.refl _ _) a⟩

theorem throw (e : ApiError) : Confined tenantId sessionId (throw e : PlanM α) :=
  ⟨.throw e, .throw (Within.refl _ _) e⟩

theorem bind {m : PlanM α} {f : α → PlanM β} (hm : Confined tenantId sessionId m)
    (hf : ∀ a, Confined tenantId sessionId (f a)) : Confined tenantId sessionId (m >>= f) :=
  ⟨hm.agrees.bind fun a => (hf a).agrees,
    Moves.bind (T := Within tenantId sessionId) (fun _ _ _ => Within.trans) hm.moves
      fun a => (hf a).moves⟩

theorem ite {p : Prop} [Decidable p] {m m' : PlanM α} (hm : Confined tenantId sessionId m)
    (hm' : Confined tenantId sessionId m') : Confined tenantId sessionId (if p then m else m') := by
  split
  · exact hm
  · exact hm'

theorem mapM {f : α → PlanM β} (hf : ∀ a, Confined tenantId sessionId (f a)) :
    ∀ l : List α, Confined tenantId sessionId (l.mapM f)
  | [] => by
    exact pure _
  | a :: l => by
    rw [mapM_cons]
    exact (hf a).bind fun b => (mapM hf l).bind fun bs => pure _

theorem read {g : PlanStore → α} (hg : ∀ s s', SameSession sessionId s s' → g s = g s') :
    Confined tenantId sessionId (Comp.of fun s => (.ok (g s), s)) :=
  ⟨fun s s' h => ⟨congrArg Except.ok (hg s s' h), h⟩, fun s => Within.refl _ _ s⟩

theorem writeSteps {g : Table (String × ℕ) TrackedStep → α}
    {f : Table (String × ℕ) TrackedStep → Table (String × ℕ) TrackedStep}
    (hg : ∀ t t', SameGroup sessionId t t' → g t = g t')
    (hf : ∀ t t', SameGroup sessionId t t' → SameGroup sessionId (f t) (f t'))
    (hframe : ∀ t sid, sid ≠ sessionId → SameGroup sid t (f t)) :
    Confined tenantId sessionId
      (Comp.of fun s => (.ok (g s.steps), { s with steps := f s.steps })) :=
  ⟨fun _ _ h => ⟨congrArg Except.ok (hg _ _ h.steps), h.ticks, h.docs, hf _ _ h.steps⟩,
    fun s => ⟨fun _ _ => rfl, hframe s.steps, fun _ _ => rfl, id⟩⟩

end Confined

/-! ## The statements are confined -/

section Statements

variable {tenantId sessionId : String} {clock : ℕ → String}

theorem confined_now : Confined tenantId sessionId (now clock) := by
  constructor
  · intro s s' h
    exact ⟨congrArg (fun n => Except.ok (clock n)) h.ticks, congrArg (· + 1) h.ticks, h.docs, h.steps⟩
  · exact fun s => ⟨fun _ _ => rfl, fun _ _ => .refl _ _, fun _ _ => rfl, id⟩

theorem confined_upsertPlan (steps : List String) :
    Confined tenantId sessionId (upsertPlan clock sessionId steps tenantId) := by
  refine confined_now.bind fun t => ⟨fun s s' h => ⟨rfl, h.ticks, ?_, h.steps⟩,
    fun s => ⟨fun sid hne => ?_, fun _ _ => .refl _ _, fun _ _ => rfl, fun _ => ?_⟩⟩
  · simp only [exec_of, lookup_insert]
  · simp only [exec_of, lookup_insert_ne hne]
  · exact ⟨_, lookup_insert _, rfl⟩

theorem confined_getPlan : Confined tenantId sessionId (getPlan sessionId tenantId) := by
  refine Confined.ite (.throw _) (.read fun s s' h => ?_)
  rw [h.docs]

theorem confined_setStatus (status : PlanStatus) :
    Confined tenantId sessionId (setStatus clock sessionId status tenantId) := by
  refine confined_now.bind fun t => Confined.ite (.throw _) ⟨fun s s' h => ⟨rfl, h.ticks, ?_, h.steps⟩,
    fun s => ⟨fun sid hne => ?_, fun _ _ => .refl _ _, fun _ _ => rfl, fun hm => ?_⟩⟩
  · simp only [exec_of, Table.modify]
    rw [← h.docs]
    rcases hl : s.docs.lookup sessionId with _ | row
    · rw [hl, ← h.docs, hl]
    · simp only [lookup_insert]
  · simp only [exec_of, Table.modify]
    rcases s.docs.lookup sessionId with _ | row
    · rfl
    · rw [lookup_insert_ne hne]
  · obtain ⟨row, hrow, ht⟩ := hm
    refine ⟨{ row with status, updatedAt := t }, ?_, ht⟩
    simp only [exec_of, Table.modify_of_some hrow, lookup_insert, if_pos ht]

theorem confined_appendApproval (decision : PlanStatus) (actor note : String) :
    Confined tenantId sessionId
      (appendApproval clock sessionId decision actor note tenantId) := by
  refine confined_now.bind fun t => ⟨fun s s' h => ⟨rfl, h.ticks, h.docs, h.steps⟩,
    fun s => ⟨fun _ _ => rfl, fun _ _ => .refl _ _, fun t' hne => ?_, id⟩⟩
  simp [approvalsOf, Ne.symm hne]

theorem confined_decidePlan (decision : PlanStatus) (actor note : String) :
    Confined tenantId sessionId (decidePlan clock sessionId decision actor note tenantId) :=
  (confined_setStatus decision).bind fun _ => confined_appendApproval decision actor note

theorem confined_listSteps : Confined tenantId sessionId (listSteps sessionId) :=
  .read fun s s' h => by rw [group_congr h.steps]

theorem sameGroup_seedSteps (t : String) (contents : List (String × ℕ))
    (steps steps' : Table (String × ℕ) TrackedStep) (h : SameGroup sessionId steps steps') :
    SameGroup sessionId (seedSteps sessionId t contents steps)
      (seedSteps sessionId t contents steps') := by
  refine foldl_rel h fun c _ steps steps' h => ?_
  rw [h c.2]
  split
  · exact h
  · exact h.insert _ _

theorem sameGroup_seedSteps_ne {sid : String} (hne : sid ≠ sessionId) (t : String)
    (contents : List (String × ℕ)) (steps : Table (String × ℕ) TrackedStep) :
    SameGroup sid steps (seedSteps sessionId t contents steps) := by
  refine foldlRecOn contents _ (.refl _ _) fun steps' h c _ => ?_
  split
  · exact h
  · exact h.trans (.insert_ne hne _ _ _)

theorem confined_ensureSteps (contents : List String) :
    Confined tenantId sessionId (ensureSteps clock sessionId contents) :=
  confined_now.bind fun t =>
    (Confined.writeSteps (g := fun _ => ()) (fun _ _ _ => rfl) (sameGroup_seedSteps t contents.zipIdx)
      fun steps _ hne => sameGroup_seedSteps_ne hne t contents.zipIdx steps).bind
    fun _ => confined_listSteps

theorem confined_getStep (i : ℤ) : Confined tenantId sessionId (getStep sessionId i) := by
  refine .read fun s s' h => ?_
  cases i with
  | ofNat n => simp only [PlanStore.row?, h.steps n]
  | negSucc n => rfl

theorem confined_requireStep (missing : String → ℤ → ApiError) (i : ℤ) :
    Confined tenantId sessionId (requireStep missing sessionId i) :=
  (confined_getStep i).bind fun
    | none => .throw _
    | some _ => .pure _

theorem confined_writeStep (i : ℕ) (row : TrackedStep) :
    Confined tenantId sessionId (writeStep sessionId i row) :=
  .writeSteps (g := fun _ => rowToRecord sessionId (i, row)) (f := fun t => t.insert (sessionId, i) row)
    (fun _ _ _ => rfl) (fun _ _ h => h.insert i row) fun _ _ hne => .insert_ne hne _ _ _

theorem confined_updateContent (i : ℤ) (content : String) :
    Confined tenantId sessionId (updateContent clock sessionId i content) :=
  (confined_requireStep _ i).bind fun _ =>
    .ite (confined_now.bind fun _ => confined_writeStep _ _) (.throw _)

theorem confined_transition (i : ℤ) (action : StepAction) :
    Confined tenantId sessionId (transition clock sessionId i action) := by
  refine (confined_requireStep _ i).bind fun current => ?_
  rcases legalTransition current.2.state action with _ | state
  · exact .throw _
  · exact confined_now.bind fun _ => confined_writeStep _ _

theorem confined_appendStep (content : String) :
    Confined tenantId sessionId (appendStep clock sessionId content) := by
  have hnext : ∀ t t' : Table (String × ℕ) TrackedStep, SameGroup sessionId t t' →
      nextIndex t sessionId = nextIndex t' sessionId := by
    intro t t' h
    rw [nextIndex, nextIndex, group_congr h]
  refine confined_now.bind fun now => .writeSteps
    (g := fun t => rowToRecord sessionId (nextIndex t sessionId, ⟨content, .draft, now⟩))
    (f := fun t => t.insert (sessionId, nextIndex t sessionId) ⟨content, .draft, now⟩)
    (fun t t' h => ?_) (fun t t' h => ?_) fun _ _ hne => .insert_ne hne _ _ _
  · rw [hnext t t' h]
  · rw [hnext t t' h]
    exact h.insert _ _

theorem sameGroup_reindexSteps (t : String) (rows : List ((ℕ × TrackedStep) × ℕ))
    (steps steps' : Table (String × ℕ) TrackedStep) (h : SameGroup sessionId steps steps') :
    SameGroup sessionId (reindexSteps sessionId t rows steps)
      (reindexSteps sessionId t rows steps') := by
  refine foldl_rel h fun row _ steps steps' h => ?_
  split
  · exact h
  · exact (h.erase _).insert _ _

theorem sameGroup_reindexSteps_ne {sid : String} (hne : sid ≠ sessionId) (t : String)
    (rows : List ((ℕ × TrackedStep) × ℕ)) (steps : Table (String × ℕ) TrackedStep) :
    SameGroup sid steps (reindexSteps sessionId t rows steps) := by
  refine foldlRecOn rows _ (.refl _ _) fun steps' h row _ => ?_
  split
  · exact h
  · exact h.trans ((SameGroup.erase_ne hne _ _).trans (.insert_ne hne _ _ _))

theorem confined_deleteStep (i : ℤ) :
    Confined tenantId sessionId (deleteStep clock sessionId i) := by
  refine (confined_requireStep _ i).bind fun current => .ite ?_ (.throw _)
  refine (Confined.writeSteps (g := fun _ => ()) (fun _ _ _ => rfl)
    (fun _ _ h => h.erase _) fun _ _ hne => .erase_ne hne _ _).bind fun _ =>
      confined_now.bind fun now => ?_
  refine .writeSteps (g := fun _ => ())
    (f := fun t => reindexSteps sessionId now (t.group sessionId).zipIdx t) (fun _ _ _ => rfl) (fun t t' h => ?_) fun t _ hne => sameGroup_reindexSteps_ne hne now _ t
  rw [group_congr h]
  exact sameGroup_reindexSteps now _ t t' h

/-! ## The endpoints are confined -/

theorem confined_requirePlan : Confined tenantId sessionId (requirePlan sessionId tenantId) :=
  confined_getPlan.bind fun
    | none => .throw _
    | some _ => .pure _

theorem confined_answerPlan : Confined tenantId sessionId (answerPlan sessionId tenantId) :=
  confined_getPlan.bind fun
    | none => .throw _
    | some _ => .pure _

theorem confined_seededRecords :
    Confined tenantId sessionId (seededRecords clock sessionId tenantId) :=
  confined_requirePlan.bind fun _ => confined_ensureSteps _

theorem confined_syncLegacyPlan :
    Confined tenantId sessionId (syncLegacyPlan clock sessionId tenantId) :=
  confined_listSteps.bind fun _ => confined_upsertPlan _

theorem confined_ensureUnderReview (record : StepRecord) :
    Confined tenantId sessionId (ensureUnderReview clock sessionId record) :=
  .ite (confined_transition _ _) (.pure _)

theorem confined_reviewedStep (i : ℤ) :
    Confined tenantId sessionId (reviewedStep clock sessionId tenantId i) :=
  confined_seededRecords.bind fun _ => (confined_requireStep _ i).bind fun _ =>
    confined_ensureUnderReview _

theorem confined_executeSteps : ∀ indices : List ℤ,
    Confined tenantId sessionId (executeSteps clock sessionId indices)
  | [] => .pure _
  | i :: indices => (confined_transition i .execute).bind fun _ =>
    (confined_transition i .complete).bind fun _ => confined_executeSteps indices

theorem confined_listed : Confined tenantId sessionId (do
    let records ← listSteps sessionId
    pure (Answer.plan (toPlanV2 sessionId records))) :=
  confined_listSteps.bind fun _ => .pure _

theorem confined_executeApproved (indices : Option (List ℤ)) :
    Confined tenantId sessionId (executeApprovedStepsV2 clock sessionId tenantId indices) := by
  refine confined_seededRecords.bind fun records => ?_
  rcases executeTargets sessionId records indices with e | targets
  · exact .throw e
  · exact (confined_executeSteps targets).bind fun _ => confined_listed

theorem confined_perform (r : PlanRequest) : Confined r.tenantId r.sessionId (r.perform clock) := by
  obtain ⟨tenantId, subject, sessionId, call⟩ := r
  cases call with
  | getPlan => exact confined_requirePlan.bind fun _ => .pure _
  | putPlan steps => exact (confined_upsertPlan steps).bind fun _ => confined_answerPlan
  | approvePlan _ | rejectPlan _ =>
    exact confined_requirePlan.bind fun _ =>
      (confined_decidePlan _ _ _).bind fun _ => confined_answerPlan
  | getPlanV2 =>
    exact confined_seededRecords.bind fun records =>
      (Confined.mapM confined_ensureUnderReview records).bind fun _ => .pure _
  | getStepV2 i => exact (confined_reviewedStep i).bind fun _ => .pure _
  | updateStepV2 i content =>
    exact (confined_reviewedStep i).bind fun _ =>
      (confined_updateContent i content).bind fun _ => .pure _
  | approveStepV2 i | rejectStepV2 i =>
    exact (confined_reviewedStep i).bind fun _ => (confined_transition i _).bind fun _ => .pure _
  | executeApprovedV2 indices => exact confined_executeApproved indices
  | addStepV2 content =>
    exact confined_seededRecords.bind fun _ => (confined_appendStep content).bind fun _ =>
      confined_syncLegacyPlan.bind fun _ => confined_listed
  | removeStepV2 i =>
    exact confined_seededRecords.bind fun _ => (confined_deleteStep i).bind fun _ =>
      confined_syncLegacyPlan.bind fun _ => confined_listed

/-! ## Who is let in -/

/-- Without a document of the tenant the computation stops at once, with the same error always. -/
def Guarded (tenantId sessionId : String) {α : Type} (m : PlanM α) : Prop :=
  ∀ s, ¬ Mine tenantId sessionId s →
    exec m s = (.error (if tenantId = "" then .emptyTenant else .planNotFound sessionId), s)

theorem Guarded.bind {α β : Type} {m : PlanM α} (hm : Guarded tenantId sessionId m)
    (f : α → PlanM β) : Guarded tenantId sessionId (m >>= f) := by
  intro s hs
  rw [exec_bind, hm s hs]

theorem guarded_requirePlan : Guarded tenantId sessionId (requirePlan sessionId tenantId) := by
  intro s hs
  rw [requirePlan, getPlan, exec_bind]
  by_cases ht : tenantId = ""
  · rw [if_pos ht, if_pos ht]
    rfl
  have hnone : (s.docs.lookup sessionId).filter (fun row => row.tenantId = tenantId) = none := by
    rw [Option.filter_eq_none_iff]
    intro row hrow hrt
    exact hs ⟨row, hrow, of_decide_eq_true hrt⟩
  rw [if_neg ht, if_neg ht, exec_of, hnone]
  rfl

theorem guarded_seededRecords :
    Guarded tenantId sessionId (seededRecords clock sessionId tenantId) :=
  guarded_requirePlan.bind _

theorem guarded_reviewedStep (i : ℤ) :
    Guarded tenantId sessionId (reviewedStep clock sessionId tenantId i) :=
  guarded_seededRecords.bind _

theorem guarded_perform {r : PlanRequest} (h : ∀ steps, r.call ≠ .putPlan steps) :
    Guarded r.tenantId r.sessionId (r.perform clock) := by
  obtain ⟨tenantId, subject, sessionId, call⟩ := r
  cases call with
  | putPlan steps => exact absurd rfl (h steps)
  | getPlan | approvePlan | rejectPlan => exact guarded_requirePlan.bind _
  | getPlanV2 | executeApprovedV2 | addStepV2 | removeStepV2 => exact guarded_seededRecords.bind _
  | getStepV2 | updateStepV2 | approveStepV2 | rejectStepV2 => exact (guarded_reviewedStep _).bind _

theorem mine_of_put {r : PlanRequest} {steps : List String} (h : r.call = .putPlan steps)
    (s : PlanStore) : Mine r.tenantId r.sessionId (s.step clock r) := by
  obtain ⟨tenantId, subject, sessionId, call⟩ := r
  obtain rfl : call = .putPlan steps := h
  have hanswer : Confined tenantId sessionId (answerPlan sessionId tenantId) := confined_answerPlan
  exact (hanswer.moves _).mine ⟨_, lookup_insert _, rfl⟩

end Statements

/-! ## Another tenant's readings -/

section Others

variable {clock : ℕ → String} {s : PlanStore} {r : PlanRequest} {tenantId : String}

theorem within_step (clock : ℕ → String) (s : PlanStore) (r : PlanRequest) :
    Within r.tenantId r.sessionId s (s.step clock r) :=
  (confined_perform r).moves s

theorem plansOf_step_ne {sid : String} (hne : sid ≠ r.sessionId) :
    plansOf tenantId (s.step clock r) sid = plansOf tenantId s sid := by
  have hwithin := within_step clock s r
  have hsteps : ∀ i, (s.step clock r).steps.lookup (sid, i) = s.steps.lookup (sid, i) :=
    fun i => (hwithin.steps sid hne i).symm
  simp only [plansOf, hwithin.docs sid hne, hsteps]

theorem plansOf_step_of_guarded (hput : ∀ steps, r.call ≠ .putPlan steps)
    (ht : r.tenantId ≠ tenantId) :
    plansOf tenantId (s.step clock r) r.sessionId = plansOf tenantId s r.sessionId := by
  by_cases hmine : Mine r.tenantId r.sessionId s
  · have hafter := (within_step clock s r).mine hmine
    rw [plansOf_eq_none.mpr fun h => ht (hafter.unique h),
      plansOf_eq_none.mpr fun h => ht (hmine.unique h)]
  · have hstep : s.step clock r = s := by rw [PlanStore.step, guarded_perform hput s hmine]
    rw [hstep]

theorem readable_step_iff (ht : r.tenantId ≠ tenantId) :
    readable tenantId (s.step clock r) = readable tenantId s ↔ Spares tenantId s r := by
  have happrovals := (within_step clock s r).approvals tenantId (Ne.symm ht)
  have hiff : readable tenantId (s.step clock r) = readable tenantId s ↔
      plansOf tenantId (s.step clock r) r.sessionId = plansOf tenantId s r.sessionId := by
    simp only [readable, happrovals, Prod.mk.injEq, and_true]
    refine ⟨fun h => congrFun h r.sessionId, fun h => funext fun sid => ?_⟩
    by_cases hne : sid = r.sessionId
    · rw [hne]
      exact h
    · exact plansOf_step_ne hne
  rw [hiff]
  by_cases hput : ∃ steps, r.call = .putPlan steps
  · obtain ⟨steps, hcall⟩ := hput
    rw [plansOf_eq_none.mpr fun h => ht ((mine_of_put hcall s).unique h), eq_comm, plansOf_eq_none]
    simp only [Spares, hcall]
  have hno : ∀ steps, r.call ≠ .putPlan steps := fun steps h => hput ⟨steps, h⟩
  refine iff_of_true (plansOf_step_of_guarded hno ht) ?_
  unfold Spares
  split
  · rename_i steps hcall
    exact absurd hcall (hno steps)
  · trivial

end Others

/-! ## The caller's answers -/

section Answers

variable {clock : ℕ → String} {s s' : PlanStore} {r : PlanRequest}

theorem mine_iff_of_plansOf_eq {sid : String}
    (h : plansOf tenantId s sid = plansOf tenantId s' sid) :
    Mine tenantId sid s ↔ Mine tenantId sid s' := by
  rw [← not_iff_not, ← plansOf_eq_none, ← plansOf_eq_none, h]

theorem sameSession_of_mine {sid : String} (hticks : s.ticks = s'.ticks)
    (h : plansOf tenantId s sid = plansOf tenantId s' sid) (hmine : Mine tenantId sid s) :
    SameSession sid s s' := by
  obtain ⟨row', hrow', ht'⟩ := (mine_iff_of_plansOf_eq h).mp hmine
  obtain ⟨row, hrow, ht⟩ := hmine
  rw [plansOf_of_mine hrow ht, plansOf_of_mine hrow' ht'] at h
  obtain ⟨rfl, hsteps⟩ := Prod.mk.inj (Option.some.inj h)
  exact ⟨hticks, hrow.trans hrow'.symm, fun i => congrFun hsteps i⟩

theorem answer_eq (clock : ℕ → String) (hplans : plansOf r.tenantId s = plansOf r.tenantId s')
    (hticks : s.ticks = s'.ticks) (hs : OwnOrNew r.tenantId s r) (hs' : OwnOrNew r.tenantId s' r) :
    (exec (r.perform clock) s).1 = (exec (r.perform clock) s').1 ∧
      plansOf r.tenantId (s.step clock r) = plansOf r.tenantId (s'.step clock r) ∧
      (s.step clock r).ticks = (s'.step clock r).ticks := by
  have hother : ¬ Mine r.tenantId r.sessionId s → ¬ Mine r.tenantId r.sessionId s' :=
    mt (mine_iff_of_plansOf_eq (congrFun hplans _)).mpr
  -- it is enough that the session is the same, or that the caller is turned away
  suffices h : SameSession r.sessionId s s' ∨
      (¬ Mine r.tenantId r.sessionId s ∧ ∀ steps, r.call ≠ .putPlan steps) by
    rcases h with hsame | ⟨hmine, hput⟩
    · obtain ⟨hres, hend⟩ := (confined_perform r).agrees s s' hsame
      refine ⟨hres, funext fun sid => ?_, hend.ticks⟩
      by_cases hne : sid = r.sessionId
      · subst hne
        have hdocs : (s.step clock r).docs.lookup r.sessionId
            = (s'.step clock r).docs.lookup r.sessionId := hend.docs
        have hsteps : ∀ i, (s.step clock r).steps.lookup (r.sessionId, i)
            = (s'.step clock r).steps.lookup (r.sessionId, i) := hend.steps
        simp only [plansOf, hdocs, hsteps]
      · rw [plansOf_step_ne hne, plansOf_step_ne hne, hplans]
    · have hguard : Guarded r.tenantId r.sessionId (r.perform clock) := guarded_perform hput
      simp only [PlanStore.step, hguard s hmine, hguard s' (hother hmine), true_and]
      exact ⟨hplans, hticks⟩
  by_cases hmine : Mine r.tenantId r.sessionId s
  · exact .inl (sameSession_of_mine hticks (congrFun hplans _) hmine)
  by_cases hput : ∃ steps, r.call = .putPlan steps
  · -- both find nothing at all
    obtain ⟨steps, hcall⟩ := hput
    simp only [OwnOrNew, hcall] at hs hs'
    obtain ⟨hdoc, hsteps⟩ := hs.resolve_left hmine
    obtain ⟨hdoc', hsteps'⟩ := hs'.resolve_left (hother hmine)
    exact .inl ⟨hticks, hdoc.trans hdoc'.symm, fun i => (hsteps i).trans (hsteps' i).symm⟩
  · exact .inr ⟨hmine, fun steps h => hput ⟨steps, h⟩⟩

theorem answers_eq {tenantId : String} : ∀ {rs : List PlanRequest} {s s' : PlanStore},
    (∀ r ∈ rs, r.tenantId = tenantId) → plansOf tenantId s = plansOf tenantId s' →
    s.ticks = s'.ticks → Meets (PlanStore.step clock) (OwnOrNew tenantId) s rs →
    Meets (PlanStore.step clock) (OwnOrNew tenantId) s' rs →
    s.answers clock rs = s'.answers clock rs
  | [], _, _, _, _, _, _, _ => rfl
  | r :: rs, s, s', ht, hplans, hticks, hs, hs' => by
    obtain rfl := ht r mem_cons_self
    obtain ⟨hres, hplans', hticks'⟩ := answer_eq clock hplans hticks hs.1 hs'.1
    rw [PlanStore.answers, PlanStore.answers, hres, answers_eq
      (fun r' hr' => ht r' (mem_cons_of_mem _ hr')) hplans' hticks' hs.2 hs'.2]

end Answers

/-- For every store and every sequence of requests of one tenant: what any other tenant can read
stays as it is throughout exactly if no PUT meets a document of theirs; and if every PUT meets a
document of the caller's, or neither document nor steps, the answers are those in any other store
that holds the same plans of the caller. -/
theorem plans_isolated (clock : ℕ → String) (tenantId : String) (s : PlanStore)
    (rs : List PlanRequest) (htenant : ∀ r ∈ rs, r.tenantId = tenantId) :
    (∀ other, other ≠ tenantId →
      (Throughout (PlanStore.step clock) (fun s' => readable other s' = readable other s) s rs ↔
        Meets (PlanStore.step clock) (Spares other) s rs)) ∧
    ∀ s', plansOf tenantId s = plansOf tenantId s' → s.ticks = s'.ticks →
      Meets (PlanStore.step clock) (OwnOrNew tenantId) s rs →
      Meets (PlanStore.step clock) (OwnOrNew tenantId) s' rs →
      s.answers clock rs = s'.answers clock rs := by
  refine ⟨fun other hother => ?_, fun s' hplans hticks hs hs' =>
    answers_eq htenant hplans hticks hs hs'⟩
  refine throughout_iff_meets (J := fun _ => True) (fun _ _ _ _ _ => trivial)
    (fun s₁ r _ hr hread => ?_) htenant trivial rfl
  have hne : r.tenantId ≠ other := by
    rw [hr]
    exact Ne.symm hother
  rw [← hread]
  exact readable_step_iff hne

def acmePlans : PlanStore :=
  { docs := (∅ : Table String PlanRow).insert "s1" ⟨["rotate keys"], .draft, "t0", "acme"⟩
    steps := (∅ : Table (String × ℕ) TrackedStep).insert ("s1", 0) ⟨"rotate keys", .underReview, "t0"⟩ }

def putAndList (sessionId : String) : List PlanRequest :=
  [⟨"globex", "g", sessionId, .putPlan ["hello"]⟩, ⟨"globex", "g", sessionId, .getPlanV2⟩]

theorem plans_isolated_own_session :
    Throughout (PlanStore.step fun _ => "t") (fun s' => readable "acme" s' = readable "acme" acmePlans)
        acmePlans (putAndList "s2") ∧
      acmePlans.answers (fun _ => "t") (putAndList "s2") =
        ({} : PlanStore).answers (fun _ => "t") (putAndList "s2") := by
  have htenant : ∀ r ∈ putAndList "s2", r.tenantId = "globex" := by simp [putAndList]
  have h := plans_isolated (fun _ => "t") "globex" acmePlans (putAndList "s2") htenant
  have hnone : ∀ sid, ¬ Mine "globex" sid acmePlans := by
    rintro sid ⟨row, hrow, ht⟩
    by_cases hsid : sid = "s1"
    · subst hsid
      cases hrow
      exact absurd ht (by decide)
    · rw [acmePlans, lookup_insert_ne hsid] at hrow
      cases hrow
  refine ⟨(h.1 "acme" (by decide)).mpr ⟨?_, trivial, trivial⟩,
    h.2 {} (funext fun sid => ?_) rfl ⟨?_, trivial, trivial⟩ ⟨?_, trivial, trivial⟩⟩
  · rintro ⟨row, hrow, -⟩
    cases hrow
  · rw [plansOf_eq_none.mpr (hnone sid)]
    rfl
  · refine Or.inr ⟨rfl, fun i => ?_⟩
    rfl
  · exact Or.inr ⟨rfl, fun i => rfl⟩

/-- In the session of `acme` it takes the plan away, and reads the step that was tracked there. -/
theorem plan_taken_over :
    plansOf "acme" acmePlans "s1" ≠ none ∧
      plansOf "acme" ((putAndList "s1").foldl (PlanStore.step fun _ => "t") acmePlans) "s1" = none ∧
      acmePlans.answers (fun _ => "t") (putAndList "s1") =
        [.ok (.document ⟨"s1", ["hello"], .draft, "t"⟩),
          .ok (.plan ⟨"s1", .underReview, [⟨"s1", 0, "rotate keys", .underReview, "t0"⟩]⟩)] := by
  refine ⟨?_, ?_, ?_⟩
  · rw [Ne, plansOf_eq_none, not_not]
    exact ⟨_, rfl, rfl⟩
  · rw [plansOf_eq_none]
    rintro ⟨row, hrow, ht⟩
    cases hrow
    exact absurd ht (by decide)
  · rfl

end AutoDev.Plans
