/-
# `AutoDev.Execution.DenyAndStop` — after a decision has timed out

The documents call the fallback of a timed-out decision deny-and-stop.  The
source denies the actions of the task and goes on with the next one: neither
the loop of `_process_tasks` nor a later resume looks back
(`later_task_runs_after_timeout`).

So the task itself stops, whatever others do: its list is denied as a whole,
which keeps it out of the repair pass, and a repair whose write times out
validates nothing again.  The later tasks stop for lack of anything to run, and
that is the condition of `timeout_stops`: no request of theirs finds an APPROVED
decision, and the policy allows no action of theirs that is put before it.
-/
import AutoDev.Execution.Discipline

namespace AutoDev.Execution

/-- A handed-over action is of a task that the time-out does not bar. -/
def Stops (bars : ℕ → ℕ → Prop) : Entry → Entry → Prop
  | .handed turn _ _, .observedTimeout timedOut => ¬ bars timedOut turn
  | _, _ => True

instance (bars : ℕ → ℕ → Prop) [DecidableRel bars] : DecidableRel (Stops bars)
  | .handed turn _ _, .observedTimeout timedOut => inferInstanceAs (Decidable (¬ bars timedOut turn))
  | .handed _ _ _, .handed _ _ _ | .observedTimeout _, _ => .isTrue trivial

/-- After a timed-out decision nothing is handed over of the tasks that it bars.  The log has the
newest entry first. -/
def TimeoutStops (bars : ℕ → ℕ → Prop) (s : RunState) : Prop := s.log.Pairwise (Stops bars)

instance (bars : ℕ → ℕ → Prop) [DecidableRel bars] (s : RunState) :
    Decidable (TimeoutStops bars s) :=
  inferInstanceAs (Decidable (s.log.Pairwise (Stops bars)))

def Entry.Bars (bars : ℕ → ℕ → Prop) (turn : ℕ) : Entry → Prop
  | .observedTimeout timedOut => bars timedOut turn
  | .handed _ _ _ => False

instance (bars : ℕ → ℕ → Prop) [DecidableRel bars] (turn : ℕ) :
    ∀ e : Entry, Decidable (e.Bars bars turn)
  | .observedTimeout timedOut => inferInstanceAs (Decidable (bars timedOut turn))
  | .handed _ _ _ => .isFalse id

/-- A decision was seen to have timed out that bars the task. -/
def Barred (bars : ℕ → ℕ → Prop) (s : RunState) (turn : ℕ) : Prop := ∃ e ∈ s.log, e.Bars bars turn

instance (bars : ℕ → ℕ → Prop) [DecidableRel bars] (s : RunState) (turn : ℕ) :
    Decidable (Barred bars s turn) :=
  inferInstanceAs (Decidable (∃ e ∈ s.log, e.Bars bars turn))

/-- After the time-out of an earlier task, no request of a task finds an APPROVED decision and the
policy allows no action of it. -/
def NothingLater (o : Orchestrator) : Cmd → RunState → Prop
  | .request q, s => Barred (· < ·) s q.turn → ∀ d ∈ s.decisions q.taskId, d.status ≠ .approved
  | .evaluate turn a, s => Barred (· < ·) s turn → ¬ o.settings.Allowed s.policy a
  | _, _ => True

instance (o : Orchestrator) : ∀ c s, Decidable (NothingLater o c s)
  | .request q, s => inferInstanceAs
      (Decidable (Barred (· < ·) s q.turn → ∀ d ∈ s.decisions q.taskId, d.status ≠ .approved))
  | .evaluate turn a, s => inferInstanceAs
      (Decidable (Barred (· < ·) s turn → ¬ o.settings.Allowed s.policy a))
  | .take, _ | .provision, _ | .preview _, _ | .run _ _ _, _ | .readText _, _ | .coder _, _
  | .raise, _ => .isTrue trivial

variable {o : Orchestrator} {s s' : RunState} {turn : ℕ} {bars : ℕ → ℕ → Prop}

variable {c : Cmd} {r : Reply c} {guard : Cmd → RunState → Prop}

variable {allowed : Act → Prop}

theorem barred_acts (acts : List Act) :
    Barred bars (acts.foldl Act.apply s) turn ↔ Barred bars s turn := by
  unfold Barred
  rw [(RunState.Onward.acts s acts).log]

theorem not_barred_sem (h : ¬ Barred bars s turn) (hc : Sem o allowed guard c s r s')
    (hn : ∀ q, c = .request q → ¬ bars q.turn turn) : ¬ Barred bars s' turn := by
  obtain ⟨acts, -, -, he⟩ := hc
  rintro ⟨e, hmem, hb⟩
  rw [← barred_acts acts] at h
  rcases he.log with hl | ⟨q, hq, hl⟩ | ⟨t, m, a, -, hl⟩ <;> rw [hl] at hmem
  · exact h ⟨e, hmem, hb⟩
  · rcases List.mem_cons.mp hmem with rfl | hmem
    · exact hn q hq hb
    · exact h ⟨e, hmem, hb⟩
  · rcases List.mem_cons.mp hmem with rfl | hmem
    · exact hb
    · exact h ⟨e, hmem, hb⟩

theorem not_barred_request {q : DecisionRequest} {d : PendingDecision} (h : ¬ Barred bars s turn)
    (hc : Sem o allowed guard (.request q) s d s') (hd : d.status ≠ .timedOut) :
    ¬ Barred bars s' turn := by
  obtain ⟨acts, -, -, now, rfl, rfl⟩ := hc
  rw [← barred_acts acts] at h
  unfold Barred RunState.observe at *
  rwa [if_neg hd, log_request]

theorem stops_of_not_barred (h : ¬ Barred bars s turn) (mode : ExecutionMode)
    (a : ExecutionAction) : ∀ e ∈ s.log, Stops bars (.handed turn mode a) e
  | .observedTimeout _, he => fun hb => h ⟨_, he, hb⟩
  | .handed _ _ _, _ => trivial

theorem TimeoutStops.sem (hs : TimeoutStops bars s) (hc : Sem o allowed guard c s r s')
    (hrun : ∀ t m a, c = .run t m a → ¬ Barred bars s t) : TimeoutStops bars s' := by
  obtain ⟨acts, -, -, he⟩ := hc
  unfold TimeoutStops at *
  rw [← (RunState.Onward.acts s acts).log] at hs
  rcases he.log with hl | ⟨q, -, hl⟩ | ⟨t, m, a, hc, hl⟩ <;> rw [hl]
  · exact hs
  · exact List.pairwise_cons.mpr ⟨fun _ _ => trivial, hs⟩
  · exact List.pairwise_cons.mpr
      ⟨stops_of_not_barred ((barred_acts acts).not.mpr (hrun t m a hc)) m a, hs⟩

theorem TimeoutStops.act (hs : TimeoutStops bars s) (a : Act) : TimeoutStops bars (a.apply s) := by
  unfold TimeoutStops
  rwa [(RunState.Onward.act s a).log]

/-! ## The task itself -/

/-- Time-outs are of tasks that were taken up. -/
def RunState.Numbered (s : RunState) : Prop := ∀ turn, .observedTimeout turn ∈ s.log → turn < s.turn

theorem RunState.Numbered.sem (h : s.Numbered) (hc : Sem o allowed guard c s r s')
    (hq : ∀ q, c = .request q → q.turn < s.turn) : s'.Numbered := by
  intro turn hmem
  refine Nat.lt_of_lt_of_le ?_ hc.turn_le
  obtain ⟨acts, -, -, he⟩ := hc
  have hlog := (RunState.Onward.acts s acts).log
  rcases he.log with hl | ⟨q, hc, hl⟩ | ⟨t, m, a, -, hl⟩ <;> rw [hl, hlog] at hmem
  · exact h turn hmem
  · rcases List.mem_cons.mp hmem with e | hmem
    · obtain rfl := Entry.observedTimeout.inj e
      exact hq q hc
    · exact h turn hmem
  · exact h turn ((List.mem_cons.mp hmem).resolve_left Entry.noConfusion)

theorem RunState.Numbered.not_barred (h : s.Numbered) : ¬ Barred (· = ·) s s.turn := by
  rintro ⟨e, hmem, hb⟩
  cases e with
  | handed _ _ _ => exact hb
  | observedTimeout timedOut => exact absurd hb (h timedOut hmem).ne

/-- Deny-and-stop of the task itself: it is open until its own decision has timed out. -/
def ownDiscipline (o : Orchestrator) (guard : Cmd → RunState → Prop) :
    Discipline o (fun _ => True) guard where
  Inv s := TimeoutStops (· = ·) s ∧ s.Numbered
  May t _ _ s := ¬ Barred (· = ·) s t
  Gate t _ _ s := ¬ Barred (· = ·) s t
  Open t s := ¬ Barred (· = ·) s t
  keep hs hc hrun hq := ⟨hs.1.sem hc hrun, hs.2.sem hc hq⟩
  may_evaluate h hc := not_barred_sem h hc (by rintro _ ⟨⟩)
  may_run h hc := not_barred_sem h hc (by rintro _ ⟨⟩)
  gate_keep h hc hn := not_barred_sem h hc fun q e => absurd e (hn q)
  open_keep h hc hn := not_barred_sem h hc fun q e => absurd e (hn q)
  gate_may h hc _ := not_barred_sem h hc (by rintro _ ⟨⟩)
  open_take hs hc := by
    obtain ⟨rfl, -⟩ := hc.turn_take
    exact not_barred_sem hs.2.not_barred hc (by rintro _ ⟨⟩)
  open_request {t q s d s'} h hc hd := by
    by_cases ht : q.turn = t
    · exact not_barred_request h hc (hd ht)
    · exact not_barred_sem h hc (by rintro _ ⟨⟩; exact ht)
  gate_request _ _ ho := ho
  gate_policy _ ho := ho
  approved _ _ _ ho _ _ := ⟨ho, ho⟩

/-! ## The later tasks -/

/-- Deny-and-stop of the later tasks.  Any list may be put before the policy: the condition on what
is approved and allowed does the rest. -/
def laterDiscipline (o : Orchestrator) : Discipline o (fun _ => True) (NothingLater o) where
  Inv := TimeoutStops (· < ·)
  May t _ _ s := ¬ Barred (· < ·) s t
  Gate _ _ _ _ := True
  Open _ _ := True
  keep hs hc hrun _ := hs.sem hc hrun
  may_evaluate h hc := not_barred_sem h hc (by rintro _ ⟨⟩)
  may_run h hc := not_barred_sem h hc (by rintro _ ⟨⟩)
  gate_keep _ _ _ := trivial
  open_keep _ _ _ := trivial
  gate_may {t m a s d s'} _ hc hd := by
    obtain ⟨acts, -, hg, hr, rfl⟩ := hc
    exact fun ht => hg ht ⟨d, hr.symm, hd⟩
  open_take _ _ := trivial
  open_request _ _ _ := trivial
  gate_request _ _ _ := trivial
  gate_policy _ _ := trivial
  approved {q s d s'} _ hc hd _ a _ := by
    obtain ⟨acts, -, hg, now, rfl, rfl⟩ := hc
    obtain ⟨hrow, hsame⟩ := request_approved _ now q _ hd
    refine ⟨fun ht => hg ?_ _ hrow hd, trivial⟩
    -- an APPROVED answer is not a time-out, so the log is the one before the request
    rwa [hsame, RunState.observe, if_neg (by rw [hd]; exact DecisionStatus.noConfusion)] at ht

theorem timeoutStops_le (heq : TimeoutStops (· = ·) s) (hlt : TimeoutStops (· < ·) s) :
    TimeoutStops (· ≤ ·) s := by
  refine (heq.and hlt).imp fun {e e'} h => ?_
  cases e with
  | observedTimeout _ => trivial
  | handed turn _ _ =>
    cases e' with
    | handed _ _ _ => trivial
    | observedTimeout timedOut => exact fun hle => hle.lt_or_eq.elim h.2 h.1

theorem timeoutStops_own {modes : ExecutionMode → Prop} (h : Reached o modes guard s) :
    TimeoutStops (· = ·) s := by
  have hs : (ownDiscipline o guard).Inv s := by
    refine Discipline.of_reached (fun policy => ⟨List.Pairwise.nil, fun _ ht => ?_⟩)
      (fun s a hs => ⟨hs.1.act a, ?_⟩) h
    · exact absurd ht List.not_mem_nil
    · unfold RunState.Numbered
      rw [(RunState.Onward.act s a).log, (RunState.Onward.act s a).turn]
      exact hs.2
  exact hs.1

/-- **A timed-out decision stops its task**: nothing of it is handed over any more, in any run.  It
stops the later tasks as long as there is nothing left of theirs that is approved or allowed. -/
theorem timeout_stops {o : Orchestrator} {s : RunState} :
    (Reached o (fun _ => True) (fun _ _ => True) s → TimeoutStops (· = ·) s) ∧
    (Reached o (· ≠ .auto) (NothingLater o) s → TimeoutStops (· ≤ ·) s) := by
  refine ⟨timeoutStops_own, fun h => timeoutStops_le (timeoutStops_own h) ?_⟩
  have hs : (laterDiscipline o).Inv s :=
    Discipline.of_reached (fun policy => List.Pairwise.nil) (fun s a hs => hs.act a) h
  exact hs

/-! ## A sweep between two batches -/

def validationOnly : Policy := { rules := [⟨.validation, .allow, none⟩] }

/-- The plan is executed in hybrid mode; the decision on the file times out, and the run is resumed
with the tasks `left`. -/
def sweptRun (check : Cmd → RunState → Bool) (plan left : List ExecutionTask) : RunState :=
  let o := demoOrchestrator
  let s₁ := o.playBatch succeedingScript check .hybrid plan { policy := validationOnly }
  o.playBatch succeedingScript check .hybrid left (Act.apply s₁ (.expireDue 3600000000))

theorem sweptRun_reached {modes : ExecutionMode → Prop} {check : Cmd → RunState → Bool}
    (plan left : List ExecutionTask) (hg : ∀ c s, check c s = true → guard c s)
    (hm : modes .hybrid) :
    Reached demoOrchestrator modes guard (sweptRun check plan left) :=
  .playBatch (.act _ (.playBatch (.start _) _ _ _ hg hm)) _ _ _ hg hm

/-- The task after the one that timed out is run. -/
theorem later_task_runs_after_timeout :
    ∃ s, Reached demoOrchestrator (· ≠ .auto) (fun _ _ => True) s ∧ ¬ TimeoutStops (· ≤ ·) s := by
  have hno : ¬ TimeoutStops (· ≤ ·) (sweptRun anyCommand [writeTask, validateTask]
      [writeTask, validateTask]) := by
    decide +kernel
  exact ⟨_, sweptRun_reached _ _ (fun _ _ _ => trivial) ExecutionMode.noConfusion, hno⟩

/-- Where the task that times out is the last one, what ran before it is all that ever runs. -/
theorem timeout_stops_last :
    let s := sweptRun (fun c s => decide (NothingLater demoOrchestrator c s))
      [validateTask, writeTask] [writeTask]
    s.log.length = 2 ∧ Barred (· ≤ ·) s 2 ∧ TimeoutStops (· ≤ ·) s :=
  ⟨by decide +kernel, by decide +kernel, timeout_stops.2
    (sweptRun_reached _ _ (fun _ _ h => of_decide_eq_true h) ExecutionMode.noConfusion)⟩

end AutoDev.Execution
