/-
# `AutoDev.Flows.Decisions` — concurrent decisions of one pause

`decide` and `expire_due` read the run and its waiting step, check, and then
write commit by commit, without a comparison: two calls that read the same pause
both write, and the nodes behind the pause run twice (`two_decisions`).

A call that completes its step only while the run it read is still the stored
one, waiting with a pause that names this step, TAKES the pause; then everything
up to the end of the run or its next pause is that call's alone.  That is the
pattern of `AutoDev.Lib.Exclusive`.
-/
import AutoDev.Lib.Exclusive
import AutoDev.Flows.Human

namespace AutoDev.Flows

open Prog Exclusive Discipline List

/-! ## What a call sees and takes -/

inductive HumanCall where
  | decide (decision : Obj) (actor : String)
  | expire (moment : Option ℚ)

def HumanCall.prog (cfg : EngineConfig) (m : FlowManifest) : HumanCall → P Unit
  | .decide d actor => do
    let _ ← decideRun cfg m d actor
    pure ()
  | .expire moment => do
    let _ ← expireDue cfg m moment
    pure ()

def rowSeen : (c : Cmd) → Reply c → Option FlowRunRecord → Option FlowRunRecord
  | .getRun, row, _ => row
  | .listWaiting, rows, _ => rows.head?
  | _, _, row => row

def completion? : Cmd → Option (ℕ × Option Obj)
  | .completeStep i .completed o _ => some (i, o)
  | _ => none

def StepIs (i : ℕ) (status : StepStatus) (s : RunStore) : Prop :=
  ∃ st ∈ s.steps, st.stepId = i ∧ st.status = status

structure LivePause (i : ℕ) (s : RunStore) (run : FlowRunRecord) : Prop where
  row : s.run = some run
  waits : run.status = .waitingHuman
  pause : run.state.pause.map (·.stepId) = some i
  step : StepIs i .waitingHuman s

/-- The completion of a step by a call that has read `row`: the stored run is still that row, and it
waits at this step. -/
def StillWaits (row : Option FlowRunRecord) (c : Cmd) (s : RunStore) : Prop :=
  ∃ i run, (completion? c).map (·.1) = some i ∧ row = some run ∧ LivePause i s run

instance (i : ℕ) (status : StepStatus) (s : RunStore) : Decidable (StepIs i status s) :=
  inferInstanceAs (Decidable (∃ st ∈ s.steps, _))

theorem livePause_iff {i : ℕ} {s : RunStore} {run : FlowRunRecord} :
    LivePause i s run ↔ s.run = some run ∧ run.status = .waitingHuman ∧
      run.state.pause.map (·.stepId) = some i ∧ StepIs i .waitingHuman s :=
  ⟨fun h => ⟨h.row, h.waits, h.pause, h.step⟩, fun h => ⟨h.1, h.2.1, h.2.2.1, h.2.2.2⟩⟩

instance (i : ℕ) (s : RunStore) (run : FlowRunRecord) : Decidable (LivePause i s run) :=
  decidable_of_iff' _ livePause_iff

instance (row : Option FlowRunRecord) (c : Cmd) (s : RunStore) : Decidable (StillWaits row c s) :=
  match hc : completion? c, row with
  | some a, some run => decidable_of_iff (LivePause a.1 s run)
      ⟨fun h => ⟨a.1, run, by rw [hc]; rfl, rfl, h⟩, by
        rintro ⟨i, run', hi, hrun, h⟩
        cases hrun
        rw [hc] at hi
        cases hi
        exact h⟩
  | none, _ => isFalse (by
      rintro ⟨i, run, hi, -⟩
      rw [hc] at hi
      cases hi)
  | some _, none => isFalse (by
      rintro ⟨i, run, -, hrun, -⟩
      cases hrun)

/-! ## What is counted -/

/-- The event is about the decision or the expiry of the step. -/
def FlowEvent.decides (i : ℕ) : FlowEvent → Bool
  | .decisionRecorded _ j _ _ | .timeoutExpired _ j _ => j == i
  | _ => false

def RunStore.decisions (s : RunStore) (i : ℕ) : ℕ := s.events.countP (·.decides i)

/-- Activations: whether the run has been routed since the last one, and how many were started
without that.  A new run is routed to its first node. -/
structure Activity where
  routed : Bool := true
  repeated : ℕ := 0

/-- An event is appended.  An activation starts with its first attempt. -/
def Activity.next (a : Activity) : FlowEvent → Activity
  | .stepStarted _ _ 1 => if a.routed then { a with routed := false }
      else { a with repeated := a.repeated + 1 }
  | .stepCompleted _ _ _ _ _ => { a with routed := true }
  | _ => a

def RunStore.activity (s : RunStore) : Activity := s.events.foldl Activity.next {}

@[simp] theorem RunStore.decisions_appendEvent (s : RunStore) (e : FlowEvent) (i : ℕ) :
    (s.appendEvent e).decisions i = s.decisions i + if e.decides i then 1 else 0 := by
  simp [RunStore.decisions, countP_append, countP_singleton]

@[simp] theorem RunStore.activity_appendEvent (s : RunStore) (e : FlowEvent) :
    (s.appendEvent e).activity = s.activity.next e := by
  simp [RunStore.activity]

/-- An event that is neither about a decision nor about an activation. -/
def FlowEvent.neutral : FlowEvent → Bool
  | .stepStarted _ _ _ | .stepCompleted _ _ _ _ _ => false
  | .decisionRecorded _ _ _ _ | .timeoutExpired _ _ _ => false
  | _ => true

theorem FlowEvent.neutral_decides {e : FlowEvent} (h : e.neutral = true) (i : ℕ) :
    e.decides i = false := by
  cases e with
  | decisionRecorded _ _ _ _ | timeoutExpired _ _ _ => cases h
  | _ => rfl

theorem FlowEvent.neutral_next {e : FlowEvent} (h : e.neutral = true) (a : Activity) :
    a.next e = a := by
  cases e with
  | stepStarted _ _ _ | stepCompleted _ _ _ _ _ => cases h
  | _ => rfl

/-! ## The discipline -/

section Discipline

/- The counts start from those of the store `s₀`. -/
variable (env : Env) (s₀ : RunStore)

def MayDrive (a : ℕ × Option Obj) : Cmd → RunStore → Prop
  | .completeStep i _ _ _, s => StepIs i .running s
  | .appendEvent e, s => (∀ i, e.decides i = true → i = a.1 ∧ s.decisions i = s₀.decisions i) ∧
      (s.activity.next e).repeated = s.activity.repeated
  | .updateRun _, _ | .createStep _ _ _ _, _ | .getRun, _ => True
  | .clock, _ | .now, _ | .sleep _, _ | .invoke _, _ => True
  | _, _ => False

/-- Nothing is repeated so far: a step is decided at most once, and only when it is completed, and
every activation was routed to. -/
structure NothingTwice (s : RunStore) : Prop where
  once : ∀ i, s.decisions i ≤ s₀.decisions i + 1
  kept : ∀ i, s₀.decisions i ≤ s.decisions i
  completed : ∀ i, s₀.decisions i < s.decisions i → StepIs i .completed s
  activations : s.activity.repeated = s₀.activity.repeated

def CompletedAs (a : ℕ × Option Obj) (s : RunStore) : Prop :=
  ∃ st ∈ s.steps, st.stepId = a.1 ∧ st.status = .completed ∧ st.output = a.2

/-- The two stores differ in neutral events and handler calls only. -/
structure SameButNeutral (s s' : RunStore) : Prop where
  run : s'.run = s.run
  steps : s'.steps = s.steps
  decisions : ∀ i, s'.decisions i = s.decisions i
  activity : s'.activity = s.activity

def humanDiscipline :
    Discipline Cmd Reply RunStore (Option FlowRunRecord) (ℕ × Option Obj) ℕ where
  Sem := Sem env
  look
    | .getRun | .listWaiting | .listSteps | .now => True
    | _ => False
  see := rowSeen
  take := completion?
  key := Prod.fst
  fresh := StillWaits
  guard := MayDrive s₀
  held s := ∀ i run, ¬ LivePause i s run
  free
    | .getRun => True
    | .appendEvent e => e.neutral = true
    | _ => False
  same := SameButNeutral
  inv := NothingTwice s₀
  spent := CompletedAs
  done a s := s.decisions a.1 = s₀.decisions a.1 + 1
  pending i s := StepIs i .waitingHuman s

end Discipline

/-! ## Its laws -/

section Laws

variable {env : Env} {s₀ s s' : RunStore} {i j : ℕ}

variable {t : StepStatus} {a : ℕ × Option Obj} {c : Cmd}

theorem StepIs.status_eq {t' : StepStatus} (h : StepIs i t s) (h' : StepIs i t' s) : t = t' := by
  obtain ⟨st, hst, hid, rfl⟩ := h
  obtain ⟨st', hst', hid', rfl⟩ := h'
  rw [s.eq_of_stepId hst hst' (hid.trans hid'.symm)]

theorem CompletedAs.stepIs (h : CompletedAs a s) : StepIs a.1 .completed s := by
  obtain ⟨st, hst, hid, hc, -⟩ := h
  exact ⟨st, hst, hid, hc⟩

theorem mem_completeStep {st : FlowStepRecord} (hst : st ∈ s.steps) (hne : st.stepId ≠ j)
    (t : StepStatus) (o : Option Obj) (e : String) : st ∈ (s.completeStep j t o e).steps := by
  refine mem_map.mpr ⟨st, hst, ?_⟩
  simp [FlowStepRecord.finish, hne]

theorem StepIs.completeStep (h : StepIs i t s) (hne : i ≠ j) (t' : StepStatus) (o : Option Obj)
    (e : String) : StepIs i t (s.completeStep j t' o e) := by
  obtain ⟨st, hst, rfl, ht⟩ := h
  exact ⟨st, mem_completeStep hst hne t' o e, rfl, ht⟩

theorem CompletedAs.completeStep (h : CompletedAs a s) (hne : a.1 ≠ j) (t' : StepStatus)
    (o : Option Obj) (e : String) : CompletedAs a (s.completeStep j t' o e) := by
  obtain ⟨st, hst, hid, ht⟩ := h
  exact ⟨st, mem_completeStep hst (hid ▸ hne) t' o e, hid, ht⟩

theorem completedAs_completeStep (h : StepIs i t s) (o : Option Obj) (e : String) :
    CompletedAs (i, o) (s.completeStep i .completed o e) := by
  obtain ⟨st, hst, rfl, -⟩ := h
  refine ⟨st.close .completed o e, mem_map.mpr ⟨st, hst, ?_⟩, rfl, rfl, rfl⟩
  simp [FlowStepRecord.finish]

theorem NothingTwice.completeStep (h : NothingTwice s₀ s) (hi : StepIs j t s) (ht : t ≠ .completed)
    (t' : StepStatus) (o : Option Obj) (e : String) :
    NothingTwice s₀ (s.completeStep j t' o e) := by
  refine ⟨h.once, h.kept, fun i hlt => ?_, h.activations⟩
  have hc := h.completed i hlt
  refine hc.completeStep ?_ t' o e
  rintro rfl
  exact ht (hi.status_eq hc)

theorem completion?_eq_some (h : completion? c = some a) :
    ∃ e, c = .completeStep a.1 .completed a.2 e := by
  cases c with
  | completeStep i t o e =>
    cases t with
    | completed =>
      cases h
      exact ⟨e, rfl⟩
    | _ => cases h
  | _ => cases h

variable {r : Reply c}

theorem taking {v : Option FlowRunRecord} (hinv : NothingTwice s₀ s) (hfresh : StillWaits v c s)
    (ha : completion? c = some a) (hsem : Sem env c s r s') :
    (humanDiscipline env s₀).Taking a s s' := by
  obtain ⟨e, rfl⟩ := completion?_eq_some ha
  obtain ⟨i, run, hi, -, hlive⟩ := hfresh
  obtain ⟨-, rfl⟩ := hsem
  obtain rfl : a.1 = i := Option.some.inj hi
  have hwait := hlive.step
  have hne : ∀ b, CompletedAs b s → b.1 ≠ a.1 := by
    rintro b hb heq
    have := (heq ▸ hb.stepIs).status_eq hwait
    cases this
  refine ⟨hinv.completeStep hwait (by simp) _ _ _, completedAs_completeStep hwait _ _,
    fun b hb => ⟨hne b hb, hb.completeStep (hne b hb) _ _ _, id⟩, fun κ hκ hp => ?_⟩
  exact StepIs.completeStep hp hκ _ _ _

theorem holding (hinv : NothingTwice s₀ s) (hspent : CompletedAs a s) (hguard : MayDrive s₀ a c s)
    (hsem : Sem env c s r s') :
    (humanDiscipline env s₀).Holding a s s' := by
  cases c with
  | completeStep i t o e =>
    obtain ⟨-, rfl⟩ := hsem
    have hrun : StepIs i .running s := hguard
    refine ⟨hinv.completeStep hrun (by simp) _ _ _, fun b hb => ?_, fun b _ hd => hd,
      fun κ hp => ?_⟩
    · refine CompletedAs.completeStep hb ?_ _ _ _
      rintro rfl
      cases hrun.status_eq hb.stepIs
    · refine StepIs.completeStep hp ?_ _ _ _
      rintro rfl
      cases hrun.status_eq hp
  | appendEvent e =>
    obtain ⟨-, rfl⟩ := hsem
    obtain ⟨hdec, hact⟩ := hguard
    refine ⟨⟨fun i => ?_, fun i => ?_, fun i hlt => ?_, ?_⟩, fun b hb => hb, fun b hne hd => ?_,
      fun κ hp => hp⟩
    · rw [RunStore.decisions_appendEvent]
      split
      · rw [(hdec i ‹_›).2]
      · exact hinv.once i
    · rw [RunStore.decisions_appendEvent]
      exact (hinv.kept i).trans (Nat.le_add_right _ _)
    · rw [RunStore.decisions_appendEvent] at hlt
      split at hlt
      · rw [(hdec i ‹_›).1]
        exact hspent.stepIs
      · exact hinv.completed i hlt
    · rw [RunStore.activity_appendEvent, hact]
      exact hinv.activations
    · change (s.appendEvent e).decisions b.1 = _
      rw [RunStore.decisions_appendEvent, if_neg]
      · exact hd
      · exact fun h => hne (hdec _ h).1
  | createStep n t k i =>
    obtain ⟨-, rfl⟩ := hsem
    have hgrow : ∀ {j t'}, StepIs j t' s → StepIs j t' (s.createStep n t k i) := by
      rintro j t' ⟨st, hst, h⟩
      exact ⟨st, mem_append_left _ hst, h⟩
    refine ⟨⟨hinv.once, hinv.kept, fun j hj => hgrow (hinv.completed j hj), hinv.activations⟩, ?_,
      fun b _ hd => hd, fun κ hp => hgrow hp⟩
    rintro b ⟨st, hst, h⟩
    exact ⟨st, mem_append_left _ hst, h⟩
  | updateRun _ | invoke _ =>
    obtain ⟨-, rfl⟩ := hsem
    exact ⟨⟨hinv.once, hinv.kept, hinv.completed, hinv.activations⟩, fun b hb => hb, fun b _ hd => hd,
      fun κ hp => hp⟩
  | getRun | clock | now | sleep _ =>
    obtain ⟨-, rfl⟩ := hsem
    exact ⟨hinv, fun b hb => hb, fun b _ hd => hd, fun κ hp => hp⟩
  | createRun _ _ | listWaiting | listSteps | listEvents => cases hguard

theorem SameButNeutral.stepIs (h : SameButNeutral s s') (hi : StepIs i t s) : StepIs i t s' := by
  rw [StepIs, h.steps]
  exact hi

theorem SameButNeutral.mayDrive (h : SameButNeutral s s') (hg : MayDrive s₀ a c s) :
    MayDrive s₀ a c s' := by
  cases c with
  | completeStep i t o e => exact h.stepIs hg
  | appendEvent e =>
    refine ⟨fun i hi => ?_, ?_⟩
    · rw [h.decisions]
      exact hg.1 i hi
    · rw [h.activity]
      exact hg.2
  | _ => exact hg

theorem SameButNeutral.sem (h : SameButNeutral s s') {t' : RunStore} (hg : MayDrive s₀ a c s)
    (hc : Sem env c s' r t') :
    ∃ t, Sem env c s r t ∧ SameButNeutral t t' := by
  cases c with
  | completeStep i t o e =>
    obtain ⟨rfl, rfl⟩ := hc
    exact ⟨_, ⟨rfl, rfl⟩, h.run, by simp [h.steps], h.decisions, h.activity⟩
  | appendEvent e =>
    obtain ⟨rfl, rfl⟩ := hc
    exact ⟨_, ⟨rfl, rfl⟩, h.run, h.steps, by simp [h.decisions], by simp [h.activity]⟩
  | createStep n t k i =>
    obtain ⟨rfl, rfl⟩ := hc
    have hnew : s'.newStep n t k i = s.newStep n t k i := by simp [RunStore.newStep, h.steps]
    exact ⟨_, ⟨hnew, rfl⟩, h.run, by simp [h.steps, hnew], h.decisions, h.activity⟩
  | updateRun p =>
    obtain ⟨rfl, rfl⟩ := hc
    exact ⟨_, ⟨rfl, rfl⟩, by simp [h.run], h.steps, h.decisions, h.activity⟩
  | getRun =>
    obtain ⟨rfl, rfl⟩ := hc
    exact ⟨s, ⟨h.run, rfl⟩, h⟩
  | clock | now | sleep _ =>
    obtain ⟨hr, rfl⟩ := hc
    exact ⟨s, ⟨hr, rfl⟩, h⟩
  | invoke ctx =>
    obtain ⟨hr, rfl⟩ := hc
    exact ⟨_, ⟨hr, rfl⟩, h.run, h.steps, h.decisions, h.activity⟩
  | createRun _ _ | listWaiting | listSteps | listEvents => cases hg

theorem humanDiscipline_lawful (env : Env) (s₀ : RunStore) : (humanDiscipline env s₀).Lawful where
  look_same := by
    intro c s r s' hl hc
    cases c with
    | getRun | listWaiting | listSteps | now => exact hc.2
    | _ => cases hl
  look_take := by
    intro c hl
    cases c with
    | getRun | listWaiting | listSteps | now => rfl
    | _ => cases hl
  fresh_not_held := by
    rintro v c s ⟨i, run, -, -, hlive⟩ hheld
    exact hheld i run hlive
  taking := taking
  holding := holding
  free_same := by
    intro c s r s' hf hc
    cases c with
    | getRun =>
      obtain ⟨-, rfl⟩ := hc
      exact ⟨rfl, rfl, fun _ => rfl, rfl⟩
    | appendEvent e =>
      obtain ⟨-, rfl⟩ := hc
      have hn : e.neutral = true := hf
      exact ⟨rfl, rfl, by simp [FlowEvent.neutral_decides hn], by simp [FlowEvent.neutral_next hn]⟩
    | _ => cases hf
  alike := by
    intro s s' h
    refine ⟨fun hinv => ⟨fun i => ?_, fun i => ?_, fun i hlt => ?_, ?_⟩, ?_, fun b hd => ?_,
      fun κ hp => h.stepIs hp, fun hheld i run hlive => ?_, fun hg => h.mayDrive hg,
      fun hg hc => h.sem hg hc⟩
    · rw [h.decisions]
      exact hinv.once i
    · rw [h.decisions]
      exact hinv.kept i
    · rw [h.decisions] at hlt
      exact h.stepIs (hinv.completed i hlt)
    · rw [h.activity]
      exact hinv.activations
    · rintro b ⟨st, hst, hb⟩
      exact ⟨st, h.steps ▸ hst, hb⟩
    · exact (h.decisions _).trans hd
    · refine hheld i run ⟨h.run ▸ hlive.row, hlive.waits, hlive.pause, ?_⟩
      obtain ⟨st, hst, hi⟩ := hlive.step
      exact ⟨st, h.steps ▸ hst, hi⟩

end Laws

/-! ## The engine drives the run -/

section Drive

variable {env : Env} {s₀ s s' : RunStore} {a : ℕ × Option Obj} {cfg : EngineConfig}
  {m : FlowManifest} {α : Type}

/-- The program drives the run: `Q` if it does to its end, `Q'` if it lets go of it. -/
abbrev Drives (env : Env) (s₀ : RunStore) (a : ℕ × Option Obj) (Q : α → RunStore → Prop)
    (Q' : α → Prop) (p : P α) (s : RunStore) : Prop :=
  (humanDiscipline env s₀).holds a Q Q' p s

structure Busy (s₀ : RunStore) (a : ℕ × Option Obj) (s : RunStore) : Prop where
  running : s.run.map (·.status) = some .running
  told : s.decisions a.1 = s₀.decisions a.1 + 1

variable {run : FlowRunRecord} {step : FlowStepRecord}

theorem not_livePause {i : ℕ} (h : s.run.map (·.status) ≠ some .waitingHuman) :
    ¬ LivePause i s run := by
  intro hlive
  exact h (by rw [hlive.row, Option.map_some, hlive.waits])

theorem Busy.driven (h : Busy s₀ a s) (i : ℕ) (run : FlowRunRecord) : ¬ LivePause i s run :=
  not_livePause (by simp [h.running])

theorem Busy.checkpoint (h : Busy s₀ a s) (state : RunState) :
    Busy s₀ a (s.updateRun { state := some state }) := by
  refine ⟨?_, h.told⟩
  rw [RunStore.updateRun_run, Option.map_map]
  exact h.running

/-! The commands of the engine while the run is running. -/

section Commands

variable {Q' : Unit → Prop}

theorem drives_getRun {Q : Option FlowRunRecord → RunStore → Prop}
    {Q' : Option FlowRunRecord → Prop} (hs : ∀ i run, ¬ LivePause i s run) (h : Q s.run s) :
    Drives env s₀ a Q Q' getRun s := by
  refine ⟨trivial, ?_⟩
  rintro r s' ⟨rfl, rfl⟩
  exact .inl ⟨hs, h⟩

theorem drives_clock {Q : ℚ → RunStore → Prop} {Q' : ℚ → Prop} (hb : Busy s₀ a s) (h : ∀ t, Q t s) :
    Drives env s₀ a Q Q' clock s := by
  refine ⟨trivial, ?_⟩
  rintro t s' ⟨-, rfl⟩
  exact .inl ⟨hb.driven, h t⟩

variable {Q : Unit → RunStore → Prop}

theorem drives_sleep {d : PyFloat} (hb : Busy s₀ a s) (h : Q () s) :
    Drives env s₀ a Q Q' (sleep d) s := by
  refine ⟨trivial, ?_⟩
  rintro r s' ⟨-, rfl⟩
  exact .inl ⟨hb.driven, h⟩

theorem drives_createStep {Q : FlowStepRecord → RunStore → Prop} {Q' : FlowStepRecord → Prop}
    {n : String} {t : NodeType} {k : ℕ} {i : Obj} (hb : Busy s₀ a s)
    (h : Busy s₀ a (s.createStep n t k i) → Q (s.newStep n t k i) (s.createStep n t k i)) :
    Drives env s₀ a Q Q' (createStep n t k i) s := by
  have hb' : Busy s₀ a (s.createStep n t k i) := ⟨hb.running, hb.told⟩
  refine ⟨trivial, ?_⟩
  rintro r s' ⟨rfl, rfl⟩
  exact .inl ⟨hb'.driven, h hb'⟩

theorem drives_completeStep {i : ℕ} {t : StepStatus} {o : Option Obj} {e : String}
    (hb : Busy s₀ a s) (hi : StepIs i .running s)
    (h : Busy s₀ a (s.completeStep i t o e) → Q () (s.completeStep i t o e)) :
    Drives env s₀ a Q Q' (completeStep i t o e) s := by
  have hb' : Busy s₀ a (s.completeStep i t o e) := ⟨hb.running, hb.told⟩
  refine ⟨hi, ?_⟩
  rintro r s' ⟨-, rfl⟩
  exact .inl ⟨hb'.driven, h hb'⟩

theorem drives_appendEvent {e : FlowEvent} (hb : Busy s₀ a s) (hdec : ∀ i, e.decides i = false)
    (hact : (s.activity.next e).repeated = s.activity.repeated)
    (h : Busy s₀ a (s.appendEvent e) → Q () (s.appendEvent e)) :
    Drives env s₀ a Q Q' (appendEvent e) s := by
  have hb' : Busy s₀ a (s.appendEvent e) := ⟨hb.running, by simpa [hdec] using hb.told⟩
  refine ⟨⟨fun i hi => ?_, hact⟩, ?_⟩
  · rw [hdec i] at hi
    cases hi
  · rintro r s' ⟨-, rfl⟩
    exact .inl ⟨hb'.driven, h hb'⟩

end Commands

variable {Q' : RunResult → Prop} {state : RunState} {node : FlowNode}

theorem freed_reload (h : ∀ r, Q' r) : (humanDiscipline env s₀).freed Q' reload := by
  refine ⟨trivial, fun r => ?_⟩
  cases r with
  | none | some _ => exact h _

theorem drives_failRun {Q : RunResult → RunStore → Prop} {st : RunState} {reason : StopReason}
    {d : FailDetail} (htold : s.decisions a.1 = s₀.decisions a.1 + 1) (h : ∀ r, Q' r) :
    Drives env s₀ a Q Q' (failRun st reason d) s := by
  refine ⟨trivial, ?_⟩
  rintro r s' ⟨-, rfl⟩
  exact .inr ⟨htold, rfl, fun _ => freed_reload h⟩

theorem drives_finishRun {ses : Session} {Q : RunResult → RunStore → Prop} (hb : Busy s₀ a s)
    (h : ∀ r, Q' r) : Drives env s₀ a Q Q' (finishRun cfg m ses state) s := by
  refine holds_bind (drives_clock hb fun t => ?_)
  split
  · exact drives_failRun hb.told h
  · refine ⟨trivial, ?_⟩
    rintro r s' ⟨-, rfl⟩
    exact .inr ⟨hb.told, rfl, fun _ => freed_reload h⟩

theorem drives_callHandler {ctx : NodeContext} {Q : Except HandlerError NodeOutcome → RunStore → Prop}
    {Q' : Except HandlerError NodeOutcome → Prop} (hb : Busy s₀ a s)
    (h : ∀ r s', Busy s₀ a s' → s'.steps = s.steps → s'.activity = s.activity → Q r s') :
    Drives env s₀ a Q Q' (callHandler cfg ctx) s := by
  unfold callHandler
  split
  · exact h _ _ hb rfl rfl
  · split
    · exact h _ _ hb rfl rfl
    · refine holds_bind ⟨trivial, ?_⟩
      rintro t s' ⟨-, rfl⟩
      exact .inl ⟨hb.driven, h _ _ hb rfl rfl⟩
  · refine holds_bind ⟨trivial, ?_⟩
    rintro r s' ⟨-, rfl⟩
    have hb' : Busy s₀ a (s.logCall ctx r) := ⟨hb.running, hb.told⟩
    refine .inl ⟨hb'.driven, ?_⟩
    cases r with
    | ok _ | error _ => exact h _ _ hb' rfl rfl

variable (s₀ a)

/-- The last step is the one that was created, and it is running. -/
structure Opened (step : FlowStepRecord) (s : RunStore) : Prop where
  busy : Busy s₀ a s
  step : StepIs step.stepId .running s

/-- What the attempts leave while the run is driven. -/
def Tried : Attempted → RunStore → Prop
  | .stop _, s => Busy s₀ a s
  | .outcome step _, s => Opened s₀ a step s

variable {s₀ a}

theorem drives_attemptLoop {policy : FlowRetryPolicy} {ctx : NodeContext} :
    ∀ {left attempt : ℕ} {s : RunStore}, Busy s₀ a s → (attempt = 1 → s.activity.routed = true) →
      1 ≤ attempt →
      Drives env s₀ a (Tried s₀ a) (fun r => ∃ res, r = .stop res)
        (attemptLoop cfg policy ctx left attempt) s
  | 0, _, _, hb, _, _ => hb
  | left + 1, attempt, s, hb, hrouted, hpos => by
    refine holds_bind (drives_createStep hb fun hb₁ => ?_)
    have hact : ((s.createStep ctx.node.id ctx.node.type attempt ctx.input).activity.next
        (.stepStarted ctx.node.id (s.newStep ctx.node.id ctx.node.type attempt ctx.input).stepId
          attempt)).repeated = s.activity.repeated := by
      change (s.activity.next _).repeated = _
      by_cases h1 : attempt = 1
      · subst h1
        simp [Activity.next, hrouted rfl]
      unfold Activity.next
      split
      · rename_i heq
        cases heq
        exact absurd rfl h1
      · rename_i heq
        cases heq
      · rfl
    refine holds_bind (drives_appendEvent hb₁ (fun _ => rfl) hact fun hb₂ => ?_)
    refine holds_bind (drives_callHandler hb₂ fun r s' hb₃ hsteps _ => ?_)
    have hopen : StepIs (s.newStep ctx.node.id ctx.node.type attempt ctx.input).stepId .running
        s' := by
      rw [StepIs, hsteps]
      exact ⟨_, mem_append_right _ (mem_singleton.mpr rfl), rfl, rfl⟩
    cases r with
    | ok out => exact ⟨hb₃, hopen⟩
    | error e =>
      refine holds_bind (drives_completeStep hb₃ hopen fun hb₄ => ?_)
      refine holds_bind (drives_appendEvent hb₄ (fun _ => rfl) rfl fun hb₅ => ?_)
      split
      · exact holds_bind (drives_failRun hb₅.told fun r => ⟨r, rfl⟩)
      refine holds_bind (drives_clock hb₅ fun t => ?_)
      split
      · exact holds_bind (drives_failRun hb₅.told fun r => ⟨r, rfl⟩)
      · refine holds_bind (drives_sleep hb₅ ?_)
        exact drives_attemptLoop hb₅ (by omega) (by omega)

theorem LivePause.congr {i : ℕ} (h : LivePause i s' run) (hrun : s'.run = s.run)
    (hsteps : s'.steps = s.steps) : LivePause i s run := by
  refine ⟨hrun ▸ h.row, h.waits, h.pause, ?_⟩
  obtain ⟨st, hst, hi⟩ := h.step
  exact ⟨st, hsteps ▸ hst, hi⟩

theorem drives_leaveNode {Q : Activation → RunStore → Prop} {i : Obj}
    (htold : s.decisions a.1 = s₀.decisions a.1 + 1) (hdriven : ∀ next i run,
      ¬ LivePause i (s.updateRun { state := some { state with cursor := next } }) run)
    (hQ : ∀ next, Q (.next { state with cursor := next })
      ((s.updateRun { state := some { state with cursor := next } }).appendEvent
        (.stepCompleted node.id step.stepId step.attempt next false))) :
    Drives env s₀ a Q (fun r => ∃ res, r = .stop res) (leaveNode m i node step state false) s := by
  unfold leaveNode
  split
  · exact holds_bind (drives_failRun htold fun r => ⟨r, rfl⟩)
  · exact holds_bind (drives_failRun htold fun r => ⟨r, rfl⟩)
  · rename_i next _
    refine ⟨trivial, ?_⟩
    rintro r s' ⟨-, rfl⟩
    refine .inl ⟨hdriven next, ⟨nofun, rfl⟩, ?_⟩
    rintro r s' ⟨-, rfl⟩
    exact .inl ⟨fun i run hlive => hdriven next i run (hlive.congr rfl rfl), hQ next⟩

variable (s₀ a)

structure OnRoute (s : RunStore) : Prop where
  busy : Busy s₀ a s
  routed : s.activity.routed = true

/-- What an activation leaves while the run is driven. -/
def Activated : Activation → RunStore → Prop
  | .stop _, s => Busy s₀ a s
  | .next _, s => OnRoute s₀ a s

variable {s₀ a}

theorem drives_settleOutcome {i : Obj} (hs : Opened s₀ a step s) :
    ∀ out : NodeOutcome,
    Drives env s₀ a (Activated s₀ a) (fun r => ∃ res, r = .stop res)
      (settleOutcome m i node state step out) s
  | .waitingHuman output e => by
    refine holds_bind (holds_bind
      (drives_completeStep hs.busy hs.step fun hb => ⟨trivial, ?_⟩))
    rintro r s' ⟨-, rfl⟩
    exact .inr ⟨hb.told, rfl, fun _ => freed_mono (fun r _ => ⟨r, rfl⟩)
      (freed_reload fun _ => trivial)⟩
  | .completed out => by
    unfold settleOutcome
    dsimp only
    split
    · refine holds_bind (drives_completeStep hs.busy hs.step fun hb => ?_)
      exact holds_bind (drives_failRun hb.told fun r => ⟨r, rfl⟩)
    refine holds_bind (drives_completeStep hs.busy hs.step fun hb => ?_)
    refine drives_leaveNode hb.told (fun next => (hb.checkpoint _).driven) fun next => ?_
    have hb' := hb.checkpoint
    exact ⟨⟨(hb' _).running, (RunStore.decisions_appendEvent _ _ _).trans (hb' _).told⟩,
      by simp [Activity.next]⟩

theorem drives_activateNode {i : Obj} {budgets : FlowBudgets} {deadline : ℚ} (hs : OnRoute s₀ a s) :
    Drives env s₀ a (Activated s₀ a) (fun r => ∃ res, r = .stop res)
      (activateNode cfg m i node state budgets deadline) s := by
  unfold activateNode
  split
  · exact holds_bind (drives_failRun hs.busy.told fun r => ⟨r, rfl⟩)
  refine holds_bind (holds_mono ?_ ?_
    (drives_attemptLoop hs.busy (fun _ => hs.routed) (Nat.le_refl 1)))
  · intro r s' hr
    cases r with
    | stop res => exact hr
    | outcome step out => exact drives_settleOutcome hr out
  · rintro r ⟨res, rfl⟩
    exact ⟨res, rfl⟩

theorem drives_walkFrom {ses : Session} : ∀ (left : ℕ) {state : RunState} {s : RunStore},
    OnRoute s₀ a s →
      Drives env s₀ a (fun _ s' => s'.decisions a.1 = s₀.decisions a.1 + 1) (fun _ => True)
        (walkFrom cfg m ses left state) s
  | left, state, s, hs => by
    unfold walkFrom
    split
    · exact drives_finishRun hs.busy fun _ => trivial
    refine holds_bind (drives_clock hs.busy fun t => ?_)
    split
    · exact drives_failRun hs.busy.told fun _ => trivial
    split
    · exact hs.busy.told
    cases left with
    | zero => exact hs.busy.told
    | succ left =>
      refine holds_bind (holds_mono ?_ ?_ (drives_activateNode hs))
      · intro r s' hr
        cases r with
        | stop res => exact Busy.told hr
        | next state' => exact drives_walkFrom left hr
      · rintro r ⟨res, rfl⟩
        trivial

theorem drives_executeRun {cap : Option FlowBudgets} (hs : ∀ i run, ¬ LivePause i s run)
    (htold : s.decisions a.1 = s₀.decisions a.1 + 1) (hrouted : s.activity.routed = true) :
    Drives env s₀ a (fun _ s' => s'.decisions a.1 = s₀.decisions a.1 + 1) (fun _ => True)
      (executeRun cfg m cap) s := by
  refine holds_bind (drives_getRun hs ?_)
  rcases hrun : s.run with _ | run
  · exact htold
  dsimp only
  split
  · exact htold
  refine ⟨trivial, ?_⟩
  rintro r s' ⟨-, rfl⟩
  have hb : Busy s₀ a (s.updateRun { status := some .running }) := by
    refine ⟨?_, htold⟩
    rw [RunStore.updateRun_run, hrun]
    rfl
  refine .inl ⟨hb.driven, holds_bind (drives_clock hb fun t => ?_)⟩
  exact drives_walkFrom _ ⟨hb, hrouted⟩

end Drive

/-! ## The human service -/

section Human

variable {env : Env} {s₀ s : RunStore} {cfg : EngineConfig} {m : FlowManifest} {w : Waiting}
  {i : ℕ}

structure JustTaken (s₀ : RunStore) (w : Waiting) (i : ℕ) (output : Obj) (s : RunStore) : Prop where
  row : s.run = some w.run
  pause : w.run.state.pause.map (·.stepId) = some i
  step : StepIs i .completed s
  untold : s.decisions i = s₀.decisions i

variable {output : Obj} {nodes : Dict Value} {v : Option FlowRunRecord} {moment : Option ℚ}

theorem JustTaken.driven (h : JustTaken s₀ w i output s) (j : ℕ) (run : FlowRunRecord) :
    ¬ LivePause j s run := by
  intro hlive
  cases h.row.symm.trans hlive.row
  cases h.pause.symm.trans hlive.pause
  cases h.step.status_eq hlive.step

theorem JustTaken.drives {α : Type} {e : FlowEvent} {Q : α → RunStore → Prop} {Q' : α → Prop}
    {k : Unit → P α} (h : JustTaken s₀ w i output s) (he : ∀ j, e.decides j = true ↔ j = i)
    (hact : ∀ b : Activity, b.next e = b) (hk : (s.appendEvent e).decisions i = s₀.decisions i + 1 →
      Drives env s₀ (i, some output) Q Q' (k ()) (s.appendEvent e)) :
    Drives env s₀ (i, some output) Q Q' (appendEvent e >>= k) s := by
  refine holds_bind ⟨⟨fun j hj => ?_, by rw [hact]⟩, ?_⟩
  · obtain rfl := (he j).mp hj
    exact ⟨rfl, h.untold⟩
  · rintro r s' ⟨-, rfl⟩
    refine .inl ⟨fun j run hlive => h.driven j run (hlive.congr rfl rfl), hk ?_⟩
    rw [RunStore.decisions_appendEvent, h.untold, (he i).mpr rfl]
    rfl

variable {nodeId actor : String} {a : ℕ × Option Obj} {run : FlowRunRecord}

theorem decided_not_live (hrow : s.run = some w.run) (next : Option String) (j : ℕ)
    (run : FlowRunRecord) :
    ¬ LivePause j (s.updateRun
      { state := some { w.run.state.decided nodes nodeId output with cursor := next } }) run := by
  intro hlive
  have h := hlive.row
  rw [RunStore.updateRun_run, hrow] at h
  cases h
  cases hlive.pause

theorem drives_executeDecided {attempt : ℕ} {next : Option String} (hrow : s.run = some w.run)
    (htold : s.decisions a.1 = s₀.decisions a.1 + 1) :
    Drives env s₀ a (fun _ s' => s'.decisions a.1 = s₀.decisions a.1 + 1) (fun _ => True)
      (executeRun cfg m none >>= fun r => pure (HumanResult.ofRun r))
      ((s.updateRun { state := some { w.run.state.decided nodes nodeId output with cursor := next } }
        ).appendEvent (.stepCompleted nodeId i attempt next false)) := by
  refine holds_bind (holds_mono (fun _ _ h => h) (fun _ _ => trivial)
    (drives_executeRun (fun j run hlive => ?_) ?_ ?_))
  · exact decided_not_live hrow next j run (hlive.congr rfl rfl)
  · exact (RunStore.decisions_appendEvent _ _ _).trans htold
  · simp [Activity.next]

theorem drives_resumeDecided (hrow : s.run = some w.run)
    (htold : s.decisions a.1 = s₀.decisions a.1 + 1) :
    Drives env s₀ a (fun _ s' => s'.decisions a.1 = s₀.decisions a.1 + 1) (fun _ => True)
      (resumeDecided cfg m w (w.run.state.decided nodes w.node.id output)) s := by
  refine holds_bind (holds_mono (fun _ _ h => h) ?_
    (drives_leaveNode htold (decided_not_live hrow) fun next => ?_))
  · rintro r ⟨res, rfl⟩
    trivial
  · exact drives_executeDecided hrow htold

theorem justTaken {e : String} (hinv : NothingTwice s₀ s)
    (hfresh : StillWaits (some w.run) (.completeStep i .completed (some output) e) s) :
    JustTaken s₀ w i output (s.completeStep i .completed (some output) e) := by
  obtain ⟨j, run, hj, hrun, hlive⟩ := hfresh
  cases hj
  cases hrun
  refine ⟨hlive.row, hlive.pause, (completedAs_completeStep hlive.step _ _).stepIs, ?_⟩
  refine le_antisymm (not_lt.mp fun hlt => ?_) (hinv.kept i)
  cases (hinv.completed i hlt).status_eq hlive.step

theorem waits_recordDecision {d : Obj} :
    (humanDiscipline env s₀).waits (some w.run) (recordDecision cfg m w d actor nodes) := by
  refine .inr ⟨(w.step.stepId, some d), rfl, fun s hinv hfresh r s' hc => ?_⟩
  obtain ⟨-, rfl⟩ := hc
  have hj := justTaken hinv hfresh
  refine ⟨hj.driven, hj.drives (fun j => ?_) (fun _ => rfl) fun htold => ?_⟩
  · rw [FlowEvent.decides, beq_iff_eq]
    exact eq_comm
  · exact drives_resumeDecided hj.row htold

theorem waits_routeTimeout :
    (humanDiscipline env s₀).waits (some w.run) (routeTimeout cfg m w) := by
  refine .inr ⟨(w.step.stepId, some timedOutOutput), rfl, fun s hinv hfresh r s' hc => ?_⟩
  obtain ⟨-, rfl⟩ := hc
  have hj := justTaken hinv hfresh
  refine ⟨hj.driven, hj.drives (fun j => ?_) (fun _ => rfl) fun htold => ?_⟩
  · rw [FlowEvent.decides, beq_iff_eq]
    exact eq_comm
  split
  · exact holds_bind (drives_failRun htold fun _ => trivial)
  rename_i target _
  refine ⟨trivial, ?_⟩
  rintro r s' ⟨-, rfl⟩
  have hrow : ((s.completeStep w.step.stepId .completed (some timedOutOutput) "").appendEvent
      (.timeoutExpired w.node.id w.step.stepId (w.run.state.pause.bind (·.expiresAt)))).run
      = some w.run := hj.row
  refine .inl ⟨decided_not_live hrow (some target), ⟨nofun, rfl⟩, ?_⟩
  rintro r s' ⟨-, rfl⟩
  exact .inl ⟨fun j run hlive =>
    decided_not_live hrow (some target) j run (hlive.congr rfl rfl),
    drives_executeDecided hrow htold⟩

/-! A call, from its first read. -/

theorem looks_waitingPlace :
    (humanDiscipline env s₀).looks (fun r v => ∀ w, r = .ok w → v = some w.run) (some run)
      (waitingPlace m run) := by
  unfold waitingPlace
  split
  · rintro w ⟨⟩
  refine ⟨trivial, fun s steps s' _ => ?_⟩
  rcases hstep : waitingStep? (run.state.pause.map (·.stepId)) steps with _ | step
  · simp only [Prog.bind, hstep]
    rintro w ⟨⟩
  · simp only [Prog.bind, hstep]
    rintro w ⟨⟩
    rfl

theorem looks_waitingContext :
    (humanDiscipline env s₀).looks (fun r v => ∀ w, r = .ok w → v = some w.run) v
      (waitingContext m) := by
  refine ⟨trivial, fun s row s' _ => ?_⟩
  cases row with
  | none => rintro w ⟨⟩
  | some run =>
    change (humanDiscipline env s₀).looks _ (some run) (ite _ _ _)
    split
    · rintro w ⟨⟩
    · exact looks_waitingPlace

theorem looks_pauseExpired :
    (humanDiscipline env s₀).looks (fun _ v' => v' = v) v (pauseExpired run moment) := by
  unfold pauseExpired
  split
  · rfl
  · split
    · rfl
    · exact looks_bind ⟨trivial, fun s r s' _ => rfl⟩

theorem waits_decideRun {d : Obj} :
    (humanDiscipline env s₀).waits v (decideRun cfg m d actor) := by
  refine waits_bind (looks_mono ?_ looks_waitingContext)
  intro r v hr
  cases r with
  | error e => trivial
  | ok w =>
    obtain rfl := hr w rfl
    refine waits_bind (looks_mono ?_ looks_pauseExpired)
    rintro due v rfl
    split
    · refine waits_ret (fun r => ?_) waits_routeTimeout
      cases r with
      | error _ | ok _ => exact ⟨_, rfl⟩
    · split
      · trivial
      · exact waits_recordDecision

theorem waits_expireRuns {rows : List FlowRunRecord} (hrows : rows = v.toList) :
    (humanDiscipline env s₀).waits v (expireRuns cfg m moment rows 0) := by
  cases v with
  | none =>
    subst hrows
    trivial
  | some run =>
    subst hrows
    refine waits_bind (looks_mono ?_ looks_pauseExpired)
    rintro due v rfl
    split
    · refine waits_bind (looks_mono ?_ looks_waitingPlace)
      intro r v hr
      cases r with
      | error e => trivial
      | ok w =>
        obtain rfl := hr w rfl
        refine waits_ret (fun r => ?_) waits_routeTimeout
        cases r with
        | error _ | ok _ => exact ⟨_, rfl⟩
    · trivial

theorem waits_expireDue : (humanDiscipline env s₀).waits v (expireDue cfg m moment) := by
  refine waits_bind ⟨trivial, fun s r s' hc => ?_⟩
  obtain ⟨rfl, -⟩ := hc
  refine waits_expireRuns ?_
  change _ = (head? _).toList
  rcases s.run with _ | run
  · rfl
  · by_cases h : run.status == .waitingHuman
    · simp [h]
    · simp [h]

theorem HumanCall.waits :
    ∀ call : HumanCall, (humanDiscipline env s₀).waits v (call.prog cfg m)
  | .decide _ _ => waits_ret (fun _ => ⟨_, rfl⟩) waits_decideRun
  | .expire _ => waits_ret (fun _ => ⟨_, rfl⟩) waits_expireDue

end Human

/-! ## Decided once -/

abbrev HumanPool (ι : Type) := Pool Cmd Reply RunStore (Option FlowRunRecord) (ℕ × Option Obj) ι

def startCalls {ι : Type} (cfg : EngineConfig) (m : FlowManifest) (calls : ι → HumanCall)
    (s : RunStore) : HumanPool ι where
  state := s
  procs i := ⟨(calls i).prog cfg m, none⟩

structure DecidedOnce {ι : Type} (s₀ : RunStore) (P : HumanPool ι) : Prop where
  /-- No two calls complete the same step. -/
  steps : (P.taken.map (·.2.1)).Nodup
  /-- The stored output is the one the call gave. -/
  outputs : ∀ x ∈ P.taken, CompletedAs x.2 P.state
  /-- At most one decision or expiry is appended for a step. -/
  decisions : ∀ i, P.state.decisions i ≤ s₀.decisions i + 1
  /-- A call that took effect and has ended has appended it. -/
  told : ∀ c a u, (c, a) ∈ P.taken → (P.procs c).prog = .ret u →
    P.state.decisions a.1 = s₀.decisions a.1 + 1
  /-- Every activation was routed to. -/
  activations : P.state.activity.repeated = s₀.activity.repeated
  /-- A step that waited waits still, or a call took effect for it. -/
  waits : ∀ i, StepIs i .waitingHuman s₀ →
    StepIs i .waitingHuman P.state ∨ i ∈ P.taken.map (·.2.1)

theorem nothingTwice_start (s₀ : RunStore) : NothingTwice s₀ s₀ :=
  ⟨fun _ => Nat.le_succ _, fun _ => le_rfl, fun _ h => absurd h (lt_irrefl _), rfl⟩

/-- If every call that completes the step of a pause still finds the row it has read, and the step
waiting, then along every interleaving a pause is decided once. -/
theorem decided_once {ι : Type} [DecidableEq ι] {env : Env} {cfg : EngineConfig} {m : FlowManifest}
    {calls : ι → HumanCall} {s₀ : RunStore} {P : HumanPool ι}
    (hruns : Runs (humanDiscipline env s₀) (fun P i => P.Fresh (humanDiscipline env s₀) i)
      (startCalls cfg m calls s₀) P) : DecidedOnce s₀ P := by
  have hex : Exclusively (humanDiscipline env s₀) s₀ P :=
    hruns.exclusive (humanDiscipline_lawful env s₀) rfl (by exact nothingTwice_start s₀)
      fun i => (calls i).waits
  exact {
    steps := hex.keys
    outputs := hex.spent
    decisions := hex.inv.once
    told := fun _ _ _ hx hend => hex.done_of_ended hx hend
    activations := hex.inv.activations
    waits := hex.pending }

def twoReviewers : Bool → HumanCall
  | true => .decide [("approved", .bool true)] "first"
  | false => .decide [("approved", .bool false)] "second"

def reviewed (sched : List Bool) : HumanPool Bool :=
  (startCalls demoConfig reviewFlow twoReviewers reviewStore).play
    (humanDiscipline steadyOracle.env reviewStore) steadyOracle.ans sched

/-- The first reviewer's call, and then the second's, which is refused. -/
def oneAfterTheOther : List Bool := replicate 22 true ++ replicate 4 false

instance (env : Env) (s₀ : RunStore) (v : Option FlowRunRecord) (c : Cmd) (s : RunStore) :
    Decidable ((humanDiscipline env s₀).fresh v c s) :=
  inferInstanceAs (Decidable (StillWaits v c s))

theorem decided_once_review :
    Runs (humanDiscipline steadyOracle.env reviewStore)
      (fun P i => P.Fresh (humanDiscipline steadyOracle.env reviewStore) i)
      (startCalls demoConfig reviewFlow twoReviewers reviewStore) (reviewed oneAfterTheOther) ∧
    (reviewed oneAfterTheOther).taken.map (fun x => (x.1, x.2.1)) = [(true, 1)] ∧
    DecidedOnce reviewStore (reviewed oneAfterTheOther) := by
  have hfresh : ∀ n < oneAfterTheOther.length, ∀ i ∈ oneAfterTheOther[n]?,
      (reviewed (oneAfterTheOther.take n)).freshNow
        (humanDiscipline steadyOracle.env reviewStore) i = true := by
    decide +kernel
  refine ⟨?hruns, by decide +kernel, decided_once ?hruns⟩
  refine Runs.play _ steadyOracle.sem_ans oneAfterTheOther .refl fun n i hi => ?_
  obtain ⟨hn, -⟩ := List.getElem?_eq_some_iff.mp hi
  exact Pool.fresh_of_now _ (hfresh n hn i hi)

/-- The two reviewers, command by command in turns: both decisions are recorded for the one step,
and the node behind it is started twice. -/
theorem two_decisions :
    ∃ P, Runs (humanDiscipline steadyOracle.env reviewStore) (fun _ _ => True)
        (startCalls demoConfig reviewFlow twoReviewers reviewStore) P ∧
      StepIs 1 .waitingHuman reviewStore ∧
      reviewStore.decisions 1 = 0 ∧ P.state.decisions 1 = 2 ∧
      P.taken.map (fun x => (x.1, x.2.1)) = [(true, 1), (false, 1)] ∧
      reviewStore.activity.repeated = 0 ∧ P.state.activity.repeated = 1 := by
  refine ⟨reviewed ((range 22).flatMap fun _ => [true, false]),
    Runs.play _ steadyOracle.sem_ans _ .refl fun _ _ _ => trivial, ?_⟩
  decide +kernel

end AutoDev.Flows
