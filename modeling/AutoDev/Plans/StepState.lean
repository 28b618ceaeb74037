/-
# `AutoDev.Plans.StepState` — concurrent approvals of a plan step

`StepApprovalStore.transition` and `update_content` of
`backend/plans/step_state.py` SELECT the row of a step, check the action
against its state, and UPDATE the row.  The lock around the two statements
belongs to one store instance, and every request has its own.  So each call is a
look and a later act on one shared row (`AutoDev.Lib.CheckThenAct`), and two
requests may both succeed, one approving and one rejecting
(`both_decisions_succeed`).
-/
import AutoDev.Lib.CheckThenAct

namespace AutoDev.Plans

open History CheckThenAct

inductive StepState where
  | draft
  | underReview
  | approved
  | rejected
  | executing
  | completed
  deriving DecidableEq

inductive StepAction where
  | review
  | approve
  | reject
  | execute
  | complete
  deriving DecidableEq

def StepState.editable : StepState → Bool
  | .draft | .underReview => true
  | _ => false

def legalTransition : StepState → StepAction → Option StepState
  | .draft, .review => some .underReview
  | .underReview, .approve => some .approved
  | .underReview, .reject => some .rejected
  | .approved, .execute => some .executing
  | .executing, .complete => some .completed
  | _, _ => none

structure PlanStepRecord where
  content : String
  state : StepState
  deriving DecidableEq

inductive StepCall where
  | transition (action : StepAction)
  | updateContent (content : String)
  deriving DecidableEq

inductive StepError where
  | notFound
  | illegal (action : StepAction) (state : StepState)
  | notEditable (state : StepState)
  deriving DecidableEq

/-- The UPDATE that a call will make, with what its result takes from the record it read. -/
inductive Update where
  | setState (state : StepState) (current : PlanStepRecord)
  | setContent (content : String) (currentState : StepState)
  deriving DecidableEq

/-- What a call returns: the previous state for a transition, and the updated record. -/
def Update.result : Update → Option StepState × PlanStepRecord
  | .setState state current => (some current.state, { current with state })
  | .setContent content currentState => (none, ⟨content, currentState⟩)

def StepCall.check (call : StepCall) (row : Option PlanStepRecord) : Except StepError Update :=
  match row with
  | none => .error .notFound
  | some current =>
    match call with
    | .transition action =>
      match legalTransition current.state action with
      | none => .error (.illegal action current.state)
      | some next => .ok (.setState next current)
    | .updateContent content =>
      if current.state.editable then .ok (.setContent content current.state)
      else .error (.notEditable current.state)

def Update.apply : Update → Option PlanStepRecord → Option PlanStepRecord
  | .setState state _, row => row.map fun r => { r with state }
  | .setContent content _, row => row.map fun r => { r with content }

abbrev StepRace := State (Option PlanStepRecord) StepError Update ℕ

variable (call : ℕ → StepCall)

abbrev raceStep : StepRace → Op ℕ → StepRace :=
  CheckThenAct.step (fun i => (call i).check) Update.apply

/-! ## Steps decided and executed once -/

/-- The request has finished without an error. -/
def Succeeded (s : StepRace) (i : ℕ) : Prop := ∃ w, (i, .ok w) ∈ s.finished

def StepCall.decides : StepCall → Bool
  | .transition .approve | .transition .reject => true
  | _ => false

def DecidedOnce (s : StepRace) : Prop :=
  ∀ i j, Succeeded s i → Succeeded s j → (call i).decides = true → (call j).decides = true → i = j

def ExecutedOnce (s : StepRace) : Prop :=
  ∀ i j, Succeeded s i → Succeeded s j → call i = .transition .execute →
    call j = .transition .execute → i = j

def EditsEditable (s : StepRace) : Op ℕ → Prop
  | .look _ => True
  | .act i => ∀ content state, s.phase i = .checked (.setContent content state) →
      ∃ row, s.value = some row ∧ row.state.editable = true

def Update.AsRead : Update → Option PlanStepRecord → Prop
  | .setState _ current, row => row = some current
  | .setContent _ currentState, row => row.map (·.state) = some currentState

instance (w : Update) : DecidablePred w.AsRead := fun _ => by
  cases w <;> exact inferInstanceAs (Decidable (_ = _))

/-- Since the SELECT of a call its row has not changed. -/
def Undisturbed (s : StepRace) : Op ℕ → Prop
  | .look _ => True
  | .act i => ∀ w, s.phase i = .checked w → w.AsRead s.value

instance (s : StepRace) : DecidablePred (Undisturbed s)
  | .look _ => isTrue trivial
  | .act i =>
    match h : s.phase i with
    | .checked w => decidable_of_iff (w.AsRead s.value)
        ⟨fun hw w' h' => by cases h.symm.trans h'; exact hw, fun hw => hw w h⟩
    | .idle => isTrue fun w h' => by cases h.symm.trans h'
    | .ended => isTrue fun w h' => by cases h.symm.trans h'

/-! ## Checks -/

variable {call : ℕ → StepCall} {row : Option PlanStepRecord}

theorem check_eq_setState {call : StepCall} {next : StepState} {current : PlanStepRecord}
    (h : call.check row = .ok (.setState next current)) :
    row = some current ∧ ∃ action, call = .transition action ∧
      legalTransition current.state action = some next := by
  rcases row with _ | r
  · cases h
  cases call with
  | transition action =>
    simp only [StepCall.check] at h
    split at h
    · cases h
    · cases h
      exact ⟨rfl, action, rfl, ‹_›⟩
  | updateContent content =>
    simp only [StepCall.check] at h
    split at h <;> cases h

theorem check_eq_setContent {call : StepCall} {content : String} {state : StepState}
    (h : call.check row = .ok (.setContent content state)) :
    row.map (·.state) = some state ∧ call = .updateContent content ∧ state.editable = true := by
  rcases row with _ | r
  · cases h
  cases call with
  | transition action =>
    simp only [StepCall.check] at h
    split at h <;> cases h
  | updateContent c =>
    simp only [StepCall.check] at h
    split at h
    · cases h
      exact ⟨rfl, rfl, ‹_›⟩
    · cases h

/-- What a request has planned comes from its check of some row. -/
def Checked (call : ℕ → StepCall) (s : StepRace) : Prop :=
  ∀ i w, s.phase i = .checked w → ∃ row, (call i).check row = .ok w

theorem Checked.update {s : StepRace} (h : Checked call s) (i : ℕ) {value : Option PlanStepRecord}
    {finished : List (ℕ × Except StepError Update)} {phase : Phase Update}
    (hi : ∀ w, phase = .checked w → ∃ row, (call i).check row = .ok w) :
    Checked call ⟨value, Function.update s.phase i phase, finished⟩ := by
  intro j w hj
  by_cases hji : j = i
  · subst hji
    simp only [Function.update_self] at hj
    exact hi w hj
  · simp only [Function.update_of_ne hji] at hj
    exact h j w hj

theorem checked_step (s : StepRace) (o : Op ℕ) (h : Checked call s) :
    Checked call (raceStep call s o) := by
  cases o with
  | look i =>
    rcases hp : s.phase i with _ | w | _
    · rcases hc : (call i).check s.value with e | w
      · simp only [CheckThenAct.step, hp, hc]
        exact h.update i fun w hw => by cases hw
      · simp only [CheckThenAct.step, hp, hc]
        refine h.update i fun w' hw => ?_
        cases hw
        exact ⟨s.value, hc⟩
    · simpa only [CheckThenAct.step, hp] using h
    · simpa only [CheckThenAct.step, hp] using h
  | act i =>
    rcases hp : s.phase i with _ | w | _
    · simpa only [CheckThenAct.step, hp] using h
    · simp only [CheckThenAct.step, hp]
      exact h.update i fun w hw => by cases hw
    · simpa only [CheckThenAct.step, hp] using h

theorem check_iff_asRead {call : StepCall} {row' : Option PlanStepRecord} {w : Update}
    (h : call.check row = .ok w) : call.check row' = .ok w ↔ w.AsRead row' := by
  cases w with
  | setState next current =>
    obtain ⟨rfl, -⟩ := check_eq_setState h
    constructor
    · intro h'
      exact (check_eq_setState h').1
    · rintro rfl
      exact h
  | setContent content state =>
    obtain ⟨-, rfl, hedit⟩ := check_eq_setContent h
    constructor
    · intro h'
      exact (check_eq_setContent h').1
    · intro h'
      obtain ⟨r, rfl, rfl⟩ := Option.map_eq_some_iff.mp h'
      simp only [StepCall.check, hedit, if_true]

theorem current_iff_undisturbed (s : StepRace) (o : Op ℕ) (h : Checked call s) :
    Current (fun i => (call i).check) s o ↔ Undisturbed s o := by
  cases o with
  | look i => exact Iff.rfl
  | act i =>
    refine forall₂_congr fun w hw => ?_
    obtain ⟨row, hrow⟩ := h i w hw
    exact check_iff_asRead hrow

/-! ## One after another -/

/-- How far a state is. -/
def StepState.rank : StepState → ℕ
  | .draft => 0
  | .underReview => 1
  | .approved | .rejected => 2
  | .executing => 3
  | .completed => 4

/-- How far a state is from which the action is legal. -/
def StepAction.rank : StepAction → ℕ
  | .review => 0
  | .approve | .reject => 1
  | .execute => 2
  | .complete => 3

theorem legalTransition_rank {state next : StepState} {action : StepAction}
    (h : legalTransition state action = some next) :
    state.rank = action.rank ∧ next.rank = action.rank + 1 := by
  cases state <;> cases action <;> cases h <;> exact ⟨rfl, rfl⟩

abbrev serialCalls (call : ℕ → StepCall) :
    Option PlanStepRecord → List ℕ → Option PlanStepRecord × List (ℕ × Except StepError Update) :=
  CheckThenAct.serial (fun i => (call i).check) Update.apply

theorem rank_carry {call : StepCall} {row r : PlanStepRecord}
    (h : carry Update.apply (some row) (call.check (some row)) = some r) :
    row.state.rank ≤ r.state.rank := by
  rcases hc : call.check (some row) with e | w
  · rw [hc] at h
    cases h
    exact Nat.le_refl _
  rw [hc] at h
  cases w with
  | setState next current =>
    obtain ⟨hrow, action, -, hlegal⟩ := check_eq_setState hc
    obtain ⟨h₁, h₂⟩ := legalTransition_rank hlegal
    cases hrow
    cases h
    show row.state.rank ≤ next.rank
    omega
  | setContent content state =>
    cases h
    exact Nat.le_refl _

theorem serial_rank_le {i : ℕ} {w : Update} {action : StepAction}
    (hcall : call i = .transition action) :
    ∀ (is : List ℕ) (row : Option PlanStepRecord), (i, .ok w) ∈ (serialCalls call row is).2 →
      ∃ r, row = some r ∧ r.state.rank ≤ action.rank := by
  intro is
  induction is with
  | nil => intro row h; cases h
  | cons j is ih =>
    intro row h
    rcases List.mem_cons.mp h with heq | htail
    · obtain ⟨rfl, hok⟩ := Prod.mk.inj heq
      dsimp only at hok
      rw [hcall] at hok
      cases w with
      | setState next current =>
        obtain ⟨hrow, a, ha, hlegal⟩ := check_eq_setState hok.symm
        cases ha
        exact ⟨current, hrow, Nat.le_of_eq (legalTransition_rank hlegal).1⟩
      | setContent content state => cases (check_eq_setContent hok.symm).2.1
    · obtain ⟨r, hr, hle⟩ := ih _ htail
      rcases row with _ | row
      · simp [carry, StepCall.check] at hr
      · exact ⟨row, rfl, Nat.le_trans (rank_carry hr) hle⟩

theorem serial_rank_unique {i j : ℕ} {w w' : Update} {a a' : StepAction}
    (hi : call i = .transition a) (hj : call j = .transition a') (hrank : a.rank = a'.rank) :
    ∀ (is : List ℕ) (row : Option PlanStepRecord), (i, .ok w) ∈ (serialCalls call row is).2 →
      (j, .ok w') ∈ (serialCalls call row is).2 → i = j := by
  -- the head that succeeds leaves a row that is too far for any later one of its rank
  have hhead : ∀ {k l : ℕ} {v v' : Update} {b b' : StepAction} {row : Option PlanStepRecord}
      {is : List ℕ}, call k = .transition b → call l = .transition b' → b.rank = b'.rank →
      (call k).check row = .ok v →
      (l, .ok v') ∈ (serialCalls call (carry Update.apply row ((call k).check row)) is).2 → False := by
    intro k l v v' b b' row is hk hl hb hok hmem
    obtain ⟨r, hr, hle⟩ := serial_rank_le hl is _ hmem
    rw [hok] at hr
    rw [hk] at hok
    cases v with
    | setState next current =>
      obtain ⟨rfl, a, ha, hlegal⟩ := check_eq_setState hok
      cases ha
      cases hr
      have hnext := (legalTransition_rank hlegal).2
      dsimp only at hle
      omega
    | setContent content state => cases (check_eq_setContent hok).2.1
  intro is
  induction is with
  | nil => intro row h; cases h
  | cons k is ih =>
    intro row h h'
    rcases List.mem_cons.mp h with heq | htail <;> rcases List.mem_cons.mp h' with heq' | htail'
    · exact (Prod.mk.inj heq).1.trans (Prod.mk.inj heq').1.symm
    · obtain ⟨rfl, hok⟩ := Prod.mk.inj heq
      exact (hhead hi hj hrank hok.symm htail').elim
    · obtain ⟨rfl, hok⟩ := Prod.mk.inj heq'
      exact (hhead hj hi hrank.symm hok.symm htail).elim
    · exact ih _ htail htail'

/-! ## Whole histories -/

variable {call : ℕ → StepCall} {row : Option PlanStepRecord} {s : StepRace}

theorem rank_unique {a a' : StepAction} {i j : ℕ}
    (h : Serial (fun i => (call i).check) Update.apply row s) (hi : Succeeded s i)
    (hj : Succeeded s j) (hci : call i = .transition a) (hcj : call j = .transition a')
    (hrank : a.rank = a'.rank) : i = j := by
  obtain ⟨w, hw⟩ := hi
  obtain ⟨w', hw'⟩ := hj
  have hfin : (serialCalls call row (s.finished.map Prod.fst)).2 = s.finished :=
    congrArg Prod.snd h.serial
  exact serial_rank_unique hci hcj hrank _ row (hfin ▸ hw) (hfin ▸ hw')

theorem StepCall.decides_eq_true {c : StepCall} (h : c.decides = true) :
    ∃ a, c = .transition a ∧ a.rank = 1 := by
  unfold StepCall.decides at h
  split at h
  · exact ⟨.approve, rfl, rfl⟩
  · exact ⟨.reject, rfl, rfl⟩
  · cases h

theorem decidedOnce_of_serial (h : Serial (fun i => (call i).check) Update.apply row s) :
    DecidedOnce call s := by
  intro i j hi hj hdi hdj
  obtain ⟨a, ha, hra⟩ := StepCall.decides_eq_true hdi
  obtain ⟨a', ha', hra'⟩ := StepCall.decides_eq_true hdj
  exact rank_unique h hi hj ha ha' (hra.trans hra'.symm)

theorem editsEditable_of_undisturbed (s : StepRace) (o : Op ℕ) (hs : Checked call s)
    (h : Undisturbed s o) : EditsEditable s o := by
  cases o with
  | look i => trivial
  | act i =>
    intro content state hp
    obtain ⟨row, hrow⟩ := hs i _ hp
    have hedit := (check_eq_setContent hrow).2.2
    obtain ⟨r, hr, rfl⟩ := Option.map_eq_some_iff.mp (h _ hp)
    exact ⟨r, hr, hedit⟩

/-- Every interleaving in which no row changes between the SELECT and the UPDATE of a call is one
after another, in the order in which the calls finish. -/
theorem approvals_linearizable (call : ℕ → StepCall) (row : Option PlanStepRecord)
    (ops : List (Op ℕ)) (h : Meets (raceStep call) Undisturbed { value := row } ops) :
    Throughout (raceStep call) (fun s =>
      Serial (fun i => (call i).check) Update.apply row s ∧ DecidedOnce call s ∧
        ExecutedOnce call s) { value := row } ops ∧
    Meets (raceStep call) EditsEditable { value := row } ops := by
  have hstart : Checked call { value := row } := fun i w hw => by cases hw
  have hcurrent := (meets_iff_meets current_iff_undisturbed
    (fun s o hs _ => checked_step s o hs) hstart).mpr h
  refine ⟨(serial_of_current hcurrent).imp fun s hs => ⟨hs, decidedOnce_of_serial hs, ?_⟩, ?_⟩
  · intro i j hi hj hci hcj
    exact rank_unique hs hi hj hci hcj rfl
  · have hchecked := throughout_of_meets (fun s o hs _ => checked_step s o hs) hstart h
    exact h.of_throughout hchecked editsEditable_of_undisturbed

/-- An edit, an approval, an execution and a late rejection. -/
def reviewCalls : ℕ → StepCall
  | 0 => .updateContent "write the parser"
  | 1 => .transition .approve
  | 2 => .transition .execute
  | _ => .transition .reject

theorem approvals_linearizable_review :
    Throughout (raceStep reviewCalls) (fun s =>
      Serial (fun i => (reviewCalls i).check) Update.apply (some ⟨"parse", .underReview⟩) s ∧
        DecidedOnce reviewCalls s ∧ ExecutedOnce reviewCalls s)
      { value := some ⟨"parse", .underReview⟩ }
      [.look 0, .act 0, .look 1, .act 1, .look 3, .look 2, .act 2] ∧
    Meets (raceStep reviewCalls) EditsEditable { value := some ⟨"parse", .underReview⟩ }
      [.look 0, .act 0, .look 1, .act 1, .look 3, .look 2, .act 2] :=
  approvals_linearizable reviewCalls _ _ (by decide +kernel)

/-- Two requests look at a step under review; then both act. -/
theorem both_decisions_succeed :
    ¬ Throughout (raceStep reviewCalls) (DecidedOnce reviewCalls)
      { value := some ⟨"parse", .underReview⟩ } [.look 1, .look 3, .act 1, .act 3] := by
  rintro ⟨-, -, -, -, h⟩
  have hboth := h 1 3 ⟨.setState .approved ⟨"parse", .underReview⟩, by decide +kernel⟩
    ⟨.setState .rejected ⟨"parse", .underReview⟩, by decide +kernel⟩ rfl rfl
  cases hboth

end AutoDev.Plans
