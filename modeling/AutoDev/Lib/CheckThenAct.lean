/-
# `AutoDev.Lib.CheckThenAct` — calls that look first and write later

A call reads a shared value, plans what to do by it — or is refused — and
carries the plan out in a second step, without looking again.  Between the
two steps other calls come.  `step` is that machine, for any number of calls.

A call carried out while its plan is CURRENT, which means that it would plan
the same on the value that is there now, behaves as if both its steps were
taken at once.  `serial_step` is that remark, and by it a history in which
every plan is current when it is carried out gives every call the outcome it
has when the calls are made one after another, in the order they finished
(`serial_of_current`).
-/
import AutoDev.Lib.History
import Mathlib.Logic.Function.Basic

namespace CheckThenAct

open History List

variable {α ε ω ι : Type}

/-- How far a call is. -/
inductive Phase (ω : Type) where
  | idle
  | checked (plan : ω)
  | ended
  deriving DecidableEq

/-- The shared value, the phase of each call, and what the calls that are over returned, in the
order they finished. -/
structure State (α ε ω ι : Type) where
  value : α
  phase : ι → Phase ω := fun _ => .idle
  finished : List (ι × Except ε ω) := []

/-- The two steps of a call. -/
inductive Op (ι : Type) where
  | look (i : ι)
  | act (i : ι)

section Step

variable [DecidableEq ι] (plan : ι → α → Except ε ω) (act : ω → α → α)

def State.finish (s : State α ε ω ι) (i : ι) (outcome : Except ε ω) : State α ε ω ι :=
  { s with phase := Function.update s.phase i .ended, finished := s.finished ++ [(i, outcome)] }

/-- One step of one call; a step that is not due does nothing. -/
def step (s : State α ε ω ι) : Op ι → State α ε ω ι
  | .look i =>
    match s.phase i with
    | .idle =>
      match plan i s.value with
      | .error e => s.finish i (.error e)
      | .ok w => { s with phase := Function.update s.phase i (.checked w) }
    | _ => s
  | .act i =>
    match s.phase i with
    | .checked w => { s with value := act w s.value }.finish i (.ok w)
    | _ => s

end Step

/-- A plan is carried out on a value that gives the same plan. -/
def Current (plan : ι → α → Except ε ω) (s : State α ε ω ι) : Op ι → Prop
  | .look _ => True
  | .act i => ∀ w, s.phase i = .checked w → plan i s.value = .ok w

/-- What an outcome leaves of the value. -/
def carry (act : ω → α → α) (a : α) : Except ε ω → α
  | .error _ => a
  | .ok w => act w a

/-- The calls one after another, each in one go. -/
def serial (plan : ι → α → Except ε ω) (act : ω → α → α) :
    α → List ι → α × List (ι × Except ε ω)
  | a, [] => (a, [])
  | a, i :: is =>
    let r := serial plan act (carry act a (plan i a)) is
    (r.1, (i, plan i a) :: r.2)

variable {plan : ι → α → Except ε ω} {act : ω → α → α}

theorem serial_append (a : α) (is js : List ι) :
    serial plan act a (is ++ js) =
      ((serial plan act (serial plan act a is).1 js).1,
        (serial plan act a is).2 ++ (serial plan act (serial plan act a is).1 js).2) := by
  induction is generalizing a with
  | nil => rfl
  | cons i is ih =>
    rw [cons_append, serial, ih]
    rfl

/-- The calls that are over got what they get one after another, in the order they finished, and
the value is what they leave. -/
structure Serial (plan : ι → α → Except ε ω) (act : ω → α → α) (a : α) (s : State α ε ω ι) :
    Prop where
  serial : serial plan act a (s.finished.map Prod.fst) = (s.value, s.finished)
  /-- Each call is over once. -/
  nodup : (s.finished.map Prod.fst).Nodup
  ended : ∀ i, i ∈ s.finished.map Prod.fst ↔ s.phase i = .ended

theorem Serial.start (a : α) : Serial plan act a ({ value := a } : State α ε ω ι) :=
  ⟨rfl, nodup_nil, fun i => by simp⟩

variable [DecidableEq ι] {a : α} {s : State α ε ω ι}

theorem Serial.finish (h : Serial plan act a s) {i : ι} (hi : s.phase i ≠ .ended) :
    Serial plan act a
      ({ s with value := carry act s.value (plan i s.value) }.finish i (plan i s.value)) where
  serial := by
    simp only [State.finish, map_append, serial_append, h.serial]
    rfl
  nodup := by
    simp only [State.finish, map_append, map_cons, map_nil]
    refine nodup_append.mpr ⟨h.nodup, by simp, fun j hj k hk => ?_⟩
    rintro rfl
    rw [mem_singleton.mp hk] at hj
    exact hi ((h.ended i).mp hj)
  ended j := by
    simp only [State.finish, map_append, map_cons, map_nil, mem_append,
      mem_singleton, h.ended]
    by_cases hj : j = i
    · simp [hj]
    · simp [hj]

theorem Serial.phase (h : Serial plan act a s) {i : ι} {w : ω} (hi : s.phase i ≠ .ended) :
    Serial plan act a { s with phase := Function.update s.phase i (.checked w) } where
  serial := h.serial
  nodup := h.nodup
  ended j := by
    rw [h.ended]
    by_cases hj : j = i
    · simp [hj, hi]
    · simp [hj]

theorem serial_step (s : State α ε ω ι) (o : Op ι) (h : Serial plan act a s)
    (ho : Current plan s o) : Serial plan act a (step plan act s o) := by
  cases o with
  | look i =>
    rcases hp : s.phase i with _ | w | _
    · have hover : s.phase i ≠ .ended := by simp [hp]
      rcases hplan : plan i s.value with e | w
      · have hfin := h.finish hover
        simpa only [step, hp, hplan, carry] using hfin
      · simpa only [step, hp, hplan] using h.phase hover
    · simpa only [step, hp] using h
    · simpa only [step, hp] using h
  | act i =>
    rcases hp : s.phase i with _ | w | _
    · simpa only [step, hp] using h
    · have hfin := h.finish (i := i) (by simp [hp])
      rw [ho w hp] at hfin
      simpa only [step, hp, carry] using hfin
    · simpa only [step, hp] using h

theorem serial_of_current {ops : List (Op ι)} (h : Meets (step plan act) (Current plan)
    { value := a } ops) : Throughout (step plan act) (Serial plan act a) { value := a } ops :=
  throughout_of_meets serial_step (Serial.start a) h

end CheckThenAct
