/-
# `AutoDev.Skills.Invoker` — a skill invocation and its time budget

`SkillInvocationBroker.invoke` and `_run_with_timeout` of
`backend/skills/invoker.py`, with the time they take.

`future.result` gives up at the timeout, but it does so INSIDE the `with` block
of the thread pool, and leaving that block waits for the worker.  So the caller
is held until the entrypoint ends, whatever the timeout: the budget decides
which exception is raised, not when (`inTime_iff`), and an entrypoint that never
returns holds it for good.
-/
import Mathlib.Algebra.Order.Ring.Rat
import Mathlib.Tactic.Linarith

namespace AutoDev.Skills

inductive Raised where
  /-- `SkillInvocationDenied`. -/
  | denied (message : String)
  /-- `SkillBudgetExceeded`. -/
  | budgetExceeded (message : String)
  /-- `TimeoutError`, of `future.result` or of the entrypoint. -/
  | timeout
  | other (exc : String)
  deriving DecidableEq

structure EntrypointRun (V : Type) where
  duration : Option ℚ
  ending : Except Raised V

/-- The registered skill; `timeoutText` is how its budget is printed. -/
structure SkillRef where
  version : String
  timeoutSec : ℚ
  timeoutText : String
  timeout_pos : 0 < timeoutSec

/-- What a call finds on its way, and the time that its own steps take before the entrypoint is
submitted and after it is left. -/
structure SkillCall (V : Type) where
  skillId : String
  resolved : Except String SkillRef
  inputErrors : List String
  entrypoint : Except Raised (EntrypointRun V)
  outputErrors : V → List String
  before : ℚ
  after : ℚ
  after_nonneg : 0 ≤ after

inductive SkillEvent where
  | denied (reason : String) (errors : List String)
  | completed (version : String)
  deriving DecidableEq

/-- How and when a call is over. -/
structure Invocation (V : Type) where
  seconds : ℚ
  events : List SkillEvent
  outcome : Except Raised V

variable {V : Type}

def runWithTimeout (run : EntrypointRun V) (timeoutSec : ℚ) : Option (ℚ × Except Raised V) :=
  let waited : ℚ × Except Raised V := match run.duration with
    | none => (timeoutSec, .error .timeout)
    | some d => if d ≤ timeoutSec then (d, run.ending) else (timeoutSec, .error .timeout)
  -- `shutdown(wait=True)`
  run.duration.map fun d => (max waited.1 d, waited.2)

namespace SkillCall

variable (c : SkillCall V)

/-- `invoke`; `none` if it never comes back. -/
def invoke : Option (Invocation V) :=
  match c.resolved with
  | .error keyError =>
    some ⟨c.before, [.denied "not-found" []], .error (.denied keyError)⟩
  | .ok ref =>
    if c.inputErrors ≠ [] then
      let errors := "; ".intercalate c.inputErrors
      some ⟨c.before, [.denied "invalid-input" c.inputErrors],
        .error (.denied s!"invalid input for {c.skillId}: {errors}")⟩
    else
      match c.entrypoint with
      | .error e => some ⟨c.before, [], .error e⟩
      | .ok run =>
        (runWithTimeout run ref.timeoutSec).map fun left =>
          let seconds := c.before + left.1 + c.after
          match left.2 with
          | .error .timeout =>
            ⟨seconds, [.denied "budget-exceeded" []], .error (.budgetExceeded
              s!"{c.skillId} exceeded its {ref.timeoutText}s timeout budget")⟩
          | .error e => ⟨seconds, [], .error e⟩
          | .ok output =>
            if c.outputErrors output ≠ [] then
              let errors := "; ".intercalate (c.outputErrors output)
              ⟨seconds, [.denied "invalid-output" (c.outputErrors output)],
                .error (.denied s!"invalid output from {c.skillId}: {errors}")⟩
            else ⟨seconds, [.completed ref.version], .ok output⟩

/-- The time budget; a skill that is not found has none. -/
def timeout : ℚ :=
  match c.resolved with
  | .error _ => 0
  | .ok ref => ref.timeoutSec

/-- The run of the entrypoint, if the call gets to it. -/
def started : Option (EntrypointRun V) :=
  match c.resolved, c.inputErrors, c.entrypoint with
  | .ok _, [], .ok run => some run
  | _, _, _ => none

/-- The caller has its answer within the timeout and the overhead, and if the entrypoint is still
running at the timeout the answer is `SkillBudgetExceeded`. -/
def InTime (overhead : ℚ) : Prop :=
  ∃ out, c.invoke = some out ∧ out.seconds ≤ c.timeout + overhead ∧
    ∀ run, c.started = some run → (∀ d, run.duration = some d → c.timeout < d) →
      ∃ message, out.outcome = .error (.budgetExceeded message)

variable {c}

theorem runWithTimeout_eq (run : EntrypointRun V) (timeoutSec : ℚ) :
    runWithTimeout run timeoutSec = run.duration.map fun d =>
      (d, if d ≤ timeoutSec then run.ending else .error .timeout) := by
  unfold runWithTimeout
  rcases run.duration with _ | d
  · rfl
  by_cases h : d ≤ timeoutSec
  · simp [h]
  · simp [h, le_of_not_ge h]

theorem timeout_nonneg : 0 ≤ c.timeout := by
  unfold timeout
  split
  · exact le_rfl
  · next ref _ => exact ref.timeout_pos.le

theorem invoke_of_not_started (h : c.started = none) :
    ∃ out, c.invoke = some out ∧ out.seconds = c.before := by
  unfold started at h
  unfold invoke
  split
  · exact ⟨_, rfl, rfl⟩
  next ref href =>
  by_cases hin : c.inputErrors = []
  · rw [href, hin] at h
    rcases hrun : c.entrypoint with e | run
    · simp [hin]
    · rw [hrun] at h
      cases h
  · simp [hin]

theorem invoke_of_started {run : EntrypointRun V} (h : c.started = some run) :
    (run.duration = none → c.invoke = none) ∧ ∀ d, run.duration = some d →
      ∃ out, c.invoke = some out ∧ out.seconds = c.before + d + c.after ∧
        (c.timeout < d → ∃ message, out.outcome = .error (.budgetExceeded message)) := by
  unfold started at h
  split at h
  · next ref _ href hin hrun =>
    cases h
    unfold invoke timeout
    simp only [href, hin, hrun, ne_eq, not_true_eq_false, if_false, runWithTimeout_eq]
    refine ⟨fun hd => by rw [hd]; rfl, fun d hd => ?_⟩
    rw [hd]
    refine ⟨_, rfl, ?_, fun hover => ?_⟩
    · dsimp only
      split
      · rfl
      · rfl
      · split <;> rfl
    · dsimp only
      rw [if_neg (not_le.mpr hover)]
      exact ⟨_, rfl⟩
  · cases h

/-- **The caller is held by the entrypoint, not by the budget.**  Whatever the timeout, and for any
overhead that covers the broker's own steps: a call is over in time exactly if it does not get to
the entrypoint, or the entrypoint ends while timeout and overhead last. -/
theorem inTime_iff {overhead : ℚ} (h : c.before + c.after ≤ overhead) :
    c.InTime overhead ↔ ∀ run, c.started = some run →
      ∃ d, run.duration = some d ∧ c.before + d + c.after ≤ c.timeout + overhead := by
  have hafter := c.after_nonneg
  have htimeout : 0 ≤ c.timeout := timeout_nonneg
  unfold InTime
  rcases hstart : c.started with _ | run
  · obtain ⟨out, hout, hsec⟩ := invoke_of_not_started hstart
    refine iff_of_true ⟨out, hout, by rw [hsec]; linarith, fun _ h => by cases h⟩ fun _ h => ?_
    cases h
  obtain ⟨hnever, hends⟩ := invoke_of_started hstart
  rcases hd : run.duration with _ | d
  · rw [hnever hd]
    refine iff_of_false ?_ fun h => ?_
    · rintro ⟨_, ⟨⟩, -⟩
    · obtain ⟨d, h, -⟩ := h run rfl
      cases hd.symm.trans h
  obtain ⟨out, hout, hsec, hover⟩ := hends d hd
  rw [hout]
  constructor
  · rintro ⟨_, ⟨⟩, hle, -⟩ run' ⟨⟩
    exact ⟨d, hd, hsec ▸ hle⟩
  · intro h
    obtain ⟨d', hd', hle⟩ := h run rfl
    cases hd.symm.trans hd'
    refine ⟨out, rfl, hsec ▸ hle, ?_⟩
    rintro run' ⟨⟩ hlate
    exact hover (hlate d hd)

end SkillCall

/-- A call of a skill with a minute's budget, whose own steps take a second. -/
def minuteCall (run : EntrypointRun Unit) : SkillCall Unit where
  skillId := "acme/summarize"
  resolved := .ok ⟨"1.0.0", 60, "60.0", by decide⟩
  inputErrors := []
  entrypoint := .ok run
  outputErrors _ := []
  before := 1 / 2
  after := 1 / 2
  after_nonneg := by decide +kernel

theorem minuteCall_inTime : (minuteCall ⟨some 5, .ok ()⟩).InTime 1 :=
  (SkillCall.inTime_iff (by decide +kernel)).mpr fun _ h => ⟨5, by cases h; rfl, by decide +kernel⟩

/-- An entrypoint that never returns: no overhead is enough. -/
theorem never_inTime : ¬ ∃ overhead, (minuteCall ⟨none, .ok ()⟩).InTime overhead := by
  rintro ⟨overhead, out, hout, -⟩
  cases hout

end AutoDev.Skills
