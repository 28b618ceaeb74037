/-
# `AutoDev.Llm.Bills` — what a governed call was billed for

A caller of `complete` sees one response.  The providers may have given more:
every response that came late, or took the accounts over a limit of the gateway,
was paid for and then GIVEN UP, and the call went on to a retry, to a fallback
or to an error.  `bills` is what the providers really answered, read off the
calls of the trace; an operation that gives up no paid response was billed for
the response it returns and for nothing else (`complete_settles`).
-/
import AutoDev.Llm.Limits

namespace AutoDev.Llm

open List

open AutoDev.Flows

/-- The responses the providers gave during an operation, in order. -/
def bills (answers : Nat → Answer) (trace : List Event) : List ModelResponse :=
  trace.filterMap fun
    | .called attempt _ _ => (answers attempt).result.toOption
    | _ => none

def ModelResponse.Free (r : ModelResponse) : Prop := r.usage = {} ∧ r.cost = .fin 0

instance (r : ModelResponse) : Decidable r.Free := inferInstanceAs (Decidable (_ ∧ _))

/-- Only the returned response was paid for. -/
def Settles (answers : Nat → Answer) : Except Failure ModelResponse → List Event → Prop
  | .ok response, trace => ∃ bs, bills answers trace = bs ++ [response] ∧ ∀ b ∈ bs, b.Free
  | .error _, trace => ∀ b ∈ bills answers trace, b.Free

@[simp] theorem bills_append (answers : Nat → Answer) (t t' : List Event) :
    bills answers (t ++ t') = bills answers t ++ bills answers t' :=
  filterMap_append

@[simp] theorem bills_recorded (answers : Nat → Answer) (t : AttemptTelemetry)
    (trace : List Event) : bills answers (.recorded t :: trace) = bills answers trace := rfl

@[simp] theorem bills_rejected (answers : Nat → Answer) (attempt : Nat) (target : ModelTarget)
    (trace : List Event) :
    bills answers (.rejected attempt target :: trace) = bills answers trace := rfl

@[simp] theorem bills_nil (answers : Nat → Answer) : bills answers [] = [] := rfl

theorem bills_called (answers : Nat → Answer) (attempt : Nat) (target : ModelTarget)
    (accounted : GatewayBudget) (trace : List Event) :
    bills answers (.called attempt target accounted :: trace)
      = (answers attempt).result.toOption.toList ++ bills answers trace := by
  cases h : (answers attempt).result <;> simp [bills, h, Except.toOption]

section Operations

variable [FloatSum]

def GivenUp (config : ModelConfig) (answers : Nat → Answer) : Event → Prop
  | .called attempt target accounted =>
    match (answers attempt).result with
    | .error _ => False
    | .ok response =>
      ¬ response.Free ∧
        (target.late (answers attempt).durationMs = true ∨
          config.limits.exceeded (accounted.account response.usage response.cost) = true)
  | _ => False

instance (config : ModelConfig) (answers : Nat → Answer) :
    DecidablePred (GivenUp config answers) := fun e => by
  unfold GivenUp
  split
  · split <;> infer_instance
  · infer_instance

abbrev NoneGivenUp (config : ModelConfig) (answers : Nat → Answer) (trace : List Event) : Prop :=
  ∀ e ∈ trace, ¬ GivenUp config answers e

theorem NoneGivenUp.of_append {config : ModelConfig} {answers : Nat → Answer} {t t' : List Event}
    (h : NoneGivenUp config answers (t ++ t')) : NoneGivenUp config answers t :=
  fun e he => h e (mem_append_left _ he)

variable {config : ModelConfig} {answers : Nat → Answer}

theorem completeAttempt_settles (item : PreparedTarget) (more : Bool) (left : Nat)
    (s s₁ : Coordinator)
    (hs : NoneGivenUp config answers s.trace → ∀ b ∈ bills answers s.trace, b.Free)
    (ha : s.admitCall config.limits item = .ok s₁) :
    (completeAttempt config answers item more left s₁).1.Keeps
      (fun s => NoneGivenUp config answers s.trace → ∀ b ∈ bills answers s.trace, b.Free)
      (fun r s => NoneGivenUp config answers s.trace → Settles answers r s.trace)
      (completeAttempt config answers item more left s₁).2 := by
  obtain ⟨-, hs₁⟩ := Coordinator.admitCall_eq_ok.mp ha
  -- whatever the attempt records, the call is the last event before it
  have htrace : ∀ t, s₁.trace ++ [.recorded t]
      = s.trace ++ [.called s₁.attemptNumber item.target s.budget, .recorded t] := by
    simp [hs₁, Coordinator.admitted, Coordinator.log]
  have hbills : ∀ t, bills answers (s₁.trace ++ [.recorded t])
      = bills answers s.trace ++ (answers s₁.attemptNumber).result.toOption.toList := by
    simp [htrace, bills_called]
  have hbefore : ∀ t, NoneGivenUp config answers (s₁.trace ++ [.recorded t]) →
      (∀ b ∈ bills answers s.trace, b.Free) ∧
        ¬ GivenUp config answers (.called s₁.attemptNumber item.target s.budget) := by
    intro t hno
    rw [htrace] at hno
    exact ⟨hs hno.of_append, hno _ (by simp)⟩
  -- a response that is given up was free
  have hfree : ∀ t response, (answers s₁.attemptNumber).result = .ok response →
      (item.target.late (answers s₁.attemptNumber).durationMs = true ∨
        config.limits.exceeded (s.budget.account response.usage response.cost) = true) →
      NoneGivenUp config answers (s₁.trace ++ [.recorded t]) →
      ∀ b ∈ bills answers (s₁.trace ++ [.recorded t]), b.Free := by
    intro t response hres hup hno
    obtain ⟨hfree, hcall⟩ := hbefore t hno
    rw [hbills, hres]
    refine forall_mem_append.mpr ⟨hfree, fun b hb => ?_⟩
    obtain rfl := mem_singleton.mp hb
    by_contra hpaid
    refine hcall ?_
    simp only [GivenUp, hres]
    exact ⟨hpaid, hup⟩
  obtain ⟨e, hres, h | ⟨error, t, h⟩⟩ | ⟨response, t, hres, ⟨hlate, h⟩ | ⟨hover, h⟩ | h⟩ :=
    completeAttempt_cases config answers item more left s₁ <;> rw [h]
  · have hcall : s₁.trace = s.trace ++ [.called s₁.attemptNumber item.target s.budget] := by
      simp [hs₁, Coordinator.admitted, Coordinator.log]
    intro hno
    rw [hcall] at hno ⊢
    simpa [Settles, bills_called, hres, Except.toOption] using hs hno.of_append
  · have hfailed : NoneGivenUp config answers (s₁.trace ++ [.recorded t]) →
        ∀ b ∈ bills answers (s₁.trace ++ [.recorded t]), b.Free := by
      intro hno
      simpa [hbills, hres, Except.toOption] using (hbefore t hno).1
    exact keeps_failed hfailed fun _ _ _ => hfailed
  · have hfailed := hfree t response hres (.inl hlate)
    exact keeps_failed hfailed fun _ _ _ => hfailed
  · refine hfree t response hres (.inr ?_)
    rw [← hover, hs₁]
    exact exceeded_congr rfl rfl
  · intro hno
    refine ⟨bills answers s.trace, (hbills t).trans ?_, (hbefore t hno).1⟩
    rw [hres]
    rfl

/-- **One call, one bill.**  If no paid response is given up, `complete` is billed for the response
it returns, or for nothing if it raises. -/
theorem complete_settles {registry : String → Option Provider} {required : List String}
    (hno : NoneGivenUp config answers (complete registry config required answers).2.trace) :
    Settles answers (complete registry config required answers).1
      (complete registry config required answers).2.trace := by
  unfold complete at hno ⊢
  split
  · simp [Settles]
  next prepared h =>
    rw [h] at hno
    refine operate_rule ?_ ?_ completeAttempt_settles prepared ?_ hno
    · exact fun s _ hs => hs
    · intro item s hs hno
      simpa [Coordinator.reject, Coordinator.record, Coordinator.log]
        using hs hno.of_append.of_append
    · simp

end Operations

end AutoDev.Llm
