/-
# `AutoDev.Lib.History` — operations on one state, one after another

A component that is called again and again is a state and a function `step`
that says what each operation makes of it; what the world decides — a clock
reading, a write that fails — is part of the operation.  A HISTORY is a list
of operations.  Two things are said about one: that a property holds in every
state of it (`Throughout`), and that every operation meets a condition in the
state it finds (`Meets`).

`throughout_of_meets` turns a step lemma into the first from the second, and
`Throughout.meets` goes back, where a step that breaks the condition breaks
the property as well; `throughout_iff_meets` does both.
-/
import Mathlib.Data.List.Basic

namespace History

open List

variable {σ ο : Type} {step : σ → ο → σ}

/-- `P` holds in every state, the first and the last included. -/
def Throughout (step : σ → ο → σ) (P : σ → Prop) : σ → List ο → Prop
  | s, [] => P s
  | s, o :: ops => P s ∧ Throughout step P (step s o) ops

/-- Every operation meets `C` in the state it finds. -/
def Meets (step : σ → ο → σ) (C : σ → ο → Prop) : σ → List ο → Prop
  | _, [] => True
  | s, o :: ops => C s o ∧ Meets step C (step s o) ops

instance Throughout.decidable {P : σ → Prop} [DecidablePred P] :
    ∀ (s : σ) (ops : List ο), Decidable (Throughout step P s ops)
  | s, [] => inferInstanceAs (Decidable (P s))
  | s, o :: ops => @instDecidableAnd _ _ _ (Throughout.decidable (step s o) ops)

instance Meets.decidable {C : σ → ο → Prop} [∀ s o, Decidable (C s o)] :
    ∀ (s : σ) (ops : List ο), Decidable (Meets step C s ops)
  | _, [] => inferInstanceAs (Decidable True)
  | s, o :: ops => @instDecidableAnd _ _ _ (Meets.decidable (step s o) ops)

variable {P Q : σ → Prop} {C D : σ → ο → Prop} {s : σ} {ops : List ο}

theorem Throughout.here (h : Throughout step P s ops) : P s := by
  cases ops with
  | nil => exact h
  | cons o ops => exact h.1

theorem Throughout.imp (h : Throughout step P s ops) (hpq : ∀ s, P s → Q s) :
    Throughout step Q s ops := by
  induction ops generalizing s with
  | nil => exact hpq s h
  | cons o ops ih => exact ⟨hpq s h.1, ih h.2⟩

theorem Meets.and (h : Meets step C s ops) (h' : Meets step D s ops) :
    Meets step (fun s o => C s o ∧ D s o) s ops := by
  induction ops generalizing s with
  | nil => trivial
  | cons o ops ih => exact ⟨⟨h.1, h'.1⟩, ih h.2 h'.2⟩

theorem meets_of_forall (h : ∀ o ∈ ops, ∀ s, C s o) : Meets step C s ops := by
  induction ops generalizing s with
  | nil => trivial
  | cons o ops ih =>
    exact ⟨h o mem_cons_self s, ih fun o' ho' => h o' (mem_cons_of_mem o ho')⟩

theorem throughout_of_meets (hstep : ∀ s o, P s → C s o → P (step s o)) (hs : P s)
    (h : Meets step C s ops) : Throughout step P s ops := by
  induction ops generalizing s with
  | nil => exact hs
  | cons o ops ih => exact ⟨hs, ih (hstep s o hs h.1) h.2⟩

theorem Throughout.meets (h : Throughout step P s ops)
    (hstep : ∀ s o, P s → P (step s o) → C s o) : Meets step C s ops := by
  induction ops generalizing s with
  | nil => trivial
  | cons o ops ih => exact ⟨hstep s o h.1 h.2.here, ih h.2⟩

theorem Meets.of_throughout (h : Meets step C s ops) (hp : Throughout step P s ops)
    (hcd : ∀ s o, P s → C s o → D s o) : Meets step D s ops := by
  induction ops generalizing s with
  | nil => trivial
  | cons o ops ih => exact ⟨hcd s o hp.1 h.1, ih h.2 hp.2⟩

/-- Two conditions that agree wherever the invariant holds are met by the same histories, if the
first keeps the invariant. -/
theorem meets_iff_meets (hiff : ∀ s o, P s → (C s o ↔ D s o))
    (hstep : ∀ s o, P s → C s o → P (step s o)) (hs : P s) :
    Meets step C s ops ↔ Meets step D s ops := by
  induction ops generalizing s with
  | nil => exact Iff.rfl
  | cons o ops ih =>
    constructor
    · rintro ⟨hc, h⟩
      exact ⟨(hiff s o hs).mp hc, (ih (hstep s o hs hc)).mp h⟩
    · rintro ⟨hd, h⟩
      have hc := (hiff s o hs).mpr hd
      exact ⟨hc, (ih (hstep s o hs hc)).mpr h⟩

/-- Where each step keeps `P` exactly under `C`, the histories along which `P` holds are those that
meet `C`.  The step may go by an invariant `J`, and by what is known of the operations. -/
theorem throughout_iff_meets {J : σ → Prop} {A : ο → Prop}
    (hkeep : ∀ s o, J s → A o → P (step s o) → J (step s o))
    (hstep : ∀ s o, J s → A o → P s → (P (step s o) ↔ C s o)) (hA : ∀ o ∈ ops, A o) (hJ : J s)
    (hs : P s) : Throughout step P s ops ↔ Meets step C s ops := by
  induction ops generalizing s with
  | nil => exact iff_of_true hs trivial
  | cons o ops ih =>
    have ho := hA o mem_cons_self
    have hrest := fun h =>
      ih (fun o' ho' => hA o' (mem_cons_of_mem o ho')) (hkeep s o hJ ho h) h
    constructor
    · rintro ⟨-, h⟩
      exact ⟨(hstep s o hJ ho hs).mp h.here, (hrest h.here).mp h⟩
    · rintro ⟨hc, h⟩
      exact ⟨hs, (hrest ((hstep s o hJ ho hs).mpr hc)).mpr h⟩

end History
