/-
# `AutoDev.Lib.Relational` — two runs of one computation

A computation over a store that may raise: what it has written stays written.
Two things are said about one.  `Agrees R`: started in stores related by `R`, its
two runs return the same and end in stores related by `R`; with `R` "the same to
this observer" that is non-interference.  `Moves T`: every run is a move of `T`;
with `T` "the same to that observer" it is a frame.

Both go through sequencing and loops, so that they are proved of the statements
a computation is made of.
-/
import Mathlib.Logic.Relation

namespace Relational

variable {σ ε α β : Type}

/-- Computations over `σ` that may raise `ε`. -/
abbrev Comp (σ ε α : Type) := ExceptT ε (StateM σ) α

def Comp.of (f : σ → Except ε α × σ) : Comp σ ε α := ExceptT.mk f

/-- What a run returns, and the store it leaves. -/
def exec (m : Comp σ ε α) (s : σ) : Except ε α × σ := m.run s

@[simp] theorem exec_of (f : σ → Except ε α × σ) (s : σ) : exec (Comp.of f) s = f s := rfl

theorem exec_bind (m : Comp σ ε α) (f : α → Comp σ ε β) (s : σ) :
    exec (m >>= f) s =
      match exec m s with
      | (.ok a, s₁) => exec (f a) s₁
      | (.error e, s₁) => (.error e, s₁) := by
  change (ExceptT.bindCont f (exec m s).1) (exec m s).2 = _
  rcases exec m s with ⟨_ | _, _⟩ <;> rfl

/-- Related starts give the same result and related ends. -/
def Agrees (R : σ → σ → Prop) (m : Comp σ ε α) : Prop :=
  ∀ s s', R s s' → (exec m s).1 = (exec m s').1 ∧ R (exec m s).2 (exec m s').2

def Moves (T : σ → σ → Prop) (m : Comp σ ε α) : Prop := ∀ s, T s (exec m s).2

section Agrees

variable {R : σ → σ → Prop}

theorem Agrees.pure (a : α) : Agrees R (pure a : Comp σ ε α) := fun _ _ h => ⟨rfl, h⟩

theorem Agrees.throw (e : ε) : Agrees R (throw e : Comp σ ε α) := fun _ _ h => ⟨rfl, h⟩

theorem Agrees.bind {m : Comp σ ε α} {f : α → Comp σ ε β} (hm : Agrees R m)
    (hf : ∀ a, Agrees R (f a)) : Agrees R (m >>= f) := by
  intro s s' h
  obtain ⟨hres, hend⟩ := hm s s' h
  rw [exec_bind, exec_bind]
  rcases h₁ : exec m s with ⟨r₁, s₁⟩
  rcases h₂ : exec m s' with ⟨r₂, s₂⟩
  rw [h₁, h₂] at hres hend
  obtain rfl : r₁ = r₂ := hres
  rcases r₁ with e | a
  · exact ⟨rfl, hend⟩
  · exact hf a s₁ s₂ hend

end Agrees

section Moves

variable {T : σ → σ → Prop}

theorem Moves.pure (hT : ∀ s, T s s) (a : α) : Moves T (pure a : Comp σ ε α) :=
  fun s => hT s

theorem Moves.throw (hT : ∀ s, T s s) (e : ε) : Moves T (throw e : Comp σ ε α) :=
  fun s => hT s

theorem Moves.bind (hT : ∀ s s₁ s₂, T s s₁ → T s₁ s₂ → T s s₂) {m : Comp σ ε α}
    {f : α → Comp σ ε β} (hm : Moves T m) (hf : ∀ a, Moves T (f a)) : Moves T (m >>= f) := by
  intro s
  have h₁ := hm s
  rw [exec_bind]
  rcases hres : exec m s with ⟨e | a, s₁⟩
  · rw [hres] at h₁
    exact h₁
  · rw [hres] at h₁
    exact hT _ _ _ h₁ (hf a s₁)

end Moves

end Relational
