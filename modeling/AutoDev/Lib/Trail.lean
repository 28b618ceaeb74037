/-
# `AutoDev.Lib.Trail` — the one course of a deterministic process

A process that decides each step by a function `f` — the event it produces and
the state it goes on in, or nothing when it halts — has one course.  `Trail f
a t b` is a finite piece of it: from `a` the events `t` are produced and `b`
is reached.  Two pieces from one start agree as far as both go
(`Trail.eq_of_length`), and so two pieces that both end in a halt are equal
(`Trail.halt_unique`).  This is how a process that was interrupted and taken
up again is compared with one that was not: whatever the detours, both are
pieces of one course, and both halt.  `Trail.follow` computes the course.
-/
import Mathlib.Data.List.Basic

variable {σ ε : Type}

/-- From `a` the process produces the events `t` and reaches `b`. -/
inductive Trail (f : σ → Option (ε × σ)) (a : σ) : List ε → σ → Prop
  | nil : Trail f a [] a
  | snoc {t : List ε} {b c : σ} {e : ε} : Trail f a t b → f b = some (e, c) →
      Trail f a (t ++ [e]) c

namespace Trail

open List

variable {f : σ → Option (ε × σ)} {a b c : σ} {t u : List ε}

theorem last {e : ε} (h : Trail f a (t ++ [e]) c) : ∃ b, Trail f a t b ∧ f b = some (e, c) := by
  generalize hu : t ++ [e] = u at h
  cases h with
  | nil => simp at hu
  | snoc h hf =>
    obtain ⟨rfl, he⟩ := append_inj' hu rfl
    cases he
    exact ⟨_, h, hf⟩

theorem eq_of_length (h : Trail f a t b) (h' : Trail f a u c) (hl : t.length = u.length) :
    t = u ∧ b = c := by
  induction h generalizing u c with
  | nil =>
    obtain rfl := length_eq_zero_iff.mp hl.symm
    generalize hu : ([] : List ε) = u at h'
    cases h' with
    | nil => exact ⟨rfl, rfl⟩
    | snoc => simp at hu
  | @snoc t b b' e _ hf ih =>
    cases h' with
    | nil => simp at hl
    | snoc h' hf' =>
      obtain ⟨rfl, rfl⟩ := ih h' (by simpa using hl)
      cases hf.symm.trans hf'
      exact ⟨rfl, rfl⟩

theorem goes_on (h : Trail f a t c) {n : Nat} (hn : n < t.length) :
    ∃ u b e b', Trail f a u b ∧ u.length = n ∧ f b = some (e, b') := by
  induction h with
  | nil => simp at hn
  | @snoc t b c e h hf ih =>
    rcases Nat.lt_or_ge n t.length with hlt | hge
    · exact ih hlt
    · refine ⟨t, b, e, c, h, ?_, hf⟩
      rw [length_append, length_singleton] at hn
      omega

theorem length_le_of_halt (h : Trail f a t b) (hb : f b = none) (h' : Trail f a u c) :
    u.length ≤ t.length := by
  by_contra hlt
  obtain ⟨v, d, e, d', hv, hlen, hf⟩ := h'.goes_on (Nat.lt_of_not_le hlt)
  obtain ⟨-, rfl⟩ := h.eq_of_length hv hlen.symm
  cases hb.symm.trans hf

theorem halt_unique (h : Trail f a t b) (hb : f b = none) (h' : Trail f a u c) (hc : f c = none) :
    t = u ∧ b = c :=
  h.eq_of_length h' (Nat.le_antisymm (h'.length_le_of_halt hc h) (h.length_le_of_halt hb h'))

/-- The first `n` steps of the process, computed. -/
def follow (f : σ → Option (ε × σ)) : Nat → σ → List ε × σ
  | 0, a => ([], a)
  | n + 1, a =>
    match f (follow f n a).2 with
    | some (e, c) => ((follow f n a).1 ++ [e], c)
    | none => follow f n a

theorem of_follow (f : σ → Option (ε × σ)) (a : σ) :
    ∀ n, Trail f a (follow f n a).1 (follow f n a).2
  | 0 => .nil
  | n + 1 => by
    unfold follow
    split
    · exact (of_follow f a n).snoc ‹_›
    · exact of_follow f a n

end Trail
