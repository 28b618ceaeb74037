/-
# `AutoDev.Lib.Interleave` — any number of programs over one shared state

Programs take turns, one command at a time, in any order; a LOG records who
issued what and which reply came back.

  * `rely` is a weakest precondition under INTERFERENCE: before each command,
    and after the last one, the state may have moved on by a relation that all
    programs keep to.  It also carries the history of the program itself.
  * A LATCH is a fact of the state that stays once it is there, and a kind of
    event that only happens while it is not and leaves it behind.  Then in every
    log there is at most one such event (`Runs.latched`).
-/
import AutoDev.Lib.Prog
import Mathlib.Data.List.Perm.Basic
import Mathlib.Logic.Function.Basic

namespace Interleave

open Prog List

variable {C : Type} {R : C → Type} {σ α β ι κ A : Type}

/-! ## Pools and their runs -/

/-- A command and the reply to it. -/
abbrev Event (C : Type) (R : C → Type) := (c : C) × R c

/-- The shared state, what is left of each program, and the log, the oldest event first. -/
structure Pool (C : Type) (R : C → Type) (σ α ι : Type) where
  state : σ
  procs : ι → Prog C R α
  log : List (ι × Event C R) := []

variable [DecidableEq ι]

variable (P : Pool C R σ α ι) (i : ι)

def Pool.events : List (Event C R) :=
  (P.log.filter (·.1 = i)).map Prod.snd

/-- The program `i` has issued the command `c`. -/
def Pool.after (c : C) (k : R c → Prog C R α) (r : R c) (s' : σ) : Pool C R σ α ι where
  state := s'
  procs := Function.update P.procs i (k r)
  log := P.log ++ [(i, ⟨c, r⟩)]

def Pool.result? : Option α :=
  match P.procs i with
  | .ret a => some a
  | .op _ _ => none

section Runs

variable (Sem : (c : C) → σ → R c → σ → Prop) (g : Pool C R σ α ι → ι → Event C R → Prop)

/-- Interleavings whose steps all meet `g`. -/
inductive Runs (P₀ : Pool C R σ α ι) : Pool C R σ α ι → Prop
  | refl : Runs P₀ P₀
  | step {P : Pool C R σ α ι} (i : ι) {c : C} {k : R c → Prog C R α} {r : R c} {s' : σ} :
      Runs P₀ P → P.procs i = .op c k → Sem c P.state r s' → g P i ⟨c, r⟩ →
      Runs P₀ (P.after i c k r s')

end Runs

variable {Sem : (c : C) → σ → R c → σ → Prop} {g : Pool C R σ α ι → ι → Event C R → Prop}
  {P P₀ P₁ : Pool C R σ α ι} {i j : ι} {c : C} {k : R c → Prog C R α} {r : R c} {s s' : σ} {a : α}

omit [DecidableEq ι] in
theorem result?_eq_some : P.result? i = some a ↔ P.procs i = .ret a := by
  unfold Pool.result?
  rcases P.procs i with b | ⟨c, k⟩
  · simp
  · simp

theorem after_procs_self : (P.after i c k r s').procs i = k r := Function.update_self ..

theorem after_procs_of_ne (h : j ≠ i) : (P.after i c k r s').procs j = P.procs j :=
  Function.update_of_ne h ..

theorem events_after_self : (P.after i c k r s').events i = P.events i ++ [⟨c, r⟩] := by
  simp [Pool.events, Pool.after]

theorem events_after_of_ne (h : j ≠ i) : (P.after i c k r s').events j = P.events j := by
  simp [Pool.events, Pool.after, Ne.symm h]

theorem mem_events {e : Event C R} : e ∈ P.events i ↔ (i, e) ∈ P.log := by
  simp [Pool.events]

theorem Runs.trans (h : Runs Sem g P₀ P₁) (h' : Runs Sem g P₁ P) : Runs Sem g P₀ P := by
  induction h' with
  | refl => exact h
  | step i _ hprog hsem hg ih => exact .step i ih hprog hsem hg

variable {Rel : σ → σ → Prop}

theorem Runs.rel (hrefl : ∀ s, Rel s s) (htrans : ∀ s₁ s₂ s₃, Rel s₁ s₂ → Rel s₂ s₃ → Rel s₁ s₃)
    (hstep : ∀ c s r s', Sem c s r s' → Rel s s') (h : Runs Sem g P₀ P) : Rel P₀.state P.state := by
  induction h with
  | refl => exact hrefl _
  | step _ _ _ hsem _ ih => exact htrans _ _ _ ih (hstep _ _ _ _ hsem)

theorem Runs.returned (h : Runs Sem g P₀ P) (hret : P₀.procs i = .ret a) : P.procs i = .ret a := by
  induction h with
  | refl => exact hret
  | @step P' j c k r s' _ hprog _ _ ih =>
    have hij : i ≠ j := by
      rintro rfl
      rw [hprog] at ih
      cases ih
    rw [after_procs_of_ne hij]
    exact ih

theorem Runs.forall_log {K : Event C R → Prop} (hK : ∀ P i e, g P i e → K e) (hlog : P₀.log = [])
    (h : Runs Sem g P₀ P) : ∀ y ∈ P.log, K y.2 := by
  induction h with
  | refl => simp [hlog]
  | step _ _ _ _ hg ih =>
    exact forall_mem_append.mpr ⟨ih, forall_mem_singleton.mpr (hK _ _ _ hg)⟩

/-! ## Under interference -/

/-- `A` holds now and after whatever `Rel` allows. -/
def Henceforth (Rel : σ → σ → Prop) (A : σ → Prop) (s : σ) : Prop := ∀ s', Rel s s' → A s'

theorem Henceforth.here {A : σ → Prop} (h : Henceforth Rel A s) (hrefl : ∀ s, Rel s s) : A s :=
  h s (hrefl s)

theorem Henceforth.later {A : σ → Prop} (h : Henceforth Rel A s)
    (htrans : ∀ s₁ s₂ s₃, Rel s₁ s₂ → Rel s₂ s₃ → Rel s₁ s₃) (hs : Rel s s') :
    Henceforth Rel A s' :=
  fun _ h' => h _ (htrans _ _ _ hs h')

section Rely

variable (Sem) (Rel : σ → σ → Prop) (G : List (Event C R) → Event C R → Prop)
  (I : List (Event C R) → σ → Prop)

/-- From its history `es` and the state `s` on, whatever others do in between by `Rel` and as long
as its own events meet `G`: after every command the history is in `I`, and a result is in `Q`, both
from then on. -/
def rely (Q : List (Event C R) → α → σ → Prop) : List (Event C R) → Prog C R α → σ → Prop
  | es, .ret a, s => Henceforth Rel (Q es a) s
  | es, .op c k, s => ∀ s₁, Rel s s₁ → ∀ r s₂, Sem c s₁ r s₂ → G es ⟨c, r⟩ →
      Henceforth Rel (I (es ++ [⟨c, r⟩])) s₂ ∧ rely Q (es ++ [⟨c, r⟩]) (k r) s₂

variable {Sem Rel G I} {Q Q' : List (Event C R) → α → σ → Prop} {es : List (Event C R)}
  {p : Prog C R α}

theorem rely_send (c : C) {Q : List (Event C R) → R c → σ → Prop}
    (h : ∀ s₁, Rel s s₁ → ∀ r s₂, Sem c s₁ r s₂ → G es ⟨c, r⟩ →
      Henceforth Rel (I (es ++ [⟨c, r⟩])) s₂ ∧ Henceforth Rel (Q (es ++ [⟨c, r⟩]) r) s₂) :
    rely Sem Rel G I Q es (send c) s := h

theorem rely_send_bind (c : C) {f : R c → Prog C R α}
    (h : ∀ s₁, Rel s s₁ → ∀ r s₂, Sem c s₁ r s₂ → G es ⟨c, r⟩ →
      Henceforth Rel (I (es ++ [⟨c, r⟩])) s₂ ∧ rely Sem Rel G I Q (es ++ [⟨c, r⟩]) (f r) s₂) :
    rely Sem Rel G I Q es (send c >>= f) s := h

theorem rely_bind (hrefl : ∀ s, Rel s s) {Q : List (Event C R) → β → σ → Prop}
    {f : α → Prog C R β} :
    ∀ {p : Prog C R α} {es : List (Event C R)} {s : σ},
      rely Sem Rel G I (fun es a s => rely Sem Rel G I Q es (f a) s) es p s →
      rely Sem Rel G I Q es (p >>= f) s
  | .ret _, _, s, h => h s (hrefl s)
  | .op _ _, _, _, h => fun s₁ h₁ r s₂ hsem hG =>
    ⟨(h s₁ h₁ r s₂ hsem hG).1, rely_bind hrefl (h s₁ h₁ r s₂ hsem hG).2⟩

theorem rely_post (hQ : ∀ es a s, Q es a s → Q' es a s) :
    ∀ {p : Prog C R α} {es : List (Event C R)} {s : σ},
      rely Sem Rel G I Q es p s → rely Sem Rel G I Q' es p s
  | .ret a, es, _, h => fun s₁ h₁ => hQ es a s₁ (h s₁ h₁)
  | .op _ _, _, _, h => fun s₁ h₁ r s₂ hsem hG =>
    ⟨(h s₁ h₁ r s₂ hsem hG).1, rely_post hQ (h s₁ h₁ r s₂ hsem hG).2⟩

theorem rely_from (htrans : ∀ s₁ s₂ s₃, Rel s₁ s₂ → Rel s₂ s₃ → Rel s₁ s₃)
    (hstep : ∀ c s r s', Sem c s r s' → Rel s s') {s₀ : σ} :
    ∀ {p : Prog C R α} {es : List (Event C R)} {s : σ}, Rel s₀ s → rely Sem Rel G I Q es p s →
      rely Sem Rel G I (fun es a s' => Rel s₀ s' ∧ Q es a s') es p s
  | .ret _, _, _, hs, h => fun s₁ h₁ => ⟨htrans _ _ _ hs h₁, h s₁ h₁⟩
  | .op _ _, _, _, hs, h => fun s₁ h₁ r s₂ hsem hG =>
    ⟨(h s₁ h₁ r s₂ hsem hG).1,
      rely_from htrans hstep (htrans _ _ _ (htrans _ _ _ hs h₁) (hstep _ _ _ _ hsem))
        (h s₁ h₁ r s₂ hsem hG).2⟩

theorem rely_of_forall :
    ∀ {p : Prog C R α} {es : List (Event C R)} {s : σ},
      (∀ es' s, I (es ++ es') s) → (∀ es' a s, Q (es ++ es') a s) → rely Sem Rel G I Q es p s
  | .ret a, es, _, _, hQ => fun s₁ _ => by simpa using hQ [] a s₁
  | .op _ _, es, _, hI, hQ => fun _ _ r _ _ _ =>
    ⟨fun s' _ => hI _ s', rely_of_forall (fun es' s => by simpa using hI (_ :: es') s)
      fun es' a s => by simpa using hQ (_ :: es') a s⟩

theorem rely_rel (htrans : ∀ s₁ s₂ s₃, Rel s₁ s₂ → Rel s₂ s₃ → Rel s₁ s₃) (hs : Rel s s') :
    ∀ {p : Prog C R α}, rely Sem Rel G I Q es p s → rely Sem Rel G I Q es p s'
  | .ret _, h => h.later htrans hs
  | .op _ _, h => fun s₁ h₁ => h s₁ (htrans _ _ _ hs h₁)

end Rely

theorem Runs.rely {Rel : σ → σ → Prop} {G : ι → List (Event C R) → Event C R → Prop}
    {I : ι → List (Event C R) → σ → Prop} {Q : ι → List (Event C R) → α → σ → Prop}
    (htrans : ∀ s₁ s₂ s₃, Rel s₁ s₂ → Rel s₂ s₃ → Rel s₁ s₃) (hrefl : ∀ s, Rel s s)
    (hstep : ∀ c s r s', Sem c s r s' → Rel s s')
    (hG : ∀ P i c r s', Sem c P.state r s' → g P i ⟨c, r⟩ → G i (P.events i) ⟨c, r⟩)
    (hlog : P₀.log = []) (hI : ∀ i s, I i [] s)
    (h₀ : ∀ i, Interleave.rely Sem Rel (G i) (I i) (Q i) [] (P₀.procs i) P₀.state)
    (h : Runs Sem g P₀ P) (i : ι) :
    Henceforth Rel (I i (P.events i)) P.state ∧
      Interleave.rely Sem Rel (G i) (I i) (Q i) (P.events i) (P.procs i) P.state := by
  induction h with
  | refl =>
    have hnil : P₀.events i = [] := by simp [Pool.events, hlog]
    rw [hnil]
    exact ⟨fun s' _ => hI i s', h₀ i⟩
  | @step P' j c k r s' _ hprog hsem hg ih =>
    by_cases hij : i = j
    · subst hij
      rw [events_after_self, after_procs_self]
      rw [hprog] at ih
      exact ih.2 _ (hrefl _) r s' hsem (hG _ _ _ _ _ hsem hg)
    · rw [events_after_of_ne hij, after_procs_of_ne hij]
      exact ⟨ih.1.later htrans (hstep _ _ _ _ hsem), rely_rel htrans (hstep _ _ _ _ hsem) ih.2⟩

/-! ## What happens once -/

/-- Under each key: a fact that stays, and the events that bring it about. -/
structure Latch (Sem : (c : C) → σ → R c → σ → Prop) (E : κ → Event C R → Prop)
    (D : κ → σ → Prop) : Prop where
  before : ∀ {x c s r s'}, Sem c s r s' → E x ⟨c, r⟩ → ¬ D x s
  after : ∀ {x c s r s'}, Sem c s r s' → E x ⟨c, r⟩ → D x s'
  stays : ∀ {x c s r s'}, Sem c s r s' → D x s → D x s'

variable {E : κ → Event C R → Prop} {D : κ → σ → Prop}

theorem Runs.event_of_latch
    (honly : ∀ {x c s r s'}, Sem c s r s' → D x s' → D x s ∨ E x ⟨c, r⟩) (h : Runs Sem g P₀ P)
    {x : κ} (hD : D x P.state) : D x P₀.state ∨ ∃ y ∈ P.log, E x y.2 := by
  induction h with
  | refl => exact .inl hD
  | step _ _ _ hsem _ ih =>
    rcases honly hsem hD with hD | hE
    · refine (ih hD).imp_right ?_
      rintro ⟨y, hy, hE⟩
      exact ⟨y, mem_append_left _ hy, hE⟩
    · exact .inr ⟨_, mem_append_right _ (mem_singleton_self _), hE⟩

section

variable (hlog : P₀.log = []) (h : Runs Sem g P₀ P)
include hlog h

theorem Runs.since_event {F : σ → Prop} {K : Event C R → Prop}
    (hafter : ∀ {c s r s'}, Sem c s r s' → K ⟨c, r⟩ → F s')
    (hstays : ∀ {c s r s'}, Sem c s r s' → F s → F s') {y : ι × Event C R} (hy : y ∈ P.log) (hK : K y.2) : F P.state := by
  induction h with
  | refl => simp [hlog] at hy
  | step _ _ _ hsem _ ih =>
    rcases mem_append.mp hy with hy | hy
    · exact hstays hsem (ih hy)
    · rw [mem_singleton.mp hy] at hK
      exact hafter hsem hK

variable (hL : Latch Sem E D)
include hL

theorem Runs.no_event {x : κ} (hD : D x P₀.state) : D x P.state ∧ ∀ y ∈ P.log, ¬ E x y.2 := by
  induction h with
  | refl => exact ⟨hD, by simp [hlog]⟩
  | step _ _ _ hsem _ ih =>
    exact ⟨hL.stays hsem ih.1,
      forall_mem_append.mpr ⟨ih.2, forall_mem_singleton.mpr fun hE => hL.before hsem hE ih.1⟩⟩

theorem Runs.latched :
    P.log.Pairwise fun y z => ∀ x, E x y.2 → ¬ E x z.2 := by
  induction h with
  | refl => rw [hlog]; exact List.Pairwise.nil
  | @step P' j c k r s' hruns _ hsem _ ih =>
    refine pairwise_append.mpr ⟨ih, pairwise_singleton _ _, fun y hy z hz x hx he => ?_⟩
    rw [mem_singleton.mp hz] at he
    exact hL.before hsem he (hruns.since_event hlog hL.after hL.stays hy hx)

theorem Runs.latch_unique {x : κ}
    {e f : Event C R} (he : e ∈ P.events i) (hf : f ∈ P.events j) (hE : E x e) (hF : E x f) :
    i = j := by
  obtain ⟨m, hm⟩ := mem_iff_getElem?.mp (mem_events.mp he)
  obtain ⟨n, hn⟩ := mem_iff_getElem?.mp (mem_events.mp hf)
  obtain ⟨hm, hme⟩ := List.getElem?_eq_some_iff.mp hm
  obtain ⟨hn, hnf⟩ := List.getElem?_eq_some_iff.mp hn
  have hpair := pairwise_iff_getElem.mp (h.latched hlog hL)
  rcases Nat.lt_trichotomy m n with hlt | rfl | hlt
  · have hno := hpair m n hm hn hlt x
    rw [hme, hnf] at hno
    exact absurd hF (hno hE)
  · exact congrArg Prod.fst (hme.symm.trans hnf)
  · have hno := hpair n m hn hm hlt x
    rw [hme, hnf] at hno
    exact absurd hE (hno hF)

end

/-! ## From the programs to the log -/

theorem perm_of_events {B : Type} {f f' : B → Option A} :
    ∀ (l : List (ι × B)),
      (∀ i, (((l.filter (·.1 = i)).map Prod.snd).filterMap f).Perm
        (((l.filter (·.1 = i)).map Prod.snd).filterMap f')) →
      ((l.map Prod.snd).filterMap f).Perm ((l.map Prod.snd).filterMap f')
  | [], _ => .refl _
  | x :: l, h => by
    -- the events of the first program, and the shorter log of the others
    have hsplit : ((x :: l).filter (·.1 = x.1) ++ (x :: l).filter (¬ ·.1 = x.1)).Perm (x :: l) := by
      simpa using filter_append_perm (·.1 = x.1) (x :: l)
    have hrest : (x :: l).filter (¬ ·.1 = x.1) = l.filter (¬ ·.1 = x.1) := by simp
    have hothers : (((l.filter (¬ ·.1 = x.1)).map Prod.snd).filterMap f).Perm
        (((l.filter (¬ ·.1 = x.1)).map Prod.snd).filterMap f') := by
      refine perm_of_events _ fun i => ?_
      by_cases hi : i = x.1
      · have hnone : (l.filter (¬ ·.1 = x.1)).filter (·.1 = i) = [] := by
          simp [filter_filter, hi]
        rw [hnone]
        exact .refl _
      have hsome : (l.filter (¬ ·.1 = x.1)).filter (·.1 = i) = (x :: l).filter (·.1 = i) := by
        rw [filter_cons_of_neg (by simpa using Ne.symm hi), filter_filter]
        refine filter_congr fun y _ => ?_
        by_cases hy : y.1 = i
        · simp [hy, hi]
        · simp [hy]
      rw [hsome]
      exact h i
    have hmap := hsplit.map Prod.snd
    rw [hrest, map_append] at hmap
    refine ((hmap.filterMap f).symm.trans ?_).trans (hmap.filterMap f')
    rw [filterMap_append, filterMap_append]
    exact (h x.1).append hothers
  termination_by l => l.length
  decreasing_by
    exact Nat.lt_succ_of_le (length_filter_le _ _)

/-! ## Playing a schedule

With a function that answers commands, by the history of the program and the state, a list of names
is a schedule. -/

section Play

variable (ans : List (Event C R) → (c : C) → σ → Option (R c × σ))

/-- The next command of `i`, if it has not ended and there is an answer. -/
def Pool.next (P : Pool C R σ α ι) (i : ι) : Pool C R σ α ι :=
  match P.procs i with
  | .ret _ => P
  | .op c k =>
    match ans (P.events i) c P.state with
    | none => P
    | some (r, s') => P.after i c k r s'

def Pool.play (P : Pool C R σ α ι) (sched : List ι) : Pool C R σ α ι :=
  sched.foldl (Pool.next ans) P

/-- Whether the events of a schedule all meet `g`. -/
def Pool.meets (g : Pool C R σ α ι → ι → Event C R → Prop) [∀ P i e, Decidable (g P i e)] :
    Pool C R σ α ι → List ι → Bool
  | _, [] => true
  | P, i :: sched =>
    (match P.procs i with
      | .ret _ => true
      | .op c _ => (ans (P.events i) c P.state).all fun x => decide (g P i ⟨c, x.1⟩)) &&
    meets g (P.next ans i) sched

variable {ans}

theorem Pool.meets_of_forall [∀ P i e, Decidable (g P i e)]
    (h : ∀ P i e, g P i e := by exact fun _ _ _ => trivial) :
    ∀ {sched : List ι} {P : Pool C R σ α ι}, P.meets ans g sched = true
  | [], _ => rfl
  | i :: sched, P => by
    rw [Pool.meets, meets_of_forall h, Bool.and_true]
    rcases P.procs i with a | ⟨c, k⟩
    · rfl
    · simp [h]

theorem Runs.play [∀ P i e, Decidable (g P i e)]
    (hans : ∀ es c s r s', ans es c s = some (r, s') → Sem c s r s') :
    ∀ (sched : List ι) {P : Pool C R σ α ι}, Runs Sem g P₀ P → P.meets ans g sched = true →
      Runs Sem g P₀ (P.play ans sched)
  | [], _, h, _ => h
  | i :: sched, P, h, hm => by
    rw [Pool.meets, Bool.and_eq_true] at hm
    refine Runs.play hans sched ?_ hm.2
    have hg := hm.1
    rcases hprog : P.procs i with a | ⟨c, k⟩
    · simp only [Pool.next, hprog]
      exact h
    rcases hx : ans (P.events i) c P.state with _ | ⟨r, s'⟩
    · simp only [Pool.next, hprog, hx]
      exact h
    · simp only [hprog, hx, Option.all_some, decide_eq_true_eq] at hg
      simp only [Pool.next, hprog, hx]
      exact .step i h hprog (hans _ _ _ _ _ hx) hg

end Play

end Interleave
