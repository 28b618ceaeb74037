/-
# `AutoDev.Lib.Prog` — programs that reach shared state one command at a time

A program is a tree: it stops with a value, or it issues one command and
continues with the reply.  The tree fixes the ORDER of the commands and
nothing else; what a command does to the state, and which replies it may
give, is a separate relation `Sem`.  Keeping the two apart is what lets one
and the same program be

  * run to its end (`Exec`),
  * cut after any number of commands (`Steps`) — a crash, or the point where
    a scheduler takes over.

`wp Sem I Q p s` is the weakest precondition of `p` at `s`: every complete
run ends in `Q`, and `I` holds of every state any prefix of a run leaves.
The first reading is `Exec.of_wp`, the second `Steps.of_wp`.
-/
import Mathlib.Order.Basic

/-- A program over the commands `C` with replies `R`. -/
inductive Prog (C : Type) (R : C → Type) (α : Type) where
  | ret (a : α)
  | op (c : C) (k : R c → Prog C R α)

namespace Prog

variable {C : Type} {R : C → Type} {α β σ : Type}

/-- Sequencing: graft `f` at every leaf. -/
def bind (p : Prog C R α) (f : α → Prog C R β) : Prog C R β :=
  match p with
  | .ret a => f a
  | .op c k => .op c fun r => (k r).bind f

instance : Monad (Prog C R) where
  pure := .ret
  bind := bind

@[simp] theorem pure_eq (a : α) : (pure a : Prog C R α) = .ret a := rfl

@[simp] theorem ret_bind (a : α) (f : α → Prog C R β) : ((.ret a : Prog C R α) >>= f) = f a := rfl

@[simp] theorem op_bind (c : C) (k : R c → Prog C R α) (f : α → Prog C R β) :
    ((.op c k : Prog C R α) >>= f) = .op c fun r => k r >>= f := rfl

/-- The program that issues one command and returns its reply. -/
def send (c : C) : Prog C R (R c) := .op c .ret

/-! ## Runs -/

section Semantics

/- `Sem c s r s'`: in state `s` the command `c` may reply `r` and leave `s'`. -/
variable (Sem : (c : C) → σ → R c → σ → Prop)

/-- Complete runs. -/
inductive Exec : Prog C R α → σ → α → σ → Prop
  | ret {a : α} {s : σ} : Exec (.ret a) s a s
  | op {c : C} {k : R c → Prog C R α} {s s' s'' : σ} {r : R c} {a : α} :
      Sem c s r s' → Exec (k r) s' a s'' → Exec (.op c k) s a s''

/-- Prefixes of runs: the program left over and the state so far. -/
inductive Steps : Prog C R α → σ → Prog C R α → σ → Prop
  | refl {p : Prog C R α} {s : σ} : Steps p s p s
  | op {c : C} {k : R c → Prog C R α} {p' : Prog C R α} {s s' s'' : σ} {r : R c} :
      Sem c s r s' → Steps (k r) s' p' s'' → Steps (.op c k) s p' s''

/-- Weakest precondition with an invariant of the intermediate states. -/
def wp (I : σ → Prop) (Q : α → σ → Prop) : Prog C R α → σ → Prop
  | .ret a, s => Q a s
  | .op c k, s => ∀ r s', Sem c s r s' → I s' ∧ wp I Q (k r) s'

variable {Sem}

variable {I : σ → Prop} {Q Q' : α → σ → Prop} {a : α} {s s' s'' : σ} {f : α → Prog C R β}
    {p : Prog C R α} {φ : C → Prop}

@[simp] theorem wp_ret : wp Sem I Q (.ret a) s ↔ Q a s := Iff.rfl

theorem wp_op {c : C} {k : R c → Prog C R α} :
    wp Sem I Q (.op c k) s ↔ ∀ r s', Sem c s r s' → I s' ∧ wp Sem I Q (k r) s' := Iff.rfl

theorem wp_send_det {c : C} {Q : R c → σ → Prop} {s₀ : σ} {r₀ : R c}
    (h : Sem c s = fun r s' => r = r₀ ∧ s' = s₀) : wp Sem I Q (send c) s ↔ I s₀ ∧ Q r₀ s₀ := by
  unfold send
  rw [wp_op, h]
  constructor
  · exact fun hw => hw r₀ s₀ ⟨rfl, rfl⟩
  · rintro hw r s' ⟨rfl, rfl⟩
    exact hw

theorem wp_send_ask {c : C} {Q : R c → σ → Prop} {P : R c → Prop} {f : R c → σ}
    (h : Sem c s = fun r s' => P r ∧ s' = f r) :
    wp Sem I Q (send c) s ↔ ∀ r, P r → I (f r) ∧ Q r (f r) := by
  unfold send
  rw [wp_op, h]
  constructor
  · exact fun hw r hr => hw r (f r) ⟨hr, rfl⟩
  · rintro hw r s' ⟨hr, rfl⟩
    exact hw r hr

theorem wp_bind {Q : β → σ → Prop} :
    ∀ {p : Prog C R α} {s : σ},
      wp Sem I Q (p >>= f) s ↔ wp Sem I (fun a s' => wp Sem I Q (f a) s') p s
  | .ret _, _ => Iff.rfl
  | .op c k, s => by
    exact forall_congr' fun r => forall_congr' fun s' =>
      imp_congr_right fun _ => and_congr_right fun _ => wp_bind

theorem wp_mono {J : σ → Prop} (hI : ∀ s, I s → J s) (hQ : ∀ a s, Q a s → Q' a s) :
    ∀ {p : Prog C R α} {s : σ}, wp Sem I Q p s → wp Sem J Q' p s
  | .ret _, _, h => hQ _ _ h
  | .op _ _, _, h => fun r s' hc => ⟨hI _ (h r s' hc).1, wp_mono hI hQ (h r s' hc).2⟩

theorem wp_post (h : wp Sem I Q p s) (hQ : ∀ a s, Q a s → Q' a s) : wp Sem I Q' p s :=
  wp_mono (fun _ h => h) hQ h

theorem Exec.of_wp (h : Exec Sem p s a s') : wp Sem I Q p s → Q a s' := by
  induction h with
  | ret => exact id
  | op hc _ ih => exact fun hw => ih (hw _ _ hc).2

/-- Wherever a run is cut, the invariant holds and the rest still has its precondition. -/
theorem Steps.of_wp {p' : Prog C R α} (h : Steps Sem p s p' s') :
    I s → wp Sem I Q p s → I s' ∧ wp Sem I Q p' s' := by
  induction h with
  | refl => exact fun hI hw => ⟨hI, hw⟩
  | op hc _ ih => exact fun _ hw => ih (hw _ _ hc).1 (hw _ _ hc).2

theorem wp_of_runs :
    ∀ {p : Prog C R α} {s : σ},
      (∀ p' s', Steps Sem p s p' s' → I s') → (∀ a s', Exec Sem p s a s' → Q a s') →
      wp Sem I Q p s
  | .ret _, _, _, hQ => hQ _ _ .ret
  | .op _ _, _, hI, hQ => fun _ _ hc =>
    ⟨hI _ _ (.op hc .refl),
      wp_of_runs (fun _ _ h => hI _ _ (.op hc h)) (fun _ _ h => hQ _ _ (.op hc h))⟩

theorem Exec.steps (h : Exec Sem p s a s') : Steps Sem p s (.ret a) s' := by
  induction h with
  | ret => exact .refl
  | op hc _ ih => exact .op hc ih

theorem Steps.exec (h : Steps Sem p s (.ret a) s') : Exec Sem p s a s' := by
  generalize hq : Prog.ret a = q at h
  induction h with
  | refl =>
    subst hq
    exact .ret
  | op hc _ ih => exact .op hc (ih hq)

theorem Steps.invariant (hkeep : ∀ c s r s', Sem c s r s' → I s → I s') {p' : Prog C R α}
    (h : Steps Sem p s p' s') : I s → I s' := by
  induction h with
  | refl => exact id
  | op hc _ ih => exact fun hs => ih (hkeep _ _ _ _ hc hs)

/-- Every command the program may issue is in `φ`. -/
def Only (φ : C → Prop) : Prog C R α → Prop
  | .ret _ => True
  | .op c k => φ c ∧ ∀ r, Only φ (k r)

@[simp] theorem only_ret : Only φ (.ret a : Prog C R α) := trivial

@[simp] theorem only_send {c : C} : Only φ (send c : Prog C R (R c)) ↔ φ c := by
  simp [send, Only]

theorem Only.bind :
    ∀ {p : Prog C R α}, Only φ p → (∀ a, Only φ (f a)) → Only φ (p >>= f)
  | .ret a, _, hf => hf a
  | .op _ _, h, hf => ⟨h.1, fun r => Only.bind (h.2 r) hf⟩

theorem wp_of_only (hkeep : ∀ c s r s', φ c → Sem c s r s' → I s → I s') :
    ∀ {p : Prog C R α} {s : σ}, Only φ p → I s → wp Sem I (fun _ s' => I s') p s
  | .ret _, _, _, hs => hs
  | .op c _, _, h, hs => fun r s' hc =>
    ⟨hkeep c _ r s' h.1 hc hs, wp_of_only hkeep (h.2 r) (hkeep c _ r s' h.1 hc hs)⟩

theorem Steps.snoc {c : C} {k : R c → Prog C R α} {r : R c} (h : Steps Sem p s (.op c k) s')
    (hc : Sem c s' r s'') : Steps Sem p s (k r) s'' := by
  generalize hq : Prog.op c k = q at h
  induction h with
  | refl =>
    subst hq
    exact .op hc .refl
  | op hc' _ ih => exact .op hc' (ih hc hq)

theorem Steps.bind {p' : Prog C R α} (h : Steps Sem p s p' s') (f : α → Prog C R β) :
    Steps Sem (p >>= f) s (p' >>= f) s' := by
  induction h with
  | refl => exact .refl
  | op hc _ ih => exact .op hc ih

theorem Exec.bind {b : β} (h : Exec Sem p s a s') (hf : Exec Sem (f a) s' b s'') :
    Exec Sem (p >>= f) s b s'' := by
  induction h with
  | ret => exact hf
  | op hc _ ih => exact .op hc (ih hf)

theorem Exec.of_bind {b : β} :
    ∀ {p : Prog C R α} {s : σ}, Exec Sem (p >>= f) s b s'' →
      ∃ a s', Exec Sem p s a s' ∧ Exec Sem (f a) s' b s''
  | .ret a, s, h => ⟨a, s, .ret, h⟩
  | .op _ _, _, .op hc h => by
    obtain ⟨a, s', h₁, h₂⟩ := Exec.of_bind h
    exact ⟨a, s', .op hc h₁, h₂⟩

end Semantics

/-! ## What every single command keeps

`wpt Sem T Q p s` is `wp` with a relation in place of the invariant: `T` holds between the states
before and after every command of every run. -/

section Transitions

variable (Sem : (c : C) → σ → R c → σ → Prop)

/-- Weakest precondition with a relation of consecutive states. -/
def wpt (T : σ → σ → Prop) (Q : α → σ → Prop) : Prog C R α → σ → Prop
  | .ret a, s => Q a s
  | .op c k, s => ∀ r s', Sem c s r s' → T s s' ∧ wpt T Q (k r) s'

/-- A run of `p` from `s` goes from `s₁` to `s₂` by one command. -/
def Passes (p : Prog C R α) (s s₁ s₂ : σ) : Prop :=
  ∃ c k r, Steps Sem p s (.op c k) s₁ ∧ Sem c s₁ r s₂

variable {Sem} {T : σ → σ → Prop}

theorem wpt_send {c : C} {Q : R c → σ → Prop} {s : σ}
    (h : ∀ r s', Sem c s r s' → T s s' ∧ Q r s') : wpt Sem T Q (send c) s := h

theorem wpt_bind {Q : β → σ → Prop} {f : α → Prog C R β} :
    ∀ {p : Prog C R α} {s : σ},
      wpt Sem T (fun a s' => wpt Sem T Q (f a) s') p s → wpt Sem T Q (p >>= f) s
  | .ret _, _, h => h
  | .op _ _, _, h => fun r s' hc => ⟨(h r s' hc).1, wpt_bind (h r s' hc).2⟩

theorem wpt_post {Q Q' : α → σ → Prop} :
    ∀ {p : Prog C R α} {s : σ}, wpt Sem T Q p s → (∀ a s, Q a s → Q' a s) → wpt Sem T Q' p s
  | .ret _, _, h, hQ => hQ _ _ h
  | .op _ _, _, h, hQ => fun r s' hc => ⟨(h r s' hc).1, wpt_post (h r s' hc).2 hQ⟩

theorem Exec.of_wpt {Q : α → σ → Prop} {p : Prog C R α} {s s' : σ} {a : α}
    (h : Exec Sem p s a s') : wpt Sem T Q p s → Q a s' := by
  induction h with
  | ret => exact id
  | op hc _ ih => exact fun hw => ih (hw _ _ hc).2

theorem Steps.of_wpt {Q : α → σ → Prop} {I : σ → Prop} {p p' : Prog C R α} {s s' : σ}
    (h : Steps Sem p s p' s') (hT : ∀ s s', T s s' → I s → I s') :
    I s → wpt Sem T Q p s → I s' ∧ wpt Sem T Q p' s' := by
  induction h with
  | refl => exact fun hI hw => ⟨hI, hw⟩
  | op hc _ ih => exact fun hI hw => ih (hT _ _ (hw _ _ hc).1 hI) (hw _ _ hc).2

end Transitions

/-! ## Running with fixed replies

With a function that answers every command, a program is evaluated like any
other function; `run` gives one of its complete runs, `runN` one of its prefixes. -/

section Evaluate

variable (ans : (c : C) → σ → R c × σ)

/-- Evaluate to the end. -/
def run : Prog C R α → σ → α × σ
  | .ret a, s => (a, s)
  | .op c k, s => run (k (ans c s).1) (ans c s).2

def runN : Nat → Prog C R α → σ → Prog C R α × σ
  | 0, p, s => (p, s)
  | _ + 1, .ret a, s => (.ret a, s)
  | n + 1, .op c k, s => runN n (k (ans c s).1) (ans c s).2

variable {ans} {Sem : (c : C) → σ → R c → σ → Prop}

theorem exec_run (h : ∀ c s, Sem c s (ans c s).1 (ans c s).2) :
    ∀ (p : Prog C R α) (s : σ), Exec Sem p s (run ans p s).1 (run ans p s).2
  | .ret _, _ => .ret
  | .op c k, s => .op (h c s) (exec_run h (k (ans c s).1) (ans c s).2)

theorem steps_runN (h : ∀ c s, Sem c s (ans c s).1 (ans c s).2) :
    ∀ (n : Nat) (p : Prog C R α) (s : σ), Steps Sem p s (runN ans n p s).1 (runN ans n p s).2
  | 0, _, _ => .refl
  | _ + 1, .ret _, _ => .refl
  | n + 1, .op c k, s => .op (h c s) (steps_runN h n (k (ans c s).1) (ans c s).2)

end Evaluate

/-! ## Running as far as there are replies -/

section Play

variable (ans : (c : C) → σ → Option (R c × σ))

/-- Evaluate up to the first command without a reply. -/
def play : Prog C R α → σ → Prog C R α × σ
  | .ret a, s => (.ret a, s)
  | .op c k, s =>
    match ans c s with
    | none => (.op c k, s)
    | some (r, s') => play (k r) s'

variable {ans} {Sem : (c : C) → σ → R c → σ → Prop}

theorem steps_play (h : ∀ c s r s', ans c s = some (r, s') → Sem c s r s') :
    ∀ (p : Prog C R α) (s : σ), Steps Sem p s (play ans p s).1 (play ans p s).2
  | .ret _, _ => .refl
  | .op c k, s => by
    unfold play
    split
    · exact .refl
    · next r s' hr => exact .op (h c s r s' hr) (steps_play h (k r) s')

end Play

end Prog
