/-
# `AutoDev.Lib.Exclusive` — calls that look, take a shared state over, and let it go

Any number of programs run over one shared state, interleaved command by
command.  Each of them first LOOKS; then it TAKES the state over by one command;
from then on it HOLDS it, and at some point it LETS GO and does nothing but
commands that are FREE.  Nothing locks the state.  What keeps two holders apart is
a condition on the taking command alone: what the program saw is still FRESH, and
that cannot be of a state that is held (`Runs.exclusive`).

Free commands may write, but must not change what a holder can tell (`same`).
-/
import AutoDev.Lib.Prog
import Mathlib.Data.List.Nodup
import Mathlib.Logic.Function.Basic

namespace Exclusive

open Prog List

variable {C : Type} {R : C → Type} {σ V A K α β ι : Type}

/-! ## The discipline -/

structure Discipline (C : Type) (R : C → Type) (σ V A K : Type) where
  Sem : (c : C) → σ → R c → σ → Prop
  /-- The command only looks. -/
  look : C → Prop
  /-- What a program remembers after a reply. -/
  see : (c : C) → R c → V → V
  /-- What the command takes. -/
  take : C → Option A
  key : A → K
  /-- A program that remembers `v` may take now. -/
  fresh : V → C → σ → Prop
  /-- A program that took `a` may issue the command now. -/
  guard : A → C → σ → Prop
  held : σ → Prop
  free : C → Prop
  same : σ → σ → Prop
  inv : σ → Prop
  spent : A → σ → Prop
  /-- A program that took `a` has left everything in order. -/
  done : A → σ → Prop
  /-- The thing is there to be taken. -/
  pending : K → σ → Prop

namespace Discipline

variable (D : Discipline C R σ V A K)

/-- What taking `a` does to the state. -/
structure Taking (a : A) (s s' : σ) : Prop where
  inv : D.inv s'
  spent : D.spent a s'
  others : ∀ b, D.spent b s → D.key b ≠ D.key a ∧ D.spent b s' ∧ (D.done b s → D.done b s')
  pending : ∀ κ, κ ≠ D.key a → D.pending κ s → D.pending κ s'

/-- What a holder that took `a` does to the state. -/
structure Holding (a : A) (s s' : σ) : Prop where
  inv : D.inv s'
  spent : ∀ b, D.spent b s → D.spent b s'
  done : ∀ b, D.key b ≠ D.key a → D.done b s → D.done b s'
  pending : ∀ κ, D.pending κ s → D.pending κ s'

/-- No judgement tells the two states apart. -/
structure Alike (s s' : σ) : Prop where
  inv : D.inv s → D.inv s'
  spent : ∀ b, D.spent b s → D.spent b s'
  done : ∀ b, D.done b s → D.done b s'
  pending : ∀ κ, D.pending κ s → D.pending κ s'
  held : D.held s → D.held s'
  guard : ∀ {a c}, D.guard a c s → D.guard a c s'
  sem : ∀ {a c r t'}, D.guard a c s → D.Sem c s' r t' → ∃ t, D.Sem c s r t ∧ D.same t t'

/-- The laws of a discipline. -/
structure Lawful : Prop where
  look_same : ∀ {c s r s'}, D.look c → D.Sem c s r s' → s' = s
  look_take : ∀ {c}, D.look c → D.take c = none
  fresh_not_held : ∀ {v c s}, D.fresh v c s → ¬ D.held s
  taking : ∀ {v c a s r s'}, D.inv s → D.fresh v c s → D.take c = some a → D.Sem c s r s' →
    D.Taking a s s'
  holding : ∀ {a c s r s'}, D.inv s → D.spent a s → D.guard a c s → D.Sem c s r s' →
    D.Holding a s s'
  free_same : ∀ {c s r s'}, D.free c → D.Sem c s r s' → D.same s s'
  alike : ∀ {s s'}, D.same s s' → D.Alike s s'

/-! ## Programs that keep to it -/

/-- Only free commands; the result is in `Q`. -/
def freed (Q : α → Prop) : Prog C R α → Prop
  | .ret x => Q x
  | .op c k => D.free c ∧ ∀ r, freed Q (k r)

/-- The program holds what it took: `Q` if it holds it to its end, `Q'` if it lets go. -/
def holds (a : A) (Q : α → σ → Prop) (Q' : α → Prop) : Prog C R α → σ → Prop
  | .ret x, s => Q x s
  | .op c k, s => D.guard a c s ∧ ∀ r s', D.Sem c s r s' →
      (D.held s' ∧ holds a Q Q' (k r) s') ∨ (D.done a s' ∧ D.freed Q' (k r))

/-- Only looks; `Q` of the result and of what is remembered. -/
def looks (Q : α → V → Prop) : V → Prog C R α → Prop
  | v, .ret x => Q x v
  | v, .op c k => D.look c ∧ ∀ s r s', D.Sem c s r s' → looks Q (D.see c r v) (k r)

/-- The program has taken nothing so far: it looks, and if it takes then it holds. -/
def waits : V → Prog C R α → Prop
  | _, .ret _ => True
  | v, .op c k =>
    (D.look c ∧ ∀ s r s', D.Sem c s r s' → waits (D.see c r v) (k r)) ∨
    ∃ a, D.take c = some a ∧ ∀ s, D.inv s → D.fresh v c s → ∀ r s', D.Sem c s r s' →
      D.held s' ∧ D.holds a (fun _ => D.done a) (fun _ => True) (k r) s'

variable {D}

variable {f : α → Prog C R β}

theorem freed_bind {Q : β → Prop} :
    ∀ {p : Prog C R α}, D.freed (fun x => D.freed Q (f x)) p → D.freed Q (p >>= f)
  | .ret _, h => h
  | .op _ _, h => ⟨h.1, fun r => freed_bind (h.2 r)⟩

theorem holds_bind {a : A} {Q : β → σ → Prop} {Q' : β → Prop} :
    ∀ {p : Prog C R α} {s : σ},
      D.holds a (fun x s' => D.holds a Q Q' (f x) s') (fun x => D.freed Q' (f x)) p s →
      D.holds a Q Q' (p >>= f) s
  | .ret _, _, h => h
  | .op _ _, _, h => ⟨h.1, fun r s' hc => by
    rcases h.2 r s' hc with ⟨hheld, hrest⟩ | ⟨hdone, hfree⟩
    · exact .inl ⟨hheld, holds_bind hrest⟩
    · exact .inr ⟨hdone, freed_bind hfree⟩⟩

theorem freed_mono {Q Q' : α → Prop} (hQ : ∀ x, Q x → Q' x) :
    ∀ {p : Prog C R α}, D.freed Q p → D.freed Q' p
  | .ret _, h => hQ _ h
  | .op _ _, h => ⟨h.1, fun r => freed_mono hQ (h.2 r)⟩

theorem holds_mono {a : A} {Q Q₁ : α → σ → Prop} {Q' Q₁' : α → Prop}
    (hQ : ∀ x s, Q x s → Q₁ x s) (hQ' : ∀ x, Q' x → Q₁' x) :
    ∀ {p : Prog C R α} {s : σ}, D.holds a Q Q' p s → D.holds a Q₁ Q₁' p s
  | .ret _, _, h => hQ _ _ h
  | .op _ _, _, h => ⟨h.1, fun r s' hc => by
    rcases h.2 r s' hc with ⟨hheld, hrest⟩ | ⟨hdone, hfree⟩
    · exact .inl ⟨hheld, holds_mono hQ hQ' hrest⟩
    · exact .inr ⟨hdone, freed_mono hQ' hfree⟩⟩

theorem waits_bind :
    ∀ {p : Prog C R α} {v : V}, D.looks (fun x v' => D.waits v' (f x)) v p → D.waits v (p >>= f)
  | .ret _, _, h => h
  | .op _ _, _, h => .inl ⟨h.1, fun s r s' hc => waits_bind (h.2 s r s' hc)⟩

theorem waits_ret (hf : ∀ x, ∃ y, f x = .ret y) :
    ∀ {p : Prog C R α} {v : V}, D.waits v p → D.waits v (p >>= f)
  | .ret x, _, _ => by
    obtain ⟨y, hy⟩ := hf x
    rw [ret_bind, hy]
    trivial
  | .op _ _, _, .inl h => .inl ⟨h.1, fun s r s' hc => waits_ret hf (h.2 s r s' hc)⟩
  | .op _ _, _, .inr ⟨a, ha, h⟩ => by
    refine .inr ⟨a, ha, fun s hinv hfresh r s' hc => ?_⟩
    obtain ⟨hheld, hholds⟩ := h s hinv hfresh r s' hc
    refine ⟨hheld, holds_bind (holds_mono ?_ ?_ hholds)⟩
    · intro x s'' hd
      obtain ⟨y, hy⟩ := hf x
      rw [hy]
      exact hd
    · intro x _
      obtain ⟨y, hy⟩ := hf x
      rw [hy]
      trivial

theorem looks_bind {Q : β → V → Prop} :
    ∀ {p : Prog C R α} {v : V},
      D.looks (fun x v' => D.looks Q v' (f x)) v p → D.looks Q v (p >>= f)
  | .ret _, _, h => h
  | .op _ _, _, h => ⟨h.1, fun s r s' hc => looks_bind (h.2 s r s' hc)⟩

theorem looks_mono {Q Q' : α → V → Prop} (hQ : ∀ x v, Q x v → Q' x v) :
    ∀ {p : Prog C R α} {v : V}, D.looks Q v p → D.looks Q' v p
  | .ret _, _, h => hQ _ _ h
  | .op _ _, _, h => ⟨h.1, fun s r s' hc => looks_mono hQ (h.2 s r s' hc)⟩

theorem holds_same (hD : D.Lawful) {a : A} {Q : α → σ → Prop} {Q' : α → Prop}
    (hQ : ∀ x s s', D.same s s' → Q x s → Q x s') :
    ∀ {p : Prog C R α} {s s' : σ}, D.same s s' → D.holds a Q Q' p s → D.holds a Q Q' p s'
  | .ret _, _, _, hs, h => hQ _ _ _ hs h
  | .op c k, s, s', hs, h => by
    refine ⟨(hD.alike hs).guard h.1, fun r t' hc => ?_⟩
    obtain ⟨t, hc', ht⟩ := (hD.alike hs).sem h.1 hc
    rcases h.2 r t hc' with ⟨hheld, hrest⟩ | ⟨hdone, hfree⟩
    · exact .inl ⟨(hD.alike ht).held hheld, holds_same hD hQ ht hrest⟩
    · exact .inr ⟨(hD.alike ht).done a hdone, hfree⟩

end Discipline

/-! ## Interleavings -/

/-- A program in progress and what it remembers. -/
structure Proc (C : Type) (R : C → Type) (V : Type) where
  prog : Prog C R Unit
  view : V

/-- The shared state, the programs, and what was taken by whom, in order. -/
structure Pool (C : Type) (R : C → Type) (σ V A ι : Type) where
  state : σ
  procs : ι → Proc C R V
  taken : List (ι × A) := []

variable [DecidableEq ι] (D : Discipline C R σ V A K)

variable (P : Pool C R σ V A ι) (i : ι)

/-- The program `i` has issued the command `c`. -/
def Pool.after (c : C) (k : R c → Prog C R Unit) (r : R c) (s' : σ) : Pool C R σ V A ι where
  state := s'
  procs := Function.update P.procs i ⟨k r, D.see c r (P.procs i).view⟩
  taken :=
    if i ∈ P.taken.map Prod.fst then P.taken else P.taken ++ (D.take c).toList.map (i, ·)

/-- If the next command of `i` takes, then what `i` remembers is fresh. -/
def Pool.Fresh : Prop :=
  ∀ c k, (P.procs i).prog = .op c k → i ∉ P.taken.map Prod.fst → D.take c ≠ none →
    D.fresh (P.procs i).view c P.state

/-- Interleavings whose steps all meet `g`. -/
inductive Runs (g : Pool C R σ V A ι → ι → Prop) : Pool C R σ V A ι → Pool C R σ V A ι → Prop
  | refl {P : Pool C R σ V A ι} : Runs g P P
  | step {P₀ P : Pool C R σ V A ι} (i : ι) {c : C} {k : R c → Prog C R Unit} {r : R c} {s' : σ} :
      Runs g P₀ P → g P i → (P.procs i).prog = .op c k → D.Sem c P.state r s' →
      Runs g P₀ (P.after D i c k r s')

/-! ## At most one holder -/

/-- A program that does not hold: it took nothing, or it has let go. -/
inductive Outside : Prop
  | waiting : i ∉ P.taken.map Prod.fst → D.waits (P.procs i).view (P.procs i).prog → Outside
  | gone {a : A} : (i, a) ∈ P.taken → D.done a P.state →
      D.freed (fun _ => True) (P.procs i).prog → Outside

structure Inside (a : A) : Prop where
  took : (i, a) ∈ P.taken
  held : D.held P.state
  holds : D.holds a (fun _ => D.done a) (fun _ => True) (P.procs i).prog P.state

/-- The program `h` holds, if there is one, and every other is outside. -/
structure Roles (h : Option ι) : Prop where
  inside : ∀ i, h = some i → ∃ a, Inside D P i a
  outside : ∀ i, h ≠ some i → Outside D P i

/-- At most one program holds, and nothing was taken twice. -/
structure Exclusively (s₀ : σ) (P : Pool C R σ V A ι) : Prop where
  inv : D.inv P.state
  spent : ∀ x ∈ P.taken, D.spent x.2 P.state
  callers : (P.taken.map Prod.fst).Nodup
  keys : (P.taken.map fun x => D.key x.2).Nodup
  pending : ∀ κ, D.pending κ s₀ → D.pending κ P.state ∨ κ ∈ P.taken.map fun x => D.key x.2
  holder : ∃ h, Roles D P h

variable {D} {P : Pool C R σ V A ι} {s₀ : σ}

section Steps

variable {h : Option ι} {i j : ι} {c : C} {k : R c → Prog C R Unit} {r : R c} {s' : σ} {a b : A}

theorem after_procs_self :
    (P.after D i c k r s').procs i = ⟨k r, D.see c r (P.procs i).view⟩ := Function.update_self ..

theorem after_procs_of_ne (h : j ≠ i) : (P.after D i c k r s').procs j = P.procs j :=
  Function.update_of_ne h ..

theorem after_taken (h : i ∈ P.taken.map Prod.fst ∨ D.take c = none) :
    (P.after D i c k r s').taken = P.taken := by
  rcases h with h | h
  · exact if_pos h
  · simp [Pool.after, h]

theorem after_taken_new (h : i ∉ P.taken.map Prod.fst) (ha : D.take c = some a) :
    (P.after D i c k r s').taken = P.taken ++ [(i, a)] := by
  simp only [Pool.after, if_neg h, ha]
  rfl

theorem Outside.keep (ho : Outside D P j) (hj : j ≠ i)
    (htaken : (P.after D i c k r s').taken = P.taken)
    (hdone : ∀ b, (j, b) ∈ P.taken → D.done b P.state → D.done b s') :
    Outside D (P.after D i c k r s') j := by
  cases ho with
  | waiting hnot hw =>
    refine .waiting (by rwa [htaken]) ?_
    rwa [after_procs_of_ne hj]
  | gone hmem hd hf =>
    refine .gone (by rwa [htaken]) (hdone _ hmem hd) ?_
    rwa [after_procs_of_ne hj]

theorem Roles.keep (hD : D.Lawful) (hroles : Roles D P h) (hi : h ≠ some i)
    (hself : Outside D (P.after D i c k r s') i)
    (htaken : (P.after D i c k r s').taken = P.taken) (hs : s' = P.state ∨ D.same P.state s') :
    Roles D (P.after D i c k r s') h := by
  have hdone : ∀ b, D.done b P.state → D.done b s' := by
    rcases hs with rfl | hs
    · exact fun _ hd => hd
    · exact (hD.alike hs).done
  refine ⟨fun j hj => ?_, fun j hj => ?_⟩
  · obtain ⟨a, hin⟩ := hroles.inside j hj
    have hji : j ≠ i := by
      rintro rfl
      exact hi hj
    refine ⟨a, by rw [htaken]; exact hin.took, ?_, ?_⟩
    · rcases hs with rfl | hs
      · exact hin.held
      · exact (hD.alike hs).held hin.held
    · rw [after_procs_of_ne hji]
      rcases hs with rfl | hs
      · exact hin.holds
      · exact Discipline.holds_same hD (fun _ _ _ hs hd => (hD.alike hs).done a hd) hs hin.holds
  · by_cases hji : j = i
    · exact hji ▸ hself
    · exact (hroles.outside j hj).keep hji htaken fun b _ hd => hdone b hd

variable (hD : D.Lawful) (hex : Exclusively D s₀ P)

include hD hex

theorem Exclusively.look (hroles : Roles D P h)
    (hi : h ≠ some i) (htake : D.take c = none)
    (hw : D.waits (D.see c r (P.procs i).view) (k r)) (hnot : i ∉ P.taken.map Prod.fst) :
    Exclusively D s₀ (P.after D i c k r P.state) := by
  have htaken : (P.after D i c k r P.state).taken = P.taken := after_taken (.inr htake)
  have hself : Outside D (P.after D i c k r P.state) i :=
    .waiting (by rwa [htaken]) (by rwa [after_procs_self])
  refine ⟨hex.inv, ?_, ?_, ?_, ?_, h, hroles.keep hD hi hself htaken (.inl rfl)⟩
  all_goals rw [htaken]
  · exact hex.spent
  · exact hex.callers
  · exact hex.keys
  · exact hex.pending

theorem Exclusively.free (hroles : Roles D P h)
    (hi : h ≠ some i) (hmem : (i, a) ∈ P.taken) (hdone : D.done a P.state) (hc : D.free c)
    (hrest : D.freed (fun _ => True) (k r)) (hsem : D.Sem c P.state r s') :
    Exclusively D s₀ (P.after D i c k r s') := by
  have hsame := hD.free_same hc hsem
  have hal := hD.alike hsame
  have htaken : (P.after D i c k r s').taken = P.taken :=
    after_taken (.inl (mem_map.mpr ⟨_, hmem, rfl⟩))
  have hself : Outside D (P.after D i c k r s') i :=
    .gone (by rw [htaken]; exact hmem) (hal.done a hdone) (by rw [after_procs_self]; exact hrest)
  refine ⟨hal.inv hex.inv, ?_, ?_, ?_, ?_, h, hroles.keep hD hi hself htaken (.inr hsame)⟩
  all_goals rw [htaken]
  · exact fun x hx => hal.spent _ (hex.spent x hx)
  · exact hex.callers
  · exact hex.keys
  · exact fun κ hκ => (hex.pending κ hκ).imp_left (hal.pending κ)

theorem Exclusively.take (hroles : Roles D P h)
    (hi : i ∉ P.taken.map Prod.fst) (ha : D.take c = some a)
    (hfresh : D.fresh (P.procs i).view c P.state) (hsem : D.Sem c P.state r s')
    (hheld : D.held s')
    (hholds : D.holds a (fun _ => D.done a) (fun _ => True) (k r) s') :
    Exclusively D s₀ (P.after D i c k r s') := by
  have htk := hD.taking hex.inv hfresh ha hsem
  have htaken : (P.after D i c k r s').taken = P.taken ++ [(i, a)] := after_taken_new hi ha
  have hkey : (P.taken ++ [(i, a)]).map (fun x => D.key x.2)
      = P.taken.map (fun x => D.key x.2) ++ [D.key a] := by simp
  have hout : ∀ j, Outside D P j := by
    intro j
    refine hroles.outside j fun hj => ?_
    obtain ⟨b, hin⟩ := hroles.inside j hj
    exact hD.fresh_not_held hfresh hin.held
  refine ⟨htk.inv, ?_, ?_, ?_, ?_, some i, ?_, ?_⟩
  · rw [htaken]
    exact forall_mem_append.mpr ⟨fun x hx => (htk.others _ (hex.spent x hx)).2.1,
      forall_mem_singleton.mpr htk.spent⟩
  · rw [htaken, map_append, nodup_append]
    refine ⟨hex.callers, nodup_singleton _, fun x hx y hy => ?_⟩
    rintro rfl
    rw [mem_singleton.mp hy] at hx
    exact hi hx
  · rw [htaken, hkey, nodup_append]
    refine ⟨hex.keys, nodup_singleton _, fun x hx y hy => ?_⟩
    rintro rfl
    obtain ⟨z, hz, rfl⟩ := mem_map.mp hx
    exact (htk.others _ (hex.spent z hz)).1 (mem_singleton.mp hy)
  · intro κ hκ
    rw [htaken, hkey]
    by_cases hne : κ = D.key a
    · exact .inr (by simp [hne])
    · rcases hex.pending κ hκ with hp | hp
      · exact .inl (htk.pending κ hne hp)
      · exact .inr (mem_append_left _ hp)
  · rintro j ⟨⟩
    refine ⟨a, by rw [htaken]; simp, hheld, ?_⟩
    rw [after_procs_self]
    exact hholds
  · intro j hj
    have hji : j ≠ i := fun h => hj (congrArg some h.symm)
    cases hout j with
    | waiting hnot hw =>
      refine .waiting ?_ (by rwa [after_procs_of_ne hji])
      rw [htaken, map_append]
      intro hmem
      rcases mem_append.mp hmem with hmem | hmem
      · exact hnot hmem
      · exact hji (mem_singleton.mp hmem)
    | gone hmem hd hf =>
      exact .gone (by rw [htaken]; exact mem_append_left _ hmem)
        ((htk.others _ (hex.spent _ hmem)).2.2 hd) (by rwa [after_procs_of_ne hji])

variable (hprog : (P.procs i).prog = .op c k) (hsem : D.Sem c P.state r s')
include hprog hsem

theorem Exclusively.hold (hroles : Roles D P (some i)) :
    Exclusively D s₀ (P.after D i c k r s') := by
  obtain ⟨a, hin⟩ := hroles.inside i rfl
  obtain ⟨hguard, hnext⟩ : D.guard a c P.state ∧ _ := hprog ▸ hin.holds
  have hstep := hD.holding hex.inv (hex.spent _ hin.took) hguard hsem
  have htaken : (P.after D i c k r s').taken = P.taken :=
    after_taken (.inl (mem_map.mpr ⟨_, hin.took, rfl⟩))
  have hothers : ∀ j, j ≠ i → Outside D (P.after D i c k r s') j := by
    intro j hj
    refine (hroles.outside j fun h => hj (Option.some.inj h).symm).keep hj htaken
      fun b hb hd => hstep.done b (fun heq => ?_) hd
    exact hj (congrArg Prod.fst (inj_on_of_nodup_map hex.keys hb hin.took heq))
  have hrole : ∃ h, Roles D (P.after D i c k r s') h := by
    rcases hnext r s' hsem with ⟨hheld, hrest⟩ | ⟨hdone, hfree⟩
    · refine ⟨some i, ?_, fun j hj => hothers j fun h => hj (congrArg some h.symm)⟩
      rintro j ⟨⟩
      exact ⟨a, by rw [htaken]; exact hin.took, hheld, by rw [after_procs_self]; exact hrest⟩
    refine ⟨none, nofun, fun j _ => ?_⟩
    by_cases hj : j = i
    · subst hj
      exact .gone (by rw [htaken]; exact hin.took) hdone (by rw [after_procs_self]; exact hfree)
    · exact hothers j hj
  refine ⟨hstep.inv, ?_, ?_, ?_, ?_, hrole⟩
  all_goals rw [htaken]
  · exact fun x hx => hstep.spent _ (hex.spent x hx)
  · exact hex.callers
  · exact hex.keys
  · exact fun κ hκ => (hex.pending κ hκ).imp_left (hstep.pending κ)

theorem Exclusively.step (hfresh : P.Fresh D i) :
    Exclusively D s₀ (P.after D i c k r s') := by
  obtain ⟨h, hroles⟩ := hex.holder
  by_cases hi : h = some i
  · subst hi
    exact hex.hold hD hprog hsem hroles
  cases hroles.outside i hi with
  | waiting hnot hw =>
    rw [hprog] at hw
    rcases hw with ⟨hl, hw⟩ | ⟨a, ha, hw⟩
    · obtain rfl := hD.look_same hl hsem
      exact hex.look hD hroles hi (hD.look_take hl) (hw _ r _ hsem) hnot
    · have hf := hfresh c k hprog hnot (by simp [ha])
      obtain ⟨hheld, hholds⟩ := hw _ hex.inv hf r s' hsem
      exact hex.take hD hroles hnot ha hf hsem hheld hholds
  | gone hmem hd hf =>
    rw [hprog] at hf
    exact hex.free hD hroles hi hmem hd hf.1 (hf.2 r) hsem

end Steps

/-- Along every interleaving whose takings are fresh at most one program holds. -/
theorem Runs.exclusive (hD : D.Lawful) {P₀ : Pool C R σ V A ι} (htaken : P₀.taken = [])
    (hinv : D.inv P₀.state) (hwaits : ∀ i, D.waits (P₀.procs i).view (P₀.procs i).prog)
    (hruns : Runs D (fun P i => P.Fresh D i) P₀ P) : Exclusively D P₀.state P := by
  induction hruns with
  | refl =>
    refine ⟨hinv, ?_, ?_, ?_, fun κ hκ => .inl hκ, none, nofun, fun j _ => ?_⟩
    · simp [htaken]
    · simp [htaken]
    · simp [htaken]
    · exact .waiting (by simp [htaken]) (hwaits j)
  | step i _ hfresh hprog hsem ih => exact ih.step hD hprog hsem hfresh

theorem Exclusively.done_of_ended (hex : Exclusively D s₀ P) {i : ι} {a : A} (hx : (i, a) ∈ P.taken)
    {u : Unit} (hend : (P.procs i).prog = .ret u) : D.done a P.state := by
  have hsame : ∀ b, (i, b) ∈ P.taken → b = a := fun b hb =>
    congrArg Prod.snd (inj_on_of_nodup_map hex.callers hb hx rfl)
  obtain ⟨h, hroles⟩ := hex.holder
  by_cases hi : h = some i
  · obtain ⟨b, hin⟩ := hroles.inside i hi
    have hdone := hin.holds
    rw [hend] at hdone
    exact hsame b hin.took ▸ hdone
  · cases hroles.outside i hi with
    | waiting hnot _ => exact absurd (mem_map.mpr ⟨_, hx, rfl⟩) hnot
    | gone hmem hd _ => exact hsame _ hmem ▸ hd

/-! ## Playing a schedule

With a function that answers every command, a list of names is a schedule. -/

section Play

variable (D) (ans : (c : C) → σ → R c × σ)

/-- The next command of `i`, if it has not ended. -/
def Pool.next (P : Pool C R σ V A ι) (i : ι) : Pool C R σ V A ι :=
  match (P.procs i).prog with
  | .ret _ => P
  | .op c k => P.after D i c k (ans c P.state).1 (ans c P.state).2

def Pool.play (P : Pool C R σ V A ι) (sched : List ι) : Pool C R σ V A ι :=
  sched.foldl (Pool.next D ans) P

variable {ans}

theorem Runs.play {g : Pool C R σ V A ι → ι → Prop}
    (hans : ∀ c s, D.Sem c s (ans c s).1 (ans c s).2) {P₀ : Pool C R σ V A ι} :
    ∀ (sched : List ι) {P : Pool C R σ V A ι}, Runs D g P₀ P →
      (∀ n i, sched[n]? = some i → g (P.play D ans (sched.take n)) i) →
      Runs D g P₀ (P.play D ans sched)
  | [], _, h, _ => h
  | i :: sched, P, h, hg => by
    refine Runs.play hans sched ?_ fun n j hj => hg (n + 1) j hj
    have hi : g P i := hg 0 i rfl
    rcases hprog : (P.procs i).prog with u | ⟨c, k⟩
    · simp only [Pool.next, hprog]
      exact h
    · simp only [Pool.next, hprog]
      exact .step i h hi hprog (hans c P.state)

/-- Whether the next command of `i` is fresh or takes nothing. -/
def Pool.freshNow [∀ v c s, Decidable (D.fresh v c s)] (P : Pool C R σ V A ι) (i : ι) : Bool :=
  match (P.procs i).prog with
  | .ret _ => true
  | .op c _ => decide (i ∈ P.taken.map Prod.fst) || (D.take c).isNone ||
      decide (D.fresh (P.procs i).view c P.state)

theorem Pool.fresh_of_now [∀ v c s, Decidable (D.fresh v c s)] {P : Pool C R σ V A ι} {i : ι}
    (h : P.freshNow D i = true) : P.Fresh D i := by
  intro c k hprog hnot htake
  simp only [Pool.freshNow, hprog, Bool.or_eq_true, decide_eq_true_eq, Option.isNone_iff_eq_none] at h
  rcases h with (h | h) | h
  · exact absurd h hnot
  · exact absurd h htake
  · exact h

end Play

end Exclusive
