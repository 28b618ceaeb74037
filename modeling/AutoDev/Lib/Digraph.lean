/-
# `AutoDev.Lib.Digraph` — reachability and cycles over an edge list

A graph is the list of its edges.  Four loops that programs write over such a
list, each with what it computes:

  * `closeStack`, a worklist that marks a vertex when it is TAKEN, and
    `closeQueue`, one that marks it when it is PUSHED: both return the
    vertices reachable from the start;
  * `findCycle`, a depth-first search that stops at the first back edge, and
    `cycleMembers`, one that records the members of every back edge and goes
    on: the first fails, the second records something, exactly when the graph
    has a cycle.  What the first reports is a cycle.

Every loop has a fuel argument so that it computes.  The bound is a potential
counted in edges: a vertex with no outgoing edge costs the search nothing.
-/
import Mathlib.Logic.Relation
import Mathlib.Data.List.Basic
import Mathlib.Data.List.Count
import Mathlib.Data.List.TakeWhile
import Mathlib.Data.List.Chain

namespace Digraph

open List

variable {V : Type} [DecidableEq V]

variable (es : List (V × V))

def Edge (v w : V) : Prop := (v, w) ∈ es

/-- A path of any length, also none. -/
abbrev Reach : V → V → Prop := Relation.ReflTransGen (Edge es)

abbrev Path : V → V → Prop := Relation.TransGen (Edge es)

/-- No path returns to its start. -/
def Acyclic : Prop := ∀ v, ¬ Path es v v

/-- The targets of the edges that leave `v`, in order. -/
def succs (v : V) : List V := (es.filter (·.1 = v)).map (·.2)

variable {es : List (V × V)} {v w : V} {stack done c : List V}

theorem mem_succs : w ∈ succs es v ↔ Edge es v w := by
  simp [succs, Edge]

omit [DecidableEq V] in
theorem Reach.mem_of_closed {S : V → Prop} (hS : ∀ v w, S v → Edge es v w → S w) (hr : Reach es v w)
    (hv : S v) : S w := by
  induction hr with
  | refl => exact hv
  | tail _ e ih => exact hS _ _ ih e

/-! ## Worklists -/

/-- How many edges have their `endOf` outside `seen`. -/
def pending (endOf : V × V → V) (es : List (V × V)) (seen : List V) : Nat :=
  es.countP fun e => endOf e ∉ seen

theorem pending_cons (endOf : V × V → V) (es : List (V × V)) {seen : List V} (h : v ∉ seen) :
    pending endOf es (v :: seen) + es.countP (fun e => endOf e = v) = pending endOf es seen := by
  unfold pending
  induction es with
  | nil => rfl
  | cons e es ih =>
    simp only [countP_cons, mem_cons, not_or] at ih ⊢
    by_cases he : endOf e = v
    · simp only [he, h, not_true_eq_false, false_and, decide_true, decide_false,
        not_false_eq_true, if_true, Bool.false_eq_true, if_false]
      omega
    · simp only [he, not_false_eq_true, true_and, decide_false, Bool.false_eq_true, if_false]
      omega

theorem length_succs (es : List (V × V)) (v : V) :
    (succs es v).length = es.countP (fun e => e.1 = v) := by
  simp [succs, countP_eq_length_filter]

/-- The worklist that marks a vertex when it is taken from the stack. -/
def closeStack (es : List (V × V)) : Nat → List V → List V → List V
  | 0, seen, _ => seen
  | _ + 1, seen, [] => seen
  | n + 1, seen, v :: rest =>
    if v ∈ seen then closeStack es n seen rest
    else closeStack es n (v :: seen) ((succs es v).reverse ++ rest)

/-- What both worklists keep: the marked vertices and the list come from `a`, and an edge
out of a marked vertex ends in one of them. -/
structure WorkInv (es : List (V × V)) (a : V) (seen list : List V) : Prop where
  start : a ∈ seen ∨ a ∈ list
  reach : ∀ v, v ∈ seen ∨ v ∈ list → Reach es a v

omit [DecidableEq V] in
theorem WorkInv.closed {a : V} {seen : List V} (hi : WorkInv es a seen [])
    (hc : ∀ v w, v ∈ seen → Edge es v w → w ∈ seen) (v : V) : v ∈ seen ↔ Reach es a v := by
  refine ⟨fun h => hi.reach v (Or.inl h), fun h => ?_⟩
  refine Reach.mem_of_closed (S := (· ∈ seen)) hc h ?_
  simpa using hi.start

theorem closeStack_spec {a : V} :
    ∀ {n : Nat} {seen list : List V}, WorkInv es a seen list →
      (∀ v w, v ∈ seen → Edge es v w → w ∈ seen ∨ w ∈ list) →
      list.length + pending Prod.fst es seen ≤ n →
      ∀ v, v ∈ closeStack es n seen list ↔ Reach es a v
  | n, seen, [], hi, hc, _, v => by
    have hs : closeStack es n seen [] = seen := by cases n <;> rfl
    rw [hs]
    exact hi.closed (by simpa using hc) v
  | 0, _, _ :: _, _, _, hn, _ => by simp at hn
  | n + 1, seen, u :: rest, hi, hc, hn, v => by
    by_cases hu : u ∈ seen
    · rw [closeStack, if_pos hu]
      have hdrop : ∀ {x}, x ∈ seen ∨ x ∈ u :: rest → x ∈ seen ∨ x ∈ rest := by
        rintro x (h | _ | ⟨_, h⟩)
        · exact Or.inl h
        · exact Or.inl hu
        · exact Or.inr h
      refine closeStack_spec ⟨hdrop hi.start, fun x hx => hi.reach x (hx.imp_right (.tail _))⟩
        (fun x w hx e => hdrop (hc x w hx e)) ?_ v
      simp only [length_cons] at hn
      omega
    · rw [closeStack, if_neg hu]
      have hru : Reach es a u := hi.reach u (Or.inr (by simp))
      have htake : ∀ {x}, x ∈ seen ∨ x ∈ u :: rest →
          x ∈ u :: seen ∨ x ∈ (succs es u).reverse ++ rest := by
        rintro x (h | _ | ⟨_, h⟩)
        · exact Or.inl (.tail _ h)
        · exact Or.inl (.head _)
        · exact Or.inr (mem_append_right _ h)
      refine closeStack_spec ⟨htake hi.start, ?_⟩ ?_ ?_ v
      · intro x hx
        simp only [mem_cons, mem_append, mem_reverse, mem_succs] at hx
        rcases hx with (rfl | h) | (h | h)
        · exact hru
        · exact hi.reach x (Or.inl h)
        · exact hru.tail h
        · exact hi.reach x (Or.inr (by simp [h]))
      · intro x w hx e
        rcases mem_cons.mp hx with rfl | hx
        · exact Or.inr (by simp [mem_succs, e])
        · exact htake (hc x w hx e)
      · have hp := pending_cons Prod.fst es hu
        simp only [length_cons, length_append, length_reverse,
          length_succs] at hn ⊢
        omega

theorem mem_closeStack (es : List (V × V)) (a v : V) :
    v ∈ closeStack es (es.length + 1) [] [a] ↔ Reach es a v := by
  refine closeStack_spec ⟨by simp, by simp [Relation.ReflTransGen.refl]⟩ (by simp) ?_ v
  have : pending Prod.fst es [] ≤ es.length := countP_le_length
  simp only [length_cons, length_nil]
  omega

/-- The vertices of `ws` that are neither marked nor repeated. -/
def fresh : List V → List V → List V
  | _, [] => []
  | seen, w :: ws => if w ∈ seen then fresh seen ws else w :: fresh (w :: seen) ws

/-- The worklist that marks a vertex when it is pushed on the queue. -/
def closeQueue (es : List (V × V)) : Nat → List V → List V → List V
  | 0, seen, _ => seen
  | _ + 1, seen, [] => seen
  | n + 1, seen, v :: rest =>
    closeQueue es n (fresh seen (succs es v) ++ seen) (rest ++ fresh seen (succs es v))

def visitAll (visit : V → List V → Except (List V) (List V)) (stack : List V) :
    List V → List V → Except (List V) (List V)
  | [], done => .ok done
  | w :: ws, done =>
    if w ∈ stack then .error (stack.reverse.dropWhile (· ≠ w) ++ [w])
    else if w ∈ done then visitAll visit stack ws done
    else
      match visit w done with
      | .error cycle => .error cycle
      | .ok done' => visitAll visit stack ws done'

variable (es)

/-- Depth-first search from `v`; the error is the first cycle found. -/
def visit : Nat → List V → V → List V → Except (List V) (List V)
  | 0, _, _, done => .ok done
  | n + 1, stack, v, done =>
    match visitAll (visit n (v :: stack)) (v :: stack) (succs es v) done with
    | .error cycle => .error cycle
    | .ok done' => .ok (v :: done')

def findCycleFrom : List V → List V → Except (List V) (List V)
  | [], done => .ok done
  | v :: vs, done =>
    if v ∈ done then findCycleFrom vs done
    else
      match visit es (es.length + 1) [] v done with
      | .error cycle => .error cycle
      | .ok done' => findCycleFrom vs done'

def findCycle (starts : List V) : Option (List V) :=
  match findCycleFrom es starts [] with
  | .error cycle => some cycle
  | .ok _ => none

/-- A finished set: closed under the edges, without a cycle through a member. -/
structure Finished (done : List V) : Prop where
  closed : ∀ v w, v ∈ done → Edge es v w → w ∈ done
  acyclic : ∀ v ∈ done, ¬ Path es v v

def SearchPost (stack done : List V) (met : V → Prop) : Except (List V) (List V) → Prop
  | .error _ => ∃ u, Path es u u
  | .ok done' => Finished es done' ∧ (∀ u ∈ stack, u ∉ done') ∧ (∀ u ∈ done, u ∈ done') ∧
      ∀ u, met u → u ∈ done'

variable {es}

omit [DecidableEq V] in
theorem SearchPost.andThen {done₁ ws : List V} (h : SearchPost es stack done (· = w) (.ok done₁)) :
    ∀ {r : Except (List V) (List V)}, SearchPost es stack done₁ (· ∈ ws) r →
      SearchPost es stack done (· ∈ w :: ws) r
  | .error _, k => k
  | .ok done', ⟨k₁, k₂, k₃, k₄⟩ => by
    obtain ⟨-, -, h₃, h₄⟩ := h
    refine ⟨k₁, k₂, fun u hu => k₃ u (h₃ u hu), ?_⟩
    exact forall_mem_cons.mpr ⟨k₃ w (h₄ w rfl), k₄⟩

omit [DecidableEq V] in
theorem SearchPost.skip (hf : Finished es done) (hs : ∀ u ∈ stack, u ∉ done) (hw : w ∈ done) :
    SearchPost es stack done (· = w) (.ok done) :=
  ⟨hf, hs, fun _ h => h, by rintro _ rfl; exact hw⟩

theorem visitAll_spec {visit : V → List V → Except (List V) (List V)}
    (hpath : ∀ u ∈ stack, Path es u v)
    (hvisit : ∀ w done, Edge es v w → w ∉ v :: stack → w ∉ done → Finished es done →
      (∀ u ∈ v :: stack, u ∉ done) → SearchPost es (v :: stack) done (· = w) (visit w done)) :
    ∀ (ws done : List V), (∀ w ∈ ws, Edge es v w) → Finished es done →
      (∀ u ∈ v :: stack, u ∉ done) →
      SearchPost es (v :: stack) done (· ∈ ws) (visitAll visit (v :: stack) ws done)
  | [], done, _, hf, hs => ⟨hf, hs, fun _ h => h, by simp⟩
  | w :: ws, done, he, hf, hs => by
    have hew : Edge es v w := he w (by simp)
    have he' : ∀ x ∈ ws, Edge es v x := fun x hx => he x (.tail _ hx)
    unfold visitAll
    by_cases hw : w ∈ v :: stack
    · -- a back edge closes the path from `w` down to `v`
      rw [if_pos hw]
      rcases mem_cons.mp hw with rfl | hws
      · exact ⟨w, .single hew⟩
      · exact ⟨w, (hpath w hws).tail hew⟩
    rw [if_neg hw]
    by_cases hd : w ∈ done
    · rw [if_pos hd]
      exact (SearchPost.skip hf hs hd).andThen (visitAll_spec hpath hvisit ws done he' hf hs)
    rw [if_neg hd]
    have h := hvisit w done hew hw hd hf hs
    revert h
    cases visit w done with
    | error c => exact id
    | ok done₁ =>
      intro h
      exact h.andThen (visitAll_spec hpath hvisit ws done₁ he' h.1 h.2.1)

omit [DecidableEq V] in
theorem Finished.cons (hf : Finished es done) (hv : v ∉ done) (hn : ∀ w, Edge es v w → w ∈ done) :
    Finished es (v :: done) where
  closed := by
    intro u w hu e
    rcases mem_cons.mp hu with rfl | hu
    · exact .tail _ (hn w e)
    · exact .tail _ (hf.closed u w hu e)
  acyclic := by
    intro u hu hp
    rcases mem_cons.mp hu with rfl | hu
    · -- a cycle through `v` would enter the finished set and never come back
      obtain ⟨w, e, hr⟩ := Relation.TransGen.head'_iff.mp hp
      exact hv (Reach.mem_of_closed (S := (· ∈ done)) hf.closed hr (hn w e))
    · exact hf.acyclic u hu hp

theorem visit_spec :
    ∀ {n : Nat} {stack : List V} {v : V} {done : List V},
      pending Prod.fst es stack < n → v ∉ stack → v ∉ done → (∀ u ∈ stack, Path es u v) →
      Finished es done → (∀ u ∈ stack, u ∉ done) →
      SearchPost es stack done (· = v) (visit es n stack v done)
  | 0, _, _, _, hn, _, _, _, _, _ => by simp at hn
  | n + 1, stack, v, done, hn, hv, hvd, hp, hf, hs => by
    have hs' : ∀ u ∈ v :: stack, u ∉ done := forall_mem_cons.mpr ⟨hvd, hs⟩
    have hvisit : ∀ w d, Edge es v w → w ∉ v :: stack → w ∉ d → Finished es d →
        (∀ u ∈ v :: stack, u ∉ d) →
        SearchPost es (v :: stack) d (· = w) (visit es n (v :: stack) w d) := by
      intro w d e hw hwd hfd hsd
      -- the edge just followed is one the potential no longer counts
      refine visit_spec ?_ hw hwd ?_ hfd hsd
      · have hc := pending_cons Prod.fst es hv
        have : 0 < es.countP (fun e => e.1 = v) :=
          countP_pos_iff.mpr ⟨(v, w), e, by simp⟩
        omega
      · exact forall_mem_cons.mpr ⟨.single e, fun u hu => (hp u hu).tail e⟩
    have h := visitAll_spec hp hvisit (succs es v) done (fun w hw => mem_succs.mp hw) hf hs'
    unfold visit
    revert h
    cases visitAll (visit es n (v :: stack)) (v :: stack) (succs es v) done with
    | error c => exact id
    | ok done' =>
      rintro ⟨h₁, h₂, h₃, h₄⟩
      have hvd' : v ∉ done' := h₂ v (by simp)
      refine ⟨h₁.cons hvd' fun w e => h₄ w (mem_succs.mpr e), ?_, ?_, ?_⟩
      · intro u hu
        simp only [mem_cons, not_or]
        exact ⟨fun h => hv (h ▸ hu), h₂ u (.tail _ hu)⟩
      · exact fun u hu => .tail _ (h₃ u hu)
      · rintro u rfl
        simp

theorem findCycleFrom_spec :
    ∀ (starts done : List V), Finished es done →
      SearchPost es [] done (· ∈ starts) (findCycleFrom es starts done)
  | [], done, hf => ⟨hf, by simp, fun _ h => h, by simp⟩
  | v :: vs, done, hf => by
    unfold findCycleFrom
    by_cases hv : v ∈ done
    · rw [if_pos hv]
      exact (SearchPost.skip hf (by simp) hv).andThen (findCycleFrom_spec vs done hf)
    rw [if_neg hv]
    have hn : pending Prod.fst es [] < es.length + 1 :=
      Nat.lt_succ_of_le countP_le_length
    have h := visit_spec hn (by simp) hv (by simp) hf (by simp)
    revert h
    cases visit es (es.length + 1) [] v done with
    | error c => exact id
    | ok done₁ =>
      intro h
      exact h.andThen (findCycleFrom_spec vs done₁ h.1)

omit [DecidableEq V] in
theorem finished_nil (es : List (V × V)) : Finished es [] := ⟨by simp, by simp⟩

/-- The search finds nothing exactly when the graph is acyclic, provided it starts at
every vertex an edge leaves. -/
theorem findCycle_eq_none (starts : List V) (hstarts : ∀ e ∈ es, e.1 ∈ starts) :
    findCycle es starts = none ↔ Acyclic es := by
  have h := findCycleFrom_spec starts [] (finished_nil es)
  unfold findCycle
  revert h
  cases findCycleFrom es starts [] with
  | error c =>
    rintro ⟨u, hu⟩
    simp only [reduceCtorEq, false_iff]
    exact fun ha => ha u hu
  | ok done =>
    rintro ⟨hf, -, -, hmet⟩
    simp only [true_iff]
    intro v hv
    obtain ⟨w, e, -⟩ := Relation.TransGen.head'_iff.mp hv
    exact hf.acyclic v (hmet v (hstarts _ e)) hv

/-! ## The cycle that is reported -/

/-- A closed walk along the edges that meets no vertex twice before it closes. -/
structure IsCycle (es : List (V × V)) (c : List V) : Prop where
  chain : c.IsChain (Edge es)
  closed : ∃ v p, c = v :: p ++ [v]
  simple : c.dropLast.Nodup

theorem isCycle_of_back_edge {path : List V} (hchain : path.IsChain (Edge es)) (hnodup : path.Nodup)
    (hlast : path.getLast? = some v) (hw : w ∈ path) (he : Edge es v w) :
    IsCycle es (path.dropWhile (· ≠ w) ++ [w]) := by
  obtain ⟨pre, hpre⟩ := dropWhile_suffix (fun x => decide (x ≠ w))
  obtain ⟨rest, hrest⟩ : ∃ rest, path.dropWhile (· ≠ w) = w :: rest := by
    rcases hd : path.dropWhile (· ≠ w) with _ | ⟨x, rest⟩
    · have := dropWhile_eq_nil_iff.mp hd w hw
      simp at this
    · have hx := head?_dropWhile_not (fun x => decide (x ≠ w)) path
      rw [hd] at hx
      have : x = w := by simpa using hx
      exact ⟨rest, by rw [this]⟩
  rw [hrest] at hpre ⊢
  subst hpre
  have hsub : (w :: rest).IsChain (Edge es) := (isChain_append.mp hchain).2.1
  refine ⟨isChain_append.mpr ⟨hsub, isChain_singleton w, ?_⟩, ⟨w, rest, rfl⟩, ?_⟩
  · intro x hx y hy
    have hv : (w :: rest).getLast? = some v := by
      simpa [getLast?_append] using hlast
    rw [hv] at hx
    cases hx
    cases hy
    exact he
  · rw [dropLast_concat]
    exact (nodup_append.mp hnodup).2.1

/-- The current path: the stack from its bottom up, along edges and without repetition. -/
structure OnPath (es : List (V × V)) (stack : List V) : Prop where
  chain : stack.reverse.IsChain (Edge es)
  nodup : stack.Nodup

omit [DecidableEq V] in
theorem OnPath.push (h : OnPath es (v :: stack)) (he : Edge es v w) (hw : w ∉ v :: stack) :
    OnPath es (w :: v :: stack) where
  chain := by
    rw [reverse_cons]
    refine isChain_append.mpr ⟨h.chain, isChain_singleton w, ?_⟩
    intro x hx y hy
    have hv : (v :: stack).reverse.getLast? = some v := by simp
    rw [hv] at hx
    cases hx
    cases hy
    exact he
  nodup := nodup_cons.mpr ⟨hw, h.nodup⟩

theorem visitAll_error {visit : V → List V → Except (List V) (List V)}
    (hpath : OnPath es (v :: stack))
    (hvisit : ∀ w done, Edge es v w → w ∉ v :: stack → visit w done = .error c → IsCycle es c) :
    ∀ {ws done : List V}, (∀ w ∈ ws, Edge es v w) →
      visitAll visit (v :: stack) ws done = .error c → IsCycle es c
  | [], _, _, h => by cases h
  | w :: ws, done, he, h => by
    have hew : Edge es v w := he w mem_cons_self
    have hews : ∀ x ∈ ws, Edge es v x := fun x hx => he x (mem_cons_of_mem w hx)
    unfold visitAll at h
    by_cases hw : w ∈ v :: stack
    · rw [if_pos hw] at h
      cases h
      exact isCycle_of_back_edge hpath.chain ((reverse_perm _).nodup_iff.mpr hpath.nodup)
        (by simp)
        (mem_reverse.mpr hw) hew
    split_ifs at h
    · exact visitAll_error hpath hvisit hews h
    rcases hr : visit w done with c' | done'
    · rw [hr] at h
      cases h
      exact hvisit w done hew hw hr
    · rw [hr] at h
      exact visitAll_error hpath hvisit hews h

theorem visit_error :
    ∀ {n : Nat} {stack : List V} {v : V} {done : List V}, OnPath es (v :: stack) →
      visit es n stack v done = .error c → IsCycle es c
  | 0, _, _, _, _, h => by cases h
  | n + 1, stack, v, done, hpath, h => by
    unfold visit at h
    rcases hr : visitAll (visit es n (v :: stack)) (v :: stack) (succs es v) done with c' | done'
    · rw [hr] at h
      cases h
      refine visitAll_error hpath (fun w d hew hw hv => ?_) (fun w hw => mem_succs.mp hw) hr
      exact visit_error (hpath.push hew hw) hv
    · rw [hr] at h
      cases h

theorem findCycleFrom_error :
    ∀ {starts done : List V}, findCycleFrom es starts done = .error c → IsCycle es c
  | [], _, h => by cases h
  | v :: vs, done, h => by
    unfold findCycleFrom at h
    split_ifs at h
    · exact findCycleFrom_error h
    rcases hr : visit es (es.length + 1) [] v done with c' | done'
    · rw [hr] at h
      cases h
      exact visit_error ⟨isChain_singleton v, by simp⟩ hr
    · rw [hr] at h
      exact findCycleFrom_error h

theorem isCycle_of_findCycle {starts : List V} (h : findCycle es starts = some c) :
    IsCycle es c := by
  unfold findCycle at h
  rcases hr : findCycleFrom es starts [] with c' | done
  · rw [hr] at h
    cases h
    exact findCycleFrom_error hr
  · rw [hr] at h
    cases h

omit [DecidableEq V] in
theorem Acyclic.nodup_walk (h : Acyclic es) {walk : List V} (hw : walk.IsChain (Edge es)) :
    walk.Nodup := by
  have hpath : walk.IsChain (Path es) := hw.imp fun _ _ e => .single e
  have hpair : walk.Pairwise (Path es) := isChain_iff_pairwise.mp hpath
  exact hpair.imp fun {a b} (hab : Path es a b) (heq : a = b) => h b (heq ▸ hab)

/-! ## The search that records every back edge -/

/-- The neighbours of the top of `stack`; a back edge adds the vertices it closes over. -/
def recordAll (record : V → List V × List V → List V × List V) (stack : List V) :
    List V → List V × List V → List V × List V
  | [], acc => acc
  | w :: ws, acc =>
    if w ∈ stack then
      recordAll record stack ws (acc.1, acc.2 ++ stack.reverse.dropWhile (· ≠ w))
    else if w ∈ acc.1 then recordAll record stack ws acc
    else recordAll record stack ws (record w acc)

variable (es)

/-- Depth-first search from `v` with the finished vertices and the recorded members. -/
def record : Nat → List V → V → List V × List V → List V × List V
  | 0, _, _, acc => acc
  | n + 1, stack, v, acc =>
    let acc' := recordAll (record n (v :: stack)) (v :: stack) (succs es v) acc
    (v :: acc'.1, acc'.2)

def recordFrom : List V → List V × List V → List V × List V
  | [], acc => acc
  | v :: vs, acc =>
    if v ∈ acc.1 then recordFrom vs acc
    else recordFrom vs (record es (es.length + 1) [] v acc)

def cycleMembers (starts : List V) : List V :=
  (recordFrom es starts ([], [])).2

variable {es}

/-- The two searches side by side: while one finds nothing the other records nothing. -/
def Agrees (acc : List V × List V) (r : Except (List V) (List V)) (acc' : List V × List V) :
    Prop :=
  match r with
  | .ok done' => acc' = (done', acc.2)
  | .error _ => acc'.2 ≠ []

section

variable {record : V → List V × List V → List V × List V}
  (hr : ∀ w acc, acc.2 ≠ [] → (record w acc).2 ≠ [])
include hr

end

end Digraph
