/-
# `AutoDev.Agents.Denylist` — does the denylist see the output itself?

A denylist guardrail should block an output that has one of its terms in some
string, key or value, at any depth; and let one pass that has none, unless
numbers, constants and punctuation spell it.  `_guardrail_violation` searches
`str(output)` instead, and three things come between the two:

  * strings are printed ESCAPED.  A term with a line break, a backslash or a
    control character is not found in the string that has it, and a term of
    backslashes is found where no string has it;
  * blocking takes one more `record_step`, and a run without a step left is
    interrupted instead;
  * printing itself may raise, and the run fails.

`sees_output_iff` says that there is nothing else: for an output that passed its
validation, guardrails see it EXACTLY when all its strings are empty, or a step
is left, printing succeeds and every string prints as itself.
-/
import AutoDev.Agents.Ledger
import Mathlib.Algebra.Order.BigOperators.Group.List
import Mathlib.Algebra.Order.Ring.Nat
import Mathlib.Data.Nat.Find

namespace AutoDev.Agents

open Dict

open AutoDev.Flows AutoDev.Llm List

/-! ## The terms of a policy -/

def guardrailsOf (policy : Obj) : List Value :=
  match (get? policy "guardrails").getD (.list []) with
  | .list guardrails => guardrails
  | _ => []

def nonEmptyStrings (terms : List Value) : List String :=
  terms.filterMap fun
    | .str term => if term ≠ "" then some term else none
    | _ => none

def blockTermsOf : Value → List String
  | .obj guardrail =>
    if get? guardrail "type" = some (.str "denylist") ∧ blocks guardrail = true then
      match termsOf (get? guardrail "terms") with
      | .ok terms => nonEmptyStrings terms
      | .error _ => []
    else []
  | _ => []

def blockTerms (policy : Obj) : List String := (guardrailsOf policy).flatMap blockTermsOf

def Iterable (guardrails : List Value) : Prop :=
  ∀ guardrail, Value.obj guardrail ∈ guardrails →
    get? guardrail "type" = some (.str "denylist") →
    ∃ terms, termsOf (get? guardrail "terms") = .ok terms

theorem mem_nonEmptyStrings {terms : List Value} {t : String} :
    t ∈ nonEmptyStrings terms ↔ Value.str t ∈ terms ∧ t ≠ "" := by
  unfold nonEmptyStrings
  rw [mem_filterMap]
  constructor
  · rintro ⟨v, hv, hvt⟩
    split at hvt
    · split at hvt
      · next hne =>
          cases hvt
          exact ⟨hv, hne⟩
      · cases hvt
    · cases hvt
  · rintro ⟨hv, hne⟩
    exact ⟨_, hv, if_pos hne⟩

theorem ne_empty_of_mem_blockTerms {policy : Obj} {t : String} (h : t ∈ blockTerms policy) :
    t ≠ "" := by
  obtain ⟨v, -, hv⟩ := mem_flatMap.mp h
  unfold blockTermsOf at hv
  split at hv
  · split at hv
    · split at hv
      · exact (mem_nonEmptyStrings.mp hv).2
      · cases hv
    · cases hv
  · cases hv

section

variable {p : Printer} {rendered : List Char}

theorem matchTerms_ne_empty {block : Bool} : ∀ terms : List Value,
    matchTerms p rendered block terms ≠ "" ↔
      block = true ∧ ∃ t ∈ nonEmptyStrings terms, t.toList <:+: rendered
  | [] => by simp [matchTerms, nonEmptyStrings]
  | .str term :: rest => by
    unfold matchTerms
    by_cases hm : term ≠ "" ∧ term.toList <:+: rendered ∧ block = true
    · rw [if_pos hm]
      have hterm : term ∈ nonEmptyStrings (.str term :: rest) :=
        mem_nonEmptyStrings.mpr ⟨mem_cons_self, hm.1⟩
      exact iff_of_true (by simp) ⟨hm.2.2, term, hterm, hm.2.1⟩
    rw [if_neg hm, matchTerms_ne_empty rest]
    refine and_congr_right fun hblock => exists_congr fun t => and_congr_left fun hinfix => ?_
    rw [mem_nonEmptyStrings, mem_nonEmptyStrings, mem_cons]
    refine and_congr_left fun hne => (or_iff_right fun heq => hm ?_).symm
    cases heq
    exact ⟨hne, hinfix, hblock⟩
  | .null :: rest | .bool _ :: rest | .int _ :: rest | .float _ :: rest | .list _ :: rest
  | .obj _ :: rest => matchTerms_ne_empty rest

theorem matchTerms_iff {guardrail : Obj} {terms : List Value}
    (htype : get? guardrail "type" = some (.str "denylist"))
    (hterms : termsOf (get? guardrail "terms") = .ok terms) :
    matchTerms p rendered (blocks guardrail) terms ≠ "" ↔
      ∃ t ∈ blockTermsOf (.obj guardrail), t.toList <:+: rendered := by
  rw [matchTerms_ne_empty]
  by_cases hb : blocks guardrail = true
  · have hall : blockTermsOf (.obj guardrail) = nonEmptyStrings terms := by
      simp [blockTermsOf, htype, hb, hterms]
    rw [hall]
    exact and_iff_right hb
  · have hnone : blockTermsOf (.obj guardrail) = [] := if_neg fun h => hb h.2
    rw [hnone]
    exact iff_of_false (fun h => hb h.1) (by simp)

theorem scanGuardrails_spec : ∀ {guardrails : List Value}, Iterable guardrails →
    ∃ violation, scanGuardrails p rendered guardrails = .ok violation ∧
      (violation ≠ "" ↔ ∃ t ∈ guardrails.flatMap blockTermsOf, t.toList <:+: rendered)
  | [], _ => ⟨"", rfl, by simp⟩
  | .obj guardrail :: rest, hiter => by
    have hrest : Iterable rest := fun g hg => hiter g (mem_cons_of_mem _ hg)
    obtain ⟨violation, hscan, hiff⟩ := scanGuardrails_spec hrest
    unfold scanGuardrails
    rw [flatMap_cons]
    split
    · next htype =>
        obtain ⟨terms, hterms⟩ := hiter guardrail mem_cons_self htype
        have hhere : matchTerms p rendered (blocks guardrail) terms ≠ "" ↔ _ :=
          matchTerms_iff htype hterms
        rw [hterms]
        dsimp only
        split
        · next hv =>
            obtain ⟨t, ht, hin⟩ := hhere.mp hv
            exact ⟨_, rfl, iff_of_true hv ⟨t, mem_append_left _ ht, hin⟩⟩
        next hv =>
          refine ⟨violation, hscan, hiff.trans ⟨?_, ?_⟩⟩
          · rintro ⟨t, ht, hin⟩
            exact ⟨t, mem_append_right _ ht, hin⟩
          · rintro ⟨t, ht, hin⟩
            exact ⟨t, (mem_append.mp ht).resolve_left fun h => hv (hhere.mpr ⟨t, h, hin⟩),
              hin⟩
    · next htype =>
        have hnone : blockTermsOf (.obj guardrail) = [] := if_neg fun h => htype h.1
        rw [hnone, nil_append]
        exact ⟨violation, hscan, hiff⟩
  | .null :: rest, hiter | .bool _ :: rest, hiter | .int _ :: rest, hiter | .float _ :: rest, hiter
  | .list _ :: rest, hiter | .str _ :: rest, hiter => by
    have hrest : Iterable rest := fun g hg => hiter g (mem_cons_of_mem _ hg)
    have hspec := scanGuardrails_spec hrest
    exact hspec

theorem guardrailViolation_spec {policy output : Obj} (hiter : Iterable (guardrailsOf policy)) :
    (p.fails (.obj output) = true ∧ guardrailViolation p policy output = .error .other) ∨
      ∃ violation, guardrailViolation p policy output = .ok violation ∧
        (violation ≠ "" ↔ p.fails (.obj output) = false ∧
          ∃ t ∈ blockTerms policy, t.toList <:+: p.text (.obj output)) := by
  unfold guardrailViolation
  split
  · next guardrails hg =>
      have hgs : guardrailsOf policy = guardrails := by rw [guardrailsOf, hg]
      rw [hgs] at hiter
      rcases hf : p.fails (.obj output) with _ | _
      · obtain ⟨violation, hscan, hiff⟩ := scanGuardrails_spec hiter
        rw [blockTerms, hgs]
        exact .inr ⟨violation, hscan, hiff.trans (and_iff_right rfl).symm⟩
      · exact .inl ⟨rfl, rfl⟩
  · next hg =>
      have hgs : guardrailsOf policy = [] := by
        unfold guardrailsOf
        split
        · next guardrails h => exact absurd h (hg guardrails)
        · rfl
      exact .inr ⟨"", rfl, by simp [blockTerms, hgs]⟩

end

/-! ## How the run ends -/

namespace Setup

variable (a : Setup)

def endStatus (output : Obj) (s : Context) : Option Status :=
  match isolate (a.afterHandler (.ok (.obj output)) s) with
  | (.ok result, _) => some result.status
  | (.error _, _) => none

/-- The output of a handler that returned in the context `s` passes its validation, in `s'`. -/
def Passes (output : Obj) (s s' : Context) : Prop :=
  a.passOutput output (left (appendStep ⟨"run-handler", "completed", ""⟩) s) = .ok () s'

variable {a}

variable {output : Obj} {s : Context}

theorem afterHandler_of_passes {s' : Context} (h : a.Passes output s s') :
    a.afterHandler (.ok (.obj output)) s = a.guardOutput output s' := by
  have hhandler : runHandler (.ok (.obj output)) s
      = .ok output (left (appendStep ⟨"run-handler", "completed", ""⟩) s) := rfl
  rw [afterHandler, bind_of_ok hhandler, bind_of_ok h]

theorem guardOutput_raises {e : Exc}
    (hv : guardrailViolation a.printer a.policy output = .error e) :
    a.guardOutput output s = .error e s := by
  unfold guardOutput
  rw [hv]
  rfl

theorem guardOutput_clear (hv : guardrailViolation a.printer a.policy output = .ok "") :
    a.guardOutput output s = .ok ⟨.completed, "completed", false, some output⟩ s := by
  unfold guardOutput
  rw [hv]
  rfl

theorem guardOutput_violated {violation : String}
    (hv : guardrailViolation a.printer a.policy output = .ok violation) (hne : violation ≠ "") :
    (s.ledger.addStep.exceeds a.budgets = true ∧
        ∃ s₁, a.guardOutput output s = .error .budgetExceeded s₁) ∨
      (s.ledger.addStep.exceeds a.budgets = false ∧
        ∃ s₁, a.guardOutput output s = .ok ⟨.blocked, "guardrail_blocked", true, none⟩ s₁) := by
  have hguard : a.guardOutput output s
      = (a.recordStep "guardrail-output" "failed" "guardrail_blocked" >>= fun _ =>
        pure ⟨.blocked, "guardrail_blocked", true, none⟩) s := by
    unfold guardOutput
    rw [hv]
    show (if violation ≠ "" then _ else _ : Run AgentRunResult) s = _
    rw [if_pos hne]
  rw [hguard]
  rcases hex : s.ledger.addStep.exceeds a.budgets with _ | _
  · exact .inr ⟨rfl, _, bind_of_ok (bind_of_ok (ledgerStep_ok hex))⟩
  · exact .inl ⟨rfl, _, bind_of_error (bind_of_error (ledgerStep_error hex))⟩

theorem endStatus_blocked_iff {s' : Context} (h : a.Passes output s s')
    (hiter : Iterable (guardrailsOf a.policy)) :
    a.endStatus output s = some .blocked ↔
      a.printer.fails (.obj output) = false ∧
        s'.ledger.addStep.exceeds a.budgets = false ∧
        ∃ t ∈ blockTerms a.policy, t.toList <:+: a.printer.text (.obj output) := by
  rw [endStatus, afterHandler_of_passes h]
  rcases guardrailViolation_spec hiter with ⟨hf, hv⟩ | ⟨violation, hv, hiff⟩
  · rw [guardOutput_raises hv, hf]
    exact iff_of_false (by simp [isolate]) (by simp)
  by_cases hne : violation = ""
  · subst hne
    rw [guardOutput_clear hv]
    refine iff_of_false (by simp [isolate]) fun ⟨hf, _, ht⟩ => ?_
    exact hiff.mpr ⟨hf, ht⟩ rfl
  obtain ⟨hf, ht⟩ := hiff.mp hne
  rcases guardOutput_violated hv hne with ⟨hex, s₁, hguard⟩ | ⟨hex, s₁, hguard⟩ <;>
    rw [hguard, hex]
  · exact iff_of_false (by simp [isolate]) (by simp)
  · exact iff_of_true rfl ⟨hf, rfl, ht⟩

end Setup

/-! ## Seeing the output -/

/-- The term can be read in the text with the help of the frame: of a number, a constant or
punctuation. -/
def SpelledByFrame (p : Printer) (output : Obj) (t : String) : Prop :=
  ∃ u, u <:+: p.printed (.obj output) ∧ u.map Prod.fst = t.toList ∧ ∃ c, (c, false) ∈ u

/-- The guardrails see the output: a term in one of its strings blocks the run, and a run is not
blocked if no string has a term and the frame does not spell one. -/
structure SeesOutput (a : Setup) (output : Obj) (s : Context) : Prop where
  blocked : (∃ t ∈ blockTerms a.policy, ∃ x ∈ texts (.obj output), t.toList <:+: x.toList) →
    a.endStatus output s = some .blocked
  passed : (∀ t ∈ blockTerms a.policy, ∀ x ∈ texts (.obj output), ¬ t.toList <:+: x.toList) →
    (∀ t ∈ blockTerms a.policy, ¬ SpelledByFrame a.printer output t) →
    a.endStatus output s ≠ some .blocked

section

variable {a : Setup} {p : Printer} {output : Obj} {s s' : Context}

theorem exists_body_of_text {t : String} (hne : t ≠ "")
    (h : t.toList <:+: p.text (.obj output)) (hframe : ¬ SpelledByFrame p output t) :
    ∃ x ∈ texts (.obj output), t.toList <:+: p.body x := by
  obtain ⟨u, hu, hut⟩ := infix_map_iff.mp h
  have hinside : u = inside t.toList := by
    rw [hut, inside, map_map]
    refine (map_id u).symm.trans (map_congr_left fun cb hcb => ?_)
    obtain ⟨c, _ | _⟩ := cb
    · exact absurd ⟨u, hu, hut.symm, c, hcb⟩ hframe
    · rfl
  rw [hinside] at hu
  exact Printer.exists_body_of_inside (fun h => hne (String.toList_eq_nil_iff.mp h)) hu

theorem body_infix_text {x : String} (h : x ∈ texts (.obj output)) :
    p.body x <:+: p.text (.obj output) := by
  have hmap := (Printer.body_infix_printed (p := p) h).map Prod.fst
  rwa [map_fst_inside] at hmap

theorem not_spelledByFrame_backslashes (n : Nat) :
    ¬ SpelledByFrame p output (String.ofList (replicate n '\\')) := by
  rintro ⟨u, hu, hut, c, hc⟩
  rw [String.toList_ofList] at hut
  have hmem : c ∈ replicate n '\\' := hut ▸ mem_map_of_mem hc
  rw [eq_of_mem_replicate hmem] at hc
  exact Printer.not_mem_printed (.obj output) (hu.subset hc)

theorem exists_backslashes {y : String} (hy : y ∈ texts (.obj output))
    (hbody : p.body y ≠ y.toList) :
    ∃ n, 0 < n ∧ (∀ x ∈ texts (.obj output), ¬ replicate n '\\' <:+: x.toList) ∧
      replicate n '\\' <:+: p.text (.obj output) := by
  -- the least number of backslashes that no string has in a row
  have hex : ∃ n, ∀ x ∈ texts (.obj output), ¬ replicate n '\\' <:+: x.toList := by
    refine ⟨((texts (.obj output)).map String.length).sum + 1, fun x hx h => ?_⟩
    have hlen := h.length_le
    have hsum := le_sum_of_mem (mem_map_of_mem (f := String.length) hx)
    rw [length_replicate, String.length_toList] at hlen
    omega
  have hnone := Nat.find_spec hex
  have hleast := fun m => Nat.find_min hex (m := m)
  rcases hn : Nat.find hex with _ | m
  · rw [hn] at hnone
    exact absurd nil_infix (hnone y hy)
  rw [hn] at hnone hleast
  refine ⟨m + 1, Nat.succ_pos m, hnone, ?_⟩
  rcases Nat.eq_zero_or_pos m with rfl | hm
  · have hslash := (Printer.body_eq_or_backslash y).resolve_left hbody
    exact (singleton_infix_iff _ _ |>.mpr hslash).trans (body_infix_text hy)
  have hlt := hleast m (Nat.lt_succ_self m)
  push Not at hlt
  obtain ⟨z, hz, hrep⟩ := hlt
  have hdouble := (Printer.backslashes_infix_body (p := p) hrep).trans (body_infix_text hz)
  have hle : m + 1 ≤ 2 * m := by omega
  have hpre : replicate (m + 1) '\\' <+: replicate (2 * m) '\\' := by
    obtain ⟨d, hd⟩ := Nat.exists_eq_add_of_le hle
    exact ⟨replicate d '\\', by rw [replicate_append_replicate, ← hd]⟩
  exact hpre.isInfix.trans hdouble

def onTerm (t : String) : Obj :=
  [("guardrails", .list [.obj [("type", .str "denylist"), ("terms", .list [.str t])]])]

theorem blockTerms_onTerm {t : String} (h : t ≠ "") : blockTerms (onTerm t) = [t] := by
  have hstrings : nonEmptyStrings [.str t] = [t] := by simp [nonEmptyStrings, h]
  show [Value.obj _].flatMap blockTermsOf = _
  rw [flatMap_singleton]
  exact hstrings

theorem iterable_onTerm (t : String) : Iterable (guardrailsOf (onTerm t)) := by
  intro guardrail hg htype
  obtain rfl := Value.obj.inj (mem_singleton.mp hg)
  exact ⟨[.str t], rfl⟩

theorem addStep_within_iff {l : Ledger} {limits : AgentBudgets} (h : l.exceeds limits = false) :
    l.addStep.exceeds limits = false ↔ (l.steps : Int) < limits.maxSteps := by
  rw [Ledger.exceeds_eq_false] at h ⊢
  constructor
  · intro h'
    have hsteps := h'.steps
    simp only [Ledger.addStep] at hsteps
    omega
  · intro hlt
    refine ⟨h.tokensInput, h.tokensOutput, h.costUsd, h.toolCalls, ?_⟩
    simp only [Ledger.addStep]
    omega

theorem blocked_iff_text (hpass : a.Passes output s s') {policy : Obj}
    (hiter : Iterable (guardrailsOf policy)) :
    ({ a with policy := policy } : Setup).endStatus output s = some .blocked ↔
      a.printer.fails (.obj output) = false ∧ (s'.ledger.steps : Int) < a.budgets.maxSteps ∧
        ∃ t ∈ blockTerms policy, t.toList <:+: a.printer.text (.obj output) := by
  rw [← addStep_within_iff (passOutput_within hpass)]
  exact Setup.endStatus_blocked_iff hpass hiter

/-- If the guardrails see the output, its strings print as themselves: else a run of backslashes
would block it that no string has. -/
theorem body_eq_of_sees (hpass : a.Passes output s s')
    (hprints : a.printer.fails (.obj output) = false)
    (hleft : (s'.ledger.steps : Int) < a.budgets.maxSteps)
    (hsees : ∀ policy, Iterable (guardrailsOf policy) →
      SeesOutput { a with policy := policy } output s) {y : String}
    (hy : y ∈ texts (.obj output)) : a.printer.body y = y.toList := by
  by_contra hbody
  obtain ⟨n, hpos, hnone, hin⟩ := exists_backslashes hy hbody
  have hne : String.ofList (replicate n '\\') ≠ "" := by
    intro h
    have hlen := congrArg String.length h
    simp at hlen
    omega
  have hterms := blockTerms_onTerm hne
  have hiter := iterable_onTerm (String.ofList (replicate n '\\'))
  refine (hsees _ hiter).passed ?_ ?_ ((blocked_iff_text hpass hiter).mpr ⟨hprints, hleft, ?_⟩)
  · intro t ht x hx
    rw [hterms, mem_singleton] at ht
    rw [ht, String.toList_ofList]
    exact hnone x hx
  · intro t ht
    rw [hterms, mem_singleton] at ht
    rw [ht]
    exact not_spelledByFrame_backslashes n
  · rw [hterms]
    exact ⟨_, mem_singleton.mpr rfl, by rwa [String.toList_ofList]⟩

/-- Where a run is blocked that has no term in its strings, the frame has spelled it; unless a
string prints otherwise. -/
theorem sees_passed (hpass : a.Passes output s s') {policy : Obj}
    (hiter : Iterable (guardrailsOf policy))
    (hbody : ∀ x ∈ texts (.obj output), a.printer.body x = x.toList)
    (hnone : ∀ t ∈ blockTerms policy, ∀ x ∈ texts (.obj output), ¬ t.toList <:+: x.toList)
    (hframe : ∀ t ∈ blockTerms policy, ¬ SpelledByFrame a.printer output t) :
    ({ a with policy := policy } : Setup).endStatus output s ≠ some .blocked := by
  intro hblocked
  obtain ⟨-, -, t, ht, hin⟩ := (blocked_iff_text hpass hiter).mp hblocked
  obtain ⟨x, hx, hbx⟩ := exists_body_of_text (ne_empty_of_mem_blockTerms ht) hin (hframe t ht)
  rw [hbody x hx] at hbx
  exact hnone t ht x hx hbx

/-- **When the denylist sees the output.**  Of an output that passed its validation: the guardrails
of every policy see it exactly if all its strings are empty, or a step is left, printing succeeds,
and every string prints as itself. -/
theorem sees_output_iff (a : Setup) (output : Obj) {s s' : Context}
    (hpass : a.Passes output s s') :
    (∀ policy, Iterable (guardrailsOf policy) →
      SeesOutput { a with policy := policy } output s) ↔
      (∀ x ∈ texts (.obj output), x = "") ∨
        ((s'.ledger.steps : Int) < a.budgets.maxSteps ∧
          a.printer.fails (.obj output) = false ∧
          ∀ x ∈ texts (.obj output), a.printer.body x = x.toList) := by
  constructor
  · intro hsees
    refine or_iff_not_imp_left.mpr fun hstrings => ?_
    push Not at hstrings
    obtain ⟨x, hx, hne⟩ := hstrings
    -- a string of the output as the term: it must be found, so printing and a step are there
    have hiter := iterable_onTerm x
    have hterm := (hsees (onTerm x) hiter).blocked
      ⟨x, by simp [blockTerms_onTerm hne], x, hx, infix_rfl⟩
    obtain ⟨hprints, hleft, -⟩ := (blocked_iff_text hpass hiter).mp hterm
    exact ⟨hleft, hprints, fun y hy => body_eq_of_sees hpass hprints hleft hsees hy⟩
  · rintro (hempty | ⟨hleft, hprints, hbody⟩) policy hiter
    · refine ⟨?_, sees_passed hpass hiter fun x hx => by rw [hempty x hx]; rfl⟩
      rintro ⟨t, ht, x, hx, hin⟩
      rw [hempty x hx] at hin
      exact absurd (String.toList_eq_nil_iff.mp (infix_nil.mp hin))
        (ne_empty_of_mem_blockTerms ht)
    · refine ⟨?_, sees_passed hpass hiter hbody⟩
      rintro ⟨t, ht, x, hx, hin⟩
      refine (blocked_iff_text hpass hiter).mpr ⟨hprints, hleft, t, ht, ?_⟩
      rw [← hbody x hx] at hin
      exact hin.trans (body_infix_text hx)

end

theorem sees_output_iff_plain :
    SeesOutput { thrifty with policy := onTerm "b" } [("a", .str "b c")] {} :=
  (sees_output_iff thrifty [("a", .str "b c")] (eq_ok_of_outcome (by decide +kernel))).mpr
    (.inr ⟨by decide +kernel, rfl, by decide +kernel⟩) (onTerm "b") (iterable_onTerm "b")

/-- The term is a string of the output and has a line break: it is printed as a backslash and an
`n`, is not found, and the run completes. -/
theorem escaped_term_passes :
    ({ thrifty with policy := onTerm "x\ny" } : Setup).endStatus [("a", .str "x\ny")] {}
        = some .completed ∧
      ¬ SeesOutput { thrifty with policy := onTerm "x\ny" } [("a", .str "x\ny")] {} := by
  have hdone : ({ thrifty with policy := onTerm "x\ny" } : Setup).endStatus
      [("a", .str "x\ny")] {} = some .completed := by decide +kernel
  refine ⟨hdone, fun h => ?_⟩
  have hblocked := h.blocked ⟨"x\ny", by decide +kernel, "x\ny", by decide +kernel, infix_rfl⟩
  rw [hdone] at hblocked
  cases hblocked

end AutoDev.Agents
