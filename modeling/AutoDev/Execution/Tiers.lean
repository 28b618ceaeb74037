/-
# `AutoDev.Execution.Tiers` — what the policy gate decides, and what passes it

`_decide` scores the rules that match an action and takes one of the highest
score.  The SPECIFICATION goes by tiers: of the dynamic permissions with a
pattern, the dynamic ones without, the static rules with a pattern and the static
ones without, the first tier in which a rule matches decides, and it allows
unless it has a deny.

In production, without a single stored rule, there is no policy: `resolve_rules`
raises, whatever dynamic permissions there are (`no_policy_in_production`).
-/
import AutoDev.Lib.Tiers
import AutoDev.Execution.Dispatch

namespace AutoDev.Execution

open Prog Tiers List

/-! ## The specification -/

variable (cfg : Settings) (p : Policy) (a : ExecutionAction)

def Settings.staticRules : List PolicyRule :=
  (cfg.resolveRules p).getD []

/-- The rules that match an action, tier by tier. -/
def Settings.tiers : List (List PolicyRule) :=
  let dynamic := p.dynamic.filter (cfg.covers a)
  let static := (cfg.staticRules p).filter (cfg.covers a)
  [dynamic.filter (·.pattern.isSome), dynamic.filter (·.pattern.isNone),
    static.filter (·.pattern.isSome), static.filter (·.pattern.isNone)]

def Settings.Matches : Prop :=
  ∃ rule ∈ p.dynamic ++ cfg.staticRules p, cfg.covers a rule = true

def Settings.TierAllows : Prop :=
  ∀ rule ∈ firstTier (cfg.tiers p a), rule.effect ≠ .deny

/-- There is a policy: the tenant has a stored rule, or this is not production. -/
def Settings.HasPolicy : Prop :=
  p.rules ≠ [] ∨ cfg.production = false

def Settings.passes (preApproved : List String) (a : ExecutionAction) : Bool :=
  preApproved.contains a.actionId || Decidable.decide (cfg.Allowed p a)

/-- What the runner may answer to an action it is handed. -/
abbrev Runner := RunState → ExecutionAction → ExecutionResult → Prop

def Runner.Returns (runner : Runner) : Prop := ∀ s a, ∃ r, runner s a r

/-- What a command does where only the program acts, over a runner that answers like this. -/
def Under (o : Orchestrator) (runner : Runner) (c : Cmd) (s : RunState) (r : Reply c)
    (s' : RunState) : Prop :=
  Effect o c s r s' ∧
    match c, r with
    | .run _ _ a, r => ∃ x, r = some x ∧ runner s a x
    | _, _ => True

def RunState.handed (turn : ℕ) (mode : ExecutionMode) (actions : List ExecutionAction)
    (s : RunState) : RunState :=
  { s with log := (actions.map (Entry.handed turn mode)).reverse ++ s.log }

/-- The result that a dispatch gives an action it comes to in the state `s`. -/
def Settings.Answered (runner : Runner) (preApproved : List String) (s : RunState)
    (r : ExecutionResult) : Prop :=
  if cfg.passes s.policy preApproved a then runner s a r
  else ∃ d ∈ cfg.decide s.policy a, r = deniedResult a s!"policy denied: {d.reason}" .policyDenied

/-- What a dispatch has done: the actions that pass were handed over, once each and in order; there
is one result per action, which is what the runner answered, or a denial; and it has failed if one
of them has. -/
structure Dispatched (runner : Runner) (turn : ℕ) (mode : ExecutionMode) (preApproved : List String)
    (actions : List ExecutionAction) (s : RunState) (outcome : TaskExecutionOutcome) (s' : RunState) :
    Prop where
  state : s' = s.handed turn mode (actions.filter (cfg.passes s.policy preApproved))
  length : outcome.results.length = actions.length
  results : ∀ before a after, actions = before ++ a :: after →
    ∃ r, outcome.results[before.length]? = some r ∧ cfg.Answered a runner preApproved
      (s.handed turn mode (before.filter (cfg.passes s.policy preApproved))) r
  status : outcome.status = .failed ↔ ∃ r ∈ outcome.results, r.status = .failed

structure RaisesAfter (o : Orchestrator) (runner : Runner) (turn : ℕ) (mode : ExecutionMode)
    (before : List ExecutionAction) {α : Type} (p : P α) (s : RunState) : Prop where
  noOutcome : ∀ outcome s', ¬ Exec (Under o runner) p s outcome s'
  within : ∀ p' s', Steps (Under o runner) p s p' s' →
    ∃ done, done <+: before ∧ s' = s.handed turn mode done
  raises : ∃ k, Steps (Under o runner) p s (.op .raise k) (s.handed turn mode before)

/-! ## Scores and tiers -/

section Decide

variable {cfg : Settings} {p : Policy} {a : ExecutionAction}

theorem resolveRules_eq (h : cfg.HasPolicy p) : cfg.resolveRules p = some (cfg.staticRules p) := by
  unfold Settings.staticRules Settings.resolveRules
  by_cases hr : p.rules ≠ []
  · simp [hr]
  · have hprod : cfg.production = false := h.resolve_left hr
    simp [hr, hprod]

def verdict (a : ExecutionAction) (tier : List PolicyRule) : PolicyDecision :=
  match (tier.find? (·.effect = .deny)).or tier.head? with
  | none => ⟨false, false, "no matching policy rule"⟩
  | some rule =>
    ⟨rule.effect = .allow, true, s!"{rule.effect.value} rule for {a.type.category.value}"⟩

theorem verdict_eq (tier : List PolicyRule) : verdict a tier =
    if tier = [] then ⟨false, false, "no matching policy rule"⟩
    else
      let effect := if ∃ rule ∈ tier, rule.effect = .deny then PolicyEffect.deny else .allow
      ⟨effect = .allow, true, s!"{effect.value} rule for {a.type.category.value}"⟩ := by
  unfold verdict
  rcases hfind : tier.find? (·.effect = .deny) with _ | rule
  · have hno : ¬ ∃ rule ∈ tier, rule.effect = .deny := by
      rintro ⟨rule, hmem, hdeny⟩
      exact absurd (decide_eq_true hdeny) (find?_eq_none.mp hfind rule hmem)
    cases tier with
    | nil => rfl
    | cons rule tier =>
      have hallow : rule.effect = .allow := by
        cases he : rule.effect with
        | allow => rfl
        | deny => exact absurd ⟨rule, mem_cons_self, he⟩ hno
      simp only [hfind, Option.none_or, head?_cons, if_neg hno, reduceCtorEq, if_false, hallow]
  · have hdeny : rule.effect = .deny := by simpa using find?_some hfind
    have hmem := mem_of_find?_eq_some hfind
    rw [if_neg (ne_nil_of_mem hmem)]
    have hex : ∃ rule ∈ tier, rule.effect = .deny := ⟨rule, hmem, hdeny⟩
    simp only [hfind, Option.some_or, hdeny, if_pos hex]

theorem verdict_allowed {tier : List PolicyRule} :
    (verdict a tier).allowed = true ↔ tier ≠ [] ∧ ∀ rule ∈ tier, rule.effect ≠ .deny := by
  rw [verdict_eq]
  by_cases hnil : tier = []
  · simp [hnil]
  rw [if_neg hnil]
  by_cases hdeny : ∃ rule ∈ tier, rule.effect = .deny
  · simp only [if_pos hdeny, reduceCtorEq, decide_false, Bool.false_eq_true, false_iff]
    rintro ⟨-, hno⟩
    obtain ⟨rule, hmem, he⟩ := hdeny
    exact hno rule hmem he
  · simp only [if_neg hdeny, decide_true, true_iff]
    exact ⟨hnil, fun rule hmem he => hdeny ⟨rule, hmem, he⟩⟩

theorem verdict_matched {tier : List PolicyRule} : (verdict a tier).matched = true ↔ tier ≠ [] := by
  rw [verdict_eq]
  by_cases hnil : tier = []
  · simp [hnil]
  · simp [hnil]

theorem verdict_perm {tier tier' : List PolicyRule} (h : tier.Perm tier') :
    verdict a tier = verdict a tier' := by
  have hnil : tier = [] ↔ tier' = [] := by
    rw [← length_eq_zero_iff, ← length_eq_zero_iff, h.length_eq]
  have hdeny : (∃ rule ∈ tier, rule.effect = .deny) ↔ ∃ rule ∈ tier', rule.effect = .deny := by
    simp only [h.mem_iff]
  simp only [verdict_eq, hnil, hdeny]

theorem tier_score (base k : ℕ) (l : List PolicyRule) :
    tier (l.map fun r => (r.score base, r)) k =
      if k = base + 1 then l.filter (·.pattern.isSome)
      else if k = base then l.filter (·.pattern.isNone) else [] := by
  rw [tier_map]
  split
  · rename_i hk
    refine filter_congr fun rule _ => ?_
    cases hp : rule.pattern <;> simp [PolicyRule.score, hp, hk]
  split
  · rename_i hk'
    refine filter_congr fun rule _ => ?_
    cases hp : rule.pattern <;> simp [PolicyRule.score, hp, hk']
  · rename_i hk'
    refine filter_eq_nil_iff.mpr fun rule _ => ?_
    cases hp : rule.pattern <;> simp [PolicyRule.score, hp] <;> omega

theorem tiers_score (dynamic static : List PolicyRule) :
    (range 4).reverse.map (tier (dynamic.map (fun r => (r.score 2, r)) ++
        static.map fun r => (r.score 0, r))) =
      [dynamic.filter (·.pattern.isSome), dynamic.filter (·.pattern.isNone),
        static.filter (·.pattern.isSome), static.filter (·.pattern.isNone)] := by
  have hrange : (range 4).reverse = [3, 2, 1, 0] := by decide
  simp [hrange, tier_score]

theorem decide_eq_verdict (h : cfg.HasPolicy p) :
    cfg.decide p a = some (verdict a (firstTier (cfg.tiers p a))) := by
  have hscores : ∀ x ∈ (p.dynamic.filter (cfg.covers a)).map (fun r => (r.score 2, r)) ++
      ((cfg.staticRules p).filter (cfg.covers a)).map (fun r => (r.score 0, r)), x.1 < 4 := by
    intro x hx
    simp only [mem_append, mem_map] at hx
    rcases hx with ⟨rule, -, rfl⟩ | ⟨rule, -, rfl⟩ <;> simp only [PolicyRule.score] <;> split <;> omega
  have htop := tier_top hscores
  rw [tiers_score] at htop
  rw [Settings.decide, resolveRules_eq h]
  exact congrArg (fun t => some (verdict a t)) htop

theorem filter_pattern_eq_nil (l : List PolicyRule) :
    (l.filter (·.pattern.isSome) = [] ∧ l.filter (·.pattern.isNone) = []) ↔ l = [] := by
  constructor
  · rintro ⟨hsome, hnone⟩
    refine eq_nil_iff_forall_not_mem.mpr fun rule hmem => ?_
    cases hp : rule.pattern with
    | none => exact filter_eq_nil_iff.mp hnone rule hmem (by simp [hp])
    | some pattern => exact filter_eq_nil_iff.mp hsome rule hmem (by simp [hp])
  · rintro rfl
    exact ⟨rfl, rfl⟩

theorem firstTier_tiers_ne_nil : firstTier (cfg.tiers p a) ≠ [] ↔ cfg.Matches p a := by
  have hnil : firstTier (cfg.tiers p a) = [] ↔
      p.dynamic.filter (cfg.covers a) = [] ∧ (cfg.staticRules p).filter (cfg.covers a) = [] := by
    rw [firstTier_eq_nil, ← filter_pattern_eq_nil (p.dynamic.filter _),
      ← filter_pattern_eq_nil ((cfg.staticRules p).filter _)]
    simp only [Settings.tiers, forall_mem_cons, not_mem_nil, false_imp_iff, implies_true,
      and_true, and_assoc]
  rw [Ne, hnil, Settings.Matches]
  simp only [filter_eq_nil_iff, ← forall_mem_append, not_forall, not_not, exists_prop]

theorem allowed_iff (h : cfg.HasPolicy p) :
    cfg.Allowed p a ↔ Clean (fun rule => rule.effect ≠ .deny) (cfg.tiers p a) := by
  rw [Settings.Allowed, decide_eq_verdict h]
  simp only [Option.mem_some, exists_eq_left', verdict_allowed, Clean]

/-! ## Laws of the gate -/

theorem staticRules_of_stored (h : p.rules ≠ []) : cfg.staticRules p = p.rules := by
  simp [Settings.staticRules, Settings.resolveRules, h]

theorem staticRules_perm {p' : Policy} (h : p'.rules.Perm p.rules) :
    (cfg.staticRules p').Perm (cfg.staticRules p) := by
  by_cases hr : p.rules = []
  · have hr' : p'.rules = [] := by
      rw [hr] at h
      exact h.eq_nil
    simp [Settings.staticRules, Settings.resolveRules, hr, hr']
  have hr' : p'.rules ≠ [] := by
    intro hnil
    rw [hnil] at h
    exact hr h.symm.eq_nil
  rw [staticRules_of_stored hr, staticRules_of_stored hr']
  exact h

theorem hasPolicy_perm {p' : Policy} (h : p'.rules.Perm p.rules) (hp : cfg.HasPolicy p) :
    cfg.HasPolicy p' := by
  rcases hp with hr | hprod
  · refine .inl fun hnil => hr ?_
    rw [hnil] at h
    exact h.symm.eq_nil
  · exact .inr hprod

theorem decide_perm {p' : Policy} (hp : cfg.HasPolicy p) (hrules : p'.rules.Perm p.rules)
    (hdynamic : p'.dynamic.Perm p.dynamic) : cfg.decide p' a = cfg.decide p a := by
  have hstatic : (cfg.staticRules p').Perm (cfg.staticRules p) := staticRules_perm hrules
  rw [decide_eq_verdict hp, decide_eq_verdict (hasPolicy_perm hrules hp)]
  refine congrArg some (verdict_perm (firstTier_perm ?_))
  exact .cons ((hdynamic.filter _).filter _) (.cons ((hdynamic.filter _).filter _)
    (.cons ((hstatic.filter _).filter _) (.cons ((hstatic.filter _).filter _) .nil)))

theorem allowed_of_allowed_with_deny {rule : PolicyRule} (hr : p.rules ≠ [])
    (hdeny : rule.effect = .deny) (h : cfg.Allowed { p with rules := rule :: p.rules } a) :
    cfg.Allowed p a := by
  have hr' : ({ p with rules := rule :: p.rules } : Policy).rules ≠ [] := cons_ne_nil _ _
  rw [allowed_iff (.inl hr'), Settings.tiers, staticRules_of_stored hr'] at h
  rw [allowed_iff (.inl hr), Settings.tiers, staticRules_of_stored hr]
  have hbad : ¬ rule.effect ≠ .deny := fun hne => hne hdeny
  by_cases hcov : cfg.covers a rule = true
  · dsimp only at h ⊢
    rw [filter_cons_of_pos hcov] at h
    cases hp : rule.pattern with
    | some pattern =>
      rw [filter_cons_of_pos (by simp [hp]), filter_cons_of_neg (by simp [hp])] at h
      exact Clean.of_bad (l := [_, _]) hbad h
    | none =>
      rw [filter_cons_of_neg (by simp [hp]), filter_cons_of_pos (by simp [hp])] at h
      exact Clean.of_bad (l := [_, _, _]) hbad h
  · dsimp only at h ⊢
    rw [filter_cons_of_neg hcov] at h
    exact h

theorem allowed_with_allow {rule : PolicyRule} (hp : cfg.HasPolicy p)
    (hallow : rule.effect = .allow) (h : cfg.Allowed p a) :
    cfg.Allowed { p with dynamic := rule :: p.dynamic } a := by
  have hp' : cfg.HasPolicy { p with dynamic := rule :: p.dynamic } := hp
  rw [allowed_iff hp, Settings.tiers] at h
  rw [allowed_iff hp', Settings.tiers]
  have hgood : rule.effect ≠ .deny := by
    rw [hallow]
    exact PolicyEffect.noConfusion
  by_cases hcov : cfg.covers a rule = true
  · dsimp only at h ⊢
    rw [filter_cons_of_pos hcov]
    cases hpat : rule.pattern with
    | some pattern =>
      rw [filter_cons_of_pos (by simp [hpat]), filter_cons_of_neg (by simp [hpat])]
      exact Clean.with_good (l := []) hgood h
    | none =>
      rw [filter_cons_of_neg (by simp [hpat]), filter_cons_of_pos (by simp [hpat])]
      exact Clean.with_good (l := [_]) hgood h
  · dsimp only at h ⊢
    rw [filter_cons_of_neg hcov]
    exact h

theorem decide_eq_none (h : ¬ cfg.HasPolicy p) (a : ExecutionAction) : cfg.decide p a = none := by
  obtain ⟨hrules, hprod⟩ := not_or.mp h
  simp only [not_not, Bool.not_eq_false] at hrules hprod
  simp [Settings.decide, Settings.resolveRules, hrules, hprod]

end Decide

/-! ## Dispatch -/

section Dispatch

variable {o : Orchestrator} {runner : Runner} {turn : ℕ} {mode : ExecutionMode}
  {preApproved : List String} {s : RunState}

theorem handed_append (before after : List ExecutionAction) :
    s.handed turn mode (before ++ after) = (s.handed turn mode before).handed turn mode after := by
  simp [RunState.handed]

@[simp] theorem policy_handed (actions : List ExecutionAction) :
    (s.handed turn mode actions).policy = s.policy := rfl

/-- The replies of every run of a program, and what it leaves, where only the program acts. -/
abbrev Alone (o : Orchestrator) (runner : Runner) {α : Type} (Q : α → RunState → Prop) (p : P α)
    (s : RunState) : Prop :=
  wp (Under o runner) (fun _ => True) Q p s

theorem alone_orRaise {α : Type} {Q : α → RunState → Prop} {x : Option α}
    (h : ∀ v, x = some v → Q v s) : Alone o runner Q (orRaise x) s := by
  cases x with
  | none => exact fun r => r.elim
  | some v => exact h v rfl

def DispatchedOne (cfg : Settings) (runner : Runner) (turn : ℕ) (mode : ExecutionMode)
    (preApproved : List String) (a : ExecutionAction) (s : RunState) (r : ExecutionResult)
    (s' : RunState) : Prop :=
  s' = s.handed turn mode ([a].filter (cfg.passes s.policy preApproved)) ∧
    cfg.Answered a runner preApproved s r

theorem alone_runAction {a : ExecutionAction}
    (hpass : o.settings.passes s.policy preApproved a = true) :
    Alone o runner (DispatchedOne o.settings runner turn mode preApproved a s)
      (runAction turn mode a) s := by
  refine wp_bind.mpr fun reply s' hc => ⟨trivial, ?_⟩
  obtain ⟨rfl, x, rfl, hx⟩ := hc
  refine ⟨?_, ?_⟩
  · rw [filter_cons_of_pos hpass]
    rfl
  · rw [Settings.Answered, if_pos hpass]
    exact hx

theorem alone_dispatchOne (a : ExecutionAction) (s : RunState) :
    Alone o runner (DispatchedOne o.settings runner turn mode preApproved a s)
      (dispatchOne turn mode preApproved a) s := by
  by_cases hpre : preApproved.contains a.actionId = true
  · rw [dispatchOne, if_pos hpre]
    refine alone_runAction ?_
    rw [Settings.passes, hpre, Bool.true_or]
  rw [dispatchOne, if_neg hpre]
  rw [Bool.not_eq_true] at hpre
  refine wp_bind.mpr fun reply s₁ hc => ⟨trivial, ?_⟩
  obtain ⟨⟨rfl, rfl⟩, -⟩ := hc
  refine wp_bind.mpr (alone_orRaise fun d hd => ?_)
  have hpasses : o.settings.passes s₁.policy preApproved a = d.allowed := by
    rw [Settings.passes, hpre, Bool.false_or, Bool.eq_iff_iff, decide_eq_true_iff,
      Settings.Allowed, hd]
    simp
  split
  · rename_i hallowed
    exact alone_runAction (hpasses.trans hallowed)
  rename_i hallowed
  have hno := hpasses.trans (Bool.not_eq_true _ ▸ hallowed)
  refine ⟨?_, ?_⟩
  · rw [filter_cons_of_neg (by simp [hno])]
    rfl
  · rw [Settings.Answered, if_neg (by simp [hno])]
    exact ⟨d, hd, rfl⟩

theorem status_cons (r : ExecutionResult) (out : TaskExecutionOutcome)
    (h : out.status = .failed ↔ ∃ r ∈ out.results, r.status = .failed) :
    (out.cons r).status = .failed ↔ ∃ r' ∈ (out.cons r).results, r'.status = .failed := by
  simp only [TaskExecutionOutcome.cons, mem_cons, exists_eq_or_imp, ← h]
  split
  · rename_i hr
    simp [hr]
  · rename_i hr
    simp [hr]

theorem alone_dispatch : ∀ (actions : List ExecutionAction) (s : RunState),
    Alone o runner (Dispatched o.settings runner turn mode preApproved actions s)
      (dispatch turn mode preApproved actions) s
  | [], s => ⟨rfl, rfl, fun before a after h => by simp at h, by simp⟩
  | a :: rest, s => by
    refine wp_bind.mpr (wp_post (alone_dispatchOne a s) ?_)
    rintro r s₁ ⟨rfl, hanswer⟩
    refine wp_bind.mpr (wp_post (alone_dispatch rest _) ?_)
    rintro out s₂ ⟨rfl, hlength, hresults, hstatus⟩
    refine ⟨?_, congrArg (· + 1) hlength, fun before b after h => ?_, status_cons r out hstatus⟩
    · rw [policy_handed, ← handed_append, ← filter_append]
      rfl
    cases before with
    | nil =>
      obtain ⟨rfl, -⟩ := cons.inj h
      exact ⟨r, rfl, hanswer⟩
    | cons a' before =>
      obtain ⟨rfl, hrest⟩ := cons.inj h
      obtain ⟨r', hr', hanswer'⟩ := hresults before b after hrest
      rw [policy_handed, ← handed_append, ← filter_append] at hanswer'
      exact ⟨r', hr', hanswer'⟩

theorem returns_dispatch (hret : runner.Returns) :
    ∀ (actions : List ExecutionAction) (s : RunState),
      (o.settings.HasPolicy s.policy ∨ ∀ a ∈ actions, preApproved.contains a.actionId = true) →
      ∃ out s', Exec (Under o runner) (dispatch turn mode preApproved actions) s out s'
  | [], s, _ => ⟨_, s, .ret⟩
  | a :: rest, s, hp => by
    -- the first action, which leaves the policy alone
    obtain ⟨r, s₁, hfirst, hpolicy⟩ : ∃ r s₁, Exec (Under o runner)
        (dispatchOne turn mode preApproved a) s r s₁ ∧ s₁.policy = s.policy := by
      obtain ⟨r, hrun⟩ : ∃ r, Exec (Under o runner) (runAction turn mode a) s r
          (s.handed turn mode [a]) := by
        obtain ⟨r, hr⟩ := hret s a
        exact ⟨r, .op (r := some r) ⟨rfl, r, rfl, hr⟩ .ret⟩
      unfold dispatchOne
      split
      · exact ⟨_, _, hrun, rfl⟩
      rename_i hpre
      have hpolicy := hp.resolve_right fun h => hpre (h a mem_cons_self)
      obtain ⟨d, hdecide⟩ : ∃ d, o.settings.decide s.policy a = some d :=
        ⟨_, decide_eq_verdict hpolicy⟩
      by_cases hd : d.allowed = true
      · refine ⟨r, s.handed turn mode [a],
          .op (r := o.settings.decide s.policy a) ⟨⟨rfl, rfl⟩, trivial⟩ ?_, rfl⟩
        rw [hdecide]
        simp only [orRaise, Prog.bind, ret_bind, hd, if_true]
        exact hrun
      · refine ⟨deniedResult a s!"policy denied: {d.reason}" .policyDenied, s,
          .op (r := o.settings.decide s.policy a) ⟨⟨rfl, rfl⟩, trivial⟩ ?_, rfl⟩
        rw [hdecide]
        simp only [orRaise, Prog.bind, ret_bind, hd]
        exact .ret
    obtain ⟨out, s₂, hrest⟩ := returns_dispatch hret rest s₁
      (hpolicy ▸ hp.imp_right fun h b hb => h b (mem_cons_of_mem a hb))
    exact ⟨_, s₂, hfirst.bind (hrest.bind .ret)⟩

section Raises

variable {a : ExecutionAction} {after : List ExecutionAction}
  (hpre : preApproved.contains a.actionId = false)
include hpre

theorem alone_raises : ∀ (before : List ExecutionAction) (s : RunState),
    ¬ o.settings.HasPolicy s.policy → (∀ b ∈ before, preApproved.contains b.actionId = true) →
    wp (Under o runner) (fun s' => ∃ done, done <+: before ∧ s' = s.handed turn mode done)
      (fun _ _ => False) (dispatch turn mode preApproved (before ++ a :: after)) s
  | [], s, hp, _ => by
    rw [nil_append, dispatch, dispatchOne, hpre]
    rintro r s' ⟨⟨rfl, rfl⟩, -⟩
    rw [decide_eq_none hp a]
    exact ⟨⟨[], prefix_rfl, rfl⟩, fun r => r.elim⟩
  | b :: before, s, hp, hall => by
    obtain ⟨hb, hbefore⟩ := forall_mem_cons.mp hall
    rw [cons_append, dispatch, dispatchOne, hb]
    rintro r s' ⟨rfl, x, rfl, -⟩
    refine ⟨⟨[b], by simp, rfl⟩, ?_⟩
    change wp _ _ _ (dispatch turn mode preApproved (before ++ a :: after) >>= fun out =>
      .ret (out.cons x)) (s.handed turn mode [b])
    refine wp_bind.mpr (wp_mono ?_ (fun _ _ h => h.elim)
      (alone_raises before (s.handed turn mode [b]) hp hbefore))
    rintro s' ⟨done, hdone, rfl⟩
    exact ⟨b :: done, by simpa using hdone, (handed_append [b] done).symm⟩

theorem steps_raise (hret : runner.Returns) : ∀ (before : List ExecutionAction) (s : RunState),
    ¬ o.settings.HasPolicy s.policy → (∀ b ∈ before, preApproved.contains b.actionId = true) →
    ∃ k, Steps (Under o runner) (dispatch turn mode preApproved (before ++ a :: after)) s
      (.op .raise k) (s.handed turn mode before)
  | [], s, hp, _ => by
    have hasked : Under o runner (.evaluate turn a) s none s :=
      ⟨⟨(decide_eq_none hp a).symm, rfl⟩, trivial⟩
    rw [nil_append, dispatch, dispatchOne, hpre]
    exact ⟨_, .op hasked .refl⟩
  | b :: before, s, hp, hall => by
    obtain ⟨hb, hbefore⟩ := forall_mem_cons.mp hall
    obtain ⟨x, hx⟩ := hret s b
    obtain ⟨k, hk⟩ := steps_raise hret before (s.handed turn mode [b]) hp hbefore
    rw [← handed_append] at hk
    rw [cons_append, dispatch, dispatchOne, hb]
    exact ⟨_, .op (r := some x) ⟨rfl, x, rfl, hx⟩ (hk.bind _)⟩

end Raises

end Dispatch

/-- For every rules, permissions, actions and glob predicate: where there is a policy, the gate is
the tiered one; where there is none, it decides nothing.  A dispatch goes by it, with the answers of
its runner; over a runner that returns it returns, unless it has to ask a policy that is not there,
and then it raises. -/
theorem gate_tiered (o : Orchestrator) (p : Policy) :
    (o.settings.HasPolicy p →
      (∀ a, ∃ d, o.settings.decide p a = some d ∧
        (d.allowed = true ↔ o.settings.Matches p a ∧ o.settings.TierAllows p a) ∧
        (d.matched = true ↔ o.settings.Matches p a)) ∧
      (∀ (p' : Policy) a, p'.rules.Perm p.rules → p'.dynamic.Perm p.dynamic →
        o.settings.decide p' a = o.settings.decide p a) ∧
      (∀ (p' : Policy) rule a, p.rules ≠ [] → rule.effect = .deny →
        p'.rules.Perm (rule :: p.rules) → p'.dynamic = p.dynamic →
        ¬ o.settings.Allowed p a → ¬ o.settings.Allowed p' a) ∧
      ∀ (p' : Policy) rule a, rule.effect = .allow → p'.rules = p.rules →
        p'.dynamic.Perm (rule :: p.dynamic) → o.settings.Allowed p a → o.settings.Allowed p' a) ∧
    (¬ o.settings.HasPolicy p → ∀ a, o.settings.decide p a = none) ∧
    ∀ (runner : Runner) turn mode preApproved actions s, s.policy = p →
      (∀ outcome s', Exec (Under o runner) (dispatch turn mode preApproved actions) s outcome s' →
        Dispatched o.settings runner turn mode preApproved actions s outcome s') ∧
      (runner.Returns →
        (o.settings.HasPolicy p ∨ ∀ a ∈ actions, preApproved.contains a.actionId = true) →
        ∃ outcome s', Exec (Under o runner) (dispatch turn mode preApproved actions) s outcome s') ∧
      (runner.Returns → ¬ o.settings.HasPolicy p →
        ∀ before a after, actions = before ++ a :: after →
          (∀ b ∈ before, preApproved.contains b.actionId = true) →
          preApproved.contains a.actionId = false →
          RaisesAfter o runner turn mode before (dispatch turn mode preApproved actions) s) := by
  refine ⟨fun hp => ⟨fun a => ⟨_, decide_eq_verdict hp, ?_, ?_⟩, fun p' a hrules hdynamic =>
    decide_perm hp hrules hdynamic, ?_, ?_⟩, decide_eq_none, ?_⟩
  · rw [verdict_allowed, firstTier_tiers_ne_nil]
    rfl
  · rw [verdict_matched, firstTier_tiers_ne_nil]
  · intro p' rule a hr hdeny hrules hdynamic hno hallowed
    have hsame : o.settings.decide p' a = o.settings.decide { p with rules := rule :: p.rules } a :=
      decide_perm (.inl (cons_ne_nil _ _)) hrules (by rw [hdynamic])
    rw [Settings.Allowed, hsame] at hallowed
    exact hno (allowed_of_allowed_with_deny hr hdeny hallowed)
  · intro p' rule a hallow hrules hdynamic hallowed
    have hsame : o.settings.decide p' a =
        o.settings.decide { p with dynamic := rule :: p.dynamic } a :=
      decide_perm hp (by rw [hrules]) hdynamic
    rw [Settings.Allowed, hsame]
    exact allowed_with_allow hp hallow hallowed
  · rintro runner turn mode preApproved actions s rfl
    refine ⟨fun outcome s' h => h.of_wp (alone_dispatch actions s),
      fun hret hp => returns_dispatch hret actions s hp, ?_⟩
    rintro hret hp before a after rfl hbefore hpre
    have hw : wp (Under o runner) _ _ (dispatch turn mode preApproved (before ++ a :: after)) s :=
      alone_raises hpre before s hp hbefore
    exact ⟨fun outcome s' h => h.of_wp hw, fun p' s' h => (h.of_wp ⟨[], nil_prefix, rfl⟩ hw).1,
      steps_raise hpre hret before s hp hbefore⟩

/-- A development set-up in which patterns are taken literally. -/
def devSetup : Orchestrator :=
  { settings := { decisionTimeout := 0, fnmatch := (· == ·) }, py := ⟨id, id⟩, runId := "r1" }

def listFiles : ExecutionAction :=
  { actionId := "a1", type := .runCommand, taskId := "t1", stepKey := "s1", command := some ["ls"] }

def carvedOut : Policy := ⟨[⟨.shell, .deny, none⟩], [⟨.shell, .allow, some "ls"⟩]⟩

theorem gate_tiered_carved_out :
    (∃ d, devSetup.settings.decide carvedOut listFiles = some d ∧ d.allowed = true) ∧
      ∀ p' : Policy, p'.rules.Perm carvedOut.rules → p'.dynamic.Perm carvedOut.dynamic →
        devSetup.settings.decide p' listFiles = devSetup.settings.decide carvedOut listFiles := by
  have h := (gate_tiered devSetup carvedOut).1 (.inl (by decide))
  obtain ⟨d, hd, hallowed, -⟩ := h.1 listFiles
  refine ⟨⟨d, hd, hallowed.mpr ⟨⟨⟨.shell, .allow, some "ls"⟩, by decide, by decide⟩, ?_⟩⟩, fun p' => h.2.1 p' listFiles⟩
  unfold Settings.TierAllows
  decide

/-- In production, without a stored rule, a dynamic permission that matches decides nothing: the
gate raises. -/
theorem no_policy_in_production : ({ devSetup.settings with production := true } : Settings).decide
        ⟨[], [⟨.shell, .allow, none⟩]⟩ listFiles = none ∧
      firstTier (({ devSetup.settings with production := true } : Settings).tiers
        ⟨[], [⟨.shell, .allow, none⟩]⟩ listFiles) = [⟨.shell, .allow, none⟩] := by
  decide

end AutoDev.Execution
