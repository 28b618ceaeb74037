/-
# `AutoDev.Execution.ResolvedOnce` — a human decision is resolved once

Any number of calls of the decision service, interleaved statement by
statement.  The table only moves ONWARD (`Onward`): a row that has left PENDING
never changes again, so what a call has learned of it stays true.

Three things the service takes for granted (`Orderly`): it is not told to
resolve a decision to PENDING; the live secret values do not occur in the status
of an event; and within one call the clock does not go back.  If it does, a
decision that is due may still be approved (`due_decision_approved`).
-/
import AutoDev.Execution.DecisionService

namespace AutoDev.Decisions

open Prog Interleave Flows Events List AList
open Execution (DecisionStatus PolicyCategory)

/-! ## Resolutions and their events -/

section Resolutions

variable {T : Type} [LinearOrder T]

abbrev DecisionEvent (T : Type) := Event (DecisionCmd T) DecisionReply

def resolves? : DecisionEvent T → Option (String × DecisionStatus)
  | ⟨.update decisionId status _ _, true⟩ => some (decisionId, status)
  | _ => none

def reading? : DecisionEvent T → Option T
  | ⟨.now, t⟩ => some t
  | _ => none

def publishes? : DecisionEvent T → Option EmittedEvent
  | ⟨.emit event, values⟩ => some (event.scrubbed values)
  | _ => none

/-- What a resolution says: whose it is, of which run and task, and the status. -/
structure Resolution where
  tenantId : String
  runId : String
  taskId : String
  decision : String
  deriving DecidableEq

def EmittedEvent.decision? (event : EmittedEvent) : Option String :=
  match Dict.get? event.data "decision" with
  | some (.str text) => some text
  | _ => none

/-- What is read off a published `run.human.resolved`. -/
def EmittedEvent.resolution? (event : EmittedEvent) : Option Resolution :=
  if event.type = "run.human.resolved" then
    (event.subject.lookup "taskId").bind fun taskId =>
      event.decision?.map fun decision => ⟨event.tenantId, event.partitionKey, taskId, decision⟩
  else none

/-- What is read off the row of a decision. -/
def StoredDecision.resolution (d : StoredDecision T) : Resolution :=
  ⟨d.tenantId, d.runId, d.taskId, d.status.value⟩

def leftPending (s s' : DecisionStore T) : List (StoredDecision T) :=
  s'.all.filter fun d => d.status ≠ .pending ∧ ¬ Settled d.decisionId s

variable {ι : Type} [DecidableEq ι]

def AtRest (P : DecisionPool T ι) : Prop := ∀ i, P.events i = [] ∨ (P.result? i).isSome

def Competes (calls : ι → DecisionCall T) (P : DecisionPool T ι) (decisionId : String) (i : ι) :
    Prop :=
  ∃ tenantId decision actor found rest, calls i = .resolve decisionId tenantId decision actor ∧
    P.events i = ⟨.getDecision decisionId, some found⟩ :: rest ∧ found.tenantId = tenantId

def Returned (P : DecisionPool T ι) (i : ι) : Prop :=
  ∃ d, P.result? i = some (.resolved (.ok d))

structure ResolvedOnce (calls : ι → DecisionCall T) (s : DecisionStore T) (P : DecisionPool T ι) :
    Prop where
  /-- One event for each decision that left PENDING, with the stored status. -/
  announced : AtRest P → ∃ events, P.state.published = s.published ++ events ∧
    (events.filterMap EmittedEvent.resolution?).Perm
      ((leftPending s P.state).map StoredDecision.resolution)
  /-- Of competing calls at most one returns. -/
  one : ∀ decisionId i j, Competes calls P decisionId i → Competes calls P decisionId j →
    Returned P i → Returned P j → i = j
  /-- The others raise. -/
  others : ∀ decisionId i outcome, Competes calls P decisionId i → P.result? i = some outcome →
    Returned P i ∨ outcome = .resolved (.error (.alreadyResolved decisionId))
  /-- A decision that was due when a call first read the clock is not approved or denied by it. -/
  inTime : ∀ i t decisionId status, ((P.events i).filterMap reading?).head? = some t →
    (decisionId, status) ∈ (P.events i).filterMap resolves? →
    status = .approved ∨ status = .denied →
    ∀ row ∈ P.state.rows.lookup decisionId, t < row.expiresAt

def Fixed (s s' : DecisionStore T) : Prop :=
  ∀ decisionId, ∀ row ∈ s.rows.lookup decisionId, row.status ≠ .pending →
    s'.rows.lookup decisionId = some row

/-- No update to PENDING, no status that is scrubbed, no clock that goes back within a call. -/
def Orderly (es : List (DecisionEvent T)) : DecisionEvent T → Prop
  | ⟨.update _ status _ _, _⟩ => status ≠ .pending
  | ⟨.emit event, values⟩ => ∀ text ∈ event.decision?, scrub values text = text
  | ⟨.now, t⟩ => ∀ t' ∈ es.filterMap reading?, t' ≤ t
  | _ => True

instance (es : List (DecisionEvent T)) : DecidablePred (Orderly es)
  | ⟨.update _ status _ _, _⟩ => inferInstanceAs (Decidable (status ≠ .pending))
  | ⟨.emit event, values⟩ =>
    inferInstanceAs (Decidable (∀ text ∈ event.decision?, scrub values text = text))
  | ⟨.now, t⟩ => decidableBAll (fun t' => t' ≤ (show T from t)) _
  | ⟨.getDecision _, _⟩ | ⟨.getForTask _ _, _⟩ | ⟨.listPending _, _⟩ | ⟨.listDue _, _⟩
  | ⟨.insert _ _, _⟩ | ⟨.storeNow, _⟩ | ⟨.uuid4, _⟩ => .isTrue trivial

end Resolutions

/-! ## The table moves onward -/

section Store

variable {T : Type} {s s' : DecisionStore T} {decisionId : String} {d : StoredDecision T}

theorem mem_all : d ∈ s.all ↔ s.rows.lookup d.decisionId = some d.toDecisionColumns := by
  simp only [DecisionStore.all, mem_map]
  constructor
  · rintro ⟨e, he, rfl⟩
    exact mem_lookup_iff.mpr he
  · intro h
    exact ⟨⟨d.decisionId, d.toDecisionColumns⟩, mem_lookup_iff.mp h, rfl⟩

theorem find_eq_some : s.find decisionId = some d ↔
    d.decisionId = decisionId ∧ s.rows.lookup decisionId = some d.toDecisionColumns := by
  simp only [DecisionStore.find, Option.map_eq_some_iff]
  constructor
  · rintro ⟨row, hrow, rfl⟩
    exact ⟨rfl, hrow⟩
  · rintro ⟨rfl, hrow⟩
    exact ⟨_, hrow, rfl⟩

structure RowOnward (row row' : DecisionColumns T) : Prop where
  asked : row'.toAskedDecision = row.toAskedDecision
  fixed : row.status ≠ .pending → row' = row

/-- Rows stay, under their key. -/
def Onward (s s' : DecisionStore T) : Prop :=
  ∀ decisionId, ∀ row ∈ s.rows.lookup decisionId,
    ∃ row' ∈ s'.rows.lookup decisionId, RowOnward row row'

theorem Onward.refl (s : DecisionStore T) : Onward s s :=
  fun _ row hrow => ⟨row, hrow, rfl, fun _ => rfl⟩

theorem Onward.trans (s₁ s₂ s₃ : DecisionStore T) (h : Onward s₁ s₂) (h' : Onward s₂ s₃) :
    Onward s₁ s₃ := by
  intro decisionId row hrow
  obtain ⟨row', hrow', hon⟩ := h decisionId row hrow
  obtain ⟨row'', hrow'', hon'⟩ := h' decisionId row' hrow'
  refine ⟨row'', hrow'', hon'.asked.trans hon.asked, fun hne => ?_⟩
  obtain rfl := hon.fixed hne
  exact hon'.fixed hne

theorem Onward.insert {row : DecisionColumns T} {events : List EmittedEvent}
    (h : ∀ old ∈ s.rows.lookup decisionId, RowOnward old row) :
    Onward s ⟨s.rows.insert decisionId row, events⟩ := by
  intro other old hold
  by_cases ho : other = decisionId
  · subst ho
    exact ⟨row, lookup_insert _, h old hold⟩
  · exact ⟨old, (lookup_insert_ne ho).trans hold, rfl, fun _ => rfl⟩

theorem Onward.settled (h : Onward s s') (hs : Settled decisionId s) : Settled decisionId s' := by
  obtain ⟨row, hrow, hne⟩ := hs
  obtain ⟨row', hrow', hon⟩ := h decisionId row hrow
  obtain rfl := hon.fixed hne
  exact ⟨row', hrow', hne⟩

variable [LinearOrder T]

theorem onward_effect (c : DecisionCmd T) (s : DecisionStore T) (r : DecisionReply c)
    (s' : DecisionStore T) (h : DecisionEffect c s r s') : Onward s s' := by
  cases c with
  | update decisionId status decidedBy decidedAt =>
    rcases h with ⟨row, hrow, hp, -, rfl⟩ | ⟨-, -, rfl⟩
    · refine Onward.insert fun old hold => ?_
      obtain rfl := Option.some.inj (hold.symm.trans hrow)
      exact ⟨rfl, fun hne => absurd hp hne⟩
    · exact .refl _
  | insert decisionId asked =>
    rcases h with ⟨hnone, -, rfl⟩ | ⟨-, -, rfl⟩
    · refine Onward.insert fun old hold => ?_
      rw [hnone] at hold
      cases hold
    · exact .refl _
  | emit event =>
    rw [show s' = _ from h]
    exact Onward.refl s
  | getDecision _ | getForTask _ _ | listPending _ | listDue _ =>
    rw [h.2]
    exact .refl s
  | now | storeNow | uuid4 =>
    rw [show s' = s from h]
    exact .refl s

/-- The event makes the decision leave PENDING. -/
def Settles (decisionId : String) (e : DecisionEvent T) : Prop :=
  ∃ status, resolves? e = some (decisionId, status) ∧ status ≠ .pending

variable {c : DecisionCmd T} {r : DecisionReply c}

theorem resolves_effect {status : DecisionStatus} (h : DecisionEffect c s r s')
    (hr : resolves? ⟨c, r⟩ = some (decisionId, status)) :
    ∃ row ∈ s.rows.lookup decisionId, row.status = .pending ∧
      ∃ row' ∈ s'.rows.lookup decisionId, RowOnward row row' ∧ row'.status = status := by
  cases c with
  | update id status' decidedBy decidedAt =>
    rcases h with ⟨row, hrow, hp, rfl, rfl⟩ | ⟨-, rfl, -⟩
    · cases hr
      exact ⟨row, hrow, hp, _, lookup_insert _, ⟨rfl, fun hne => absurd hp hne⟩, rfl⟩
    · cases hr
  | _ => cases hr

theorem decisions_latch : Latch DecisionEffect Settles (Settled (T := T)) where
  before := by
    rintro decisionId c s r s' h ⟨status, hr, -⟩ ⟨row, hrow, hne⟩
    obtain ⟨row', hrow', hp, -⟩ := resolves_effect h hr
    obtain rfl := Option.some.inj (hrow.symm.trans hrow')
    exact hne hp
  after := by
    rintro decisionId c s r s' h ⟨status, hr, hne⟩
    obtain ⟨-, -, -, row', hrow', -, rfl⟩ := resolves_effect h hr
    exact ⟨row', hrow', hne⟩
  stays h hs := (onward_effect _ _ _ _ h).settled hs

theorem settles_of_settled (h : DecisionEffect c s r s') (hs : Settled decisionId s') :
    Settled decisionId s ∨ Settles decisionId ⟨c, r⟩ := by
  obtain ⟨row, hrow, hne⟩ := hs
  cases c with
  | update id status decidedBy decidedAt =>
    rcases h with ⟨old, hold, hp, rfl, rfl⟩ | ⟨-, -, rfl⟩
    · by_cases hid : decisionId = id
      · subst hid
        rw [lookup_insert, Option.mem_some_iff] at hrow
        subst hrow
        exact .inr ⟨status, rfl, hne⟩
      · exact .inl ⟨row, (lookup_insert_ne hid).symm.trans hrow, hne⟩
    · exact .inl ⟨row, hrow, hne⟩
  | insert id asked =>
    rcases h with ⟨-, -, rfl⟩ | ⟨-, -, rfl⟩
    · by_cases hid : decisionId = id
      · subst hid
        rw [lookup_insert, Option.mem_some_iff] at hrow
        subst hrow
        exact absurd rfl hne
      · exact .inl ⟨row, (lookup_insert_ne hid).symm.trans hrow, hne⟩
    · exact .inl ⟨row, hrow, hne⟩
  | emit event =>
    rw [show s' = _ from h] at hrow
    exact .inl ⟨row, hrow, hne⟩
  | getDecision _ | getForTask _ _ | listPending _ | listDue _ =>
    rw [h.2] at hrow
    exact .inl ⟨row, hrow, hne⟩
  | now | storeNow | uuid4 =>
    rw [show s' = s from h] at hrow
    exact .inl ⟨row, hrow, hne⟩

end Store

/-! ## The books of a call

A call OWES an event for each decision it resolved.  `Balanced` says that it has paid for all of
them, and with what stands in the table, now and later. -/

section Books

variable {T : Type} {s s' : DecisionStore T} {es : List (DecisionEvent T)}
  {e : DecisionEvent T} {decisionId : String} {status : DecisionStatus} {d : StoredDecision T}

def Known (d : StoredDecision T) (s : DecisionStore T) : Prop :=
  ∃ row ∈ s.rows.lookup d.decisionId, row.toAskedDecision = d.toAskedDecision

theorem Onward.known (h : Onward s s') (hk : Known d s) : Known d s' := by
  obtain ⟨row, hrow, ha⟩ := hk
  obtain ⟨row', hrow', hon⟩ := h _ row hrow
  exact ⟨row', hrow', hon.asked.trans ha⟩

theorem known_of_mem_all (h : d ∈ s.all) : Known d s := ⟨_, mem_all.mp h, rfl⟩

def announces? (e : DecisionEvent T) : Option Resolution :=
  (publishes? e).bind EmittedEvent.resolution?

def resolutionIn (s : DecisionStore T) (x : String × DecisionStatus) : Option Resolution :=
  (s.rows.lookup x.1).map fun row => ⟨row.tenantId, row.runId, row.taskId, x.2.value⟩

def owes? (s : DecisionStore T) (e : DecisionEvent T) : Option Resolution :=
  (resolves? e).bind (resolutionIn s)

/-- Everything that is owed has been announced, in order. -/
def Balanced (es : List (DecisionEvent T)) : DecisionStore T → Prop :=
  Henceforth Onward fun s => es.filterMap announces? = es.filterMap (owes? s)

structure Silent (e : DecisionEvent T) : Prop where
  resolves : resolves? e = none
  announces : announces? e = none

theorem Balanced.later (h : Balanced es s) (hs : Onward s s') : Balanced es s' :=
  Henceforth.later h Onward.trans hs

theorem Balanced.silent (h : Balanced es s) (he : Silent e) : Balanced (es ++ [e]) s := by
  intro s' hs
  have hb := h s' hs
  simp only [filterMap_append, hb, filterMap_cons, he.announces, owes?, he.resolves,
    Option.bind_none, filterMap_nil]

theorem Balanced.settle {e' : DecisionEvent T} (h : Balanced es s) (hk : Known d s)
    (he : resolves? e = some (d.decisionId, status)) (he' : announces? e = none)
    (hp : announces? e' = some ⟨d.tenantId, d.runId, d.taskId, status.value⟩)
    (hp' : resolves? e' = none) : Balanced (es ++ [e] ++ [e']) s := by
  intro s' hs
  obtain ⟨row, hrow, hask⟩ := hs.known hk
  have hb := h s' hs
  have howed : owes? s' e = some ⟨d.tenantId, d.runId, d.taskId, status.value⟩ := by
    simp only [owes?, he, Option.bind_some, resolutionIn, Option.mem_def.mp hrow, Option.map_some,
      hask]
  have howed' : owes? s' e' = none := by simp only [owes?, hp', Option.bind_none]
  simp only [filterMap_append, hb, filterMap_cons, he', hp, howed, howed',
    filterMap_nil, append_nil]

/-- Only time-outs were recorded so far. -/
def Ungranted (es : List (DecisionEvent T)) : Prop :=
  ∀ x ∈ es.filterMap resolves?, x.2 = .timedOut

theorem Ungranted.append (h : Ungranted es) (he : ∀ x, resolves? e = some x → x.2 = .timedOut) :
    Ungranted (es ++ [e]) := by
  intro x hx
  rw [filterMap_append, mem_append] at hx
  rcases hx with hx | hx
  · exact h x hx
  · obtain ⟨e', he', hx⟩ := mem_filterMap.mp hx
    rw [mem_singleton.mp he'] at hx
    exact he x hx

/-- Balanced, and nothing granted. -/
structure Quiet (es : List (DecisionEvent T)) (s : DecisionStore T) : Prop where
  balanced : Balanced es s
  ungranted : Ungranted es

theorem Quiet.later (h : Quiet es s) (hs : Onward s s') : Quiet es s' :=
  ⟨h.balanced.later hs, h.ungranted⟩

theorem Quiet.silent (h : Quiet es s) (he : Silent e) : Quiet (es ++ [e]) s :=
  ⟨h.balanced.silent he, h.ungranted.append fun x hx => by simp [he.resolves] at hx⟩

theorem quiet_nil (s : DecisionStore T) : Quiet [] s :=
  ⟨fun _ _ => rfl, fun _ hx => by simp at hx⟩

variable [LinearOrder T]

def InTime (es : List (DecisionEvent T)) (s : DecisionStore T) : Prop :=
  ∀ t decisionId status, (es.filterMap reading?).head? = some t →
    (decisionId, status) ∈ es.filterMap resolves? → status = .approved ∨ status = .denied →
    ∀ row ∈ s.rows.lookup decisionId, t < row.expiresAt

theorem Ungranted.inTime (h : Ungranted es) (s : DecisionStore T) : InTime es s := by
  intro t decisionId status _ hmem hst
  rw [show status = .timedOut from h _ hmem] at hst
  rcases hst with hst | hst <;> cases hst

theorem InTime.append (h : InTime es s) (hr : resolves? e = none) (ht : reading? e = none) :
    InTime (es ++ [e]) s := by
  unfold InTime at h ⊢
  simpa only [filterMap_append, filterMap_cons, hr, ht, filterMap_nil,
    append_nil] using h

end Books

/-! ## Each function of the service, whatever others do -/

section Specs

variable {T α : Type} [LinearOrder T]

/-- What is proved of a program that has come to `es` and stands at `s`. -/
abbrev Spec (Q : List (DecisionEvent T) → α → DecisionStore T → Prop)
    (es : List (DecisionEvent T)) (p : DecisionProg T α) (s : DecisionStore T) : Prop :=
  rely DecisionEffect Onward Orderly InTime Q es p s

variable {s : DecisionStore T} {es : List (DecisionEvent T)} {decisionId : String}
  {status : DecisionStatus} {d : StoredDecision T}
  {Q : List (DecisionEvent T) → α → DecisionStore T → Prop}

theorem spec_silent (c : DecisionCmd T) {f : DecisionReply c → DecisionProg T α}
    (hc : (fun r => (resolves? ⟨c, r⟩, announces? ⟨c, r⟩)) = fun _ => (none, none))
    (hq : Quiet es s)
    (h : ∀ s₁ r s₂, Onward s s₁ → DecisionEffect c s₁ r s₂ → Orderly es ⟨c, r⟩ → Onward s s₂ →
      Quiet (es ++ [⟨c, r⟩]) s₂ → Spec Q (es ++ [⟨c, r⟩]) (f r) s₂) :
    Spec Q es (issue c >>= f) s := by
  refine rely_send_bind c fun s₁ hs₁ r s₂ hsem hG => ?_
  have hs₂ : Onward s s₂ := Onward.trans _ _ _ hs₁ (onward_effect _ _ _ _ hsem)
  obtain ⟨hr, ha⟩ := Prod.mk.inj (congrFun hc r)
  have hq' : Quiet (es ++ [⟨c, r⟩]) s₂ := (hq.later hs₂).silent ⟨hr, ha⟩
  exact ⟨fun s₃ _ => hq'.ungranted.inTime s₃, h s₁ r s₂ hs₁ hsem hG hs₂ hq'⟩

theorem spec_bind {β : Type} {p : DecisionProg T β} {f : β → DecisionProg T α}
    {Q₁ : List (DecisionEvent T) → β → DecisionStore T → Prop} (hp : Spec Q₁ es p s)
    (hf : ∀ es' b s', Onward s s' → Q₁ es' b s' → Spec Q es' (f b) s') :
    Spec Q es (p >>= f) s := by
  refine rely_bind Onward.refl (rely_post ?_ (rely_from Onward.trans onward_effect (.refl s) hp))
  exact fun es' b s' h => hf es' b s' h.1 h.2

/-- How an attempt to resolve a decision may end. -/
inductive Attempted (decisionId : String) (status : DecisionStatus) :
    List (DecisionEvent T) → Bool → DecisionStore T → Prop
  | lost {es' : List (DecisionEvent T)} {s : DecisionStore T} :
      Quiet es' s → Settled decisionId s → Attempted decisionId status es' false s
  | won {es' : List (DecisionEvent T)} {e : DecisionEvent T} {s : DecisionStore T} :
      Quiet es' s → Settled decisionId s → Henceforth Onward (InTime (es' ++ [e])) s →
      resolves? e = some (decisionId, status) → announces? e = none → status ≠ .pending →
      Attempted decisionId status (es' ++ [e]) true s

variable {s' : DecisionStore T}

theorem Attempted.later {es' : List (DecisionEvent T)} {ok : Bool}
    (h : Attempted decisionId status es' ok s) (hs : Onward s s') :
    Attempted decisionId status es' ok s' := by
  cases h with
  | lost hq hset => exact .lost (hq.later hs) (hs.settled hset)
  | won hq hset ht he ha hne =>
    exact .won (hq.later hs) (hs.settled hset) (ht.later Onward.trans hs) he ha hne

/-- The decision may be given this status by a call that has come to `es`. -/
def MayGrant (es : List (DecisionEvent T)) (decisionId : String) (status : DecisionStatus)
    (s : DecisionStore T) : Prop :=
  status = .timedOut ∨ ∀ t, (es.filterMap reading?).head? = some t →
    Henceforth Onward (fun s' => ∀ row ∈ s'.rows.lookup decisionId, t < row.expiresAt) s

variable {e : DecisionEvent T}

theorem MayGrant.inTime (hu : Ungranted es) (h : MayGrant es decisionId status s)
    (he : resolves? e = some (decisionId, status)) (ht : reading? e = none) :
    Henceforth Onward (InTime (es ++ [e])) s := by
  intro s' hs t id st hread hmem hst row hrow
  simp only [filterMap_append, filterMap_cons, ht, filterMap_nil, append_nil] at hread
  rw [filterMap_append, mem_append] at hmem
  rcases hmem with hmem | hmem
  · exact hu.inTime s' t id st hread hmem hst row hrow
  have hlast : some (id, st) = some (decisionId, status) := by
    simpa [he, filterMap_cons] using hmem
  cases hlast
  rcases h with rfl | h
  · rcases hst with hst | hst <;> cases hst
  · exact h t hread s' hs row hrow

theorem spec_resolvePending (decidedBy : String) (hq : Quiet es s) (hk : Known d s)
    (hm : MayGrant es d.decisionId status s) :
    Spec (Attempted d.decisionId status) es
      (resolvePendingDecision d.decisionId status decidedBy) s := by
  refine spec_silent .storeNow rfl hq fun s₁ (decidedAt : T) s₂ _ _ _ hs₂ hq₂ => ?_
  have hm₂ : MayGrant (es ++ [⟨.storeNow, decidedAt⟩]) d.decisionId status s₂ := by
    rcases hm with hm | hm
    · exact .inl hm
    · refine .inr fun t ht => (hm t ?_).later Onward.trans hs₂
      simpa [filterMap_append, reading?] using ht
  refine rely_send _ fun s₃ hs₃ won s₄ hsem hG => ?_
  have hon : Onward s₃ s₄ := onward_effect _ _ _ _ hsem
  have hs₄ : Onward s₂ s₄ := Onward.trans _ _ _ hs₃ hon
  rcases hsem with ⟨row, hrow, hp, rfl, rfl⟩ | ⟨hnot, rfl, rfl⟩
  · have hin := (hm₂.inTime (e := ⟨.update d.decisionId status decidedBy decidedAt, true⟩)
      hq₂.ungranted rfl rfl).later Onward.trans hs₄
    refine ⟨hin, fun s₅ hs₅ => Attempted.later (.won (hq₂.later hs₄) ?_ hin rfl rfl hG) hs₅⟩
    exact ⟨_, lookup_insert _, hG⟩
  have hsilent : Silent (⟨.update d.decisionId status decidedBy decidedAt, false⟩ :
      DecisionEvent T) := ⟨rfl, rfl⟩
  have hq₄ := (hq₂.later hs₄).silent hsilent
  refine ⟨fun s₅ _ => hq₄.ungranted.inTime s₅, fun s₅ hs₅ => Attempted.later (.lost hq₄ ?_) hs₅⟩
  obtain ⟨row, hrow, -⟩ := hs₃.known (hs₂.known hk)
  exact ⟨row, hrow, fun hp => hnot ⟨row, hrow, hp⟩⟩

omit [LinearOrder T] in
theorem announces_resolvedEvent {values : List String} (tenantId : String)
    (h : scrub values status.value = status.value) :
    announces? (⟨.emit (resolvedEvent tenantId d status), values⟩ : DecisionEvent T) =
      some ⟨tenantId, d.runId, d.taskId, status.value⟩ := by
  have hdec : (EmittedEvent.scrubbed values (resolvedEvent tenantId d status)).decision? =
      some (scrub values status.value) := by
    simp [EmittedEvent.decision?, EmittedEvent.scrubbed, resolvedEvent, redactEventData,
      redactStructure, Dict.get?]
  simp only [announces?, publishes?, Option.bind_some, EmittedEvent.resolution?, hdec, h]
  simp [EmittedEvent.scrubbed, resolvedEvent, lookup_cons]

theorem spec_announce
    {f : DecisionReply (.emit (resolvedEvent d.tenantId d status) : DecisionCmd T) →
      DecisionProg T α}
    (hb : Balanced es s) (hk : Known d s) (hin : Henceforth Onward (InTime (es ++ [e])) s)
    (he : resolves? e = some (d.decisionId, status)) (ha : announces? e = none)
    (h : ∀ es' r s', Onward s s' → Balanced es' s' → Henceforth Onward (InTime es') s' →
      es'.filterMap resolves? = (es ++ [e]).filterMap resolves? → Spec Q es' (f r) s') :
    Spec Q (es ++ [e]) (issue (.emit (resolvedEvent d.tenantId d status)) >>= f) s := by
  refine rely_send_bind _ fun s₁ hs₁ values s₂ hsem hG => ?_
  have hs₂ : Onward s s₂ := Onward.trans _ _ _ hs₁ (onward_effect _ _ _ _ hsem)
  have hscrub : scrub values status.value = status.value :=
    hG _ (by simp [EmittedEvent.decision?, resolvedEvent, Dict.get?])
  have hpaid := (hb.later hs₂).settle (hs₂.known hk) he ha
    (announces_resolvedEvent d.tenantId hscrub) rfl
  have hin₂ : Henceforth Onward (InTime (es ++ [e] ++
      [⟨.emit (resolvedEvent d.tenantId d status), values⟩])) s₂ :=
    fun s₃ hs₃ => (hin s₃ (Onward.trans _ _ _ hs₂ hs₃)).append rfl rfl
  refine ⟨hin₂, h _ _ _ hs₂ hpaid hin₂ ?_⟩
  rw [filterMap_append]
  simp [resolves?]

theorem find_of_known {r : Option (StoredDecision T)} (hk : Known d s)
    (h : DecisionEffect (.getDecision d.decisionId) s r s') :
    ∃ d', r = some d' ∧ d'.decisionId = d.decisionId ∧
      d'.toAskedDecision = d.toAskedDecision ∧ d' ∈ s.all := by
  obtain ⟨row, hrow, ha⟩ := hk
  refine ⟨⟨row, d.decisionId⟩, h.1.trans ?_, rfl, ha, mem_all.mpr hrow⟩
  exact find_eq_some.mpr ⟨rfl, hrow⟩

theorem spec_expireEach : ∀ (due : List (StoredDecision T)) {es : List (DecisionEvent T)}
    {s : DecisionStore T}, Quiet es s → (∀ d ∈ due, Known d s) →
    Spec (fun es' _ s' => Quiet es' s' ∧ ∀ d ∈ due, Settled d.decisionId s') es (expireEach due) s
  | [], es, s, hq, _ => fun s' hs => ⟨hq.later hs, by simp⟩
  | d :: due, es, s, hq, hk => by
    have hkd : Known d s := hk d mem_cons_self
    have hrest : ∀ {es' s'}, Quiet es' s' → Onward s s' → Settled d.decisionId s' →
        Spec (fun es' _ s' => Quiet es' s' ∧ ∀ d' ∈ d :: due, Settled d'.decisionId s') es'
          (expireEach due) s' := by
      intro es' s' hq' hs' hset
      have hknown : ∀ d' ∈ due, Known d' s' := fun d' hd' =>
        hs'.known (hk d' (mem_cons_of_mem d hd'))
      refine rely_post ?_ (rely_from Onward.trans onward_effect (.refl s')
        (spec_expireEach due hq' hknown))
      rintro es'' _ s'' ⟨hs'', hq'', hall⟩
      exact ⟨hq'', forall_mem_cons.mpr ⟨hs''.settled hset, hall⟩⟩
    refine spec_bind (spec_resolvePending "system:timeout" hq hkd (.inl rfl)) ?_
    intro es₁ ok s₁ hs₁ hatt
    cases hatt with
    | lost hq₁ hset => exact hrest hq₁ hs₁ hset
    | @won es' e _ hq₁ hset hin he ha hne =>
      refine spec_announce hq₁.balanced (hs₁.known hkd) hin he ha ?_
      intro es₂ _ s₂ hs₂ hb₂ _ hres
      have hq₂ : Quiet es₂ s₂ := by
        refine ⟨hb₂, fun x hx => ?_⟩
        rw [hres] at hx
        refine (hq₁.ungranted.append fun y hy => ?_) x hx
        rw [he] at hy
        cases hy
        rfl
      refine spec_silent (.getDecision d.decisionId) rfl hq₂ ?_
      intro _ refreshed s₃ _ _ _ hs₃ hq₃
      have hs : Onward s s₃ := Onward.trans _ _ _ (Onward.trans _ _ _ hs₁ hs₂) hs₃
      refine spec_bind (hrest hq₃ hs (hs₃.settled (hs₂.settled hset))) ?_
      rintro es₄ expired s₄ _ ⟨hq₄, hall⟩ s₅ hs₅
      exact ⟨hq₄.later hs₅, fun d' hd' => hs₅.settled (hall d' hd')⟩

theorem spec_expireBefore (cutoff : T) (hq : Quiet es s) :
    Spec (fun es' _ s' => Quiet es' s' ∧
        ∀ d, Known d s → d.expiresAt ≤ cutoff → Settled d.decisionId s') es
      (expireBefore cutoff) s := by
  refine spec_silent (.listDue cutoff) rfl hq ?_
  intro s₁ (due : List (StoredDecision T)) s₂ hs₁ hsem _ _ hq₂
  obtain ⟨hperm, rfl⟩ : List.Perm due _ ∧ s₂ = s₁ := hsem
  have hdue : ∀ d, d ∈ due ↔ d ∈ s₂.all ∧ d.status = .pending ∧ d.expiresAt ≤ cutoff := by
    intro d
    rw [hperm.mem_iff, mem_filter, decide_eq_true_eq]
  refine rely_post ?_ (rely_from Onward.trans onward_effect (.refl s₂)
    (spec_expireEach due hq₂ fun d hd => known_of_mem_all ((hdue d).mp hd).1))
  rintro es' _ s' ⟨hs', hq', hall⟩
  refine ⟨hq', fun d hk hle => ?_⟩
  obtain ⟨row, hrow, ha⟩ := hs₁.known hk
  by_cases hp : row.status = .pending
  · refine hall ⟨row, d.decisionId⟩ ((hdue _).mpr ⟨mem_all.mpr hrow, hp, ?_⟩)
    exact (congrArg AskedDecision.expiresAt ha).trans_le hle
  · exact hs'.settled ⟨row, hrow, hp⟩

theorem spec_maybeExpire (hq : Quiet es s) (hk : Known d s) (hr : es.filterMap reading? = []) :
    Spec (fun es' d' s' => Quiet es' s' ∧ d'.decisionId = d.decisionId ∧
        d'.toAskedDecision = d.toAskedDecision ∧ (d'.status = .pending →
          ∀ t, (es'.filterMap reading?).head? = some t → t < d.expiresAt)) es (maybeExpire d) s := by
  unfold maybeExpire
  split
  · next hne => exact fun s' hs => ⟨hq.later hs, rfl, rfl, fun hp => absurd hp hne⟩
  refine spec_silent .now rfl hq ?_
  intro _ (seen : T) s₁ _ _ _ hs₁ hq₁
  have hread : (es ++ [(⟨.now, seen⟩ : DecisionEvent T)]).filterMap reading? = [seen] := by
    rw [filterMap_append, hr]
    rfl
  split
  · next hlt =>
      refine fun s' hs => ⟨hq₁.later hs, rfl, rfl, fun _ t ht => ?_⟩
      rw [hread] at ht
      cases ht
      exact hlt
  next hdue =>
  refine spec_silent .now rfl hq₁ ?_
  intro _ (cutoff : T) s₂ _ _ hG hs₂ hq₂
  have hle : d.expiresAt ≤ cutoff := by
    refine (not_lt.mp hdue).trans (hG seen ?_)
    rw [hread]
    exact mem_singleton_self seen
  have hk₂ : Known d s₂ := hs₂.known (hs₁.known hk)
  refine spec_bind (spec_expireBefore cutoff hq₂) ?_
  intro es₃ _ s₃ hs₃ ⟨hq₃, hset⟩
  refine spec_silent (.getDecision d.decisionId) rfl hq₃ ?_
  intro s₄ refreshed s₅ hs₄ hsem _ _ hq₅
  obtain ⟨d', rfl, hid, hask, hmem⟩ := find_of_known (hs₄.known (hs₃.known hk₂)) hsem
  refine fun s' hs => ⟨hq₅.later hs, hid, hask, fun hp => ?_⟩
  obtain ⟨row, hrow, hne⟩ := hs₄.settled (hset d hk₂ hle)
  rw [← hid, mem_all.mp hmem] at hrow
  cases hrow
  exact absurd hp hne

/-- What `resolve` makes of a decision it found: it has settled it, or it raises. -/
def Answers (decisionId : String) (es : List (DecisionEvent T))
    (result : Except DecisionError (StoredDecision T)) : Prop :=
  ((∃ d, result = .ok d) ∧ ∃ e ∈ es, Settles decisionId e) ∨
    result = .error (.alreadyResolved decisionId)

theorem spec_resolveFound {tenantId : String} (decision : DecisionStatus) (actor : String)
    (hq : Quiet es s) (hk : Known d s) (hr : es.filterMap reading? = [])
    (ht : d.tenantId = tenantId) :
    Spec (fun es' result s' => Balanced es' s' ∧ Answers d.decisionId es' result) es
      (resolveFound tenantId decision actor d) s := by
  refine spec_bind (spec_maybeExpire hq hk hr) ?_
  rintro es₁ pending s₁ hs₁ ⟨hq₁, hid, hask, hdue⟩
  split
  · exact fun s' hs => ⟨hq₁.balanced.later hs, .inr rfl⟩
  next hp =>
  obtain rfl : pending.tenantId = tenantId := (congrArg AskedDecision.tenantId hask).trans ht
  have hk₁ : Known pending s₁ := by
    obtain ⟨row, hrow, ha⟩ := hs₁.known hk
    exact ⟨row, hid ▸ hrow, ha.trans hask.symm⟩
  have hm : MayGrant es₁ pending.decisionId decision s₁ := by
    refine .inr fun t hread s' hs row hrow => ?_
    obtain ⟨row', hrow', ha⟩ := hs.known hk₁
    obtain rfl := Option.some.inj (hrow.symm.trans hrow')
    rw [show row.expiresAt = d.expiresAt from congrArg AskedDecision.expiresAt (ha.trans hask)]
    exact hdue (not_not.mp hp) t hread
  rw [← hid]
  refine spec_bind (spec_resolvePending actor hq₁ hk₁ hm) ?_
  intro es₂ ok s₂ hs₂ hatt
  cases hatt with
  | lost hq₂ _ => exact fun s' hs => ⟨hq₂.balanced.later hs, .inr rfl⟩
  | @won es' e _ hq₂ _ hin he ha hne =>
    refine spec_announce hq₂.balanced (hs₂.known hk₁) hin he ha ?_
    intro es₃ _ s₃ hs₃ hb₃ hin₃ hres
    have hsettles : ∃ e' ∈ es₃, Settles pending.decisionId e' := by
      have hmem : (pending.decisionId, decision) ∈ es₃.filterMap resolves? := by
        rw [hres, filterMap_append]
        exact mem_append_right _ (by simp [he])
      obtain ⟨e', he', hr'⟩ := mem_filterMap.mp hmem
      exact ⟨e', he', decision, hr', hne⟩
    -- the decision is granted by now, and it remains to read it back
    refine rely_send_bind (DecisionCmd.getDecision pending.decisionId) fun s₄ hs₄ refreshed s₅ hsem _ => ?_
    have hs₅ : Onward s₃ s₅ := Onward.trans _ _ _ hs₄ (onward_effect _ _ _ _ hsem)
    refine ⟨fun s' hs => (hin₃ s' (Onward.trans _ _ _ hs₅ hs)).append rfl rfl, ?_⟩
    obtain ⟨d', rfl, -⟩ := find_of_known (hs₄.known (hs₃.known (hs₂.known hk₁))) hsem
    have hb₅ := (hb₃.later hs₅).silent
      (e := ⟨.getDecision pending.decisionId, some d'⟩) ⟨rfl, rfl⟩
    obtain ⟨e', he', hset⟩ := hsettles
    exact fun s' hs => ⟨hb₅.later hs, .inl ⟨⟨d', rfl⟩, e', mem_append_left _ he', hset⟩⟩

def Accounted (call : DecisionCall T) (es : List (DecisionEvent T)) (outcome : DecisionOutcome T)
    (s : DecisionStore T) : Prop :=
  Balanced es s ∧ ∀ decisionId tenantId decision actor found rest,
    call = .resolve decisionId tenantId decision actor →
    es = ⟨.getDecision decisionId, some found⟩ :: rest → found.tenantId = tenantId →
    ∃ result, outcome = .resolved result ∧ Answers decisionId es result

theorem spec_resolve (decisionId tenantId : String) (decision : DecisionStatus) (actor : String) :
    Spec (fun es result s => Accounted (.resolve decisionId tenantId decision actor) es
      (.resolved result) s) [] (resolve decisionId tenantId decision actor) s := by
  refine spec_silent (.getDecision decisionId) rfl (quiet_nil s) ?_
  intro s₁ (found : Option (StoredDecision T)) s₂ _ hsem _ _ hq₂
  obtain ⟨hfound, rfl⟩ : found = s₁.find decisionId ∧ s₂ = s₁ := hsem
  rcases found with _ | found
  · refine fun s' hs => ⟨hq₂.balanced.later hs, ?_⟩
    rintro _ _ _ _ _ _ ⟨⟩ ⟨⟩
  obtain ⟨rfl, hrow⟩ := find_eq_some.mp hfound.symm
  dsimp only
  split
  · next hne =>
      refine fun s' hs => ⟨hq₂.balanced.later hs, ?_⟩
      rintro _ _ _ _ _ _ ⟨⟩ ⟨⟩ heq
      exact absurd heq hne
  next heq =>
  have hk : Known found s₂ := ⟨_, hrow, rfl⟩
  refine rely_post ?_ (spec_resolveFound decision actor hq₂ hk rfl (not_not.mp heq))
  rintro es' result s' ⟨hb, hans⟩
  refine ⟨hb, ?_⟩
  rintro _ _ _ _ _ _ ⟨⟩ - -
  exact ⟨result, rfl, hans⟩

omit [LinearOrder T] in
theorem Balanced.accounted {call : DecisionCall T} {outcome : DecisionOutcome T} (h : Balanced es s)
    (hcall : ∀ decisionId tenantId decision actor,
      call ≠ .resolve decisionId tenantId decision actor) : Accounted call es outcome s :=
  ⟨h, fun _ _ _ _ _ _ hc => absurd hc (hcall _ _ _ _)⟩

theorem spec_expireDue (moment : Option T) (hq : Quiet es s) :
    Spec (fun es' _ s' => Quiet es' s') es (expireDue moment) s := by
  rcases moment with _ | cutoff
  · refine spec_silent .now rfl hq fun _ (cutoff : T) _ _ _ _ _ hq' => ?_
    exact rely_post (fun _ _ _ h => h.1) (spec_expireBefore cutoff hq')
  · exact rely_post (fun _ _ _ h => h.1) (spec_expireBefore cutoff hq)

theorem known_of_getForTask {runId taskId : String}
    (h : DecisionEffect (.getForTask runId taskId) s (some d) s') : Known d s ∧ s' = s := by
  obtain ⟨⟨hnone, -⟩ | ⟨d', hd', heq, -⟩, hs⟩ := h
  · cases hnone
  · cases heq
    exact ⟨known_of_mem_all hd', hs⟩

theorem spec_request (deadline : T → T) (asked : AskedDecision T) :
    Spec (fun es _ s => Balanced es s) [] (request deadline asked) s := by
  refine spec_silent (.getForTask asked.runId asked.taskId) rfl (quiet_nil s) ?_
  intro s₁ (existing : Option (StoredDecision T)) s₂ _ hsem _ _ hq₂
  rcases existing with _ | pending
  · refine spec_silent .now rfl hq₂ fun _ now _ _ _ _ _ hq => ?_
    refine spec_silent .uuid4 rfl hq fun _ decisionId _ _ _ _ _ hq => ?_
    refine spec_silent .storeNow rfl hq fun _ createdAt _ _ _ _ _ hq => ?_
    refine spec_silent (.insert _ _) rfl hq fun _ stored _ _ _ _ _ hq => ?_
    split
    · refine spec_silent (.emit _) rfl hq fun _ _ _ _ _ _ _ hq => ?_
      exact fun s' hs => hq.balanced.later hs
    · exact fun s' hs => hq.balanced.later hs
  · obtain ⟨hk, rfl⟩ := known_of_getForTask hsem
    refine spec_bind (spec_maybeExpire hq₂ hk rfl) ?_
    exact fun _ _ _ _ hpost s' hs => hpost.1.balanced.later hs

theorem spec_getForTask (runId taskId : String) :
    Spec (fun es _ s => Balanced es s) [] (getForTask runId taskId) s := by
  refine spec_silent (.getForTask runId taskId) rfl (quiet_nil s) ?_
  intro s₁ (existing : Option (StoredDecision T)) s₂ _ hsem _ _ hq₂
  rcases existing with _ | pending
  · exact fun s' hs => hq₂.balanced.later hs
  · obtain ⟨hk, rfl⟩ := known_of_getForTask hsem
    refine spec_bind (spec_maybeExpire hq₂ hk rfl) ?_
    exact fun _ _ _ _ hpost s' hs => hpost.1.balanced.later hs

theorem spec_listPending (tenantId : String) :
    Spec (fun es _ s => Balanced es s) [] (listPending tenantId) s := by
  refine spec_silent .now rfl (quiet_nil s) fun _ (now : T) _ _ _ _ _ hq => ?_
  refine spec_bind (spec_expireDue (some now) hq) fun es₁ _ s₁ _ hq₁ => ?_
  refine rely_send (DecisionCmd.listPending tenantId) fun s₂ hs₂ rows s₃ hsem _ => ?_
  have hq₃ : Quiet (es₁ ++ [⟨.listPending tenantId, rows⟩]) s₃ :=
    (hq₁.later (Onward.trans _ _ _ hs₂ (onward_effect _ _ _ _ hsem))).silent ⟨rfl, rfl⟩
  exact ⟨fun s' _ => hq₃.ungranted.inTime s', fun s' hs => hq₃.balanced.later hs⟩

theorem spec_call (deadline : T → T) (call : DecisionCall T) :
    Spec (Accounted call) [] (call.prog deadline) s := by
  cases call with
  | resolve decisionId tenantId decision actor =>
    refine spec_bind (spec_resolve decisionId tenantId decision actor) ?_
    exact fun _ _ _ _ hacc s' hs => ⟨hacc.1.later hs, hacc.2⟩
  | request asked =>
    refine spec_bind (spec_request deadline asked) fun _ _ _ _ hb s' hs => ?_
    exact (hb.later hs).accounted nofun
  | getForTask runId taskId =>
    refine spec_bind (spec_getForTask runId taskId) fun _ _ _ _ hb s' hs => ?_
    exact (hb.later hs).accounted nofun
  | expireDue moment =>
    refine spec_bind (spec_expireDue moment (quiet_nil s)) fun _ _ _ _ hq s' hs => ?_
    exact (hq.balanced.later hs).accounted nofun
  | listPending tenantId =>
    refine spec_bind (spec_listPending tenantId) fun _ _ _ _ hb s' hs => ?_
    exact (hb.later hs).accounted nofun

end Specs

/-! ## Interleavings -/

section Interleavings

variable {T ι : Type} [LinearOrder T] [DecidableEq ι]

abbrev OrderlyRuns (P P' : DecisionPool T ι) : Prop :=
  Runs DecisionEffect (fun P i e => Orderly (P.events i) e) P P'

variable {deadline : T → T} {calls : ι → DecisionCall T} {s s' : DecisionStore T}
  {P P' : DecisionPool T ι} {i : ι}

variable (hruns : OrderlyRuns (decisionCalls deadline calls s) P)

include hruns

theorem runs_call (i : ι) :
    Henceforth Onward (InTime (P.events i)) P.state ∧
      Spec (Accounted (calls i)) (P.events i) (P.procs i) P.state :=
  hruns.rely (G := fun _ => Orderly) (I := fun _ => InTime)
    (Q := fun i => Accounted (calls i)) Onward.trans Onward.refl onward_effect
    (fun _ _ _ _ _ _ hg => hg) rfl (fun _ _ t _ _ ht => by simp at ht)
    (fun i => spec_call deadline (calls i)) i

theorem accounted_of_result {outcome : DecisionOutcome T} (h : P.result? i = some outcome) :
    Accounted (calls i) (P.events i) outcome P.state := by
  have hcall := (runs_call hruns i).2
  rw [result?_eq_some.mp h] at hcall
  exact hcall P.state (Onward.refl _)

variable {decisionId : String}

theorem settles_of_returned (hc : Competes calls P decisionId i) (hret : Returned P i) :
    ∃ e ∈ P.events i, Settles decisionId e := by
  obtain ⟨tenantId, decision, actor, found, rest, hcall, hes, ht⟩ := hc
  obtain ⟨d, hd⟩ := hret
  obtain ⟨result, hres, hans⟩ :=
    (accounted_of_result hruns hd).2 _ _ _ _ _ _ hcall hes ht
  cases hres
  rcases hans with ⟨-, hset⟩ | hno
  · exact hset
  · cases hno

/-! ### What was published -/

omit hruns in
theorem published_effect {c : DecisionCmd T} {r : DecisionReply c} (h : DecisionEffect c s r s') :
    s'.published = s.published ++ (publishes? ⟨c, r⟩).toList := by
  have hsame : s'.published = s.published → publishes? ⟨c, r⟩ = none →
      s'.published = s.published ++ (publishes? ⟨c, r⟩).toList := by
    intro hs hnone
    rw [hs, hnone, Option.toList_none, append_nil]
  cases c with
  | emit event =>
    rw [show s' = _ from h]
    rfl
  | update _ _ _ _ =>
    rcases h with ⟨_, -, -, -, rfl⟩ | ⟨-, -, rfl⟩ <;> exact hsame rfl rfl
  | insert _ _ =>
    rcases h with ⟨-, -, rfl⟩ | ⟨-, -, rfl⟩ <;> exact hsame rfl rfl
  | getDecision _ | getForTask _ _ | listPending _ | listDue _ =>
    exact hsame (congrArg _ h.2) rfl
  | now | storeNow | uuid4 => exact hsame (congrArg _ h) rfl

theorem published_runs :
    P.state.published = s.published ++ (P.log.map Prod.snd).filterMap publishes? := by
  induction hruns with
  | refl => simp [decisionCalls]
  | step i _ _ hsem _ ih =>
    rw [Pool.after, published_effect hsem, ih, map_append, filterMap_append,
      append_assoc]
    congr 2

/-! ### What was resolved -/

def resolvedBy (P : DecisionPool T ι) : List (String × DecisionStatus) :=
  (P.log.map Prod.snd).filterMap resolves?

omit [LinearOrder T] [DecidableEq ι] hruns in
theorem mem_resolvedBy {x : String × DecisionStatus} :
    x ∈ resolvedBy P ↔ ∃ y ∈ P.log, resolves? y.2 = some x := by
  simp [resolvedBy]

variable {status : DecisionStatus}

omit hruns in
theorem settles_of_orderly {es : List (DecisionEvent T)} {e : DecisionEvent T} (h : Orderly es e)
    (hr : resolves? e = some (decisionId, status)) :
    Settles decisionId e := by
  refine ⟨status, hr, ?_⟩
  unfold resolves? at hr
  split at hr
  · cases hr
    exact h
  · cases hr

theorem status_of_resolved (h : (decisionId, status) ∈ resolvedBy P) :
    ∃ row ∈ P.state.rows.lookup decisionId, row.status = status ∧ row.status ≠ .pending := by
  obtain ⟨y, hy, hres⟩ := mem_resolvedBy.mp h
  have hset : Settles decisionId y.2 :=
    hruns.forall_log (K := fun e => resolves? e = some (decisionId, status) → Settles decisionId e)
      (fun _ _ _ hg hr => settles_of_orderly hg hr) rfl y hy hres
  obtain ⟨status', hres', hne⟩ := hset
  obtain ⟨-, rfl⟩ : decisionId = decisionId ∧ status' = status := by simpa [hres] using hres'.symm
  refine hruns.since_event rfl
    (F := fun s => ∃ row ∈ s.rows.lookup decisionId, row.status = status' ∧ row.status ≠ .pending)
    (K := fun e => resolves? e = some (decisionId, status')) ?_ ?_ hy hres
  · intro c s r s' hsem hr
    obtain ⟨-, -, -, row, hrow, -, rfl⟩ := resolves_effect hsem hr
    exact ⟨row, hrow, rfl, hne⟩
  · rintro c s r s' hsem ⟨row, hrow, hst, hp⟩
    obtain ⟨row', hrow', hon⟩ := onward_effect _ _ _ _ hsem decisionId row hrow
    obtain rfl := hon.fixed hp
    exact ⟨row', hrow', hst, hp⟩

theorem nodup_resolvedBy : ((resolvedBy P).map Prod.fst).Nodup := by
  have horderly := hruns.forall_log
    (K := fun e => ∀ decisionId status, resolves? e = some (decisionId, status) →
      Settles decisionId e) (fun _ _ _ hg _ _ hr => settles_of_orderly hg hr) rfl
  unfold resolvedBy List.Nodup
  rw [pairwise_map, pairwise_filterMap, pairwise_map]
  refine (hruns.latched rfl decisions_latch).imp_of_mem ?_
  rintro y z hy hz hno ⟨decisionId, status⟩ hres ⟨decisionId', status'⟩ hres' rfl
  exact hno decisionId (horderly y hy _ _ hres) (horderly z hz _ _ hres')

omit [LinearOrder T] hruns in
theorem nodup_leftPending (s s' : DecisionStore T) :
    ((leftPending s s').map fun d => (d.decisionId, d.status)).Nodup := by
  refine List.Nodup.of_map Prod.fst ?_
  rw [map_map]
  have hkeys : (s'.all.map StoredDecision.decisionId).Nodup := by
    rw [DecisionStore.all, map_map]
    exact s'.rows.nodupKeys
  exact (filter_sublist.map _).nodup hkeys

theorem resolvedBy_perm :
    (resolvedBy P).Perm ((leftPending s P.state).map fun d => (d.decisionId, d.status)) := by
  refine (perm_ext_iff_of_nodup (List.Nodup.of_map Prod.fst (nodup_resolvedBy hruns))
    (nodup_leftPending s P.state)).mpr ?_
  rintro ⟨decisionId, status⟩
  simp only [mem_map, leftPending, mem_filter, decide_eq_true_eq, Prod.mk.injEq]
  constructor
  · intro hmem
    obtain ⟨row, hrow, rfl, hne⟩ := status_of_resolved hruns hmem
    obtain ⟨y, hy, hres⟩ := mem_resolvedBy.mp hmem
    refine ⟨⟨row, decisionId⟩, ⟨mem_all.mpr hrow, hne, fun hset => ?_⟩, rfl, rfl⟩
    exact (hruns.no_event rfl decisions_latch hset).2 y hy ⟨_, hres, hne⟩
  · rintro ⟨d, ⟨hd, hne, hnot⟩, rfl, rfl⟩
    have hset : Settled d.decisionId P.state := ⟨_, mem_all.mp hd, hne⟩
    obtain hbefore | ⟨y, hy, status, hres, -⟩ :=
      hruns.event_of_latch (E := Settles) settles_of_settled hset
    · exact absurd hbefore hnot
    · have hmem : (d.decisionId, status) ∈ resolvedBy P := mem_resolvedBy.mpr ⟨y, hy, hres⟩
      obtain ⟨row, hrow, rfl, -⟩ := status_of_resolved hruns hmem
      obtain rfl := Option.some.inj (hrow.symm.trans (mem_all.mp hd))
      exact hmem

/-! ### One event for each resolution -/

theorem announced_of_atRest (hrest : AtRest P) :
    (((P.log.map Prod.snd).filterMap publishes?).filterMap EmittedEvent.resolution?).Perm
      ((leftPending s P.state).map StoredDecision.resolution) := by
  have hpaid : ((P.log.map Prod.snd).filterMap announces?).Perm
      ((P.log.map Prod.snd).filterMap (owes? P.state)) := by
    refine perm_of_events P.log fun i => List.Perm.of_eq ?_
    change (P.events i).filterMap announces? = (P.events i).filterMap (owes? P.state)
    rcases hrest i with hnil | hsome
    · rw [hnil]
      rfl
    · obtain ⟨outcome, hres⟩ := Option.isSome_iff_exists.mp hsome
      exact (accounted_of_result hruns hres).1.here Onward.refl
  have howed : (P.log.map Prod.snd).filterMap (owes? P.state) =
      (resolvedBy P).filterMap (resolutionIn P.state) := filterMap_filterMap.symm
  have hrows : ((leftPending s P.state).map fun d => (d.decisionId, d.status)).filterMap
      (resolutionIn P.state) = (leftPending s P.state).map StoredDecision.resolution := by
    rw [filterMap_map, ← filterMap_eq_map]
    refine filterMap_congr fun d hd => ?_
    have hrow := mem_all.mp (mem_filter.mp hd).1
    simp [resolutionIn, hrow, StoredDecision.resolution]
  rw [filterMap_filterMap]
  refine hpaid.trans ?_
  rw [howed, ← hrows]
  exact (resolvedBy_perm hruns).filterMap _

omit hruns

/-- In every orderly interleaving, each decision is resolved once. -/
theorem resolved_once (deadline : T → T) (calls : ι → DecisionCall T) (s : DecisionStore T)
    (P : DecisionPool T ι) (hruns : OrderlyRuns (decisionCalls deadline calls s) P) :
    ResolvedOnce calls s P ∧ ∀ P', OrderlyRuns P P' → Fixed P.state P'.state := by
  refine ⟨⟨?_, ?_, ?_, ?_⟩, ?_⟩
  · intro hrest
    exact ⟨_, published_runs hruns, announced_of_atRest hruns hrest⟩
  · intro decisionId i j hi hj hri hrj
    obtain ⟨e, he, hse⟩ := settles_of_returned hruns hi hri
    obtain ⟨f, hf, hsf⟩ := settles_of_returned hruns hj hrj
    exact hruns.latch_unique rfl decisions_latch he hf hse hsf
  · rintro decisionId i outcome ⟨tenantId, decision, actor, found, rest, hcall, hes, ht⟩ hres
    obtain ⟨result, rfl, hans⟩ :=
      (accounted_of_result hruns hres).2 _ _ _ _ _ _ hcall hes ht
    rcases hans with ⟨⟨d, rfl⟩, -⟩ | rfl
    · exact .inl ⟨d, hres⟩
    · exact .inr rfl
  · intro i t decisionId status hread hmem hst
    exact (runs_call hruns i).1.here Onward.refl t decisionId status hread hmem hst
  · intro P' hruns' decisionId row hrow hne
    obtain ⟨row', hrow', hon⟩ :=
      hruns'.rel Onward.refl Onward.trans onward_effect decisionId row hrow
    obtain rfl := hon.fixed hne
    exact hrow'

end Interleavings

/-! ## Calls on one decision -/

/-- Replies in the order of the table; the clock of a call shows `clock` and then stands still. -/
def answering (clock : List ℕ) (es : List (DecisionEvent ℕ)) :
    (c : DecisionCmd ℕ) → DecisionStore ℕ → Option (DecisionReply c × DecisionStore ℕ)
  | .getDecision decisionId, s => some (s.find decisionId, s)
  | .listDue before, s =>
    some (s.all.filter fun d => d.status = .pending ∧ d.expiresAt ≤ before, s)
  | .update decisionId status decidedBy decidedAt, s =>
    match s.rows.lookup decisionId with
    | none => some (false, s)
    | some row =>
      if row.status = .pending then
        some (true, { s with
          rows := s.rows.insert decisionId (row.resolved status decidedBy decidedAt) })
      else some (false, s)
  | .emit event, s => some (([] : List String), { s with
      published := s.published ++ [event.scrubbed []] })
  | .now, s => some (clock[(es.filterMap reading?).length]?.getD (clock.getLastD 0), s)
  | .storeNow, s => some ((0 : ℕ), s)
  | .getForTask _ _, _ | .listPending _, _ | .insert _ _, _ | .uuid4, _ => none

theorem effect_answering (clock : List ℕ) (es : List (DecisionEvent ℕ)) (c : DecisionCmd ℕ)
    (s : DecisionStore ℕ) (r : DecisionReply c) (s' : DecisionStore ℕ)
    (h : answering clock es c s = some (r, s')) : DecisionEffect c s r s' := by
  cases c with
  | update decisionId status decidedBy decidedAt =>
    simp only [answering] at h
    split at h
    · next hnone =>
        cases h
        exact .inr ⟨fun ⟨row, hrow, _⟩ => by simp [hnone] at hrow, rfl, rfl⟩
    next row hrow =>
    split at h
    · next hp =>
        cases h
        exact .inl ⟨row, hrow, hp, rfl, rfl⟩
    next hp =>
      cases h
      refine .inr ⟨?_, rfl, rfl⟩
      rintro ⟨row', hrow', hp'⟩
      obtain rfl := Option.some.inj (hrow.symm.trans hrow')
      exact hp hp'
  | getDecision _ =>
    cases h
    exact ⟨rfl, rfl⟩
  | listDue _ =>
    cases h
    exact ⟨.refl _, rfl⟩
  | emit _ | now | storeNow =>
    cases h
    rfl
  | getForTask _ _ | listPending _ | insert _ _ | uuid4 => cases h

def oneDecision : DecisionStore ℕ where
  rows := (∅ : Table String (DecisionColumns ℕ)).insert "d1"
    { tenantId := "acme", runId := "r1", taskId := "t1", actionId := "a1", category := .shell
      prompt := "run make", createdAt := 0, expiresAt := 8 }

def approveAndDeny : Bool → DecisionCall ℕ
  | true => .resolve "d1" "acme" .approved "ann"
  | false => .resolve "d1" "acme" .denied "ben"

/-- Both find the decision and read the clock; then one goes on to its end, and then the other. -/
def raced (clock : List ℕ) : DecisionPool ℕ Bool :=
  (decisionCalls (· + 60) approveAndDeny oneDecision).play (answering clock)
    ([true, false, true, false] ++ replicate 8 true ++ replicate 8 false)

theorem runs_raced (clock : List ℕ) :
    Runs DecisionEffect (fun _ _ _ => True) (decisionCalls (· + 60) approveAndDeny oneDecision)
      (raced clock) :=
  Runs.play (effect_answering clock) _ .refl Pool.meets_of_forall

/-- With a clock that shows 10 and then 5, a decision that was due at 8 is approved. -/
theorem due_decision_approved :
    ∃ P, Runs DecisionEffect (fun _ _ _ => True)
        (decisionCalls (· + 60) approveAndDeny oneDecision) P ∧
      ¬ ResolvedOnce approveAndDeny oneDecision P := by
  refine ⟨raced [10, 5], runs_raced _, fun h => ?_⟩
  have hlate := h.inTime true 10 "d1" .approved (by decide +kernel) (by decide +kernel) (.inl rfl)
  revert hlate
  decide +kernel

theorem resolved_once_raced :
    ((raced [5]).result? true).isSome ∧
      (raced [5]).result? false = some (.resolved (.error (.alreadyResolved "d1"))) ∧
    ResolvedOnce approveAndDeny oneDecision (raced [5]) ∧
      ∀ P', OrderlyRuns (raced [5]) P' → Fixed (raced [5]).state P'.state :=
  ⟨by decide +kernel, by decide +kernel,
    resolved_once (· + 60) approveAndDeny oneDecision _
      (Runs.play (effect_answering [5]) _ .refl (by decide +kernel))⟩

end AutoDev.Decisions
