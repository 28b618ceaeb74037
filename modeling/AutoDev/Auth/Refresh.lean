/-
# `AutoDev.Auth.Refresh` — refreshing and ending browser sessions

`refresh_session` and `revoke_session` of `backend/auth/service.py` over the
table `auth_sessions`, at the granularity of statements.

A refresh READS the session, asks the provider, revokes the session and inserts
its successor.  The revoking statement reports whether it revoked anything, but
the refresh does not look at the report, so two refreshes of one session both
succeed, and one that was under way survives a logout
(`refreshed_twice_and_after_logout`).

The provider, the cipher, the clock and the generator of session ids answer as
they like.  Instants are microseconds.
-/
import AutoDev.Auth.Roles
import AutoDev.Lib.Interleave
import AutoDev.Lib.Table

namespace AutoDev.Auth

open Prog Interleave List

/-! ## The table and its statements -/

structure AuthSessionRecord where
  sessionId : String
  tenantId : String
  subject : String
  roles : List Role
  encryptedRefreshToken : String
  createdAt : ℤ
  expiresAt : ℤ
  revokedAt : Option ℤ := none
  deriving DecidableEq

/-- `is_active`; the property does not look at `expires_at`. -/
def AuthSessionRecord.isActive (record : AuthSessionRecord) : Bool := record.revokedAt.isNone

abbrev Sessions := Table String AuthSessionRecord

/-- The statements of the store, and what the service asks of others. -/
inductive SessionCmd where
  | getSession (sessionId : String)
  /-- `UPDATE auth_sessions SET revoked_at = now WHERE session_id = … AND revoked_at IS NULL`. -/
  | revoke (sessionId : String) (now : ℤ)
  | insert (record : AuthSessionRecord)
  | decrypt (ciphertext : String)
  | encrypt (token : String)
  /-- `refresh_access_token`. -/
  | exchange (refreshToken : String)
  | utcnow
  | tokenUrlsafe

def SessionReply : SessionCmd → Type
  | .getSession _ => Option AuthSessionRecord
  | .revoke _ _ => Bool          -- `rowcount > 0`
  | .insert _ => Bool            -- `false` when the primary key is taken
  | .decrypt _ => Option String  -- `none` raises `InvalidToken`
  | .encrypt _ => String
  -- `none` raises; else the refresh token of the answer, if it has one that is not empty
  | .exchange _ => Option (Option String)
  | .utcnow => ℤ
  | .tokenUrlsafe => String

def Active (sessionId : String) (s : Sessions) : Prop :=
  ∃ record ∈ s.lookup sessionId, record.revokedAt = none

def Revoked (sessionId : String) (s : Sessions) : Prop :=
  ∃ record ∈ s.lookup sessionId, record.revokedAt ≠ none

instance (sessionId : String) (s : Sessions) : Decidable (Active sessionId s) := by
  unfold Active
  infer_instance

def Sessions.revoke (s : Sessions) (sessionId : String) (now : ℤ) : Sessions :=
  s.modify sessionId fun record => { record with revokedAt := some now }

def SessionEffect : (c : SessionCmd) → Sessions → SessionReply c → Sessions → Prop
  | .getSession sessionId, s, r, s' => r = s.lookup sessionId ∧ s' = s
  | .revoke sessionId now, s, r, s' =>
    (Active sessionId s ∧ r = true ∧ s' = s.revoke sessionId now) ∨
      (¬ Active sessionId s ∧ r = false ∧ s' = s)
  | .insert record, s, r, s' =>
    (s.lookup record.sessionId = none ∧ r = true ∧ s' = s.insert record.sessionId record) ∨
      (s.lookup record.sessionId ≠ none ∧ r = false ∧ s' = s)
  | _, s, _, s' => s' = s

/-! ## The service -/

inductive RefreshError where
  | invalidCredential (message : String)
  | invalidToken
  | provider
  | integrity
  deriving DecidableEq

abbrev SessionProg := Prog SessionCmd SessionReply

def issue (c : SessionCmd) : SessionProg (SessionReply c) := send c

def createSession (ttl : ℤ) (tenantId subject : String) (roles : List Role)
    (refreshToken : String) : SessionProg (Except RefreshError AuthSessionRecord) := do
  let now : ℤ ← issue .utcnow
  let sessionId : String ← issue .tokenUrlsafe
  let encrypted : String ← issue (.encrypt refreshToken)
  let record : AuthSessionRecord :=
    ⟨sessionId, tenantId, subject, roles, encrypted, now, now + ttl * 1000000, none⟩
  let stored : Bool ← issue (.insert record)
  if stored then pure (.ok record) else pure (.error .integrity)

/-- `revoke_session`; the endpoint `logout_v2` calls it for the session of its caller. -/
def revokeSession (sessionId : String) : SessionProg Bool := do
  let now : ℤ ← issue .utcnow
  issue (.revoke sessionId now)

def refreshSession (ttl : ℤ) (sessionId : String) :
    SessionProg (Except RefreshError AuthSessionRecord) := do
  let found : Option AuthSessionRecord ← issue (.getSession sessionId)
  match found.filter (·.isActive) with
  | none => pure (.error (.invalidCredential "unknown or inactive session"))
  | some record =>
    let decrypted : Option String ← issue (.decrypt record.encryptedRefreshToken)
    match decrypted with
    | none => pure (.error .invalidToken)
    | some refreshToken =>
      let tokens : Option (Option String) ← issue (.exchange refreshToken)
      match tokens with
      | none => pure (.error .provider)
      | some token =>
        let _ ← revokeSession sessionId
        createSession ttl record.tenantId record.subject record.roles
          (token.getD refreshToken)

inductive SessionCall where
  | refresh (sessionId : String)
  | logout (sessionId : String)
  deriving DecidableEq

inductive SessionOutcome where
  | refreshed (result : Except RefreshError AuthSessionRecord)
  | loggedOut (revoked : Bool)
  deriving DecidableEq

def SessionCall.prog (ttl : ℤ) : SessionCall → SessionProg SessionOutcome
  | .refresh sessionId => do
    let result ← refreshSession ttl sessionId
    pure (.refreshed result)
  | .logout sessionId => do
    let revoked ← revokeSession sessionId
    pure (.loggedOut revoked)

/-! ## Refreshed once -/

section Refreshes

variable {ι : Type} [DecidableEq ι]

abbrev SessionPool (ι : Type) := Pool SessionCmd SessionReply Sessions SessionOutcome ι

def sessionCalls (ttl : ℤ) (calls : ι → SessionCall) (s : Sessions) : SessionPool ι where
  state := s
  procs i := (calls i).prog ttl

variable (calls : ι → SessionCall) (P : SessionPool ι) (sessionId : String)

/-- The call `i` is a refresh of the session and has returned a new one. -/
def Refreshed (i : ι) : Prop :=
  calls i = .refresh sessionId ∧ ∃ record, P.result? i = some (.refreshed (.ok record))

def LoggedOut (i : ι) : Prop :=
  calls i = .logout sessionId ∧ P.result? i = some (.loggedOut true)

def RefreshedOnce : Prop :=
  ∀ sessionId i j, Refreshed calls P sessionId i → Refreshed calls P sessionId j → i = j

/-- From `P` to `P'` no refresh of a session returns that was revoked by a logout before. -/
def OutStaysOut (P' : SessionPool ι) : Prop :=
  ∀ sessionId i j, LoggedOut calls P sessionId i → Refreshed calls P' sessionId j →
    Refreshed calls P sessionId j

def StillActive (i : ι) : Event SessionCmd SessionReply → Prop
  | ⟨.revoke sessionId _, _⟩ => calls i = .refresh sessionId → Active sessionId P.state
  | _ => True

instance (calls : ι → SessionCall) (P : SessionPool ι) (i : ι) :
    ∀ e, Decidable (StillActive calls P i e)
  | ⟨.revoke sessionId _, _⟩ => inferInstanceAs
      (Decidable (calls i = .refresh sessionId → Active sessionId P.state))
  | ⟨.getSession _, _⟩ | ⟨.insert _, _⟩ | ⟨.decrypt _, _⟩ | ⟨.encrypt _, _⟩ | ⟨.exchange _, _⟩
  | ⟨.utcnow, _⟩ | ⟨.tokenUrlsafe, _⟩ => .isTrue trivial

end Refreshes

/-! ## A session is revoked once -/

def Revokes (sessionId : String) (e : Event SessionCmd SessionReply) : Prop :=
  ∃ now, e = ⟨.revoke sessionId now, true⟩

variable {s : Sessions}

theorem revoked_iff {sessionId : String} {record : AuthSessionRecord}
    (h : s.lookup sessionId = some record) : Revoked sessionId s ↔ record.revokedAt ≠ none := by
  simp [Revoked, h]

theorem not_revoked_of_none {sessionId : String} (h : s.lookup sessionId = none) :
    ¬ Revoked sessionId s := by
  simp [Revoked, h]

theorem not_revoked_of_active {sessionId : String} (h : Active sessionId s) :
    ¬ Revoked sessionId s := by
  obtain ⟨record, hr, hnone⟩ := h
  rw [revoked_iff hr]
  exact fun hne => hne hnone

theorem revoked_revoke {sessionId : String} (h : Active sessionId s) (now : ℤ) (other : String) :
    Revoked other (s.revoke sessionId now) ↔ other = sessionId ∨ Revoked other s := by
  obtain ⟨record, hr, -⟩ := h
  rw [Sessions.revoke, Table.modify_of_some hr]
  by_cases ho : other = sessionId
  · subst ho
    simp [Revoked]
  · simp [Revoked, ho]

theorem revoked_insert {record : AuthSessionRecord} {other : String}
    (h : s.lookup record.sessionId = none) (hr : Revoked other s) :
    Revoked other (s.insert record.sessionId record) := by
  have ho : other ≠ record.sessionId := by
    rintro rfl
    exact not_revoked_of_none h hr
  simpa [Revoked, ho] using hr

theorem sessions_latch : Latch SessionEffect Revokes Revoked where
  before := by
    rintro sessionId c s r s' h ⟨now, ⟨⟩⟩
    rcases h with ⟨hactive, -, -⟩ | ⟨-, hr, -⟩
    · exact not_revoked_of_active hactive
    · cases hr
  after := by
    rintro sessionId c s r s' h ⟨now, ⟨⟩⟩
    rcases h with ⟨hactive, -, rfl⟩ | ⟨-, hr, -⟩
    · exact (revoked_revoke hactive now sessionId).mpr (.inl rfl)
    · cases hr
  stays := by
    intro sessionId c s r s' h hrev
    cases c with
    | revoke other now =>
      rcases h with ⟨hactive, -, rfl⟩ | ⟨-, -, rfl⟩
      · exact (revoked_revoke hactive now sessionId).mpr (.inr hrev)
      · exact hrev
    | insert record =>
      rcases h with ⟨hnone, -, rfl⟩ | ⟨-, -, rfl⟩
      · exact revoked_insert hnone hrev
      · exact hrev
    | getSession _ =>
      rw [h.2]
      exact hrev
    | decrypt _ | encrypt _ | exchange _ | utcnow | tokenUrlsafe =>
      rw [show s' = s from h]
      exact hrev

/-! ## What a call that returned has done -/

/-- The call has had its effect: a refresh returned, or a logout revoked the session. -/
def SessionCall.Effective : SessionCall → SessionOutcome → Prop
  | .refresh _, .refreshed (.ok _) => True
  | .logout _, .loggedOut true => True
  | _, _ => False

def SessionCall.sessionId : SessionCall → String
  | .refresh sessionId | .logout sessionId => sessionId

def Succeeds (call : SessionCall) (_ : List (Event SessionCmd SessionReply))
    (e : Event SessionCmd SessionReply) : Prop :=
  ∀ sessionId now r, call = .refresh sessionId → e = ⟨.revoke sessionId now, r⟩ → r = true

def HasRevoked (call : SessionCall) (es : List (Event SessionCmd SessionReply))
    (outcome : SessionOutcome) (_ : Sessions) : Prop :=
  call.Effective outcome → ∃ e ∈ es, Revokes call.sessionId e

variable {ι : Type} [DecidableEq ι] {ttl : ℤ} {s : Sessions}

theorem rely_issue (c : SessionCmd)
    {G : List (Event SessionCmd SessionReply) → Event SessionCmd SessionReply → Prop}
    {Q : List (Event SessionCmd SessionReply) → SessionReply c → Sessions → Prop}
    {es : List (Event SessionCmd SessionReply)}
    (h : ∀ r s, G es ⟨c, r⟩ → Q (es ++ [⟨c, r⟩]) r s) :
    rely SessionEffect (fun _ _ => True) G (fun _ _ => True) Q es (issue c) s :=
  rely_send c fun _ _ r _ _ hG => ⟨fun _ _ => trivial, fun s₃ _ => h r s₃ hG⟩

theorem call_hasRevoked (call : SessionCall) :
    rely SessionEffect (fun _ _ => True) (Succeeds call) (fun _ _ => True) (HasRevoked call) []
      (call.prog ttl) s := by
  have hrefl : ∀ _ : Sessions, True := fun _ => trivial
  cases call with
  | logout sessionId =>
    refine rely_bind hrefl (rely_bind hrefl (rely_issue .utcnow fun now _ _ => ?_))
    refine rely_issue (.revoke sessionId now) fun revoked _ _ => ?_
    rcases (revoked : Bool) with _ | _
    · exact fun _ _ heff => False.elim heff
    · exact fun _ _ _ => ⟨_, mem_append_right _ (mem_singleton_self _), now, rfl⟩
  | refresh sessionId =>
    refine rely_bind hrefl (rely_bind hrefl (rely_issue (.getSession sessionId) fun found _ _ => ?_))
    split
    · exact fun _ _ _ _ heff => False.elim heff
    next record _ =>
    refine rely_bind hrefl (rely_issue (.decrypt record.encryptedRefreshToken) fun _ _ _ => ?_)
    split
    · exact fun _ _ _ _ heff => False.elim heff
    next refreshToken _ =>
    refine rely_bind hrefl (rely_issue (.exchange refreshToken) fun _ _ _ => ?_)
    split
    · exact fun _ _ _ _ heff => False.elim heff
    refine rely_bind hrefl (rely_bind hrefl (rely_issue .utcnow fun now _ _ => ?_))
    refine rely_issue (.revoke sessionId now) fun revoked _ hG => ?_
    obtain rfl : revoked = true := hG _ _ _ rfl rfl
    -- the session is revoked by now, and what follows does not matter
    refine rely_of_forall (fun _ _ => trivial) fun es' result _ _ _ _ => ?_
    exact ⟨_, mem_append_left _ (mem_append_right _ (mem_singleton_self _)), now, rfl⟩

theorem succeeds_of_stillActive {calls : ι → SessionCall} {P : SessionPool ι} {i : ι}
    {c : SessionCmd} {r : SessionReply c} {s' : Sessions} (hsem : SessionEffect c P.state r s')
    (h : StillActive calls P i ⟨c, r⟩) : Succeeds (calls i) (P.events i) ⟨c, r⟩ := by
  rintro sessionId now r' hcall ⟨⟩
  rcases hsem with ⟨-, hr, -⟩ | ⟨hnot, -, -⟩
  · exact hr
  · exact absurd (h hcall) hnot

theorem revoked_of_effective {calls : ι → SessionCall} {P : SessionPool ι}
    (hruns : Runs SessionEffect (StillActive calls) (sessionCalls ttl calls s) P) {i : ι}
    {outcome : SessionOutcome} (hres : P.result? i = some outcome)
    (heff : (calls i).Effective outcome) : ∃ e ∈ P.events i, Revokes (calls i).sessionId e := by
  have hcall : rely SessionEffect (fun _ _ => True) (Succeeds (calls i)) (fun _ _ => True)
      (HasRevoked (calls i)) (P.events i) (P.procs i) P.state :=
    (hruns.rely
      (fun _ _ _ _ _ => trivial) (fun _ => trivial)
      (fun _ _ _ _ _ => trivial) (fun _ _ _ _ _ hsem hg => succeeds_of_stillActive hsem hg) rfl
      (fun _ _ => trivial) (fun i => call_hasRevoked (calls i)) i).2
  rw [result?_eq_some.mp hres] at hcall
  exact hcall P.state trivial heff

/-- Where a session is still active whenever a refresh revokes it, at most one refresh of it
returns, and none after a logout has revoked it. -/
theorem single_use (ttl : ℤ) (calls : ι → SessionCall) (s : Sessions) (P : SessionPool ι)
    (hruns : Runs SessionEffect (StillActive calls) (sessionCalls ttl calls s) P) :
    RefreshedOnce calls P ∧
      ∀ P', Runs SessionEffect (StillActive calls) P P' → OutStaysOut calls P P' := by
  constructor
  · rintro sessionId i j ⟨hi, a, ha⟩ ⟨hj, b, hb⟩
    obtain ⟨e, he, hre⟩ := revoked_of_effective hruns ha (by rw [hi]; trivial)
    obtain ⟨f, hf, hrf⟩ := revoked_of_effective hruns hb (by rw [hj]; trivial)
    rw [hi] at hre
    rw [hj] at hrf
    exact hruns.latch_unique rfl sessions_latch he hf hre hrf
  · rintro P' hruns' sessionId i j ⟨hi, hout⟩ ⟨hj, a, ha⟩
    have hall := hruns.trans hruns'
    have hout' : P'.result? i = some (.loggedOut true) :=
      result?_eq_some.mpr (hruns'.returned (result?_eq_some.mp hout))
    obtain ⟨e, he, hre⟩ := revoked_of_effective hall hout' (by rw [hi]; trivial)
    obtain ⟨f, hf, hrf⟩ := revoked_of_effective hall ha (by rw [hj]; trivial)
    rw [hi] at hre
    rw [hj] at hrf
    obtain rfl := hall.latch_unique rfl sessions_latch he hf hre hrf
    rw [hi] at hj
    cases hj

/-! ## Two calls at once -/

/-- Replies of a world where all goes well. -/
def smoothly (_ : List (Event SessionCmd SessionReply)) :
    (c : SessionCmd) → Sessions → Option (SessionReply c × Sessions)
  | .getSession sessionId, s => some (s.lookup sessionId, s)
  | .revoke sessionId now, s =>
    some (decide (Active sessionId s), if Active sessionId s then s.revoke sessionId now else s)
  | .insert record, s =>
    some (decide (s.lookup record.sessionId = none),
      if s.lookup record.sessionId = none then s.insert record.sessionId record else s)
  | .decrypt ciphertext, s => some (some ciphertext, s)
  | .encrypt token, s => some (token, s)
  | .exchange _, s => some (some none, s)
  | .utcnow, s => some ((0 : ℤ), s)
  | .tokenUrlsafe, s => some (String.ofList (replicate s.entries.length 'x'), s)

theorem effect_smoothly (es : List (Event SessionCmd SessionReply)) (c : SessionCmd) (s : Sessions)
    (r : SessionReply c) (s' : Sessions) (h : smoothly es c s = some (r, s')) :
    SessionEffect c s r s' := by
  cases c with
  | revoke sessionId now =>
    cases h
    by_cases h : Active sessionId s
    · exact .inl ⟨h, decide_eq_true h, if_pos h⟩
    · exact .inr ⟨h, decide_eq_false h, if_neg h⟩
  | insert record =>
    cases h
    by_cases h : s.lookup record.sessionId = none
    · exact .inl ⟨h, decide_eq_true h, if_pos h⟩
    · exact .inr ⟨h, decide_eq_false h, if_neg h⟩
  | getSession sessionId =>
    cases h
    exact ⟨rfl, rfl⟩
  | decrypt _ | encrypt _ | exchange _ | utcnow | tokenUrlsafe =>
    cases h
    rfl

def oneSession : Sessions :=
  (∅ : Sessions).insert "s1" ⟨"s1", "acme", "u1", [.viewer], "token", 0, 3600000000, none⟩

def pairOfCalls (second : SessionCall) : Bool → SessionCall
  | true => .refresh "s1"
  | false => second

/-- The session a refresh makes of the only one. -/
def successor (sessionId : String) : AuthSessionRecord :=
  ⟨sessionId, "acme", "u1", [.viewer], "token", 0, 3600000000, none⟩

def firstUnderWay (second : SessionCall) : SessionPool Bool :=
  (sessionCalls 3600 (pairOfCalls second) oneSession).play smoothly
    (true :: replicate 9 false)

def bothOver (second : SessionCall) : SessionPool Bool :=
  (firstUnderWay second).play smoothly (replicate 8 true)

theorem runs_firstUnderWay (second : SessionCall) :
    Runs SessionEffect (fun _ _ _ => True) (sessionCalls 3600 (pairOfCalls second) oneSession)
      (firstUnderWay second) :=
  Runs.play effect_smoothly _ .refl Pool.meets_of_forall

theorem runs_bothOver (second : SessionCall) :
    Runs SessionEffect (fun _ _ _ => True) (firstUnderWay second) (bothOver second) :=
  Runs.play effect_smoothly _ .refl Pool.meets_of_forall

/-- Two refreshes of one session return; and one returns after a logout has revoked its session. -/
theorem refreshed_twice_and_after_logout :
    (∃ P, Runs SessionEffect (fun _ _ _ => True)
        (sessionCalls 3600 (pairOfCalls (.refresh "s1")) oneSession) P ∧
      ¬ RefreshedOnce (pairOfCalls (.refresh "s1")) P) ∧
    ∃ P P', Runs SessionEffect (fun _ _ _ => True)
        (sessionCalls 3600 (pairOfCalls (.logout "s1")) oneSession) P ∧
      Runs SessionEffect (fun _ _ _ => True) P P' ∧
      ¬ OutStaysOut (pairOfCalls (.logout "s1")) P P' := by
  refine ⟨⟨_, (runs_firstUnderWay _).trans (runs_bothOver _), fun h => ?_⟩,
    _, _, runs_firstUnderWay _, runs_bothOver _, fun h => ?_⟩
  · have hsame := h "s1" true false ⟨rfl, successor "xx", by decide +kernel⟩
      ⟨rfl, successor "x", by decide +kernel⟩
    cases hsame
  have hbefore := h "s1" false true ⟨rfl, by decide +kernel⟩ ⟨rfl, successor "x", by decide +kernel⟩
  obtain ⟨-, record, hrec⟩ := hbefore
  have hnone : (firstUnderWay (.logout "s1")).result? true = none := by decide +kernel
  cases hrec

/-- A refresh, and then a logout, which finds nothing to revoke. -/
def oneAfterTheOther : SessionPool Bool :=
  (sessionCalls 3600 (pairOfCalls (.logout "s1")) oneSession).play smoothly
    (replicate 9 true ++ replicate 2 false)

theorem single_use_one_after_the_other :
    (Refreshed (pairOfCalls (.logout "s1")) oneAfterTheOther "s1" true ∧
      oneAfterTheOther.result? false = some (.loggedOut false)) ∧
    RefreshedOnce (pairOfCalls (.logout "s1")) oneAfterTheOther ∧
    ∀ P', Runs SessionEffect (StillActive (pairOfCalls (.logout "s1"))) oneAfterTheOther P' →
      OutStaysOut (pairOfCalls (.logout "s1")) oneAfterTheOther P' :=
  ⟨⟨⟨rfl, successor "x", by decide +kernel⟩, by decide +kernel⟩,
    single_use 3600 _ oneSession _ (Runs.play effect_smoothly _ .refl (by decide +kernel))⟩

/-! ## A revoked session -/

theorem call_of_revoked {sessionId : String} (hrev : Revoked sessionId s) (call : SessionCall) :
    rely SessionEffect (fun s s' => Revoked sessionId s → Revoked sessionId s') (fun _ _ => True)
      (fun _ _ => True) (fun _ outcome _ => call.sessionId = sessionId → ¬ call.Effective outcome)
      [] (call.prog ttl) s := by
  by_cases hcall : call.sessionId = sessionId
  · subst hcall
    cases call with
    | logout sessionId =>
      intro s₁ h₁ now s₂ hnow _
      refine ⟨fun _ _ => trivial, fun s₃ h₃ revoked s₄ hsem _ => ⟨fun _ _ => trivial, ?_⟩⟩
      rcases hsem with ⟨hactive, -, -⟩ | ⟨-, rfl, -⟩
      · cases hnow
        exact absurd (h₃ (h₁ hrev)) (not_revoked_of_active hactive)
      · exact fun _ _ _ heff => heff
    | refresh sessionId =>
      intro s₁ h₁ found s₂ hsem _
      refine ⟨fun _ _ => trivial, ?_⟩
      -- what it reads is revoked, and it raises at once
      obtain ⟨record, hr, hne⟩ := h₁ hrev
      obtain rfl : found = some record := hsem.1.trans hr
      have hnone : (some record).filter (·.isActive) = none := by
        simpa [AuthSessionRecord.isActive] using hne
      simp only [Prog.bind, hnone]
      exact fun _ _ _ heff => heff
  · exact rely_of_forall (fun _ _ => trivial) fun _ _ _ h => absurd h hcall

/-- However calls interleave that begin after a session was revoked, it stays so, and no refresh of
it returns, nor does a logout revoke it again. -/
theorem revoked_for_good (ttl : ℤ) (calls : ι → SessionCall) (s : Sessions) (P : SessionPool ι)
    (sessionId : String) (hrev : Revoked sessionId s)
    (hruns : Runs SessionEffect (fun _ _ _ => True) (sessionCalls ttl calls s) P) :
    Revoked sessionId P.state ∧ ∀ i outcome, P.result? i = some outcome →
      (calls i).sessionId = sessionId → ¬ (calls i).Effective outcome := by
  refine ⟨(hruns.no_event rfl sessions_latch hrev).1, fun i outcome hres => ?_⟩
  have hcall := (hruns.rely (by exact fun _ _ _ h h' => h' ∘ h) (by exact fun _ => id)
    (by exact fun _ _ _ _ => sessions_latch.stays) (fun _ _ _ _ _ _ _ => trivial) rfl
    (fun _ _ => trivial) (fun i => call_of_revoked hrev (calls i)) i).2
  rw [result?_eq_some.mp hres] at hcall
  exact hcall P.state id

theorem revoked_for_good_of_both :
    let s := oneSession.revoke "s1" 0
    let calls := pairOfCalls (.logout "s1")
    let P := (sessionCalls 3600 calls s).play smoothly [false, true, false]
    P.result? false = some (.loggedOut false) ∧ Revoked "s1" P.state ∧
      ∀ i outcome, P.result? i = some outcome → (calls i).sessionId = "s1" →
        ¬ (calls i).Effective outcome :=
  ⟨by decide +kernel, revoked_for_good 3600 _ _ _ "s1" ⟨_, rfl, by decide⟩
    (Runs.play effect_smoothly _ .refl Pool.meets_of_forall)⟩

end AutoDev.Auth
