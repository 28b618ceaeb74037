/-
# `AutoDev.Auth.Logins` — pending OIDC logins

`oidc_login_v2`, `_prune_expired_logins` and the state check of
`oidc_callback_v2` in `backend/api/routers/auth_v2.py`.

A login puts its state into a table with a deadline, a callback takes it out
again.  The CALLBACK does not look at the deadline: an overdue entry goes when the
next login prunes the table, and until then it is taken like any other
(`overdue_login_accepted`).

The readings of the clock are any linear order, and `now + 600.0` is a function
on them.  The reading a callback carries is the moment it is served.
-/
import Mathlib.Data.List.Induction
import AutoDev.Lib.Table

namespace AutoDev.Auth

open List

/-! ## The table and the two requests -/

/-- `PkceChallenge`, without the hash of its verifier, which only the provider sees. -/
structure PkceChallenge where
  state : String
  codeVerifier : String
  deriving DecidableEq

structure PendingLogin (T : Type) where
  codeVerifier : String
  returnTo : String
  deadline : T
  deriving DecidableEq

abbrev PendingLogins (T : Type) := Table String (PendingLogin T)

/-- Whether OIDC is configured, and `now + _PENDING_LOGIN_TTL_SECONDS`. -/
structure LoginSettings (T : Type) where
  configured : Bool := true
  deadline : T → T

inductive LoginRequest (T : Type) where
  | login (returnTo : String) (challenge : PkceChallenge) (now : T)
  | callback (code state : String) (now : T)
  deriving DecidableEq

def LoginRequest.now {T : Type} : LoginRequest T → T
  | .login _ _ now | .callback _ _ now => now

def safeReturnTo (returnTo : String) : String :=
  match returnTo.toList with
  | '/' :: '/' :: _ => "/"
  | '/' :: _ => returnTo
  | _ => "/"

section Requests

variable {T : Type} [LinearOrder T] (cfg : LoginSettings T)

variable (pending : PendingLogins T) (now : T)

def expiredLogins : List String :=
  (pending.entries.filter fun e => e.2.deadline ≤ now).map (·.1)

def pruneExpiredLogins : PendingLogins T :=
  (expiredLogins pending now).foldl (fun pending state => pending.erase state) pending

def LoginSettings.entry (returnTo : String) (challenge : PkceChallenge) (now : T) :
    PendingLogin T :=
  ⟨challenge.codeVerifier, safeReturnTo returnTo, cfg.deadline now⟩

def LoginSettings.serve : LoginRequest T → PendingLogins T
  | .login returnTo challenge now =>
    if cfg.configured then
      (pruneExpiredLogins pending now).insert challenge.state (cfg.entry returnTo challenge now)
    else pending
  | .callback _ state _ => pending.erase state

variable (requests : List (LoginRequest T))

/-- The table after some requests, the first one first. -/
def LoginSettings.after : PendingLogins T :=
  requests.foldl cfg.serve ∅

/-- After these requests a callback with this state gets past its state check. -/
def LoginSettings.Proceeds (state : String) : Prop :=
  ∃ entry, (cfg.after requests).lookup state = some entry

/-! ## States used once -/

def LoginRequest.Names (state : String) : LoginRequest T → Prop
  | .login _ challenge _ => challenge.state = state
  | .callback _ state' _ => state' = state

def LoginSettings.IssuedLast (state : String) (issued : T) (since : List (LoginRequest T)) : Prop :=
  cfg.configured = true ∧ (∀ q ∈ since, ¬ q.Names state) ∧ ∃ earlier returnTo challenge,
    requests = earlier ++ .login returnTo challenge issued :: since ∧ challenge.state = state

/-- Whenever a callback gets past its state check, its state was issued before, has not been
presented since, and its deadline is still ahead. -/
def LoginSettings.OnceAndInTime : Prop :=
  ∀ before code state now rest, requests = before ++ .callback code state now :: rest →
    cfg.Proceeds before state →
    ∃ issued since, cfg.IssuedLast before state issued since ∧ now < cfg.deadline issued

/-- Whenever a state is presented when its deadline has passed, a login was served in between when
it had passed already. -/
def LoginSettings.PrunedInTime : Prop :=
  ∀ before code state now rest, requests = before ++ .callback code state now :: rest →
    ∀ issued since, cfg.IssuedLast before state issued since → cfg.deadline issued ≤ now →
      ∃ returnTo challenge t, .login returnTo challenge t ∈ since ∧ cfg.deadline issued ≤ t

end Requests

/-! ## What is in the table -/

section Tables

variable {T : Type} [LinearOrder T] {cfg : LoginSettings T}

omit [LinearOrder T] in
theorem lookup_foldl_erase (state : String) : ∀ (states : List String) (pending : PendingLogins T),
    (states.foldl (fun pending s => pending.erase s) pending).lookup state =
      if state ∈ states then none else pending.lookup state
  | [], pending => by simp
  | s :: states, pending => by
    rw [foldl_cons, lookup_foldl_erase state states]
    by_cases hs : state = s
    · subst hs
      simp
    · simp [hs]

variable {state : String} {requests : List (LoginRequest T)}

theorem mem_expiredLogins {pending : PendingLogins T} {now : T} :
    state ∈ expiredLogins pending now ↔
      ∃ entry, pending.lookup state = some entry ∧ entry.deadline ≤ now := by
  simp only [expiredLogins, mem_map, mem_filter, decide_eq_true_eq]
  constructor
  · rintro ⟨⟨state, entry⟩, ⟨hmem, hle⟩, rfl⟩
    exact ⟨entry, AList.mem_lookup_iff.mpr hmem, hle⟩
  · rintro ⟨entry, hlook, hle⟩
    exact ⟨⟨state, entry⟩, ⟨AList.mem_lookup_iff.mp hlook, hle⟩, rfl⟩

theorem lookup_pruneExpiredLogins {pending : PendingLogins T} {now : T} {entry : PendingLogin T} :
    (pruneExpiredLogins pending now).lookup state = some entry ↔
      pending.lookup state = some entry ∧ now < entry.deadline := by
  rw [pruneExpiredLogins, lookup_foldl_erase]
  split
  · rename_i hmem
    obtain ⟨entry', hlook, hle⟩ := mem_expiredLogins.mp hmem
    rw [hlook]
    constructor
    · rintro ⟨⟩
    · rintro ⟨⟨⟩, hlt⟩
      exact absurd hlt (not_lt.mpr hle)
  · rename_i hmem
    refine ⟨fun hlook => ⟨hlook, ?_⟩, fun h => h.1⟩
    by_contra hle
    exact hmem (mem_expiredLogins.mpr ⟨entry, hlook, not_lt.mp hle⟩)

theorem after_snoc (requests : List (LoginRequest T)) (q : LoginRequest T) :
    cfg.after (requests ++ [q]) = cfg.serve (cfg.after requests) q := by
  simp [LoginSettings.after]

omit [LinearOrder T] in
theorem issuedLast_snoc {q : LoginRequest T} {issued : T} {since : List (LoginRequest T)} :
    cfg.IssuedLast (requests ++ [q]) state issued since ↔
      (cfg.configured = true ∧ since = [] ∧ ∃ returnTo challenge,
        q = .login returnTo challenge issued ∧ challenge.state = state) ∨
      ∃ since', since = since' ++ [q] ∧ ¬ q.Names state ∧
        cfg.IssuedLast requests state issued since' := by
  constructor
  · rintro ⟨hcfg, hnames, earlier, returnTo, challenge, heq, hstate⟩
    rcases eq_nil_or_concat since with rfl | ⟨since', q', hsince⟩
    · obtain ⟨rfl, hq⟩ := append_inj' heq rfl
      exact .inl ⟨hcfg, rfl, returnTo, challenge, singleton_inj.mp hq, hstate⟩
    rw [concat_eq_append] at hsince
    subst hsince
    rw [← cons_append, ← append_assoc] at heq
    obtain ⟨rfl, hq⟩ := append_inj' heq rfl
    obtain rfl := singleton_inj.mp hq
    refine .inr ⟨since', rfl, hnames q (by simp), hcfg, fun r hr => hnames r (by simp [hr]),
      earlier, returnTo, challenge, rfl, hstate⟩
  · rintro (⟨hcfg, rfl, returnTo, challenge, rfl, hstate⟩ |
      ⟨since', rfl, hq, hcfg, hnames, earlier, returnTo, challenge, rfl, hstate⟩)
    · exact ⟨hcfg, by simp, requests, returnTo, challenge, rfl, hstate⟩
    · exact ⟨hcfg, forall_mem_append.mpr ⟨hnames, forall_mem_singleton.mpr hq⟩, earlier, returnTo,
        challenge, by simp, hstate⟩

theorem lookup_after {deadline : T} :
    (∃ entry, (cfg.after requests).lookup state = some entry ∧ entry.deadline = deadline) ↔
      ∃ issued since, cfg.IssuedLast requests state issued since ∧ cfg.deadline issued = deadline ∧
        ∀ returnTo challenge t, .login returnTo challenge t ∈ since → t < deadline := by
  induction requests using reverseRecOn with
  | nil =>
    constructor
    · rintro ⟨entry, hlook, -⟩
      cases hlook
    · rintro ⟨issued, since, ⟨-, -, earlier, returnTo, challenge, heq, -⟩, -⟩
      simp at heq
  | append_singleton requests q ih =>
    rw [after_snoc]
    simp only [issuedLast_snoc]
    cases q with
    | callback code state' now =>
      by_cases hs : state' = state
      · -- presented just now: it is gone
        subst hs
        constructor
        · rintro ⟨entry, hlook, -⟩
          rw [LoginSettings.serve, AList.lookup_erase] at hlook
          cases hlook
        · rintro ⟨issued, since, (⟨-, -, _, _, ⟨⟩, -⟩ | ⟨since', -, hq, -⟩), -⟩
          exact absurd rfl hq
      · rw [LoginSettings.serve, AList.lookup_erase_ne (Ne.symm hs), ih]
        constructor
        · rintro ⟨issued, since, hissued, hdl, hlogins⟩
          refine ⟨issued, since ++ [.callback code state' now],
            .inr ⟨since, rfl, hs, hissued⟩, hdl, fun r c t hmem => ?_⟩
          exact hlogins r c t (by simpa using hmem)
        · rintro ⟨issued, since, (⟨-, -, _, _, ⟨⟩, -⟩ | ⟨since', rfl, -, hissued⟩), hdl, hlogins⟩
          exact ⟨issued, since', hissued, hdl, fun r c t hmem =>
            hlogins r c t (mem_append_left _ hmem)⟩
    | login returnTo challenge now =>
      by_cases hcfg : cfg.configured = true
      · rw [LoginSettings.serve, if_pos hcfg]
        by_cases hs : challenge.state = state
        · -- issued just now
          subst hs
          rw [AList.lookup_insert]
          constructor
          · rintro ⟨entry, ⟨⟩, rfl⟩
            exact ⟨now, [], .inl ⟨hcfg, rfl, returnTo, challenge, rfl, rfl⟩, rfl, by simp⟩
          · rintro ⟨issued, since, (⟨-, -, _, _, ⟨⟩, -⟩ | ⟨since', -, hq, -⟩), hdl, -⟩
            · exact ⟨_, rfl, hdl⟩
            · exact absurd rfl hq
        · rw [AList.lookup_insert_ne (Ne.symm hs)]
          constructor
          · rintro ⟨entry, hlook, rfl⟩
            obtain ⟨hlook, hlt⟩ := lookup_pruneExpiredLogins.mp hlook
            obtain ⟨issued, since, hissued, hdl, hlogins⟩ := ih.mp ⟨entry, hlook, rfl⟩
            refine ⟨issued, since ++ [.login returnTo challenge now],
              .inr ⟨since, rfl, hs, hissued⟩, hdl, fun r c t hmem => ?_⟩
            rcases mem_append.mp hmem with hmem | hmem
            · exact hlogins r c t hmem
            · cases mem_singleton.mp hmem
              exact hlt
          · rintro ⟨issued, since, (⟨-, -, _, _, heq, hst⟩ | ⟨since', rfl, -, hissued⟩), hdl, hlogins⟩
            · cases heq
              exact absurd hst hs
            obtain ⟨entry, hlook, hentry⟩ := ih.mpr ⟨issued, since', hissued, hdl,
              fun r c t hmem => hlogins r c t (mem_append_left _ hmem)⟩
            refine ⟨entry, lookup_pruneExpiredLogins.mpr ⟨hlook, ?_⟩, hentry⟩
            rw [hentry]
            exact hlogins returnTo challenge now (by simp)
      · -- without a provider nothing is ever issued
        rw [LoginSettings.serve, if_neg hcfg, ih]
        constructor
        · rintro ⟨issued, since, hissued, -⟩
          exact absurd hissued.1 hcfg
        · rintro ⟨issued, since, (⟨h, -⟩ | ⟨since', -, -, h, -⟩), -⟩
          · exact absurd h hcfg
          · exact absurd h hcfg

omit [LinearOrder T] in
theorem issuedLast_unique {t t' : T} {since since' : List (LoginRequest T)}
    (h : cfg.IssuedLast requests state t since) (h' : cfg.IssuedLast requests state t' since') :
    t = t' ∧ since = since' := by
  induction requests using reverseRecOn generalizing since since' with
  | nil =>
    obtain ⟨-, -, earlier, returnTo, challenge, heq, -⟩ := h
    simp at heq
  | append_singleton requests q ih =>
    rcases issuedLast_snoc.mp h with ⟨-, rfl, r, c, rfl, hc⟩ | ⟨u, rfl, hq, hu⟩
    · rcases issuedLast_snoc.mp h' with ⟨-, rfl, r', c', heq, -⟩ | ⟨u', -, hq', -⟩
      · cases heq
        exact ⟨rfl, rfl⟩
      · exact absurd hc hq'
    · rcases issuedLast_snoc.mp h' with ⟨-, rfl, r', c', rfl, hc⟩ | ⟨u', rfl, -, hu'⟩
      · exact absurd hc hq
      · obtain ⟨rfl, rfl⟩ := ih hu hu'
        exact ⟨rfl, rfl⟩

end Tables

/-! ## In time -/

/-- For every sequence of requests: a state is accepted only if it was issued, once per login that
issued it and before its deadline, exactly if every state that is presented too late has been
pruned by a login. -/
theorem once_and_in_time_iff {T : Type} [LinearOrder T] (cfg : LoginSettings T)
    (requests : List (LoginRequest T)) :
    cfg.OnceAndInTime requests ↔ cfg.PrunedInTime requests := by
  constructor
  · intro h before code state now rest heq issued since hissued hle
    by_contra hno
    push Not at hno
    -- nothing has pruned it, so it is accepted
    obtain ⟨entry, hlook, -⟩ := lookup_after.mpr ⟨issued, since, hissued, rfl, hno⟩
    obtain ⟨issued', since', hissued', hlt⟩ := h before code state now rest heq ⟨entry, hlook⟩
    obtain ⟨rfl, -⟩ := issuedLast_unique hissued hissued'
    exact absurd hlt (not_lt.mpr hle)
  · rintro h before code state now rest heq ⟨entry, hlook⟩
    obtain ⟨issued, since, hissued, hdl, hlogins⟩ := lookup_after.mp ⟨entry, hlook, rfl⟩
    refine ⟨issued, since, hissued, ?_⟩
    by_contra hle
    obtain ⟨returnTo, challenge, t, hmem, ht⟩ :=
      h before code state now rest heq issued since hissued (not_lt.mp hle)
    rw [hdl] at ht
    exact absurd (hlogins returnTo challenge t hmem) (not_lt.mpr ht)

def tenMinutes : LoginSettings ℕ := { deadline := (· + 600) }

def lateCallback : List (LoginRequest ℕ) :=
  [.login "/" ⟨"s1", "v1"⟩ 0, .callback "c1" "s1" 1000]

/-- The late callback is accepted. -/
theorem overdue_login_accepted :
    (lateCallback.map LoginRequest.now).Pairwise (· ≤ ·) ∧
      tenMinutes.Proceeds (lateCallback.take 1) "s1" ∧ ¬ tenMinutes.OnceAndInTime lateCallback := by
  have hproceeds : tenMinutes.Proceeds (lateCallback.take 1) "s1" := ⟨⟨"v1", "/", 600⟩, by decide⟩
  refine ⟨by decide, hproceeds, fun h => ?_⟩
  obtain ⟨issued, since, ⟨-, -, earlier, returnTo, challenge, heq, -⟩, hlt⟩ :=
    h (lateCallback.take 1) "c1" "s1" 1000 [] rfl hproceeds
  obtain ⟨rfl, hq⟩ : earlier = [] ∧ LoginRequest.login returnTo challenge issued :: since
      = lateCallback.take 1 := by
    cases earlier with
    | nil => exact ⟨rfl, heq.symm⟩
    | cons q earlier => simp [lateCallback] at heq
  cases hq
  exact absurd hlt (by decide)

end AutoDev.Auth
