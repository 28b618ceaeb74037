/-
# `AutoDev.Coordination.Locks` — the in-process lock manager and the Redis one

The leases of `backend/coordination/redis.py`.  Both managers keep under each
key the token of an owner and the end of its lease, so that a `LockTable` is
the state of either.  Of Redis only what is documented is used: a key whose
time has run out does not exist, `SET … NX PX` sets a key that does not exist,
and a script runs in one piece.  What `int(ttl * 1000)` makes of a TTL goes
through a product of doubles and is a parameter, `ms`.

The two read the table differently.  Redis asks for the KEY, and a lease that
has ended is nobody's; `LocalLockLease.renew` and `release` look at the TOKEN
alone and take an ended lease for one that is held.  And Redis counts a lease
in whole milliseconds, at least one, so that a lease may end at another time
there; this shows only if it is left to end.  Nothing else tells the managers
apart (`lock_managers_agree_iff`); with either a lock has one holder at a time.
-/
import AutoDev.Lib.History
import Mathlib.Data.NNRat.Defs
import Mathlib.Tactic.Linarith

namespace AutoDev.Coordination

open History

/-! ## The two kinds of lease -/

def lockKey (name : String) : String := "autodev:locks:" ++ name

structure LockLease where
  name : String
  ttlSeconds : ℚ
  token : String

def LockLease.ttlOr (lease : LockLease) : Option ℚ → ℚ
  | none => lease.ttlSeconds
  | some ttl => if ttl = 0 then lease.ttlSeconds else ttl

/-- Under a key, a token and the end of its lease. -/
abbrev LockTable := String → Option (String × ℚ)

/-- Whose lease an entry is, unless it has ended. -/
def holder (now : ℚ) (entry : Option (String × ℚ)) : Option String :=
  entry.bind fun (token, ends) => if now < ends then some token else none

section Calls

variable (ms : ℚ → ℤ) (lease : LockLease) (now : ℚ) (s : LockTable)

variable (entry : Option (String × ℚ))

/-- The table after the entry of the lease was written or removed. -/
def LockLease.write : LockTable :=
  Function.update s (lockKey lease.name) entry

def LocalLockLease.acquire : Bool × LockTable :=
  if ∃ current ∈ s (lockKey lease.name), current.2 > now then (false, s)
  else (true, lease.write s (some (lease.token, now + lease.ttlSeconds)))

abbrev LocalLockLease.Owns : Prop := ∃ current ∈ s (lockKey lease.name), current.1 = lease.token

def LocalLockLease.ifOwned : Bool × LockTable :=
  if LocalLockLease.Owns lease s then (true, lease.write s entry) else (false, s)

def LocalLockLease.renew (ttlSeconds : Option ℚ) : Bool × LockTable :=
  LocalLockLease.ifOwned lease s (some (lease.token, now + lease.ttlOr ttlSeconds))

def LocalLockLease.release : Bool × LockTable := LocalLockLease.ifOwned lease s none

def ttlMs (ttl : ℚ) : ℤ := max 1 (ms ttl)

def redisGet : Option String := holder now (s (lockKey lease.name))

def RedisLockLease.acquire : Bool × LockTable :=
  if redisGet lease now s = none then
    (true, lease.write s (some (lease.token, now + ttlMs ms lease.ttlSeconds / 1000)))
  else (false, s)

def RedisLockLease.ifOwned : Bool × LockTable :=
  if redisGet lease now s = some lease.token then (true, lease.write s entry) else (false, s)

def RedisLockLease.renew (ttlSeconds : Option ℚ) : Bool × LockTable :=
  RedisLockLease.ifOwned lease now s
    (some (lease.token, now + ttlMs ms (lease.ttlOr ttlSeconds) / 1000))

def RedisLockLease.release : Bool × LockTable := RedisLockLease.ifOwned lease now s none

end Calls

/-! ## Both at once -/

inductive LockMethod where
  | acquire
  | renew (ttlSeconds : Option ℚ)
  | release

def LocalLockLease.answer (lease : LockLease) (now : ℚ) (s : LockTable) :
    LockMethod → Bool × LockTable
  | .acquire => LocalLockLease.acquire lease now s
  | .renew ttl => LocalLockLease.renew lease now s ttl
  | .release => LocalLockLease.release lease s

def RedisLockLease.answer (ms : ℚ → ℤ) (lease : LockLease) (now : ℚ) (s : LockTable) :
    LockMethod → Bool × LockTable
  | .acquire => RedisLockLease.acquire ms lease now s
  | .renew ttl => RedisLockLease.renew ms lease now s ttl
  | .release => RedisLockLease.release lease now s

inductive LockEvent where
  | wait (d : ℚ≥0)
  | call (lease : LockLease) (method : LockMethod)

structure AskedLease where
  token : String
  begun : ℚ
  ttl : ℚ

def AskedLease.inProcess (l : AskedLease) : String × ℚ := (l.token, l.begun + l.ttl)

def AskedLease.redis (ms : ℚ → ℤ) (l : AskedLease) : String × ℚ :=
  (l.token, l.begun + ttlMs ms l.ttl / 1000)

/-- What a call asks for that is granted; a release asks for none. -/
def LockLease.asks (lease : LockLease) (now : ℚ) : LockMethod → Option AskedLease
  | .acquire => some ⟨lease.token, now, lease.ttlSeconds⟩
  | .renew ttl => some ⟨lease.token, now, lease.ttlOr ttl⟩
  | .release => none

/-- The two tables, whether the last answers were the same, what was asked for under each key, and
the time from the last event, `since`, to the present one, `now`. -/
structure LockManagers where
  since : ℚ := 0
  now : ℚ := 0
  inProcess : LockTable := fun _ => none
  redis : LockTable := fun _ => none
  asked : String → Option AskedLease := fun _ => none
  sameAnswer : Bool := true

section Managers

variable (ms : ℚ → ℤ)

def LockManagers.step (s : LockManagers) : LockEvent → LockManagers
  | .wait d => { s with since := s.now, now := s.now + d, sameAnswer := true }
  | .call lease method =>
    let x := LocalLockLease.answer lease s.now s.inProcess method
    let y := RedisLockLease.answer ms lease s.now s.redis method
    { since := s.now, now := s.now, inProcess := x.2, redis := y.2,
      asked := if x.1 then
          Function.update s.asked (lockKey lease.name) (lease.asks s.now method)
        else s.asked,
      sameAnswer := x.1 == y.1 }

/-- The last answers were the same, and so were the holders ever since. -/
def LockManagers.Agree (s : LockManagers) : Prop :=
  s.sameAnswer = true ∧ ∀ key t, s.since ≤ t → t ≤ s.now →
    holder t (s.inProcess key) = holder t (s.redis key)

/-- Redis keeps a lease for as long as it is asked to. -/
def Exact (ttl : ℚ) : Prop := ttl = ttlMs ms ttl / 1000

def AskedLease.firstEnd (l : AskedLease) : ℚ := l.begun + min l.ttl (ttlMs ms l.ttl / 1000)

def LockLease.Live (lease : LockLease) (now : ℚ) (s : LockTable) : Prop :=
  ∀ ends, s (lockKey lease.name) = some (lease.token, ends) → now < ends

/-- A lease that Redis does not keep for as long as it was asked to is not left to end; TTLs are
positive; and no lease is renewed or released after it has ended. -/
def LockManagers.Fits (s : LockManagers) : LockEvent → Prop
  | .wait d => ∀ key, ∀ l ∈ s.asked key, Exact ms l.ttl ∨ s.now + d < l.firstEnd ms
  | .call lease .acquire => redisGet lease s.now s.inProcess = none → 0 < lease.ttlSeconds
  | .call lease (.renew ttl) => lease.Live s.now s.inProcess ∧
      (LocalLockLease.Owns lease s.inProcess → 0 < lease.ttlOr ttl)
  | .call lease .release => lease.Live s.now s.inProcess

/-! ## What tells them apart -/

/-- As long as the managers agree, both have what was asked for. -/
structure LockManagers.Kept (s : LockManagers) : Prop where
  inProcess : ∀ key, s.inProcess key = (s.asked key).map AskedLease.inProcess
  redis : ∀ key, s.redis key = (s.asked key).map (AskedLease.redis ms)
  timely : ∀ key, ∀ l ∈ s.asked key, Exact ms l.ttl ∨ s.now < l.firstEnd ms

end Managers

section Step

variable {ms : ℚ → ℤ} {now : ℚ} {s r : LockTable} {lease : LockLease}

theorem ttlMs_pos (ms : ℚ → ℤ) (ttl : ℚ) : (0 : ℚ) < ttlMs ms ttl / 1000 := by
  have h : (1 : ℚ) ≤ ttlMs ms ttl := by exact_mod_cast le_max_left _ _
  linarith

theorem holder_some (token : String) (ends : ℚ) :
    holder now (some (token, ends)) = if now < ends then some token else none := rfl

theorem held_iff : (∃ current ∈ s (lockKey lease.name), current.2 > now) ↔
    redisGet lease now s ≠ none := by
  rcases h : s (lockKey lease.name) with _ | ⟨token, ends⟩ <;> simp [redisGet, h, holder]

theorem redisGet_iff : redisGet lease now s = some lease.token ↔
    LocalLockLease.Owns lease s ∧ lease.Live now s := by
  rcases h : s (lockKey lease.name) with _ | ⟨token, ends⟩
  · simp [redisGet, h, holder, LocalLockLease.Owns]
  · by_cases htoken : token = lease.token
    · simp [redisGet, h, holder, LocalLockLease.Owns, LockLease.Live, htoken]
    · simp [redisGet, h, holder, LocalLockLease.Owns, htoken]

theorem live_of_not_owns (h : ¬ LocalLockLease.Owns lease s) : lease.Live now s :=
  fun _ hentry => absurd ⟨_, hentry, rfl⟩ h

/-- A lease that is not over at `now` shows no difference until `t` exactly if it is kept as long
as it was asked for, or `t` is before the first of its two ends. -/
theorem holder_until_iff {l : AskedLease} {t : ℚ} (h : Exact ms l.ttl ∨ now < l.firstEnd ms) :
    (∀ u, now ≤ u → u ≤ t → holder u (some l.inProcess) = holder u (some (l.redis ms))) ↔
      Exact ms l.ttl ∨ t < l.firstEnd ms := by
  constructor
  · intro hall
    by_contra hnot
    obtain ⟨hne, hle⟩ := not_or.mp hnot
    have hend := hall (l.firstEnd ms) (h.resolve_left hne).le (not_lt.mp hle)
    simp only [AskedLease.inProcess, AskedLease.redis, holder_some] at hend
    unfold AskedLease.firstEnd at hend
    rcases lt_or_gt_of_ne hne with hlt | hgt
    · rw [min_eq_left hlt.le, if_neg (lt_irrefl _), if_pos (by linarith)] at hend
      cases hend
    · rw [min_eq_right hgt.le, if_neg (lt_irrefl (l.begun + _)), if_pos (by linarith)] at hend
      cases hend
  · rintro (hexact | hlt) u - hu
    · rw [AskedLease.inProcess, AskedLease.redis, ← hexact]
    · unfold AskedLease.firstEnd at hlt
      have hmin := min_le_left l.ttl (ttlMs ms l.ttl / 1000 : ℚ)
      have hmin' := min_le_right l.ttl (ttlMs ms l.ttl / 1000 : ℚ)
      rw [AskedLease.inProcess, AskedLease.redis, holder_some, holder_some,
        if_pos (by linarith), if_pos (by linarith)]

theorem holders_write (h : ∀ key, holder now (s key) = holder now (r key))
    (x y : Option (String × ℚ)) :
    (∀ key t, now ≤ t → t ≤ now → holder t (lease.write s x key) = holder t (lease.write r y key)) ↔
      holder now x = holder now y := by
  constructor
  · intro h'
    simpa [LockLease.write] using h' (lockKey lease.name) now le_rfl le_rfl
  intro h' key t ht ht'
  obtain rfl := le_antisymm ht ht'
  by_cases hk : key = lockKey lease.name
  · subst hk
    simpa [LockLease.write] using h'
  · simpa [LockLease.write, hk] using h key

theorem holder_begin_iff (ms : ℚ → ℤ) (token : String) (ttl : ℚ) :
    holder now (some (token, now + ttl)) = holder now (some (token, now + ttlMs ms ttl / 1000)) ↔
      0 < ttl := by
  have hpos := ttlMs_pos ms ttl
  rw [holder_some, holder_some, if_pos (show now < now + ttlMs ms ttl / 1000 by linarith)]
  by_cases h : 0 < ttl
  · simp [h]
  · simp [h]

theorem LocalLockLease.answer_cases (lease : LockLease) (now : ℚ) (s : LockTable)
    (method : LockMethod) : LocalLockLease.answer lease now s method = (false, s) ∨
      LocalLockLease.answer lease now s method =
        (true, lease.write s ((lease.asks now method).map AskedLease.inProcess)) := by
  cases method <;> simp only [LocalLockLease.answer, acquire, renew, release, ifOwned] <;>
    split_ifs
  all_goals first | exact .inl rfl | exact .inr rfl

theorem LockLease.write_map {asked : String → Option AskedLease} {f : AskedLease → String × ℚ}
    (h : ∀ key, s key = (asked key).map f) (lease : LockLease) (l : Option AskedLease)
    (key : String) : lease.write s (l.map f) key =
      (Function.update asked (lockKey lease.name) l key).map f := by
  unfold LockLease.write
  rw [Function.update_apply, Function.update_apply]
  split_ifs
  · rfl
  · exact h key

theorem LockLease.begun_of_asks {method : LockMethod} {l : AskedLease}
    (h : lease.asks now method = some l) : l.begun = now := by
  cases method <;> cases h <;> rfl

theorem RedisLockLease.answer_cases (ms : ℚ → ℤ) (lease : LockLease) (now : ℚ) (s : LockTable)
    (method : LockMethod) : RedisLockLease.answer ms lease now s method = (false, s) ∨
      RedisLockLease.answer ms lease now s method =
        (true, lease.write s ((lease.asks now method).map (AskedLease.redis ms))) := by
  cases method <;> simp only [RedisLockLease.answer, acquire, renew, release, ifOwned] <;>
    split_ifs
  all_goals first | exact .inl rfl | exact .inr rfl

end Step

section Agreement

variable {ms : ℚ → ℤ} {s : LockManagers}

theorem LockManagers.Kept.holder_eq (hs : s.Kept ms) (key : String) :
    holder s.now (s.inProcess key) = holder s.now (s.redis key) := by
  rw [hs.inProcess, hs.redis]
  rcases hkey : s.asked key with _ | l
  · rfl
  · exact (holder_until_iff (hs.timely key l hkey)).mpr (hs.timely key l hkey) _ le_rfl le_rfl

theorem LockManagers.Kept.call_iff (hs : s.Kept ms) (lease : LockLease) (method : LockMethod) :
    (s.step ms (.call lease method)).Agree ↔ s.Fits ms (.call lease method) := by
  have hget : redisGet lease s.now s.redis = redisGet lease s.now s.inProcess :=
    (hs.holder_eq _).symm
  have hmine : redisGet lease s.now s.redis = some lease.token ↔
      LocalLockLease.Owns lease s.inProcess ∧ lease.Live s.now s.inProcess := by
    rw [hget, redisGet_iff]
  have hsame : ∀ key t, s.now ≤ t → t ≤ s.now →
      holder t (s.inProcess key) = holder t (s.redis key) := fun key t ht ht' =>
    le_antisymm ht ht' ▸ hs.holder_eq key
  -- a write that each manager makes only for the owner
  have howned : ∀ x y : Option (String × ℚ),
      (((LocalLockLease.ifOwned lease s.inProcess x).1 ==
          (RedisLockLease.ifOwned lease s.now s.redis y).1) = true ∧
        ∀ key t, s.now ≤ t → t ≤ s.now →
          holder t ((LocalLockLease.ifOwned lease s.inProcess x).2 key) =
            holder t ((RedisLockLease.ifOwned lease s.now s.redis y).2 key)) ↔
      lease.Live s.now s.inProcess ∧
        (LocalLockLease.Owns lease s.inProcess → holder s.now x = holder s.now y) := by
    intro x y
    unfold LocalLockLease.ifOwned RedisLockLease.ifOwned
    by_cases hown : LocalLockLease.Owns lease s.inProcess
    · by_cases hlive : lease.Live s.now s.inProcess
      · simp only [hown, hlive, hmine.mpr ⟨hown, hlive⟩, if_true, beq_self_eq_true, true_and,
          forall_const]
        exact holders_write hs.holder_eq x y
      · simp [hown, hlive, mt hmine.mp fun h => hlive h.2]
    · simpa [hown, live_of_not_owns hown, mt hmine.mp fun h => hown h.1] using hsame
  cases method with
  | acquire =>
    simp only [step, Agree, Fits, LocalLockLease.answer, RedisLockLease.answer,
      LocalLockLease.acquire, RedisLockLease.acquire, hget, held_iff]
    by_cases hfree : redisGet lease s.now s.inProcess = none
    · simp only [hfree, ne_eq, not_true_eq_false, if_false, if_true, beq_self_eq_true, true_and,
        forall_const]
      rw [holders_write hs.holder_eq, holder_begin_iff]
    · simpa [hfree] using hsame
  | renew ttl =>
    refine (howned _ _).trans (and_congr_right fun _ => imp_congr_right fun _ => ?_)
    exact holder_begin_iff ms lease.token _
  | release => exact (howned _ _).trans (and_iff_left fun _ => rfl)

theorem LockManagers.Kept.step_iff (hs : s.Kept ms) (e : LockEvent) :
    (s.step ms e).Agree ↔ s.Fits ms e := by
  cases e with
  | call lease method => exact hs.call_iff lease method
  | wait d =>
    simp only [step, Agree, Fits, true_and, hs.inProcess, hs.redis]
    refine forall_congr' fun key => ?_
    rcases hkey : s.asked key with _ | l
    · simp
    · simp only [Option.map_some, Option.mem_def, Option.some.injEq, forall_eq']
      exact holder_until_iff (hs.timely key l hkey)

theorem LockManagers.Kept.step (hs : s.Kept ms) (e : LockEvent) (hagree : (s.step ms e).Agree) :
    (s.step ms e).Kept ms := by
  have hfits := (hs.step_iff e).mp hagree
  cases e with
  | wait d => exact ⟨hs.inProcess, hs.redis, hfits⟩
  | call lease method =>
    have hanswer := hagree.1
    unfold LockManagers.step at hagree hanswer ⊢
    rcases LocalLockLease.answer_cases lease s.now s.inProcess method with hx | hx <;>
      rcases RedisLockLease.answer_cases ms lease s.now s.redis method with hy | hy <;>
      simp only [hx, hy, Bool.false_eq_true, if_true, if_false] at hagree hanswer ⊢
    · exact ⟨hs.inProcess, hs.redis, hs.timely⟩
    · cases hanswer
    · cases hanswer
    -- both have granted it: the lease that begins is held in both, so that its TTL is positive
    have hinProcess := lease.write_map hs.inProcess (lease.asks s.now method)
    have hredis := lease.write_map hs.redis (lease.asks s.now method)
    refine ⟨hinProcess, hredis, fun key l hl => ?_⟩
    have hheld := hagree.2 key s.now le_rfl le_rfl
    simp only [Option.mem_def] at hl
    simp only [hinProcess, hredis, hl] at hheld
    rw [Function.update_apply] at hl
    split_ifs at hl
    · simp only [Option.map_some, AskedLease.inProcess, AskedLease.redis,
        LockLease.begun_of_asks hl] at hheld
      have hpos := (holder_begin_iff ms l.token l.ttl).mp hheld
      right
      rw [AskedLease.firstEnd, LockLease.begun_of_asks hl]
      exact lt_add_of_pos_right _ (lt_min hpos (ttlMs_pos ms l.ttl))
    · exact hs.timely key l hl

end Agreement

/-- The managers answer alike and agree on the holders at all times along exactly those histories
in which every event fits. -/
theorem lock_managers_agree_iff (ms : ℚ → ℤ) (events : List LockEvent) :
    Throughout (LockManagers.step ms) LockManagers.Agree {} events ↔
      Meets (LockManagers.step ms) (LockManagers.Fits ms) {} events :=
  throughout_iff_meets (J := LockManagers.Kept ms) (A := fun _ => True)
    (fun _ e hs _ hagree => hs.step e hagree) (fun _ e hs _ _ => hs.step_iff e)
    (fun _ _ => trivial) ⟨fun _ => rfl, fun _ => rfl, fun _ _ h => by cases h⟩
    ⟨rfl, fun _ _ _ _ => rfl⟩

/-- A lease of one second is renewed after two: in process that succeeds. -/
theorem ended_lease_renewed :
    ¬ Throughout (LockManagers.step fun ttl => (ttl * 1000).floor) LockManagers.Agree {}
      [.call ⟨"repo", 1, "a"⟩ .acquire, .wait 2, .call ⟨"repo", 1, "a"⟩ (.renew none)] := by
  intro h
  have hrenewed := h.2.2.2.1
  revert hrenewed
  decide +kernel

/-! ## Exclusion

A client goes by the end of the lease it was last granted, and not by the table.  In process
`acquire` reads the clock BEFORE it waits for the mutex, so that its time may lie back. -/

structure LockCall where
  wait : ℚ≥0
  lease : LockLease
  method : LockMethod

inductive LockManager where
  | inProcess
  | redis

/-- The answer to a call, and the table after it; `lag` is the wait for the mutex. -/
def LockManager.answer (ms : ℚ → ℤ) (lease : LockLease) (now : ℚ) (lag : ℚ≥0) (s : LockTable) :
    LockManager → LockMethod → Bool × LockTable
  | .inProcess, .acquire => LocalLockLease.acquire lease (now - lag) s
  | .inProcess, method => LocalLockLease.answer lease now s method
  | .redis, method => RedisLockLease.answer ms lease now s method

/-- The clock, the table, and by name and token the end of the lease last granted. -/
structure LockClients where
  now : ℚ := 0
  table : LockTable := fun _ => none
  ends : String × String → Option ℚ := fun _ => none

def LockClients.step (ms : ℚ → ℤ) (manager : LockManager) (s : LockClients)
    (c : LockCall × ℚ≥0) : LockClients :=
  let lease := c.1.lease
  let now := s.now + c.1.wait
  let r := manager.answer ms lease now c.2 s.table c.1.method
  let granted := (r.2 (lockKey lease.name)).map Prod.snd
  ⟨now, r.2, if r.1 then Function.update s.ends (lease.name, lease.token) granted else s.ends⟩

/-- No two clients have the same lock at once. -/
def LockClients.Exclusive (s : LockClients) : Prop :=
  ∀ name a b, ∀ d ∈ s.ends (name, a), ∀ e ∈ s.ends (name, b), s.now < d → s.now < e → a = b

/-- A lease that has not ended stands in the table. -/
def LockClients.Sound (s : LockClients) : Prop :=
  ∀ name token, ∀ d ∈ s.ends (name, token), s.now < d → s.table (lockKey name) = some (token, d)

theorem LockManager.answer_cases (ms : ℚ → ℤ) (manager : LockManager) (lease : LockLease)
    (now : ℚ) (lag : ℚ≥0) (s : LockTable) (method : LockMethod) :
    manager.answer ms lease now lag s method = (false, s) ∨
      ∃ entry, manager.answer ms lease now lag s method = (true, lease.write s entry) ∧
        (∀ x ∈ entry, x.1 = lease.token) ∧
        ∀ x ∈ s (lockKey lease.name), now < x.2 → x.1 = lease.token := by
  have hlag : now - lag ≤ now := sub_le_self _ lag.2
  have hheld := @held_iff now s lease
  have howns := @redisGet_iff now s lease
  cases manager <;> cases method <;>
    simp only [answer, LocalLockLease.answer, RedisLockLease.answer, LocalLockLease.acquire,
      LocalLockLease.renew, LocalLockLease.release, LocalLockLease.ifOwned, RedisLockLease.acquire, RedisLockLease.renew,
      RedisLockLease.release, RedisLockLease.ifOwned] <;> split_ifs with h
  all_goals first | exact .inl rfl | exact .inr ⟨_, rfl, by simp, by grind [Option.mem_def]⟩

theorem LockClients.Sound.step {s : LockClients} (hs : s.Sound) (ms : ℚ → ℤ)
    (manager : LockManager) (c : LockCall × ℚ≥0) : (s.step ms manager c).Sound := by
  intro name token d hd hlt
  have hold := fun h => hs name token d h ((le_add_of_nonneg_right c.1.wait.2).trans_lt hlt)
  rcases manager.answer_cases ms c.1.lease (s.now + c.1.wait) c.2 s.table c.1.method with
    hr | ⟨entry, hr, hentry, hfree⟩
  · simp only [LockClients.step, hr] at hd ⊢
    exact hold hd
  have hkey : lockKey name = lockKey c.1.lease.name ↔ name = c.1.lease.name := by simp [lockKey]
  simp only [LockClients.step, hr, LockLease.write, if_true, Function.update_apply, hkey,
    Prod.mk.injEq] at hd hlt ⊢
  split_ifs at hd with hmine
  · obtain ⟨x, hx, rfl⟩ := Option.map_eq_some_iff.mp hd
    rw [if_pos hmine.1, hx, hmine.2, ← hentry x hx]
  · have hname : name ≠ c.1.lease.name := fun h =>
      hmine ⟨h, hfree (token, d) (h ▸ hold hd) hlt⟩
    rw [if_neg hname, hold hd]

/-- Whatever the clients call and however long they wait for the mutex, a lock has at most one
holder at a time. -/
theorem one_holder_at_a_time (ms : ℚ → ℤ) (manager : LockManager)
    (calls : List (LockCall × ℚ≥0)) :
    Throughout (LockClients.step ms manager) LockClients.Exclusive {} calls := by
  have hsound : Throughout (LockClients.step ms manager) LockClients.Sound {} calls :=
    throughout_of_meets (C := fun _ _ => True) (fun _ c hs _ => hs.step ms manager c)
      (fun _ _ _ h => by cases h) (meets_of_forall fun _ _ _ => trivial)
  refine hsound.imp fun s hs name a b d ha e hb hd he => ?_
  cases (hs name a d ha hd).symm.trans (hs name b e hb he)
  rfl

end AutoDev.Coordination
