/-
# `AutoDev.Quotas.Leases` — the ceiling of concurrent run leases

A tenant's leases that are unreleased and unexpired must never be more than
its `max_concurrent_runs`.  Leases die by the clock alone, so the state here
is the store WITH the clock, and time passing is an operation.

A heartbeat does not keep the ceiling: `heartbeat_run_lease` forgets to ask that
the lease is unexpired, and revives a lease whose slot was given away.
-/
import AutoDev.Lib.History
import AutoDev.Quotas.Store
import Mathlib.Data.NNRat.Defs

namespace AutoDev.Quotas

open History

structure LeaseClock where
  now : ℚ := 0
  store : QuotaStore := {}

inductive LeaseOp where
  /-- Nothing happens for some time. -/
  | wait (seconds : ℚ≥0)
  /-- `acquire_run_lease`; some time passes between its two clock readings. -/
  | acquire (tenantId runId : String) (maxConcurrentRuns : ℕ) (leaseSeconds : ℤ) (lag : ℚ≥0)
  | heartbeat (runId : String) (leaseSeconds : ℤ)
  | release (runId : String)

def LeaseClock.step (s : LeaseClock) : LeaseOp → LeaseClock
  | .wait seconds => { s with now := s.now + seconds }
  | .acquire tenantId runId maxConcurrentRuns leaseSeconds lag =>
    { now := s.now + lag
      store := (s.store.acquireRunLease tenantId runId maxConcurrentRuns leaseSeconds
        s.now (s.now + lag)).1 }
  | .heartbeat runId leaseSeconds =>
    { s with store := (s.store.heartbeatRunLease runId leaseSeconds s.now).1 }
  | .release runId => { s with store := s.store.releaseRunLease runId s.now }

variable (tenantId : String) (m : ℕ)

def WithinCeiling (s : LeaseClock) : Prop :=
  s.store.countActiveLeases tenantId s.now ≤ m

instance (tenantId : String) (m : ℕ) : DecidablePred (WithinCeiling tenantId m) :=
  fun _ => inferInstanceAs (Decidable (_ ≤ _))

/-- The tenant is always admitted against the ceiling `m`. -/
def LeaseOp.Fixed : LeaseOp → Prop
  | .acquire t _ m' _ _ => t = tenantId → m' = m
  | _ => True

instance (tenantId : String) (m : ℕ) : DecidablePred (LeaseOp.Fixed tenantId m)
  | .acquire .. => inferInstanceAs (Decidable (_ → _))
  | .wait _ | .heartbeat .. | .release _ => inferInstanceAs (Decidable True)

/-- The lease is unreleased and past its expiry. -/
def RunLease.Lapsed (l : RunLease) (now : ℤ) : Prop := l.releasedAt = none ∧ l.expiresAt ≤ now

instance (l : RunLease) (now : ℤ) : Decidable (l.Lapsed now) :=
  inferInstanceAs (Decidable (_ ∧ _))

/-- A heartbeat that carries a lapsed lease of the tenant past the present finds a free slot. -/
def RevivesOnlyIntoFreeSlot (s : LeaseClock) : LeaseOp → Prop
  | .heartbeat runId leaseSeconds =>
    ∀ l ∈ s.store.leases.lookup runId, l.tenantId = tenantId → l.Lapsed (iso s.now) →
      iso s.now < iso (s.now + leaseSeconds) → s.store.countActiveLeases tenantId s.now < m
  | _ => True

instance (tenantId : String) (m : ℕ) (s : LeaseClock) :
    DecidablePred (RevivesOnlyIntoFreeSlot tenantId m s) := fun o => by
  unfold RevivesOnlyIntoFreeSlot
  cases o <;> infer_instance

/-! ## Counting -/

namespace RunLease

variable (l : RunLease) (tenantId : String) (runId : String)

theorem tally_le_one (now : ℤ) : l.tally tenantId now runId ≤ 1 := by
  unfold tally
  split_ifs <;> omega

theorem tally_anti {now now' : ℤ} (hle : now ≤ now') :
    l.tally tenantId now' runId ≤ l.tally tenantId now runId := by
  unfold tally
  split_ifs with h' h
  · exact le_rfl
  · exact absurd ⟨h'.1, h'.2.1, lt_of_le_of_lt hle h'.2.2⟩ h
  · exact Nat.zero_le _
  · exact le_rfl

variable {l tenantId} {now : ℤ}

theorem tally_eq_zero (h : l.tenantId = tenantId → ¬ l.Active now) :
    l.tally tenantId now runId = 0 :=
  if_neg fun h' => h h'.1 h'.2

theorem tally_eq_one (ht : l.tenantId = tenantId) (h : l.Active now) :
    l.tally tenantId now runId = 1 :=
  if_pos ⟨ht, h⟩

end RunLease

theorem total_tally_anti (tenantId : String) {now now' : ℤ} (hle : now ≤ now')
    (t : Table String RunLease) :
    t.total (RunLease.tally tenantId now') ≤ t.total (RunLease.tally tenantId now) :=
  Table.total_le_total (fun runId l => l.tally_anti tenantId runId hle) t

/-! ## One operation -/

variable {tenantId : String} {m : ℕ} {s : LeaseClock}

section

variable (h : WithinCeiling tenantId m s)
include h

theorem withinCeiling_wait {seconds : ℚ≥0} :
    WithinCeiling tenantId m (s.step (.wait seconds)) := by
  have hle : iso s.now ≤ iso (s.now + seconds) := iso_mono (by simp)
  exact (total_tally_anti tenantId hle s.store.leases).trans h

variable {runId : String} {leaseSeconds : ℤ}

theorem withinCeiling_acquire {t : String} {m' : ℕ} {lag : ℚ≥0} (hm : t = tenantId → m' = m) :
    WithinCeiling tenantId m (s.step (.acquire t runId m' leaseSeconds lag)) := by
  have hle : iso s.now ≤ iso (s.now + lag) := iso_mono (by simp)
  have hsame : s.store.leases.total (RunLease.tally tenantId (iso (s.now + lag))) ≤ m :=
    (total_tally_anti tenantId hle _).trans h
  unfold WithinCeiling LeaseClock.step QuotaStore.acquireRunLease
  dsimp only
  split
  · exact hsame
  split_ifs with hfull
  · exact hsame
  -- the run has no lease, or one that is released or lapsed and is overwritten
  show Table.total _ (s.store.leases.insert runId _) ≤ m
  rw [Table.total_insert]
  by_cases ht : t = tenantId
  · subst ht
    rw [hm rfl] at hfull
    have hrest := total_tally_anti t hle (s.store.leases.erase runId)
    have hone := RunLease.tally_le_one ⟨t, iso (s.now + lag + leaseSeconds), none⟩ t runId
      (iso (s.now + lag))
    omega
  · rw [RunLease.tally_eq_zero runId fun h' => absurd h' ht, Nat.zero_add]
    have hsplit := Table.total_split (f := RunLease.tally tenantId (iso (s.now + lag)))
      s.store.leases runId
    omega

/-- A write of one row keeps the ceiling if the row does not count for more, or a slot is free. -/
theorem withinCeiling_modify {f : RunLease → RunLease}
    (hf : ∀ l ∈ s.store.leases.lookup runId,
      (f l).tally tenantId (iso s.now) runId ≤ l.tally tenantId (iso s.now) runId ∨
      s.store.countActiveLeases tenantId s.now < m) :
    (s.store.leases.modify runId f).total (RunLease.tally tenantId (iso s.now)) ≤ m := by
  have h' : s.store.leases.total (RunLease.tally tenantId (iso s.now)) ≤ m := h
  rcases hl : s.store.leases.lookup runId with _ | l
  · rw [Table.modify_of_none hl]
    exact h'
  rw [Table.modify_of_some hl, Table.total_insert]
  have hsplit := Table.total_of_some (f := RunLease.tally tenantId (iso s.now)) hl
  rcases hf l hl with hle | hlt
  · omega
  · have hlt' : s.store.leases.total (RunLease.tally tenantId (iso s.now)) < m := hlt
    have hone := (f l).tally_le_one tenantId runId (iso s.now)
    omega

theorem withinCeiling_release :
    WithinCeiling tenantId m (s.step (.release runId)) := by
  refine withinCeiling_modify h fun l _ => Or.inl ?_
  unfold RunLease.release
  split_ifs with hr
  · rw [RunLease.tally_eq_zero runId fun _ ha => by cases ha.1]
    exact Nat.zero_le _
  · exact le_rfl

theorem withinCeiling_heartbeat
    (hfree : RevivesOnlyIntoFreeSlot tenantId m s (.heartbeat runId leaseSeconds)) :
    WithinCeiling tenantId m (s.step (.heartbeat runId leaseSeconds)) := by
  refine withinCeiling_modify h fun l hl => ?_
  unfold RunLease.extend
  split_ifs with hr
  swap
  · exact Or.inl le_rfl
  by_cases ht : l.tenantId = tenantId
  swap
  · have hother : ({ l with expiresAt := iso (s.now + leaseSeconds) } : RunLease).tenantId
        ≠ tenantId := ht
    exact Or.inl ((RunLease.tally_eq_zero runId (absurd · hother)).trans_le (Nat.zero_le _))
  by_cases hpast : iso s.now < iso (s.now + leaseSeconds)
  swap
  · exact Or.inl ((RunLease.tally_eq_zero runId fun _ ha => hpast ha.2).trans_le (Nat.zero_le _))
  rcases lt_or_ge (iso s.now) l.expiresAt with hlive | hlapsed
  · -- the lease is counted already
    rw [RunLease.tally_eq_one runId ht ⟨hr, hlive⟩]
    exact Or.inl (RunLease.tally_le_one _ _ runId _)
  · exact Or.inr (hfree l hl ht ⟨hr, hlapsed⟩ hpast)

end

theorem withinCeiling_step (s : LeaseClock) (o : LeaseOp) (h : WithinCeiling tenantId m s)
    (ho : o.Fixed tenantId m ∧ RevivesOnlyIntoFreeSlot tenantId m s o) :
    WithinCeiling tenantId m (s.step o) := by
  cases o with
  | wait seconds => exact withinCeiling_wait h
  | acquire t runId m' leaseSeconds lag => exact withinCeiling_acquire h ho.1
  | heartbeat runId leaseSeconds => exact withinCeiling_heartbeat h ho.2
  | release runId => exact withinCeiling_release h

theorem freeSlot_of_withinCeiling (s : LeaseClock) (o : LeaseOp)
    (h : WithinCeiling tenantId m (s.step o)) : RevivesOnlyIntoFreeSlot tenantId m s o := by
  cases o with
  | wait | acquire | release => trivial
  | heartbeat runId leaseSeconds =>
    intro l hl ht hlapsed hpast
    have hbound : (s.store.leases.modify runId (.extend (iso (s.now + leaseSeconds)))).total
        (RunLease.tally tenantId (iso s.now)) ≤ m := h
    have hrevived : (l.extend (iso (s.now + leaseSeconds))).tally tenantId (iso s.now) runId
        = 1 := by
      rw [RunLease.extend, if_pos hlapsed.1]
      exact RunLease.tally_eq_one runId ht ⟨hlapsed.1, hpast⟩
    have hbefore : l.tally tenantId (iso s.now) runId = 0 :=
      RunLease.tally_eq_zero runId fun _ ha => absurd ha.2 (not_lt.mpr hlapsed.2)
    rw [Table.modify_of_some hl, Table.total_insert, hrevived] at hbound
    show s.store.leases.total (RunLease.tally tenantId (iso s.now)) < m
    rw [Table.total_of_some hl, hbefore]
    omega

/-! ## Whole histories -/

/-- From an empty store the ceiling holds at every instant exactly if no heartbeat revives a
lapsed lease of the tenant while its slots are taken. -/
theorem concurrency_ceiling_iff (tenantId : String) (m : ℕ) (start : ℚ) (ops : List LeaseOp)
    (hfixed : ∀ o ∈ ops, o.Fixed tenantId m) :
    Throughout LeaseClock.step (WithinCeiling tenantId m) { now := start } ops ↔
      Meets LeaseClock.step (RevivesOnlyIntoFreeSlot tenantId m) { now := start } ops := by
  constructor
  · intro h
    exact h.meets fun s o _ h' => freeSlot_of_withinCeiling s o h'
  · intro h
    have hfix : Meets LeaseClock.step (fun _ o => o.Fixed tenantId m) { now := start } ops :=
      meets_of_forall fun o ho _ => hfixed o ho
    exact throughout_of_meets withinCeiling_step (Nat.zero_le m) (hfix.and h)

theorem concurrency_ceiling_acme :
    Throughout LeaseClock.step (WithinCeiling "acme" 2) {}
      [.acquire "acme" "run-1" 2 90 0, .wait 60, .heartbeat "run-1" 90, .wait 60,
        .acquire "acme" "run-2" 2 90 0, .release "run-1"] :=
  (concurrency_ceiling_iff "acme" 2 0 _ (by decide +kernel)).mpr (by decide +kernel)

/-- One slot: the first lease lapses, the second run takes the slot, and a late heartbeat of
the first run revives its lease. -/
theorem heartbeat_revives_lapsed :
    ¬ Throughout LeaseClock.step (WithinCeiling "acme" 1) {}
      [.acquire "acme" "run-1" 1 90 0, .wait 100, .acquire "acme" "run-2" 1 90 0,
        .heartbeat "run-1" 90] := by
  decide +kernel

end AutoDev.Quotas
