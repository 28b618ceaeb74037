/-
# `AutoDev.Quotas.Store` — run leases and storage reservations

The tables `run_leases` and `storage_reservations` of `backend/quotas/store.py`
and the transactions over them.  Each method is one transaction (`BEGIN
IMMEDIATE` … `COMMIT`), so each is a function from the store to the store and
its result; what it reads from the clock is an argument.

Instants are stored as ISO-8601 texts, which hold microseconds and compare as
the instants they denote; here such a text is the number of microseconds.
`time.time()` is finer than that, so `iso` ROUNDS, and the two comparisons of
`acquire_run_lease` are not the same: one parses the text and compares with
the clock, the other compares texts.
-/
import AutoDev.Lib.Table
import Mathlib.Data.Rat.Floor

namespace AutoDev.Quotas

/-! ## Instants -/

/-- Round to the nearest integer, ties to even, as `datetime.fromtimestamp` does. -/
def roundHalfEven (x : ℚ) : ℤ :=
  if x - ⌊x⌋ < 1 / 2 then ⌊x⌋
  else if 1 / 2 < x - ⌊x⌋ then ⌊x⌋ + 1
  else if ⌊x⌋ % 2 = 0 then ⌊x⌋
  else ⌊x⌋ + 1

theorem floor_le_roundHalfEven (x : ℚ) : ⌊x⌋ ≤ roundHalfEven x := by
  unfold roundHalfEven
  split_ifs <;> omega

theorem roundHalfEven_le_floor_add_one (x : ℚ) : roundHalfEven x ≤ ⌊x⌋ + 1 := by
  unfold roundHalfEven
  split_ifs <;> omega

theorem roundHalfEven_mono {x y : ℚ} (h : x ≤ y) : roundHalfEven x ≤ roundHalfEven y := by
  rcases (Int.floor_le_floor h).lt_or_eq with hlt | heq
  · calc roundHalfEven x ≤ ⌊x⌋ + 1 := roundHalfEven_le_floor_add_one x
      _ ≤ ⌊y⌋ := hlt
      _ ≤ roundHalfEven y := floor_le_roundHalfEven y
  -- between the same two integers only the distance to the lower one decides
  unfold roundHalfEven
  rw [heq]
  split_ifs <;> first | omega | linarith

/-- `iso`: the text of a Unix time, in microseconds. -/
def iso (unixSeconds : ℚ) : ℤ := roundHalfEven (unixSeconds * 1000000)

def parseIso (value : ℤ) : ℚ := value / 1000000

theorem iso_mono {t t' : ℚ} (h : t ≤ t') : iso t ≤ iso t' :=
  roundHalfEven_mono (by linarith)

/-! ## The tables -/

structure RunLease where
  tenantId : String
  expiresAt : ℤ
  releasedAt : Option ℤ
  deriving DecidableEq

def RunLease.Active (l : RunLease) (now : ℤ) : Prop := l.releasedAt = none ∧ now < l.expiresAt

instance (l : RunLease) (now : ℤ) : Decidable (l.Active now) :=
  inferInstanceAs (Decidable (_ ∧ _))

inductive ReservationStatus where
  | reserved
  | committed
  | released
  | denied
  deriving DecidableEq

structure StorageReservation where
  tenantId : String
  bytes : ℕ
  status : ReservationStatus
  deriving DecidableEq

structure QuotaStore where
  leases : Table String RunLease := ∅
  reservations : Table String StorageReservation := ∅

/-! ## Run leases -/

structure LeaseResult where
  granted : Bool
  resumed : Bool
  expiresAt : Option ℤ
  deriving DecidableEq

variable (s : QuotaStore) (tenantId : String)

def RunLease.tally (now : ℤ) (_runId : String) (l : RunLease) : ℕ :=
  if l.tenantId = tenantId ∧ l.Active now then 1 else 0

def QuotaStore.activeLeases (now : ℤ) : ℕ :=
  s.leases.total (RunLease.tally tenantId now)

def QuotaStore.countActiveLeases (now : ℚ) : ℕ :=
  s.activeLeases tenantId (iso now)

/-- `acquire_run_lease`; the clock is read for `now`, and again for the expiry. -/
def QuotaStore.acquireRunLease (runId : String) (maxConcurrentRuns : ℕ) (leaseSeconds : ℤ)
    (now later : ℚ) : QuotaStore × LeaseResult :=
  let expiresAt := iso (later + leaseSeconds)
  let existing := s.leases.lookup runId
  match existing.filter fun l => l.releasedAt = none ∧ now < parseIso l.expiresAt with
  | some l => (s, { granted := true, resumed := true, expiresAt := l.expiresAt })
  | none =>
    -- `AND run_id != ?`
    let active := Table.total (RunLease.tally tenantId (iso now)) (s.leases.erase runId)
    if maxConcurrentRuns ≤ active then
      (s, { granted := false, resumed := false, expiresAt := none })
    else
      ({ s with leases := s.leases.insert runId ⟨tenantId, expiresAt, none⟩ },
        { granted := true, resumed := false, expiresAt := some expiresAt })

def RunLease.extend (expiresAt : ℤ) (l : RunLease) : RunLease :=
  if l.releasedAt = none then { l with expiresAt := expiresAt } else l

def RunLease.release (now : ℤ) (l : RunLease) : RunLease :=
  if l.releasedAt = none then { l with releasedAt := some now } else l

def QuotaStore.heartbeatRunLease (runId : String) (leaseSeconds : ℤ) (now : ℚ) :
    QuotaStore × Bool :=
  ({ s with leases := s.leases.modify runId (.extend (iso (now + leaseSeconds))) },
    ((s.leases.lookup runId).filter fun l => l.releasedAt = none).isSome)

def QuotaStore.releaseRunLease (runId : String) (now : ℚ) : QuotaStore :=
  { s with leases := s.leases.modify runId (.release (iso now)) }

/-! ## Storage reservations -/

structure ReservationResult where
  granted : Bool
  reservationId : Option String
  deriving DecidableEq

def StorageReservation.Holds (r : StorageReservation) : Prop :=
  r.status = .reserved ∨ r.status = .committed

instance (r : StorageReservation) : Decidable r.Holds := inferInstanceAs (Decidable (_ ∨ _))

def StorageReservation.heldBytes (r : StorageReservation) : ℕ := if r.Holds then r.bytes else 0

def StorageReservation.heldFor (_reservationId : String) (r : StorageReservation) : ℕ :=
  if r.tenantId = tenantId then r.heldBytes else 0

def QuotaStore.storageUsed : ℕ :=
  s.reservations.total (StorageReservation.heldFor tenantId)

def QuotaStore.reserveStorage (bytesRequested : ℕ) (idempotencyKey : String) (maxStorageBytes : ℕ) :
    QuotaStore × ReservationResult :=
  match s.reservations.lookup idempotencyKey with
  | some existing =>
    let granted := existing.status ≠ .denied
    (s, { granted := granted, reservationId := if granted then some idempotencyKey else none })
  | none =>
    if s.storageUsed tenantId + bytesRequested > maxStorageBytes then
      ({ s with reservations :=
          s.reservations.insert idempotencyKey ⟨tenantId, bytesRequested, .denied⟩ },
        { granted := false, reservationId := none })
    else
      ({ s with reservations :=
          s.reservations.insert idempotencyKey ⟨tenantId, bytesRequested, .reserved⟩ },
        { granted := true, reservationId := some idempotencyKey })

/-- An update of a reservation that is still reserved, `WHERE … AND status = 'reserved'`. -/
def QuotaStore.settle (reservationId : String) (f : StorageReservation → StorageReservation) :
    QuotaStore :=
  { s with reservations :=
      s.reservations.modify reservationId fun r => if r.status = .reserved then f r else r }

def QuotaStore.commitStorageReservation (reservationId : String) (actualBytes : ℕ) : QuotaStore :=
  s.settle reservationId fun r => { r with status := .committed, bytes := actualBytes }

def QuotaStore.releaseStorageReservation (reservationId : String) : QuotaStore :=
  s.settle reservationId fun r => { r with status := .released }

end AutoDev.Quotas
