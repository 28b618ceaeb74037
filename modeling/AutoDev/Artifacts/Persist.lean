/-
# `AutoDev.Artifacts.Persist` — what is stored and what is accounted for

`persist_artifact` reserves the bytes of a payload against the tenant's
ceiling, writes the object, records its pointer, and settles the reservation
(`backend/artifacts/pointers.py`, `store.py`).  The object key is the
reservation's idempotency key, and a key that has a reservation is granted again
WITHOUT reserving anything: overwriting an object by a larger one, or retrying a
write that failed, stores bytes that no row holds.

Beside the bytes the model keeps, for each object, the call that wrote it and
whether that call succeeded; no function reads that.
-/
import AutoDev.Lib.History
import AutoDev.Quotas.Store
import AutoDev.Flows.Expressions

namespace AutoDev.Artifacts

open History Quotas List AList Nat

/-! ## Object keys -/

inductive ArtifactKind where
  | patch
  | validation
  | runExport
  | log
  deriving DecidableEq

def ArtifactKind.bucket : ArtifactKind → String
  | .patch => "patch-artifacts"
  | .validation => "validation-artifacts"
  | .runExport => "run-exports"
  | .log => "logs"

/-- `PurePosixPath(key).parts` of a relative path: empty and `.` components are dropped. -/
def pathParts (key : List Char) : List (List Char) :=
  (key.splitOn '/').filter fun part => part ≠ [] ∧ part ≠ ['.']

def validateObjectKey (objectKey : String) : Option (List Char) :=
  let key := Flows.strip objectKey.toList
  if key = [] ∨ key.head? = some '/' ∨ ['.', '.'] ∈ pathParts key ∨ '\\' ∈ key then none
  else some key

/-- The two object stores. -/
inductive Backend where
  | localFs
  | minio
  deriving DecidableEq

/-- Where a backend keeps an object within its bucket: under the path of the key, or under the
key as it is.  The path of `.` is the bucket's own directory, which no file replaces. -/
def Backend.place (b : Backend) (key : List Char) : Option (List (List Char)) :=
  match b with
  | .localFs => if pathParts key = [] then none else some (pathParts key)
  | .minio => some [key]

/-! ## One call -/

/-- How a write to an outer system ends. -/
inductive Outcome where
  | done
  /-- It raises and has written nothing. -/
  | refused
  /-- It raises after the write took effect. -/
  | interrupted
  deriving DecidableEq

/-- The arguments of `persist_artifact`, the ceiling of the tenant's policy, and how the two
writes end.  Of the payload only its length matters. -/
structure PersistCall where
  tenantId : String
  kind : ArtifactKind
  objectKey : String
  size : ℕ
  maxStorageBytes : ℕ
  put : Outcome := .done
  record : Outcome := .done
  deriving DecidableEq

/-- The bucket of an object and its place there. -/
abbrev Location := String × List (List Char)

variable (b : Backend) (s : ArtifactState) (c : PersistCall)

/-- Where the object of a call belongs, if its key is valid. -/
def PersistCall.location : Option Location :=
  (validateObjectKey c.objectKey).bind fun key => (b.place key).map fun p => (c.kind.bucket, p)

structure StoredObject where
  writer : PersistCall
  settled : Bool
  deriving DecidableEq

/-- `StoredArtifact`, the recorded pointer; its key is the bucket and the object key. -/
structure StoredArtifact where
  tenantId : String
  kind : ArtifactKind
  sizeBytes : ℕ
  deriving DecidableEq

inductive PersistError where
  | quotaExceeded (used limit : ℕ)
  | invalidKey
  | putFailed
  | recordFailed
  deriving DecidableEq

structure ArtifactState where
  quota : QuotaStore := {}
  objects : Table Location StoredObject := ∅
  pointers : Table (String × String) StoredArtifact := ∅

def putArtifact (objects : Table Location StoredObject) (c : PersistCall) :
    Table Location StoredObject × Except PersistError Location :=
  match c.location b with
  | none => (objects, .error .invalidKey)
  | some loc =>
    match c.put with
    | .refused => (objects, .error .putFailed)
    | .interrupted => (objects.insert loc ⟨c, false⟩, .error .putFailed)
    | .done => (objects.insert loc ⟨c, false⟩, .ok loc)

def recordPointer (pointers : Table (String × String) StoredArtifact) (c : PersistCall) :
    Table (String × String) StoredArtifact × Except PersistError StoredArtifact :=
  let row : StoredArtifact := ⟨c.tenantId, c.kind, c.size⟩
  let key := (c.kind.bucket, String.ofList (Flows.strip c.objectKey.toList))
  match c.record with
  | .refused => (pointers, .error .recordFailed)
  | .interrupted => (pointers.insert key row, .error .recordFailed)
  | .done => (pointers.insert key row, .ok row)

/-- The writes of `persist_artifact` under a granted reservation: it is released if one of them
raises, and settled otherwise. -/
def writeReserved (quota : QuotaStore) (reservationId : String) (c : PersistCall) :
    ArtifactState × Except PersistError StoredArtifact :=
  match putArtifact b s.objects c with
  | (objects, .error e) =>
    ({ s with quota := quota.releaseStorageReservation reservationId, objects }, .error e)
  | (objects, .ok loc) =>
    match recordPointer s.pointers c with
    | (pointers, .error e) =>
      ({ quota := quota.releaseStorageReservation reservationId, objects, pointers }, .error e)
    | (pointers, .ok stored) =>
      ({ quota := quota.commitStorageReservation reservationId c.size
         objects := objects.insert loc ⟨c, true⟩, pointers }, .ok stored)

def persistArtifact : ArtifactState × Except PersistError StoredArtifact :=
  let (quota, reservation) :=
    s.quota.reserveStorage c.tenantId c.size c.objectKey c.maxStorageBytes
  match reservation.reservationId with
  | none => ({ s with quota }, .error (.quotaExceeded c.size c.maxStorageBytes))
  | some reservationId => writeReserved b s quota reservationId c

/-! ## Stored bytes -/

def StoredObject.bytesOf (tenantId : String) (_loc : Location) (o : StoredObject) : ℕ :=
  if o.settled = true ∧ o.writer.tenantId = tenantId then o.writer.size else 0

def ArtifactState.storedBytes (tenantId : String) : ℕ :=
  s.objects.total (StoredObject.bytesOf tenantId)

def StorageCovered (tenantId : String) (maxStorageBytes : ℕ) (s : ArtifactState) : Prop :=
  s.storedBytes tenantId ≤ s.quota.storageUsed tenantId ∧
    s.quota.storageUsed tenantId ≤ maxStorageBytes

instance (tenantId : String) (m : ℕ) : DecidablePred (StorageCovered tenantId m) :=
  fun _ => inferInstanceAs (Decidable (_ ∧ _))

def persisted : ArtifactState :=
  (persistArtifact b s c).1

def StoredObject.bytesUnder (objectKey : String) (_loc : Location) (o : StoredObject) : ℕ :=
  if o.settled = true ∧ o.writer.objectKey = objectKey then o.writer.size else 0

/-- A call whose writes succeed, and whose key has a reservation that was not denied, finds that
reservation still held, for its payload and what the key holds elsewhere. -/
def ReservationSuffices : Prop :=
  c.put = .done → c.record = .done →
    ∀ loc ∈ c.location b, ∀ row ∈ s.quota.reservations.lookup c.objectKey, row.status ≠ .denied →
      row.Holds ∧
        c.size + Table.total (StoredObject.bytesUnder c.objectKey) (s.objects.erase loc) ≤ row.bytes

instance (b : Backend) (s : ArtifactState) (c : PersistCall) :
    Decidable (ReservationSuffices b s c) := by
  unfold ReservationSuffices
  infer_instance

/-! ## What one call does -/

section Effect

variable {b : Backend} {s : ArtifactState} {c : PersistCall}

/-- The objects after a call that failed: at most one was overwritten, by that call. -/
def Spoiled (c : PersistCall) (objects objects' : Table Location StoredObject) : Prop :=
  objects' = objects ∨ ∃ loc, objects' = objects.insert loc ⟨c, false⟩

/-- The reservations and the objects after a call, in a store without open reservations. -/
inductive Effect (b : Backend) (s : ArtifactState) (c : PersistCall) :
    Table String StorageReservation → Table Location StoredObject → Prop
  /-- The key was denied before. -/
  | deniedAgain : Effect b s c s.quota.reservations s.objects
  | denied : s.quota.reservations.lookup c.objectKey = none →
      Effect b s c (s.quota.reservations.insert c.objectKey ⟨c.tenantId, c.size, .denied⟩) s.objects
  | failed {objects' : Table Location StoredObject} :
      s.quota.reservations.lookup c.objectKey = none → Spoiled c s.objects objects' →
      Effect b s c (s.quota.reservations.insert c.objectKey ⟨c.tenantId, c.size, .released⟩) objects'
  | done {loc : Location} : s.quota.reservations.lookup c.objectKey = none →
      s.quota.storageUsed c.tenantId + c.size ≤ c.maxStorageBytes →
      Effect b s c (s.quota.reservations.insert c.objectKey ⟨c.tenantId, c.size, .committed⟩)
        (s.objects.insert loc ⟨c, true⟩)
  /-- The key has a reservation, and the call fails. -/
  | failedAgain {row : StorageReservation} {objects' : Table Location StoredObject} :
      s.quota.reservations.lookup c.objectKey = some row → Spoiled c s.objects objects' →
      Effect b s c (s.quota.reservations.insert c.objectKey row) objects'
  /-- The key has a reservation, and the call succeeds: nothing is reserved for it. -/
  | doneAgain {row : StorageReservation} {loc : Location} :
      s.quota.reservations.lookup c.objectKey = some row → row.status ≠ .denied →
      c.put = .done → c.record = .done → c.location b = some loc →
      Effect b s c (s.quota.reservations.insert c.objectKey row) (s.objects.insert loc ⟨c, true⟩)

variable {k : String} {row : StorageReservation} {q : QuotaStore}

theorem writeReserved_cases {quota : QuotaStore} {R : ArtifactState → Prop}
    (hfail : ∀ objects pointers, Spoiled c s.objects objects →
      R ⟨quota.releaseStorageReservation k, objects, pointers⟩)
    (hdone : ∀ loc pointers, c.put = .done → c.record = .done → c.location b = some loc →
      R ⟨quota.commitStorageReservation k c.size, s.objects.insert loc ⟨c, true⟩, pointers⟩) :
    R (writeReserved b s quota k c).1 := by
  unfold writeReserved putArtifact
  rcases hl : c.location b with _ | loc
  · exact hfail _ _ (Or.inl rfl)
  rcases hp : c.put with _ | _ | _
  · dsimp only
    unfold recordPointer
    rcases hr : c.record with _ | _ | _
    · dsimp only
      rw [insert_insert]
      exact hdone loc _ hp hr hl
    · exact hfail _ _ (Or.inr ⟨loc, rfl⟩)
    · exact hfail _ _ (Or.inr ⟨loc, rfl⟩)
  · exact hfail _ _ (Or.inl rfl)
  · exact hfail _ _ (Or.inr ⟨loc, rfl⟩)

theorem settle_insert (f : StorageReservation → StorageReservation) (h : row.status = .reserved) :
    ({ q with reservations := q.reservations.insert k row } : QuotaStore).settle k f
      = { q with reservations := q.reservations.insert k (f row) } := by
  simp only [QuotaStore.settle, Table.modify_of_some (lookup_insert q.reservations),
    insert_insert, if_pos h]

theorem settle_of_ne (f : StorageReservation → StorageReservation)
    (hrow : q.reservations.lookup k = some row) (h : row.status ≠ .reserved) :
    q.settle k f = { q with reservations := q.reservations.insert k row } := by
  simp only [QuotaStore.settle, Table.modify_of_some hrow, if_neg h]

theorem persist_effect
    (hopen : ∀ k, ∀ row ∈ s.quota.reservations.lookup k, row.status ≠ .reserved) :
    Effect b s c (persisted b s c).quota.reservations (persisted b s c).objects := by
  unfold persisted persistArtifact QuotaStore.reserveStorage
  rcases hrow : s.quota.reservations.lookup c.objectKey with _ | row
  · dsimp only
    split_ifs with hfull
    · exact .denied hrow
    refine writeReserved_cases (R := fun s' => Effect b s c s'.quota.reservations s'.objects) ?_ ?_
    · intro objects pointers hsp
      rw [QuotaStore.releaseStorageReservation, settle_insert _ rfl]
      exact .failed hrow hsp
    · intro loc pointers _ _ _
      rw [QuotaStore.commitStorageReservation, settle_insert _ rfl]
      exact .done hrow (Nat.le_of_not_lt hfull)
  · have hne := hopen c.objectKey row hrow
    by_cases hden : row.status = .denied
    · simp only [hden, ne_eq, not_true_eq_false, if_false]
      exact .deniedAgain
    simp only [hden, ne_eq, not_false_eq_true, if_true]
    refine writeReserved_cases (R := fun s' => Effect b s c s'.quota.reservations s'.objects) ?_ ?_
    · intro objects pointers hsp
      rw [QuotaStore.releaseStorageReservation, settle_of_ne _ hrow hne]
      exact .failedAgain hrow hsp
    · intro loc pointers hp hr hl
      rw [QuotaStore.commitStorageReservation, settle_of_ne _ hrow hne]
      exact .doneAgain hrow hden hp hr hl

end Effect

/-! ## The books -/

/-- What is kept between calls, for the tenant and its ceiling; `owner` is the tenant of each
object key. -/
structure Books (owner : String → String) (tenantId : String) (maxStorageBytes : ℕ)
    (reservations : Table String StorageReservation) (objects : Table Location StoredObject) :
    Prop where
  /-- No reservation is left open. -/
  closed : ∀ k, ∀ row ∈ reservations.lookup k, row.status ≠ .reserved
  rowOwner : ∀ k, ∀ row ∈ reservations.lookup k, row.tenantId = owner k
  objectOwner : ∀ loc, ∀ o ∈ objects.lookup loc, o.writer.tenantId = owner o.writer.objectKey
  /-- What was written under a key is held by the row of that key. -/
  covered : ∀ k, objects.total (StoredObject.bytesUnder k)
    ≤ (reservations.lookup k).elim 0 StorageReservation.heldBytes
  within : reservations.total (StorageReservation.heldFor tenantId) ≤ maxStorageBytes

namespace Books

variable {owner : String → String} {tenantId : String} {m : ℕ}
  {reservations : Table String StorageReservation} {objects objects' : Table Location StoredObject}
  {c : PersistCall}

section

variable (h : Books owner tenantId m reservations objects)

include h

theorem stored_le :
    objects.total (StoredObject.bytesOf tenantId)
      ≤ reservations.total (StorageReservation.heldFor tenantId) := by
  refine Table.sum_le_total (fun e => e.2.writer.objectKey) objects.entries
    reservations (fun e => e.2.bytesOf tenantId e.1) fun k => ?_
  by_cases hk : owner k = tenantId
  · -- a key of the tenant: all that was written under it is held for the tenant
    have hrow : (reservations.lookup k).elim 0 (StorageReservation.heldFor tenantId k)
        = (reservations.lookup k).elim 0 StorageReservation.heldBytes := by
      rcases hl : reservations.lookup k with _ | row
      · rfl
      · exact if_pos ((h.rowOwner k row hl).trans hk)
    rw [hrow]
    refine le_trans (sum_le_sum fun e _ => ?_) (h.covered k)
    unfold StoredObject.bytesOf StoredObject.bytesUnder
    split_ifs with h₁ h₂ h₃ <;> first | omega | exact absurd ⟨h₂.1, h₁⟩ h₃
  · -- a key of another tenant: nothing of this tenant was written under it
    refine (sum_eq_zero fun x hx => ?_).trans_le (zero_le _)
    obtain ⟨e, he, rfl⟩ := mem_map.mp hx
    have hown := h.objectOwner e.1 e.2 (mem_lookup_iff.mpr he)
    unfold StoredObject.bytesOf
    split_ifs with h₁ h₂
    · exact absurd ((h₁ ▸ hown).symm.trans h₂.2) hk
    · rfl
    · rfl

theorem insert {k : String} {row : StorageReservation} (hstatus : row.status ≠ .reserved)
    (howner : row.tenantId = owner k)
    (hobject : ∀ loc, ∀ o ∈ objects'.lookup loc, o.writer.tenantId = owner o.writer.objectKey)
    (hother : ∀ k', k' ≠ k → objects'.total (StoredObject.bytesUnder k')
      ≤ objects.total (StoredObject.bytesUnder k'))
    (hhere : objects'.total (StoredObject.bytesUnder k) ≤ row.heldBytes)
    (hwithin : row.heldFor tenantId k
      + Table.total (StorageReservation.heldFor tenantId) (reservations.erase k) ≤ m) :
    Books owner tenantId m (reservations.insert k row) objects' where
  closed k' row' hrow' := by
    by_cases hk : k' = k
    · subst hk
      rw [lookup_insert] at hrow'
      cases hrow'
      exact hstatus
    · rw [lookup_insert_ne hk] at hrow'
      exact h.closed k' row' hrow'
  rowOwner k' row' hrow' := by
    by_cases hk : k' = k
    · subst hk
      rw [lookup_insert] at hrow'
      cases hrow'
      exact howner
    · rw [lookup_insert_ne hk] at hrow'
      exact h.rowOwner k' row' hrow'
  objectOwner := hobject
  covered k' := by
    by_cases hk : k' = k
    · subst hk
      rw [lookup_insert]
      exact hhere
    · rw [lookup_insert_ne hk]
      exact (hother k' hk).trans (h.covered k')
  within := (Table.total_insert ..).trans_le hwithin

theorem objectOwner_insert (hc : c.tenantId = owner c.objectKey) (loc : Location) (settled : Bool) :
    ∀ loc', ∀ o ∈ (objects.insert loc ⟨c, settled⟩).lookup loc',
      o.writer.tenantId = owner o.writer.objectKey := by
  intro loc' o ho
  by_cases hl : loc' = loc
  · subst hl
    rw [lookup_insert] at ho
    cases ho
    exact hc
  · rw [lookup_insert_ne hl] at ho
    exact h.objectOwner loc' o ho

theorem objectOwner_spoiled (hc : c.tenantId = owner c.objectKey)
    (hsp : Spoiled c objects objects') :
    ∀ loc, ∀ o ∈ objects'.lookup loc, o.writer.tenantId = owner o.writer.objectKey := by
  rcases hsp with rfl | ⟨loc, rfl⟩
  · exact h.objectOwner
  · exact h.objectOwner_insert hc loc false

end

end Books

variable {c : PersistCall}

theorem Spoiled.total_le {objects objects' : Table Location StoredObject}
    (h : Spoiled c objects objects') (k : String) :
    objects'.total (StoredObject.bytesUnder k) ≤ objects.total (StoredObject.bytesUnder k) := by
  rcases h with rfl | ⟨loc, rfl⟩
  · exact le_rfl
  · rw [Table.total_insert]
    exact (zero_add _).trans_le (Table.total_erase_le ..)

theorem total_insert_other (objects : Table Location StoredObject) (loc : Location) {k : String}
    (hk : k ≠ c.objectKey) :
    Table.total (StoredObject.bytesUnder k) (objects.insert loc ⟨c, true⟩)
      ≤ objects.total (StoredObject.bytesUnder k) := by
  rw [Table.total_insert]
  have hzero : StoredObject.bytesUnder k loc ⟨c, true⟩ = 0 := if_neg fun h => hk h.2.symm
  rw [hzero, zero_add]
  exact Table.total_erase_le ..

/-! ## One call keeps the books -/

section Step

variable {owner : String → String} {tenantId : String} {m : ℕ} {b : Backend} {s : ArtifactState}
  {c : PersistCall}

def Balanced (owner : String → String) (tenantId : String) (m : ℕ) (s : ArtifactState) : Prop :=
  Books owner tenantId m s.quota.reservations s.objects

variable {k : String} {row : StorageReservation} (h : Balanced owner tenantId m s)
include h

theorem Balanced.within_of_not_holds (hrow : ¬ row.Holds) :
    row.heldFor tenantId k + Table.total (StorageReservation.heldFor tenantId)
      (s.quota.reservations.erase k) ≤ m := by
  have hzero : row.heldFor tenantId k = 0 := by
    simp [StorageReservation.heldFor, StorageReservation.heldBytes, hrow]
  rw [hzero, zero_add]
  exact (Table.total_erase_le ..).trans h.within

theorem Balanced.within_of_row (hrow : s.quota.reservations.lookup k = some row) :
    row.heldFor tenantId k + Table.total (StorageReservation.heldFor tenantId)
      (s.quota.reservations.erase k) ≤ m :=
  (Table.total_of_some hrow).symm.trans_le h.within

theorem Balanced.nothing_under (hnone : s.quota.reservations.lookup k = none) :
    s.objects.total (StoredObject.bytesUnder k) = 0 := by
  have hcov := h.covered k
  rw [hnone] at hcov
  exact le_zero.mp hcov

theorem balanced_persist (hc : c.tenantId = owner c.objectKey)
    (hm : c.tenantId = tenantId → c.maxStorageBytes = m) (hs : ReservationSuffices b s c) :
    Balanced owner tenantId m (persisted b s c) := by
  have heff := persist_effect (b := b) (c := c) h.closed
  unfold Balanced
  generalize (persisted b s c).quota.reservations = reservations' at heff ⊢
  generalize (persisted b s c).objects = objects' at heff ⊢
  cases heff with
  | deniedAgain => exact h
  | denied hnone =>
    refine Books.insert h (by simp) hc h.objectOwner (fun _ _ => le_rfl) ?_
      (h.within_of_not_holds (by simp [StorageReservation.Holds]))
    exact (h.nothing_under hnone).trans_le (zero_le _)
  | failed hnone hsp =>
    refine Books.insert h (by simp) hc (Books.objectOwner_spoiled h hc hsp)
      (fun k _ => hsp.total_le k) ?_ (h.within_of_not_holds (by simp [StorageReservation.Holds]))
    exact (hsp.total_le _).trans ((h.nothing_under hnone).trans_le (zero_le _))
  | @done loc hnone hfit =>
    refine Books.insert h (by simp) hc (Books.objectOwner_insert h hc loc true)
      (fun k hk => total_insert_other s.objects loc hk) ?_ ?_
    · have hrest := Table.total_erase_le (f := StoredObject.bytesUnder c.objectKey) s.objects loc
      rw [h.nothing_under hnone] at hrest
      rw [Table.total_insert]
      simp only [StoredObject.bytesUnder, StorageReservation.heldBytes, StorageReservation.Holds]
      simp only [and_self, if_true, reduceCtorEq, false_or]
      omega
    · by_cases ht : c.tenantId = tenantId
      · rw [hm ht, ht] at hfit
        rw [← Table.total_of_none hnone, add_comm]
        simpa [StorageReservation.heldFor, StorageReservation.heldBytes,
          StorageReservation.Holds, QuotaStore.storageUsed, ht] using hfit
      · simp only [StorageReservation.heldFor, if_neg ht, zero_add]
        exact (Table.total_erase_le ..).trans h.within
  | @failedAgain row _ hrow hsp =>
    refine Books.insert h (h.closed _ row hrow) (h.rowOwner _ row hrow)
      (Books.objectOwner_spoiled h hc hsp) (fun k _ => hsp.total_le k) ?_ (h.within_of_row hrow)
    have hcov := h.covered c.objectKey
    rw [hrow] at hcov
    exact (hsp.total_le _).trans hcov
  | @doneAgain row loc hrow hden hput hrec hloc =>
    refine Books.insert h (h.closed _ row hrow) (h.rowOwner _ row hrow)
      (Books.objectOwner_insert h hc loc true)
      (fun k hk => total_insert_other s.objects loc hk) ?_ (h.within_of_row hrow)
    obtain ⟨hholds, hbytes⟩ := hs hput hrec loc hloc row hrow hden
    rw [Table.total_insert, StorageReservation.heldBytes, if_pos hholds]
    simpa [StoredObject.bytesUnder] using hbytes

end Step

/-! ## Whole histories -/

def ownerIn (calls : List PersistCall) (objectKey : String) : String :=
  ((calls.find? (·.objectKey = objectKey)).map (·.tenantId)).getD ""

theorem eq_ownerIn {calls : List PersistCall} (hkeys : ∀ c ∈ calls, ∀ c' ∈ calls,
    c.objectKey = c'.objectKey → c.tenantId = c'.tenantId) (hc : c ∈ calls) :
    c.tenantId = ownerIn calls c.objectKey := by
  unfold ownerIn
  rcases hf : calls.find? (·.objectKey = c.objectKey) with _ | c'
  · exact absurd (find?_eq_none.mp hf c hc) (by simp)
  · have hkey : c'.objectKey = c.objectKey := by simpa using find?_some hf
    rw [hf]
    exact hkeys c hc c' (mem_of_find?_eq_some hf) hkey.symm

/-- Throughout a history in which each successful call finds no reservation under its key, or one
that suffices, the stored bytes are accounted for and within the ceiling. -/
theorem storage_accounting_covers (b : Backend) (tenantId : String) (m : ℕ)
    (calls : List PersistCall)
    (hkeys : ∀ c ∈ calls, ∀ c' ∈ calls, c.objectKey = c'.objectKey → c.tenantId = c'.tenantId)
    (hfixed : ∀ c ∈ calls, c.tenantId = tenantId → c.maxStorageBytes = m)
    (hsuffices : Meets (persisted b) (ReservationSuffices b) {} calls) :
    Throughout (persisted b) (StorageCovered tenantId m) {} calls := by
  have hown : Meets (persisted b) (fun _ c => c.tenantId = ownerIn calls c.objectKey ∧
      (c.tenantId = tenantId → c.maxStorageBytes = m)) {} calls :=
    meets_of_forall fun c hc _ => ⟨eq_ownerIn hkeys hc, hfixed c hc⟩
  have hempty : Balanced (ownerIn calls) tenantId m {} :=
    { closed := fun k row h => by simp at h
      rowOwner := fun k row h => by simp at h
      objectOwner := fun loc o h => by simp at h
      covered := fun k => zero_le _
      within := zero_le m }
  refine (throughout_of_meets (fun s c h hc => ?_) hempty (hown.and hsuffices)).imp fun s h =>
    ⟨Books.stored_le h, h.within⟩
  exact balanced_persist h hc.1.1 hc.1.2 hc.2

theorem storage_accounting_covers_shrunk :
    Throughout (persisted .localFs) (StorageCovered "acme" 1000) {}
      [⟨"acme", .patch, "acme/a", 500, 1000, .done, .done⟩,
        ⟨"acme", .log, "acme/b", 300, 1000, .done, .refused⟩,
        ⟨"acme", .patch, "acme/a", 200, 1000, .done, .done⟩] :=
  storage_accounting_covers .localFs "acme" 1000 _ (by decide +kernel) (by decide +kernel)
    (by decide +kernel)

/-- An artifact of ten bytes, overwritten by one of fifty. -/
theorem larger_overwrite_unaccounted :
    ¬ Throughout (persisted .localFs) (StorageCovered "acme" 1000) {}
      [⟨"acme", .patch, "acme/a", 10, 1000, .done, .done⟩,
        ⟨"acme", .patch, "acme/a", 50, 1000, .done, .done⟩] := by
  decide +kernel

-- a retry of a failed write is not accounted for either
example : ¬ Throughout (persisted .minio) (StorageCovered "acme" 1000) {}
    [⟨"acme", .patch, "acme/a", 10, 1000, .refused, .done⟩,
      ⟨"acme", .patch, "acme/a", 10, 1000, .done, .done⟩] := by
  decide +kernel

end AutoDev.Artifacts
