/-
# `AutoDev.Quotas.Usage` — monthly usage

The table `tenant_usage_windows` of `backend/quotas/store.py`, one row for a
tenant, a resource and a window.  `record_monthly_usage` is one transaction,
and a refusal rolls the inserted row back.

Usage and flag stand in one row that only a GRANTED call writes.  So the flag
is up exactly when some granted call has reached the ratio (`Kept.warned`),
and the warning is given by the first such call and by no other — also where a
call that would have crossed was refused before.
-/
import AutoDev.Lib.Table

namespace AutoDev.Quotas

structure UsageKey where
  tenantId : String
  resource : String
  windowKey : String
  deriving DecidableEq

/-- The columns of a row; a new one has zeros. -/
structure UsageWindow where
  used : ℕ := 0
  warned : Bool := false

abbrev UsageTable := Table UsageKey UsageWindow

structure UsageResult where
  granted : Bool
  used : ℕ
  limit : ℕ
  crossedWarning : Bool

/-- `INSERT OR IGNORE`, then `SELECT`. -/
def UsageTable.row (t : UsageTable) (key : UsageKey) : UsageWindow := (t.lookup key).getD {}

def UsageTable.usageSnapshot (t : UsageTable) (key : UsageKey) : ℕ := (t.row key).used

def UsageTable.recordMonthlyUsage (t : UsageTable) (key : UsageKey) (limit ratio delta : ℕ) :
    UsageTable × UsageResult :=
  let current := t.row key
  if limit < current.used + delta then (t, ⟨false, current.used, limit, false⟩)
  else
    let used := current.used + delta
    let crossed := !current.warned && decide (limit * ratio ≤ used * 10000)
    (t.insert key ⟨used, if crossed then true else current.warned⟩, ⟨true, used, limit, crossed⟩)

/-! ## Histories -/

structure UsageCall where
  delta : ℕ
  result : UsageResult
  stored : ℕ

structure UsageHistory where
  table : UsageTable
  calls : List UsageCall := []

def UsageHistory.record (key : UsageKey) (limit ratio : ℕ) (h : UsageHistory) (delta : ℕ) :
    UsageHistory :=
  let p := h.table.recordMonthlyUsage key limit ratio delta
  ⟨p.1, h.calls ++ [⟨delta, p.2, p.1.usageSnapshot key⟩]⟩

def UsageCall.charged (c : UsageCall) : ℕ := if c.result.granted then c.delta else 0

def UsageCall.Reached (limit ratio : ℕ) (c : UsageCall) : Prop :=
  c.result.granted = true ∧ limit * ratio ≤ c.stored * 10000

variable {key : UsageKey} {limit ratio : ℕ} {t : UsageTable} {h : UsageHistory}

structure UsageHistory.Kept (key : UsageKey) (limit ratio : ℕ) (t : UsageTable)
    (h : UsageHistory) : Prop where
  used : h.table.usageSnapshot key = (h.calls.map UsageCall.charged).sum
  within : h.table.usageSnapshot key ≤ limit
  warned : (h.table.row key).warned = true ↔ ∃ c ∈ h.calls, c.Reached limit ratio
  once : h.calls.countP (·.result.crossedWarning) = (h.table.row key).warned.toNat
  others : ∀ k ≠ key, h.table.lookup k = t.lookup k

@[simp] theorem row_insert (t : UsageTable) (key : UsageKey) (w : UsageWindow) :
    UsageTable.row (t.insert key w) key = w := by
  simp [UsageTable.row]

/-- A call is refused and changes nothing, or granted and adds its delta; it warns when it is the
first to reach the ratio. -/
theorem recordMonthlyUsage_cases (t : UsageTable) (key : UsageKey) (limit ratio delta : ℕ) :
    (limit < t.usageSnapshot key + delta ∧ t.recordMonthlyUsage key limit ratio delta =
      (t, ⟨false, t.usageSnapshot key, limit, false⟩)) ∨
    ∃ w crossed, t.usageSnapshot key + delta ≤ limit ∧
      t.recordMonthlyUsage key limit ratio delta =
        (t.insert key w, ⟨true, w.used, limit, crossed⟩) ∧
      w.used = t.usageSnapshot key + delta ∧ w.warned = ((t.row key).warned || crossed) ∧
      crossed = (!(t.row key).warned && decide (limit * ratio ≤ w.used * 10000)) := by
  unfold UsageTable.recordMonthlyUsage UsageTable.usageSnapshot
  dsimp only
  split
  · next hlt => exact .inl ⟨hlt, rfl⟩
  · next hle =>
    refine .inr ⟨_, _, not_lt.mp hle, rfl, rfl, ?_, rfl⟩
    cases (t.row key).warned <;> simp

theorem UsageHistory.Kept.record (hk : h.Kept key limit ratio t) (delta : ℕ) :
    (h.record key limit ratio delta).Kept key limit ratio t := by
  have hsnoc : ∀ c, (∃ d ∈ h.calls ++ [c], d.Reached limit ratio) ↔
      (h.table.row key).warned = true ∨ c.Reached limit ratio := by
    simp [hk.warned, or_and_right, exists_or]
  unfold UsageHistory.record
  rcases recordMonthlyUsage_cases h.table key limit ratio delta with
    ⟨-, heq⟩ | ⟨w, crossed, hle, heq, hused, hwarned, hcrossed⟩ <;> rw [heq]
  · refine ⟨?_, hk.within, ?_, ?_, hk.others⟩
    · simpa [UsageCall.charged] using hk.used
    · rw [hsnoc]
      simp [UsageCall.Reached]
    · simpa using hk.once
  · refine ⟨?_, ?_, ?_, ?_, fun k hne => (AList.lookup_insert_ne hne).trans (hk.others k hne)⟩
    · simp [UsageTable.usageSnapshot, UsageCall.charged, hused, ← hk.used]
    · simpa [UsageTable.usageSnapshot, hused] using hle
    · -- the flag goes up with the first call that reaches the ratio, and stays up
      rw [hsnoc, row_insert, hwarned, hcrossed]
      cases (h.table.row key).warned <;> simp [UsageCall.Reached, UsageTable.usageSnapshot]
    · rw [row_insert, hwarned, List.countP_append, hk.once, List.countP_singleton, hcrossed]
      cases (h.table.row key).warned <;> cases decide (limit * ratio ≤ w.used * 10000) <;> rfl

theorem UsageHistory.kept (hnew : t.lookup key = none) (deltas : List ℕ) :
    (deltas.foldl (UsageHistory.record key limit ratio) ⟨t, []⟩).Kept key limit ratio t := by
  have hrun : ∀ {h : UsageHistory}, h.Kept key limit ratio t →
      (deltas.foldl (UsageHistory.record key limit ratio) h).Kept key limit ratio t := by
    induction deltas with
    | nil => exact id
    | cons delta deltas ih => exact fun hk => ih (hk.record delta)
  have hzero : t.row key = {} := by simp [UsageTable.row, hnew]
  exact hrun ⟨by simp [UsageTable.usageSnapshot, hzero], by simp [UsageTable.usageSnapshot, hzero],
    by simp [hzero], by simp [hzero], fun _ _ => rfl⟩

/-- After any calls for a new window, and for any next call: the usage is what the granted calls
added, and within the limit; the next call is refused exactly when it would go beyond, and then
changes nothing; it answers with the usage stored after it and the limit; at most one call warned,
and the next one does exactly when it is the first granted call after which the stored usage has
reached the ratio.  No other row changes. -/
theorem monthly_usage_is_exact (hnew : t.lookup key = none) (deltas : List ℕ) (delta : ℕ) :
    let h := deltas.foldl (UsageHistory.record key limit ratio) ⟨t, []⟩
    let next := h.table.recordMonthlyUsage key limit ratio delta
    h.table.usageSnapshot key = (h.calls.map UsageCall.charged).sum ∧
    h.table.usageSnapshot key ≤ limit ∧
    (next.2.granted = false ↔ limit < h.table.usageSnapshot key + delta) ∧
    (next.2.granted = false → next.1 = h.table) ∧
    next.2.used = next.1.usageSnapshot key ∧ next.2.limit = limit ∧
    h.calls.countP (·.result.crossedWarning) ≤ 1 ∧
    (next.2.crossedWarning = true ↔
      UsageCall.Reached limit ratio ⟨delta, next.2, next.1.usageSnapshot key⟩ ∧
        ∀ c ∈ h.calls, ¬ c.Reached limit ratio) ∧
    ∀ k ≠ key, next.1.lookup k = t.lookup k := by
  intro h next
  have hk : h.Kept key limit ratio t := UsageHistory.kept hnew deltas
  have hlast := (hk.record delta).others
  have hw := not_congr hk.warned
  simp only [Bool.not_eq_true, not_exists, not_and] at hw
  refine ⟨hk.used, hk.within, ?_⟩
  simp only [next] at hlast ⊢
  rcases recordMonthlyUsage_cases h.table key limit ratio delta with
    ⟨hlt, heq⟩ | ⟨w, crossed, hle, heq, hused, hwarned, hcrossed⟩
  · rw [UsageHistory.record, heq] at hlast
    rw [heq]
    exact ⟨by simpa using hlt, fun _ => rfl, rfl, rfl, hk.once ▸ Bool.toNat_le _,
      by simp [UsageCall.Reached], hlast⟩
  · rw [UsageHistory.record, heq] at hlast
    rw [heq]
    refine ⟨by simpa using hle, by simp, by simp [UsageTable.usageSnapshot], rfl,
      hk.once ▸ Bool.toNat_le _, ?_, hlast⟩
    simp [UsageCall.Reached, UsageTable.usageSnapshot, hcrossed, hw, and_comm]

/-- A window of 100 with a warning at 80 %: 50 are granted, 60 more would be too many, and the 30
after them reach the ratio. -/
theorem monthly_usage_is_exact_warned :
    let key : UsageKey := ⟨"acme", "monthly_tokens", "2025-06"⟩
    let h := [50, 60].foldl (UsageHistory.record key 100 8000) ⟨∅, []⟩
    (h.table.recordMonthlyUsage key 100 8000 30).2.crossedWarning = true ∧
      (h.table.recordMonthlyUsage key 100 8000 30).2.used = 80 := by
  intro key h
  obtain ⟨-, -, -, -, hused, -, -, hwarns, -⟩ :=
    @monthly_usage_is_exact key 100 8000 ∅ (AList.lookup_empty key) [50, 60] 30
  exact ⟨hwarns.mpr ⟨⟨by decide +kernel, by decide +kernel⟩, by unfold UsageCall.Reached; decide +kernel⟩,
    hused.trans (by decide +kernel)⟩

end AutoDev.Quotas
