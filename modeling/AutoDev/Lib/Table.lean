/-
# `AutoDev.Lib.Table` — tables with a primary key

A table is Mathlib's association list with distinct keys, the key of a row
kept apart from its columns: `INSERT … ON CONFLICT DO UPDATE` is
`AList.insert`, and an `UPDATE` of one row by its key is `Table.modify`.

What queries sum or count over a table is `Table.total`.  A statement that
writes one key changes such a sum at that key only: the table is its row at
`k`, if there is one, and the rest (`total_split`), and no write at `k`
touches the rest.
-/
import Mathlib.Data.List.AList
import Mathlib.Algebra.BigOperators.Group.List.Basic
import Mathlib.Algebra.GroupWithZero.Nat
import Mathlib.Algebra.Order.BigOperators.Group.List
import Mathlib.Algebra.Order.Group.Nat

/-- Rows of type `ρ` under distinct keys. -/
abbrev Table (κ ρ : Type) := AList fun _ : κ => ρ

namespace Table

open List Option

variable {κ ρ μ : Type}

def total [AddMonoid μ] (f : κ → ρ → μ) (t : Table κ ρ) : μ :=
  (t.entries.map fun e => f e.1 e.2).sum

theorem total_le_total {f g : κ → ρ → ℕ} (h : ∀ k r, f k r ≤ g k r) (t : Table κ ρ) :
    total f t ≤ total g t :=
  sum_le_sum fun e _ => h e.1 e.2

variable [DecidableEq κ]

/-- `UPDATE … SET f WHERE key = k`, the condition on the row being part of `f`. -/
def modify (t : Table κ ρ) (k : κ) (f : ρ → ρ) : Table κ ρ :=
  match t.lookup k with
  | none => t
  | some r => t.insert k (f r)

theorem modify_of_none {t : Table κ ρ} {k : κ} (h : t.lookup k = none) (f : ρ → ρ) :
    modify t k f = t := by
  simp only [modify, h]

theorem modify_of_some {t : Table κ ρ} {k : κ} {r : ρ} (h : t.lookup k = some r) (f : ρ → ρ) :
    modify t k f = t.insert k (f r) := by
  simp only [modify, h]

theorem entries_erase (t : Table κ ρ) (k : κ) : (t.erase k).entries = t.entries.kerase k := rfl

section Total

variable [AddCommMonoid μ] {f : κ → ρ → μ}

@[simp] theorem total_insert (t : Table κ ρ) (k : κ) (r : ρ) :
    total f (t.insert k r) = f k r + total f (t.erase k) := by
  simp only [total, AList.entries_insert, entries_erase, map_cons, sum_cons]

theorem total_split (t : Table κ ρ) (k : κ) :
    total f t = ((t.lookup k).elim 0 (f k)) + total f (t.erase k) := by
  have hperm : t.entries.Perm (((t.lookup k).map fun r => ⟨k, r⟩).toList ++ (t.erase k).entries) := by
    rcases hl : t.lookup k with _ | r
    · have hk : k ∉ t.entries.keys := fun h => AList.lookup_eq_none.mp hl h
      simp [entries_erase, kerase_of_notMem_keys hk]
    have hk : k ∈ t.entries.keys := AList.lookup_isSome.mp (by simp [hl])
    obtain ⟨r', l₁, l₂, -, he, hr⟩ := exists_of_kerase hk
    have hr' : t.lookup k = some r' := by
      rw [← mem_def, AList.mem_lookup_iff, he]
      simp
    obtain rfl : r = r' := some.inj (hl.symm.trans hr')
    simp only [entries_erase, he, map_some, toList_some, singleton_append]
    rw [← he, hr]
    exact he ▸ perm_middle
  unfold total
  rw [(hperm.map _).sum_eq]
  rcases t.lookup k with _ | r <;> simp

theorem total_of_none {t : Table κ ρ} {k : κ} (h : t.lookup k = none) :
    total f t = total f (t.erase k) := by
  rw [total_split t k, h, elim_none, zero_add]

theorem total_of_some {t : Table κ ρ} {k : κ} {r : ρ} (h : t.lookup k = some r) :
    total f t = f k r + total f (t.erase k) := by
  rw [total_split t k, h, elim_some]

theorem total_erase_le {f : κ → ρ → ℕ} (t : Table κ ρ) (k : κ) :
    total f (t.erase k) ≤ total f t := by
  rw [total_split t k]
  exact Nat.le_add_left _ _

theorem sum_le_total {ι : Type} (g : ι → κ) (l : List ι) {h : κ → ρ → ℕ} (t : Table κ ρ)
    (w : ι → ℕ) (hle : ∀ k, (l.map fun i => if g i = k then w i else 0).sum
      ≤ (t.lookup k).elim 0 (h k)) : (l.map w).sum ≤ t.total h := by
  induction t using AList.insertRec generalizing w with
  | H0 =>
    have hzero : ∀ i ∈ l, w i = 0 := by
      intro i hi
      have hmem := mem_map_of_mem (f := fun j => if g j = g i then w j else 0) hi
      rw [if_pos rfl] at hmem
      exact Nat.le_zero.mp ((le_sum_of_mem hmem).trans (hle (g i)))
    exact (sum_eq_zero (by simpa using hzero)).le
  | IH k r t hk ih =>
    -- what is not filed under `k` is within the rest of the table
    have hrest : (l.map fun i => if g i = k then 0 else w i).sum ≤ total h t := by
      refine ih _ fun k' => ?_
      by_cases hkk : k' = k
      · subst hkk
        refine (sum_eq_zero fun x hx => ?_).trans_le (Nat.zero_le _)
        obtain ⟨i, -, rfl⟩ := mem_map.mp hx
        by_cases hi : g i = k' <;> simp [hi]
      · have hk' := hle k'
        rw [AList.lookup_insert_ne hkk] at hk'
        refine le_trans (sum_le_sum fun i _ => ?_) hk'
        split_ifs <;> omega
    have hhere := hle k
    rw [AList.lookup_insert, elim_some] at hhere
    have hsplit : (l.map w).sum = (l.map fun i => if g i = k then w i else 0).sum
        + (l.map fun i => if g i = k then 0 else w i).sum := by
      rw [← sum_map_add]
      refine congrArg sum (map_congr_left fun i _ => ?_)
      split_ifs <;> simp
    have herase : t.erase k = t := AList.ext (kerase_of_notMem_keys hk)
    rw [total_insert, herase]
    omega

end Total

end Table
