/-
# `AutoDev.Lib.Grouped` — rows in groups, each in its order

A table whose key is a group and a position in it: the steps of a run, the
steps of a plan.  `SELECT … WHERE group = k ORDER BY position` is `group t k`.
It is determined by the rows of that group (`group_congr`), and a list of rows
written at 0, 1, 2, … with nothing behind them is read back as it was written
(`group_eq_zipIdx`).

`deleteWhere` is `DELETE … WHERE`.
-/
import AutoDev.Lib.Table
import Mathlib.Data.List.Sort
import Mathlib.Data.List.Enum

namespace Table

open List

section Delete

variable {κ ρ : Type}

def deleteWhere (t : Table κ ρ) (p : κ → ρ → Bool) : Table κ ρ :=
  ⟨t.entries.filter fun e => !p e.1 e.2, t.nodupKeys.sublist filter_sublist⟩

theorem lookup_deleteWhere [DecidableEq κ] (t : Table κ ρ) (p : κ → ρ → Bool) (k : κ) :
    (t.deleteWhere p).lookup k = (t.lookup k).filter fun r => !p k r := by
  ext r
  rw [Option.filter_eq_some_iff, ← Option.mem_def, ← Option.mem_def, AList.mem_lookup_iff,
    AList.mem_lookup_iff]
  exact mem_filter

end Delete

variable {κ ρ : Type} [DecidableEq κ]

/-- The rows of a group with their positions, in that order. -/
def group (t : Table (κ × ℕ) ρ) (k : κ) : List (ℕ × ρ) :=
  (t.entries.filterMap fun e => if e.1.1 = k then some (e.1.2, e.2) else none).insertionSort
    fun a b => a.1 ≤ b.1

theorem mem_group {t : Table (κ × ℕ) ρ} {k : κ} {a : ℕ × ρ} :
    a ∈ t.group k ↔ t.lookup (k, a.1) = some a.2 := by
  rw [group, mem_insertionSort, mem_filterMap, ← Option.mem_def, AList.mem_lookup_iff]
  constructor
  · rintro ⟨⟨⟨k', p⟩, r⟩, hmem, hsome⟩
    by_cases hk : k' = k
    · subst hk
      rw [if_pos rfl] at hsome
      obtain rfl := Option.some.inj hsome
      exact hmem
    · rw [if_neg hk] at hsome
      cases hsome
  · intro hmem
    exact ⟨_, hmem, if_pos rfl⟩

theorem pairwise_group (t : Table (κ × ℕ) ρ) (k : κ) :
    (t.group k).Pairwise fun a b => a.1 < b.1 := by
  have hsorted : (t.group k).Pairwise fun a b => a.1 ≤ b.1 := by
    exact pairwise_insertionSort _ _
  have hne : (t.group k).Pairwise fun a b => a.1 ≠ b.1 := by
    refine ((perm_insertionSort _ _).pairwise_iff fun h => h.symm).mpr ?_
    refine t.nodupKeys.pairwise_ne.filterMap _ ?_
    rintro ⟨⟨k₁, p₁⟩, r₁⟩ ⟨⟨k₂, p₂⟩, r₂⟩ hkey a ha b hb heq
    by_cases h₁ : k₁ = k
    · by_cases h₂ : k₂ = k
      · rw [if_pos h₁] at ha
        rw [if_pos h₂] at hb
        obtain rfl := Option.some.inj ha
        obtain rfl := Option.some.inj hb
        exact hkey (Prod.ext (h₁.trans h₂.symm) heq)
      · rw [if_neg h₂] at hb
        cases hb
    · rw [if_neg h₁] at ha
      cases ha
  exact (hsorted.and hne).imp fun h => lt_of_le_of_ne h.1 h.2

theorem eq_of_pairwise_lt {l l' : List (ℕ × ρ)} (h : l.Pairwise fun a b => a.1 < b.1)
    (h' : l'.Pairwise fun a b => a.1 < b.1) (hmem : ∀ a, a ∈ l ↔ a ∈ l') : l = l' := by
  have hnodup : ∀ {l : List (ℕ × ρ)}, (l.Pairwise fun a b => a.1 < b.1) → l.Nodup :=
    fun h => h.imp fun hlt heq => absurd (congrArg Prod.fst heq) hlt.ne
  refine List.Perm.eq_of_pairwise (fun a b _ _ hab hba => absurd hab hba.asymm) h h' ?_
  exact (perm_ext_iff_of_nodup (hnodup h) (hnodup h')).mpr hmem

def SameGroup (k : κ) (t t' : Table (κ × ℕ) ρ) : Prop := ∀ p, t.lookup (k, p) = t'.lookup (k, p)

theorem group_congr {t t' : Table (κ × ℕ) ρ} {k : κ} (h : SameGroup k t t') :
    t.group k = t'.group k :=
  eq_of_pairwise_lt (pairwise_group t k) (pairwise_group t' k) fun a => by
    rw [mem_group, mem_group, h]

namespace SameGroup

variable {k k' : κ} {t t' t'' : Table (κ × ℕ) ρ}

theorem refl (k : κ) (t : Table (κ × ℕ) ρ) : SameGroup k t t := fun _ => rfl

theorem trans (h : SameGroup k t t') (h' : SameGroup k t' t'') : SameGroup k t t'' :=
  fun p => (h p).trans (h' p)

theorem insert (h : SameGroup k t t') (p : ℕ) (r : ρ) :
    SameGroup k (t.insert (k, p) r) (t'.insert (k, p) r) := by
  intro p'
  by_cases hp : (k, p') = (k, p)
  · rw [hp, AList.lookup_insert, AList.lookup_insert]
  · rw [AList.lookup_insert_ne hp, AList.lookup_insert_ne hp, h p']

theorem erase (h : SameGroup k t t') (p : ℕ) : SameGroup k (t.erase (k, p)) (t'.erase (k, p)) := by
  intro p'
  by_cases hp : (k, p') = (k, p)
  · rw [hp, AList.lookup_erase, AList.lookup_erase]
  · rw [AList.lookup_erase_ne hp, AList.lookup_erase_ne hp, h p']

theorem insert_ne (hk : k ≠ k') (t : Table (κ × ℕ) ρ) (p : ℕ) (r : ρ) :
    SameGroup k t (t.insert (k', p) r) :=
  fun _ => (AList.lookup_insert_ne fun h => hk (congrArg Prod.fst h)).symm

theorem erase_ne (hk : k ≠ k') (t : Table (κ × ℕ) ρ) (p : ℕ) : SameGroup k t (t.erase (k', p)) :=
  fun _ => (AList.lookup_erase_ne fun h => hk (congrArg Prod.fst h)).symm

end SameGroup

theorem group_eq_zipIdx {t : Table (κ × ℕ) ρ} {k : κ} {rows : List ρ}
    (h : ∀ p, t.lookup (k, p) = rows[p]?) :
    t.group k = rows.zipIdx.map fun a => (a.2, a.1) := by
  refine eq_of_pairwise_lt (pairwise_group t k) ?_ fun a => ?_
  · rw [pairwise_map]
    exact pairwise_iff_getElem.mpr fun i j hi hj hij => by simpa using hij
  rw [mem_group, h, mem_map]
  constructor
  · intro hget
    exact ⟨(a.2, a.1), mem_zipIdx_iff_getElem?.mpr hget, rfl⟩
  · rintro ⟨b, hb, rfl⟩
    exact mem_zipIdx_iff_getElem?.mp hb

end Table
