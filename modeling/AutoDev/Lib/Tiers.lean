/-
# `AutoDev.Lib.Tiers` — the highest score and the first tier

Items with scores can be read in two ways: take those of the highest score, or
go down the scores and take the first that has any items.  For scores below a
bound the two give the same items (`tier_top`).

The first non-empty list of a sequence of lists is `firstTier`.
-/
import Mathlib.Data.List.Basic
import Mathlib.Order.Lattice.Nat

namespace Tiers

open List

variable {α : Type}

/-- The items of one score, in their order. -/
def tier (scored : List (ℕ × α)) (k : ℕ) : List α := (scored.filter (·.1 = k)).map Prod.snd

/-- The highest score, and 0 if there is none. -/
def top (scored : List (ℕ × α)) : ℕ := (scored.map Prod.fst).foldl max 0

def firstTier (tiers : List (List α)) : List α := (tiers.find? fun t => !t.isEmpty).getD []

@[simp] theorem firstTier_nil : firstTier ([] : List (List α)) = [] := rfl

theorem firstTier_cons (t : List α) (tiers : List (List α)) :
    firstTier (t :: tiers) = if t = [] then firstTier tiers else t := by
  unfold firstTier
  cases t with
  | nil => simp
  | cons a t => simp

theorem firstTier_eq_nil {tiers : List (List α)} : firstTier tiers = [] ↔ ∀ t ∈ tiers, t = [] := by
  induction tiers with
  | nil => simp
  | cons t tiers ih =>
    rw [firstTier_cons, forall_mem_cons]
    by_cases ht : t = []
    · simp [ht, ih]
    · simp [ht]

theorem firstTier_perm {tiers tiers' : List (List α)} (h : List.Forall₂ List.Perm tiers tiers') :
    (firstTier tiers).Perm (firstTier tiers') := by
  induction h with
  | nil => exact .nil
  | @cons t t' tiers tiers' ht _ ih =>
    rw [firstTier_cons, firstTier_cons]
    have hnil : t = [] ↔ t' = [] := by
      rw [← length_eq_zero_iff, ← length_eq_zero_iff, ht.length_eq]
    by_cases hn : t = []
    · rw [if_pos hn, if_pos (hnil.mp hn)]
      exact ih
    · rw [if_neg hn, if_neg (hn ∘ hnil.mpr)]
      exact ht

theorem firstTier_append (l l' : List (List α)) :
    firstTier (l ++ l') = if firstTier l = [] then firstTier l' else firstTier l := by
  induction l with
  | nil => simp
  | cons t l ih =>
    rw [cons_append, firstTier_cons, firstTier_cons, ih]
    by_cases ht : t = []
    · rw [if_pos ht, if_pos ht]
    · rw [if_neg ht, if_neg ht, if_neg ht]

/-- There are items, and those of the first tier all have the property. -/
def Clean (P : α → Prop) (tiers : List (List α)) : Prop :=
  firstTier tiers ≠ [] ∧ ∀ a ∈ firstTier tiers, P a

theorem Clean.of_bad {P : α → Prop} {l r : List (List α)} {t : List α} {a : α} (ha : ¬ P a)
    (h : Clean P (l ++ (a :: t) :: r)) : Clean P (l ++ t :: r) := by
  unfold Clean at h ⊢
  rw [firstTier_append, firstTier_cons, if_neg (cons_ne_nil a t)] at h
  by_cases hl : firstTier l = []
  · rw [if_pos hl] at h
    exact absurd (h.2 a mem_cons_self) ha
  · rw [if_neg hl] at h
    rw [firstTier_append, if_neg hl]
    exact h

theorem Clean.with_good {P : α → Prop} {l r : List (List α)} {t : List α} {a : α} (ha : P a)
    (h : Clean P (l ++ t :: r)) : Clean P (l ++ (a :: t) :: r) := by
  unfold Clean at h ⊢
  rw [firstTier_append, firstTier_cons] at h
  rw [firstTier_append, firstTier_cons, if_neg (cons_ne_nil a t)]
  by_cases hl : firstTier l = []
  · rw [if_pos hl] at h ⊢
    refine ⟨cons_ne_nil a t, forall_mem_cons.mpr ⟨ha, fun b hb => ?_⟩⟩
    rw [if_neg (ne_nil_of_mem hb)] at h
    exact h.2 b hb
  · rw [if_neg hl] at h ⊢
    exact h

variable {scored : List (ℕ × α)}

theorem mem_tier {k : ℕ} {a : α} : a ∈ tier scored k ↔ (k, a) ∈ scored := by
  simp only [tier, mem_map, mem_filter, decide_eq_true_eq]
  constructor
  · rintro ⟨⟨k', a'⟩, ⟨hmem, rfl⟩, rfl⟩
    exact hmem
  · exact fun h => ⟨(k, a), ⟨h, rfl⟩, rfl⟩

@[simp] theorem tier_append (l l' : List (ℕ × α)) (k : ℕ) :
    tier (l ++ l') k = tier l k ++ tier l' k := by
  simp [tier]

theorem tier_map (score : α → ℕ) (l : List α) (k : ℕ) :
    tier (l.map fun a => (score a, a)) k = l.filter fun a => score a = k := by
  induction l with
  | nil => rfl
  | cons a l ih =>
    simp only [tier, map_cons, filter_cons] at ih ⊢
    by_cases h : score a = k
    · simp [h, ih]
    · simp [h, ih]

theorem le_foldl_max (b : ℕ) : ∀ (l : List ℕ), b ≤ l.foldl max b ∧ ∀ k ∈ l, k ≤ l.foldl max b
  | [] => ⟨le_rfl, by simp⟩
  | k :: l => by
    obtain ⟨hb, hl⟩ := le_foldl_max (max b k) l
    exact ⟨(le_max_left b k).trans hb, forall_mem_cons.mpr ⟨(le_max_right b k).trans hb, hl⟩⟩

theorem foldl_max_le {b n : ℕ} : ∀ {l : List ℕ}, b ≤ n → (∀ k ∈ l, k ≤ n) → l.foldl max b ≤ n
  | [], hb, _ => hb
  | k :: l, hb, h => by
    rw [foldl_cons]
    exact foldl_max_le (max_le hb (h k mem_cons_self)) fun k' hk' =>
      h k' (mem_cons_of_mem _ hk')

theorem le_top {x : ℕ × α} (h : x ∈ scored) : x.1 ≤ top scored :=
  (le_foldl_max 0 _).2 x.1 (mem_map_of_mem h)

theorem top_le {n : ℕ} (h : ∀ x ∈ scored, x.1 ≤ n) : top scored ≤ n := by
  refine foldl_max_le (Nat.zero_le n) fun k hk => ?_
  obtain ⟨x, hx, rfl⟩ := mem_map.mp hk
  exact h x hx

theorem tier_top : ∀ {n : ℕ}, (∀ x ∈ scored, x.1 < n) →
    tier scored (top scored) = firstTier ((range n).reverse.map (tier scored))
  | 0, h => by
    cases scored with
    | nil => rfl
    | cons x l => exact absurd (h x mem_cons_self) (Nat.not_lt_zero _)
  | n + 1, h => by
    rw [range_succ, reverse_append, reverse_singleton, singleton_append,
      map_cons, firstTier_cons]
    split
    · rename_i hnil
      -- nobody has the highest possible score
      refine tier_top fun x hx => lt_of_le_of_ne (Nat.le_of_lt_succ (h x hx)) fun heq => ?_
      have hmem : x.2 ∈ tier scored n := mem_tier.mpr (heq ▸ hx)
      rw [hnil] at hmem
      cases hmem
    · rename_i hne
      obtain ⟨a, ha⟩ := exists_mem_of_ne_nil _ hne
      have htop : top scored = n :=
        le_antisymm (top_le fun x hx => Nat.le_of_lt_succ (h x hx)) (le_top (mem_tier.mp ha))
      rw [htop]

end Tiers
