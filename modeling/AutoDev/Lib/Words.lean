/-
# `AutoDev.Lib.Words` — replacing the words of a set in a text

`blot key ws m xs` goes through `xs` from left to right; where a word of `ws`
stands it writes `m` and goes on BEHIND the word, elsewhere it keeps the
letter.  The letters are of a type `β` that may carry more than the letter
compared (`key`).

Replacing one word after another is not the same as replacing them all at once.
Two words MEET when they can stand in one text at different places, or as
different words, with a letter in common.  Where no two words of a set meet, and
none can share a letter with `m`, the passes are one pass (`blot_blot`).
-/
import Mathlib.Data.List.Infix
import Mathlib.Data.List.Basic

namespace Words

open List

variable {α β : Type} [DecidableEq α]

/-! ## One pass -/

section

variable (key : β → α) (ws : List (List α)) (m : List β)

/-- One pass; the number counts the letters of a word just found that are still to be skipped. -/
def blotFrom : Nat → List β → List β
  | _, [] => []
  | k + 1, _ :: xs => blotFrom k xs
  | 0, x :: xs =>
    match ws.find? fun w => decide (w <+: (x :: xs).map key) with
    | some w => m ++ blotFrom (w.length - 1) xs
    | none => x :: blotFrom 0 xs

/-- Every word of `ws`, found from left to right, replaced by `m`. -/
def blot (xs : List β) : List β := blotFrom key ws m 0 xs

end

variable {key : β → α} {ws : List (List α)} {m : List β}

@[simp] theorem blot_nil : blot key ws m [] = [] := rfl

theorem blotFrom_eq : ∀ (k : Nat) (xs : List β),
    blotFrom key ws m k xs = blot key ws m (xs.drop k)
  | 0, _ => rfl
  | k + 1, [] => by simp [blotFrom]
  | k + 1, _ :: xs => blotFrom_eq k xs

variable {xs ys us : List β} {w v c t : List α} {P : Nat → Prop}

theorem blot_cons_of_none {x : β} (h : ∀ w ∈ ws, ¬ w <+: (x :: xs).map key) :
    blot key ws m (x :: xs) = x :: blot key ws m xs := by
  have hf : (ws.find? fun w => decide (w <+: (x :: xs).map key)) = none := by
    rw [find?_eq_none]
    intro w hw
    simpa using h w hw
  rw [blot, blotFrom, hf]
  rfl

theorem blot_of_word (hw : w ∈ ws) (hne : w ≠ []) (hpre : w <+: xs.map key)
    (huniq : ∀ u ∈ ws, u <+: xs.map key → u = w) :
    blot key ws m xs = m ++ blot key ws m (xs.drop w.length) := by
  rcases xs with _ | ⟨x, xs⟩
  · exact absurd (prefix_nil.mp hpre) hne
  rcases hf : ws.find? fun w => decide (w <+: (x :: xs).map key) with _ | u
  · have := find?_eq_none.mp hf w hw
    simp only [decide_eq_true_eq] at this
    exact absurd hpre this
  have hu : u = w := huniq u (mem_of_find?_eq_some hf)
    (by simpa using find?_some hf)
  obtain ⟨n, hn⟩ : ∃ n, w.length = n + 1 :=
    ⟨w.length - 1, by have := length_pos_of_ne_nil hne; omega⟩
  rw [blot, blotFrom, hf]
  dsimp only
  rw [blotFrom_eq, hu, hn, Nat.add_sub_cancel, drop_succ_cons]

theorem blot_no_words (xs : List β) : blot key [] m xs = xs := by
  induction xs with
  | nil => rfl
  | cons x xs ih => rw [blot_cons_of_none (by simp), ih]

theorem map_blot {γ : Type} {key' : γ → α} (f : β → γ) (hf : ∀ x, key' (f x) = key x) :
    ∀ (k : Nat) (xs : List β),
      (blotFrom key ws m k xs).map f = blotFrom key' ws (m.map f) k (xs.map f)
  | _, [] => rfl
  | k + 1, _ :: xs => map_blot f hf k xs
  | 0, x :: xs => by
    have hkeys : (f x :: xs.map f).map key' = (x :: xs).map key := by simp [hf]
    rw [map_cons, blotFrom, blotFrom, hkeys]
    split
    · rw [map_append, map_blot f hf]
    · rw [map_cons, map_blot f hf]

theorem mem_blot {x : β} : ∀ {k : Nat} {xs : List β}, x ∈ blotFrom key ws m k xs → x ∈ m ∨ x ∈ xs
  | _, [], h => .inr h
  | k + 1, _ :: xs, h => by
    rw [blotFrom] at h
    exact (mem_blot h).imp id (mem_cons_of_mem _)
  | 0, y :: xs, h => by
    rw [blotFrom] at h
    split at h
    · rcases mem_append.mp h with h | h
      · exact .inl h
      · exact (mem_blot h).imp id (mem_cons_of_mem _)
    · rcases mem_cons.mp h with rfl | h
      · exact .inr mem_cons_self
      · exact (mem_blot h).imp id (mem_cons_of_mem _)

theorem blot_append_of_none :
    ∀ {xs : List β}, (∀ j < xs.length, ∀ w ∈ ws, ¬ w <+: (xs.drop j ++ ys).map key) →
      blot key ws m (xs ++ ys) = xs ++ blot key ws m ys
  | [], _ => rfl
  | x :: xs, h => by
    have hx : ∀ w ∈ ws, ¬ w <+: (x :: (xs ++ ys)).map key := h 0 (by simp)
    rw [cons_append, blot_cons_of_none hx,
      blot_append_of_none fun j hj => h (j + 1) (by simpa using hj), cons_append]

theorem blot_eq_self (h : ¬ w <:+: xs.map key) : blot key [w] m xs = xs := by
  have hnone : ∀ j < xs.length, ∀ u ∈ [w], ¬ u <+: (xs.drop j ++ []).map key := by
    intro j _ u hu hp
    rw [append_nil, map_drop, mem_singleton.mp hu] at hp
    exact h (hp.isInfix.trans (drop_suffix _ _).isInfix)
  simpa using blot_append_of_none hnone

theorem blot_word_append (hw : w ≠ []) (hus : us.map key = w) :
    blot key [w] m (us ++ xs) = m ++ blot key [w] m xs := by
  have hlen : w.length = us.length := by rw [← hus, length_map]
  rw [blot_of_word mem_cons_self hw ⟨xs.map key, by rw [map_append, hus]⟩ (by simp),
    hlen, drop_left]

/-- A text in which a word stands, cut at the first place where it does. -/
theorem exists_first :
    ∀ {xs : List β}, w <:+: xs.map key →
      ∃ us vs zs : List β, xs = us ++ (vs ++ zs) ∧ vs.map key = w ∧
        ∀ j < us.length, ¬ w <+: (us.drop j ++ (vs ++ zs)).map key
  | [], h => ⟨[], [], [], rfl, (infix_nil.mp h).symm, by simp⟩
  | x :: xs, h => by
    by_cases hp : w <+: (x :: xs).map key
    · obtain ⟨c, hc⟩ := hp
      obtain ⟨vs, zs, hxs, hv, -⟩ := map_eq_append_iff.mp hc.symm
      exact ⟨[], vs, zs, hxs, hv, by simp⟩
    have hxs : w <:+: xs.map key := by
      rw [map_cons, infix_cons_iff] at h
      exact h.resolve_left hp
    obtain ⟨us, vs, zs, rfl, hv, hfirst⟩ := exists_first hxs
    refine ⟨x :: us, vs, zs, rfl, hv, fun j hj => ?_⟩
    rcases j with _ | j
    · exact hp
    · exact hfirst j (by simpa using hj)

theorem blot_first (hw : w ≠ []) {vs zs : List β} (hv : vs.map key = w)
    (hfirst : ∀ j < us.length, ¬ w <+: (us.drop j ++ (vs ++ zs)).map key) :
    blot key [w] m (us ++ (vs ++ zs)) = us ++ (m ++ blot key [w] m zs) := by
  rw [blot_append_of_none fun j hj u hu => by rw [mem_singleton.mp hu]; exact hfirst j hj,
    blot_word_append hw hv]

theorem eq_replicate_of_blot (hw : w ≠ []) (hm : ∀ x ∈ xs, x ∉ m)
    (h : ∀ x ∈ blot key [w] m xs, x ∈ m) : ∃ n, xs.map key = (replicate n w).flatten := by
  induction hn : xs.length using Nat.strong_induction_on generalizing xs with
  | _ n ih =>
    subst hn
    by_cases hi : w <:+: xs.map key
    · obtain ⟨us, vs, zs, rfl, hv, hfirst⟩ := exists_first hi
      rw [blot_first hw hv hfirst] at h
      have hus : us = [] := eq_nil_iff_forall_not_mem.mpr fun x hx =>
        hm x (mem_append_left _ hx) (h x (mem_append_left _ hx))
      subst hus
      have hvpos : 0 < vs.length := by
        rw [← length_map, hv]
        exact length_pos_of_ne_nil hw
      obtain ⟨n, hn⟩ := ih zs.length (by simp; omega)
        (fun x hx => hm x (by simp [hx])) (fun x hx => h x (by simp [hx])) rfl
      exact ⟨n + 1, by simp [hv, hn, replicate_succ]⟩
    · rw [blot_eq_self hi] at h
      have : xs = [] := eq_nil_iff_forall_not_mem.mpr fun x hx => hm x hx (h x hx)
      exact ⟨0, by simp [this]⟩

/-- Weigh texts so that the inserted one weighs nothing: a text loses the weight of the word each
time the word is replaced. -/
theorem exists_weight_blot {f : List α → Int} (hf : ∀ s t, f (s ++ t) = f s + f t) (hw : w ≠ [])
    (hm : f (m.map key) = 0) (xs : List β) : ∃ c : Nat, (w <:+: xs.map key → c ≠ 0) ∧
      f ((blot key [w] m xs).map key) + c * f w = f (xs.map key) := by
  induction hn : xs.length using Nat.strong_induction_on generalizing xs with
  | _ n ih =>
    subst hn
    by_cases hi : w <:+: xs.map key
    · obtain ⟨us, vs, zs, rfl, hv, hfirst⟩ := exists_first hi
      have hvpos : 0 < vs.length := by
        rw [← length_map, hv]
        exact length_pos_of_ne_nil hw
      obtain ⟨c, -, hc⟩ := ih zs.length (by simp; omega) zs rfl
      refine ⟨c + 1, fun _ => by omega, ?_⟩
      rw [blot_first hw hv hfirst]
      simp only [map_append, hf, hv, hm, ← hc, Int.natCast_succ, Int.add_mul]
      omega
    · exact ⟨0, fun h => absurd h hi, by rw [blot_eq_self hi]; omega⟩

/-- A text in which a word is replaced does not hold its old self, provided the inserted text
does not hold the word: each time a copy of the text would need the word, it is a little later in
the new text than in the old. -/
theorem not_prefix_drop_blot (hw : w ≠ []) (hm : ¬ w <:+: m.map key) (hi : w <:+: xs.map key)
    (d : Nat) : ¬ xs.map key <+: ((blot key [w] m xs).map key).drop d := by
  induction hn : xs.length using Nat.strong_induction_on generalizing xs d with
  | _ n ih =>
    subst hn
    intro hp
    obtain ⟨us, vs, zs, rfl, hv, hfirst⟩ := exists_first hi
    have hwpos : 0 < w.length := length_pos_of_ne_nil hw
    have hvlen : vs.length = w.length := by rw [← hv, length_map]
    rw [blot_first hw hv hfirst] at hp
    simp only [map_append, hv] at hp
    -- behind `us` the word and the rest stand in the new text, from its letter `d` on
    have hrest : w ++ zs.map key
        <+: (m.map key ++ (blot key [w] m zs).map key).drop d := by
      have := List.IsPrefix.drop hp (us.map key).length
      rwa [drop_left, drop_drop, Nat.add_comm, drop_append,
        drop_eq_nil_of_le (by omega), nil_append, Nat.add_sub_cancel_left] at this
    -- the word ends behind the inserted text
    have hd : m.length < d + w.length := by
      by_contra hle
      refine hm (List.IsInfix.trans (List.IsPrefix.isInfix ?_) (drop_suffix d _).isInfix)
      have h₁ := (prefix_append w (zs.map key)).trans hrest
      rw [drop_append_of_le_length (by rw [length_map]; omega)] at h₁
      refine prefix_of_prefix_length_le h₁ (prefix_append _ _) ?_
      rw [length_drop, length_map]
      omega
    have htail : zs.map key
        <+: ((blot key [w] m zs).map key).drop (d + w.length - m.length) := by
      have := List.IsPrefix.drop hrest w.length
      rwa [drop_left, drop_drop, drop_append, length_map,
        drop_eq_nil_of_le (by rw [length_map]; omega), nil_append] at this
    by_cases hz : w <:+: zs.map key
    · exact ih zs.length (by simp; omega) hz _ rfl htail
    rw [blot_eq_self hz] at htail hrest
    have hlen := htail.length_le
    rw [length_drop] at hlen
    have hz0 : zs = [] := by
      rw [← length_eq_zero_iff]
      rw [length_map] at hlen
      omega
    subst hz0
    have hlen' := hrest.length_le
    simp at hlen'
    omega

/-! ## Words that meet -/

/-- Put the front of `w` at some letter of `v`: as far as both go, they agree. -/
def Touches (v w : List α) : Prop := ∃ k < v.length, v.drop k <+: w ∨ w <+: v.drop k

/-- Two words that can stand in one text and share a letter, other than one word with itself. -/
def Meets (v w : List α) : Prop :=
  ∃ k < v.length, (k = 0 → v ≠ w) ∧ (v.drop k <+: w ∨ w <+: v.drop k)

instance (v w : List α) : Decidable (Touches v w) :=
  inferInstanceAs (Decidable (∃ k < v.length, v.drop k <+: w ∨ w <+: v.drop k))

instance (v w : List α) : Decidable (Meets v w) :=
  inferInstanceAs (Decidable (∃ k < v.length,
    (k = 0 → v ≠ w) ∧ (v.drop k <+: w ∨ w <+: v.drop k)))

/-- No two words of the set meet. -/
def Apart (ws : List (List α)) : Prop := ∀ v ∈ ws, ∀ w ∈ ws, ¬ Meets v w

omit [DecidableEq α] in
theorem touches_of_start {k : Nat} (hk : k < v.length) (h : w <+: v.drop k ++ c) : Touches v w :=
  ⟨k, hk, prefix_or_prefix_of_prefix (prefix_append _ c) h⟩

omit [DecidableEq α] in
theorem meets_of_start {k : Nat} (hk : k < v.length) (hvw : k = 0 → v ≠ w)
    (h : w <+: v.drop k ++ c) : Meets v w :=
  ⟨k, hk, hvw, prefix_or_prefix_of_prefix (prefix_append _ c) h⟩

omit [DecidableEq α] in
theorem meets_of_part (hw : w ≠ []) (hne : v ≠ w) (h : w <:+: v) : Meets v w := by
  obtain ⟨a, b, rfl⟩ := h
  have hpos := length_pos_of_ne_nil hw
  have hlt : a.length < (a ++ w ++ b).length := by
    simp
    omega
  refine ⟨a.length, hlt, fun _ => hne, .inr ?_⟩
  rw [append_assoc, drop_left]
  exact prefix_append w b

omit [DecidableEq α] in
/-- A word that stands twice, the second time behind `c`, stands in `c` or overlaps itself. -/
theorem prefix_or_meets {b : List α} (hc : c ≠ []) (h : w <+: c ++ (w ++ b)) :
    w <+: c ∨ Meets w w := by
  rcases prefix_or_prefix_of_prefix h (prefix_append c _) with hwc | ⟨d, rfl⟩
  · exact .inl hwc
  by_cases hd : d = []
  · exact .inl (by simp [hd])
  have hcpos := length_pos_of_ne_nil hc
  have hdpos := length_pos_of_ne_nil hd
  rw [prefix_append_right_inj] at h
  refine .inr ⟨c.length, by simp; omega, fun h0 => by omega, ?_⟩
  rw [drop_left]
  exact prefix_or_prefix_of_prefix h (prefix_append _ _)

theorem Apart.eq_of_prefix (hws : Apart ws) (hne : [] ∉ ws) {u : List α} (hu : u ∈ ws) (hv : v ∈ ws)
    (hut : u <+: t) (hvt : v <+: t) : u = v := by
  by_contra huv
  have hpos : 0 < u.length := length_pos_of_ne_nil fun h => hne (h ▸ hu)
  exact hws u hu v hv
    ⟨0, hpos, fun _ => huv, prefix_or_prefix_of_prefix hut hvt⟩

/-! ## Passes one after another -/

/-- What stands in a text of which words are blotted stood there before, if it cannot share a
letter with the inserted text. -/
theorem prefix_of_prefix_blot (hne : [] ∉ ws) (hws : Apart ws) (ht : ¬ Touches w (m.map key)) :
    ∀ {xs : List β} {k : Nat}, w.drop k <+: (blot key ws m xs).map key → w.drop k <+: xs.map key
  | [], _, h => h
  | x :: xs, k, h => by
    by_cases hk : k < w.length
    · by_cases hx : ∃ v ∈ ws, v <+: (x :: xs).map key
      · obtain ⟨v, hv, hpre⟩ := hx
        rw [blot_of_word hv (fun h0 => hne (h0 ▸ hv)) hpre
          fun u hu hup => hws.eq_of_prefix hne hu hv hup hpre, map_append] at h
        exact absurd ⟨k, hk, prefix_or_prefix_of_prefix h (prefix_append _ _)⟩ ht
      · rw [blot_cons_of_none fun v hv hpre => hx ⟨v, hv, hpre⟩, map_cons] at h
        rw [map_cons]
        rw [drop_eq_getElem_cons hk, cons_prefix_cons] at h ⊢
        exact ⟨h.1, prefix_of_prefix_blot hne hws ht h.2⟩
    · rw [drop_eq_nil_of_le (Nat.le_of_not_lt hk)]
      exact nil_prefix

omit [DecidableEq α] in
theorem length_drop_word {v : List α} {xs : List β} (hv : v ≠ []) (h : v <+: xs.map key) :
    (xs.drop v.length).length < xs.length := by
  have h₁ := length_pos_of_ne_nil hv
  have h₂ := h.length_le
  rw [length_map] at h₂
  rw [length_drop]
  omega

/-- Induction along a pass: it takes a word off the front of the text, or a letter where no word
starts. -/
theorem induction_on_words (key : β → α) (hne : [] ∉ ws) {motive : List β → Prop} (nil : motive [])
    (word : ∀ xs, ∀ v ∈ ws, v ≠ [] → v <+: xs.map key → motive (xs.drop v.length) → motive xs)
    (letter : ∀ x xs, (∀ v ∈ ws, ¬ v <+: (x :: xs).map key) → motive xs → motive (x :: xs))
    (xs : List β) : motive xs := by
  induction hn : xs.length using Nat.strong_induction_on generalizing xs with
  | _ n ih =>
    subst hn
    by_cases hx : ∃ v ∈ ws, v <+: xs.map key
    · obtain ⟨v, hv, hpre⟩ := hx
      have hv0 : v ≠ [] := fun h => hne (h ▸ hv)
      exact word xs v hv hv0 hpre (ih _ (length_drop_word hv0 hpre) _ rfl)
    · rcases xs with _ | ⟨x, xs⟩
      · exact nil
      · exact letter x xs (fun v hv hp => hx ⟨v, hv, hp⟩) (ih _ (by simp) _ rfl)

theorem blot_blot (hwn : w ∉ ws) (hne : [] ∉ w :: ws) (hws : Apart (w :: ws))
    (ht : ¬ Touches w (m.map key)) (ht' : ¬ Touches (m.map key) w) (xs : List β) :
    blot key [w] m (blot key ws m xs) = blot key (w :: ws) m xs := by
  have hne' : [] ∉ ws := fun h => hne (mem_cons_of_mem w h)
  have hws' : Apart ws := fun u hu v hv =>
    hws u (mem_cons_of_mem w hu) v (mem_cons_of_mem w hv)
  have huniq : ∀ {t u v : List α}, u ∈ w :: ws → v ∈ w :: ws → u <+: t → v <+: t → u = v :=
    fun hu hv => hws.eq_of_prefix hne hu hv
  induction xs using induction_on_words key hne with
  | nil => rfl
  | word xs v hvm hv0 hpre ih =>
    rw [blot_of_word hvm hv0 hpre fun u hu hup => huniq hu hvm hup hpre, ← ih]
    rcases mem_cons.mp hvm with rfl | hv
    · obtain ⟨c, hc⟩ := id hpre
      obtain ⟨ys, zs, rfl, hy, -⟩ := map_eq_append_iff.mp hc.symm
      have hyl : v.length = ys.length := by rw [← hy, length_map]
      have hfirst : blot key ws m (ys ++ zs) = ys ++ blot key ws m zs := by
        refine blot_append_of_none fun j hj u hu hup => ?_
        rw [map_append, map_drop, hy] at hup
        refine hws v hvm u (mem_cons_of_mem v hu)
          (meets_of_start (by rw [hyl]; exact hj) (fun _ h => hwn (h ▸ hu)) hup)
      have hpre' : v <+: (ys ++ blot key ws m zs).map key := by
        rw [map_append, hy]
        exact prefix_append _ _
      rw [hfirst, blot_of_word mem_cons_self hv0 hpre' (by simp), hyl, drop_left, drop_left]
    · rw [blot_of_word hv hv0 hpre fun u hu hup => huniq (mem_cons_of_mem w hu) hvm hup hpre,
        blot_append_of_none]
      intro j hj u hu hup
      obtain rfl := mem_singleton.mp hu
      rw [map_append, map_drop] at hup
      exact ht' (touches_of_start (by simpa using hj) hup)
  | letter x xs hnone ih =>
    have hfirst := blot_cons_of_none (m := m) fun u hu => hnone u (mem_cons_of_mem w hu)
    have hw : ¬ w <+: (blot key ws m (x :: xs)).map key := fun h =>
      hnone w mem_cons_self (prefix_of_prefix_blot (k := 0) hne' hws' ht h)
    rw [blot_cons_of_none hnone, ← ih]
    rw [hfirst] at hw ⊢
    refine blot_cons_of_none fun u hu => ?_
    rw [mem_singleton.mp hu]
    exact hw

theorem blot_congr {vs : List (List α)} (hne : [] ∉ ws) (hws : Apart ws)
    (h : ∀ w, w ∈ vs ↔ w ∈ ws) (xs : List β) : blot key vs m xs = blot key ws m xs := by
  induction xs using induction_on_words key hne with
  | nil => rfl
  | word xs v hv hv0 hpre ih =>
    rw [blot_of_word hv hv0 hpre fun u hu hup => hws.eq_of_prefix hne hu hv hup hpre,
      blot_of_word ((h v).mpr hv) hv0 hpre
        fun u hu hup => hws.eq_of_prefix hne ((h u).mp hu) hv hup hpre, ih]
  | letter x xs hnone ih =>
    rw [blot_cons_of_none hnone, blot_cons_of_none fun v hv => hnone v ((h v).mp hv), ih]

/-! ## What a pass leaves -/

/-- The letter at `k` stands in one of the words. -/
def Covered (words : List α → Prop) (t : List α) (k : Nat) : Prop :=
  ∃ w, words w ∧ ∃ i ≤ k, k < i + w.length ∧ w <+: t.drop i

/-- The text `ys` is `xs` with each maximal stretch of letters at which `P` holds replaced by one
or more copies of `m`. -/
inductive Redacted (m : List β) : (Nat → Prop) → List β → List β → Prop
  | nil {P : Nat → Prop} : Redacted m P [] []
  | keep {P : Nat → Prop} {x : β} {xs ys : List β} (hx : ¬ P 0)
      (h : Redacted m (fun i => P (i + 1)) xs ys) : Redacted m P (x :: xs) (x :: ys)
  | stretch {P : Nat → Prop} {us xs ys : List β} {n : Nat} (hus : us ≠ [])
      (hP : ∀ i < us.length, P i) (hend : ¬ P us.length) (hn : 0 < n)
      (h : Redacted m (fun i => P (us.length + i)) xs ys) :
      Redacted m P (us ++ xs) ((replicate n m).flatten ++ ys)

theorem Redacted.length_pos (h : Redacted m P xs ys) (hys : ys ≠ []) : 0 < xs.length := by
  cases h with
  | nil => exact absurd rfl hys
  | keep => simp
  | stretch hus =>
    have := length_pos_of_ne_nil hus
    rw [length_append]
    omega

theorem Redacted.eq_replicate (h : Redacted m P xs ys) (hP : ∀ i < xs.length, P i) :
    ∃ n, ys = (replicate n m).flatten := by
  cases h with
  | nil => exact ⟨0, rfl⟩
  | keep hx _ => exact absurd (hP 0 (by simp)) hx
  | @stretch _ us xs ys n hus _ hend _ h =>
    by_cases hys : ys = []
    · exact ⟨n, by rw [hys, append_nil]⟩
    · have := h.length_pos hys
      exact absurd (hP us.length (by rw [length_append]; omega)) hend

theorem Redacted.mem_of_not (h : Redacted m P xs ys) :
    ∀ {i : Nat} (hi : i < xs.length), ¬ P i → xs[i] ∈ ys := by
  induction h with
  | nil => exact fun hi => absurd hi (by simp)
  | keep _ _ ih =>
    intro i hi hPi
    rcases i with _ | i
    · exact mem_cons_self
    · exact mem_cons_of_mem _ (ih (by simpa using hi) hPi)
  | @stretch P us xs ys n _ hP _ _ _ ih =>
    intro i hi hPi
    have hle : us.length ≤ i := by
      by_contra hlt
      exact hPi (hP i (by omega))
    obtain ⟨j, rfl⟩ := Nat.exists_eq_add_of_le hle
    have hj : j < xs.length := by
      rw [length_append] at hi
      omega
    refine mem_append_right _ ?_
    have := ih hj hPi
    simpa using this

/-- One more word in front of a redacted text: its copy of `m` joins the stretch behind it. -/
theorem Redacted.prepend (hus : us ≠ []) (hP : ∀ i < us.length, P i)
    (hbound : ∀ i, P i → i < us.length + xs.length)
    (h : Redacted m (fun i => P (us.length + i)) xs ys) : Redacted m P (us ++ xs) (m ++ ys) := by
  have hone : ∀ zs : List β, m ++ zs = (replicate 1 m).flatten ++ zs := by simp
  generalize hQ : (fun i => P (us.length + i)) = Q at h
  cases h with
  | nil =>
    rw [hone]
    exact .stretch hus hP (fun hp => absurd (hbound _ hp) (by simp)) Nat.one_pos (hQ ▸ .nil)
  | keep hx h =>
    subst hQ
    rw [hone]
    exact .stretch hus hP hx Nat.one_pos (.keep hx h)
  | @stretch _ us' xs ys n hus' hP' hend hn h =>
    subst hQ
    have heq : m ++ ((replicate n m).flatten ++ ys)
        = (replicate (n + 1) m).flatten ++ ys := by
      rw [replicate_succ, flatten_cons, append_assoc]
    rw [heq, ← append_assoc]
    refine .stretch (by simp [hus]) ?_ (by simpa using hend) n.succ_pos ?_
    · intro i hi
      by_cases hlt : i < us.length
      · exact hP i hlt
      · obtain ⟨j, rfl⟩ := Nat.exists_eq_add_of_le (Nat.le_of_not_lt hlt)
        rw [length_append] at hi
        exact hP' j (by omega)
    · simpa [Nat.add_assoc] using h

omit [DecidableEq α] in
theorem Covered.lt_length {words : List α → Prop} {k : Nat} (h : Covered words t k) :
    k < t.length := by
  obtain ⟨w, -, i, hi, hk, hpre⟩ := h
  have := hpre.length_le
  rw [length_drop] at this
  omega

omit [DecidableEq α] in
/-- Behind a word of a set whose words do not meet, the letters that stand in words are those of
the rest alone. -/
theorem covered_drop_iff (hws : Apart ws) (hw : w ∈ ws) (hpre : w <+: t) (i : Nat) :
    Covered (· ∈ ws) t (w.length + i) ↔ Covered (· ∈ ws) (t.drop w.length) i := by
  constructor
  · rintro ⟨u, hu, j, hj, hlt, hup⟩
    have hle : w.length ≤ j := by
      by_contra hjw
      obtain ⟨c, rfl⟩ := hpre
      rw [drop_append_of_le_length (by omega)] at hup
      refine hws w hw u hu (meets_of_start (by omega) ?_ hup)
      rintro rfl rfl
      omega
    obtain ⟨l, rfl⟩ := Nat.exists_eq_add_of_le hle
    exact ⟨u, hu, l, by omega, by omega, by rwa [drop_drop]⟩
  · rintro ⟨u, hu, j, hj, hlt, hup⟩
    exact ⟨u, hu, w.length + j, by omega, by omega, by rwa [drop_drop] at hup⟩

omit [DecidableEq α] in
theorem covered_cons_iff {x : α} (hnone : ∀ w ∈ ws, ¬ w <+: x :: t) (i : Nat) :
    Covered (· ∈ ws) (x :: t) (i + 1) ↔ Covered (· ∈ ws) t i := by
  constructor
  · rintro ⟨u, hu, _ | j, hj, hlt, hup⟩
    · exact absurd hup (hnone u hu)
    · exact ⟨u, hu, j, by omega, by omega, hup⟩
  · rintro ⟨u, hu, j, hj, hlt, hup⟩
    exact ⟨u, hu, j + 1, by omega, by omega, hup⟩

theorem redacted_blot (hne : [] ∉ ws) (hws : Apart ws) (xs : List β) :
    Redacted m (Covered (· ∈ ws) (xs.map key)) xs (blot key ws m xs) := by
  induction xs using induction_on_words key hne with
  | nil => exact .nil
  | word xs v hv hv0 hpre hrest =>
    have hvpos := length_pos_of_ne_nil hv0
    have hvle := hpre.length_le
    rw [length_map] at hvle
    have htake : (xs.take v.length).length = v.length := by
      rw [length_take]
      omega
    rw [blot_of_word hv hv0 hpre fun u hu hup => hws.eq_of_prefix hne hu hv hup hpre]
    have hmarked : Redacted m
        (fun i => Covered (· ∈ ws) (xs.map key) ((xs.take v.length).length + i))
        (xs.drop v.length) (blot key ws m (xs.drop v.length)) := by
      rw [htake]
      simpa only [covered_drop_iff hws hv hpre, map_drop] using hrest
    have hall := hmarked.prepend
      (by rw [← length_pos_iff, htake]; exact hvpos)
      (fun i hi => ⟨v, hv, 0, Nat.zero_le _, by omega, hpre⟩)
      (fun i hi => by have := hi.lt_length; simp at this ⊢; omega)
    rwa [take_append_drop] at hall
  | letter x xs hnone ih =>
    rw [blot_cons_of_none hnone]
    refine .keep ?_ ?_
    · rintro ⟨w, hw, i, hi, -, hp⟩
      obtain rfl := Nat.le_zero.mp hi
      exact hnone w hw hp
    · simpa only [map_cons, covered_cons_iff hnone] using ih

end Words
