/-
# `AutoDev.Lib.Dict` — insertion-ordered dictionaries with string keys

A dictionary is the list of its entries in insertion order.  Writing an
existing key changes the value in place, writing a new key appends it, so the
order is the order of FIRST insertion; nothing here removes a key.  Reading
is the first match, which is the only one in a dictionary built by `set`.
-/
import Mathlib.Data.List.Basic

/-- Entries in insertion order. -/
abbrev Dict (α : Type) := List (String × α)

namespace Dict

variable {α β : Type}

def get? : Dict α → String → Option α
  | [], _ => none
  | (k', v) :: d, k => if k' = k then some v else get? d k

def set : Dict α → String → α → Dict α
  | [], k, v => [(k, v)]
  | (k', v') :: d, k, v => if k' = k then (k, v) :: d else (k', v') :: set d k v

/-- Write every entry of the second dictionary over the first. -/
def update (d e : Dict α) : Dict α := e.foldl (fun d kv => set d kv.1 kv.2) d

def mapVal (f : α → β) (d : Dict α) : Dict β := d.map fun kv => (kv.1, f kv.2)

@[simp] theorem get?_nil (k : String) : get? ([] : Dict α) k = none := rfl

theorem get?_set (d : Dict α) (k k' : String) (v : α) :
    get? (set d k v) k' = if k = k' then some v else get? d k' := by
  induction d with
  | nil => rfl
  | cons e d ih =>
    obtain ⟨l, w⟩ := e
    by_cases hl : l = k
    · subst hl
      by_cases hk : l = k' <;> simp [set, get?, hk]
    · by_cases hk : l = k'
      · subst hk
        simp [set, get?, hl, Ne.symm hl]
      · simp [set, get?, hl, hk, ih]

theorem get?_set_self (d : Dict α) (k : String) (v : α) : get? (set d k v) k = some v := by
  rw [get?_set, if_pos rfl]

/-- Writing the value that is there changes nothing, not even the order. -/
theorem set_get? {d : Dict α} {k : String} {v : α} (h : get? d k = some v) : set d k v = d := by
  induction d with
  | nil => simp at h
  | cons e d ih =>
    obtain ⟨l, w⟩ := e
    by_cases hl : l = k
    · subst hl
      simp only [get?, if_true, Option.some.injEq] at h
      simp [set, h]
    · simp only [get?, if_neg hl] at h
      simp [set, hl, ih h]

end Dict
