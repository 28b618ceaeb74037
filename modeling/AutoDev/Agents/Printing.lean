/-
# `AutoDev.Agents.Printing` — the text `str` makes of a document

The denylist guardrail searches `str(output)`: the strings of a document, quoted
and ESCAPED, in a frame of punctuation, numbers and constants.  Every character
carries a mark that says where it comes from: `true` inside a string, `false` in
the frame.  A piece without a character of the frame lies inside ONE string, and
a string is printed as itself or printing it brings in a backslash.

What a version of the interpreter decides is a parameter: which characters
outside ASCII are printable, the digits of a float, and for which documents
printing raises.
-/
import AutoDev.Flows.Value
import Mathlib.Data.List.Infix

namespace AutoDev.Agents

open AutoDev.Flows List

/-- What the interpreter decides about printing. -/
structure Printer where
  printable : Char → Bool
  floatText : PyFloat → String
  plain : ∀ x, '\\' ∉ (floatText x).toList
  fails : Value → Bool := fun _ => false

abbrev Marked := List (Char × Bool)

def frame (s : String) : Marked := s.toList.map (·, false)

/-- Characters inside a string. -/
def inside (cs : List Char) : Marked := cs.map (·, true)

@[simp] theorem map_fst_inside (cs : List Char) : (inside cs).map Prod.fst = cs := by
  simp [inside, Function.comp_def]

def hexDigits (width n : Nat) : List Char :=
  replicate (width - (Nat.toDigits 16 n).length) '0' ++ Nat.toDigits 16 n

def quoteOf (s : String) : Char :=
  if '\'' ∈ s.toList ∧ '"' ∉ s.toList then '"' else '\''

/-- The separator before the rest of a list, if there is one. -/
def separator {α : Type} : List α → Marked
  | [] => []
  | _ :: _ => frame ", "

namespace Printer

variable (p : Printer)

/-- How `repr` writes one character between quotes `q`. -/
def escape (q c : Char) : List Char :=
  if c = q ∨ c = '\\' then ['\\', c]
  else if c = '\t' then ['\\', 't']
  else if c = '\n' then ['\\', 'n']
  else if c = '\r' then ['\\', 'r']
  else if c.toNat < 0x20 ∨ c.toNat = 0x7f then '\\' :: 'x' :: hexDigits 2 c.toNat
  else if c.toNat < 0x7f ∨ p.printable c then [c]
  else if c.toNat ≤ 0xff then '\\' :: 'x' :: hexDigits 2 c.toNat
  else if c.toNat ≤ 0xffff then '\\' :: 'u' :: hexDigits 4 c.toNat
  else '\\' :: 'U' :: hexDigits 8 c.toNat

def body (s : String) : List Char := s.toList.flatMap (p.escape (quoteOf s))

def quoted (s : String) : Marked :=
  (quoteOf s, false) :: (inside (p.body s) ++ [(quoteOf s, false)])

mutual

/-- `repr` of a document. -/
def printed : Value → Marked
  | .null => frame "None"
  | .bool b => frame (if b then "True" else "False")
  | .int i => frame (toString i)
  | .float x => frame (p.floatText x)
  | .str s => p.quoted s
  | .list xs => frame "[" ++ (printedItems xs ++ frame "]")
  | .obj kvs => frame "\x7b" ++ (printedEntries kvs ++ frame "\x7d")

def printedItems : List Value → Marked
  | [] => []
  | x :: xs => printed x ++ (separator xs ++ printedItems xs)

def printedEntries : List (String × Value) → Marked
  | [] => []
  | (k, x) :: kvs =>
    p.quoted k ++ (frame ": " ++ (printed x ++ (separator kvs ++ printedEntries kvs)))

end

def text (v : Value) : List Char := (p.printed v).map Prod.fst

end Printer

mutual

/-- The strings of a document, keys and values. -/
def texts : Value → List String
  | .str s => [s]
  | .list xs => textsOfItems xs
  | .obj kvs => textsOfEntries kvs
  | _ => []

def textsOfItems : List Value → List String
  | [] => []
  | x :: xs => texts x ++ textsOfItems xs

def textsOfEntries : List (String × Value) → List String
  | [] => []
  | (k, x) :: kvs => k :: (texts x ++ textsOfEntries kvs)

end

namespace Printer

variable {p : Printer}

/-! ## Strings as they are printed -/

theorem escape_eq_or_backslash (q c : Char) : p.escape q c = [c] ∨ '\\' ∈ p.escape q c := by
  unfold escape
  split_ifs <;> simp

@[simp] theorem escape_backslash (q : Char) : p.escape q '\\' = ['\\', '\\'] := by
  simp [escape]

theorem body_eq_or_backslash (s : String) : p.body s = s.toList ∨ '\\' ∈ p.body s := by
  by_cases h : ∀ c ∈ s.toList, p.escape (quoteOf s) c = [c]
  · left
    rw [body, flatMap_congr h]
    exact flatMap_singleton' _
  · right
    push Not at h
    obtain ⟨c, hc, hne⟩ := h
    exact mem_flatMap.mpr ⟨c, hc, (escape_eq_or_backslash _ c).resolve_left hne⟩

theorem escape_backslashes (q : Char) : ∀ n : Nat,
    (replicate n '\\').flatMap (p.escape q) = replicate (2 * n) '\\'
  | 0 => rfl
  | n + 1 => by
    rw [replicate_succ, flatMap_cons, escape_backslash, escape_backslashes q n]
    rfl

theorem backslashes_infix_body {s : String} {n : Nat}
    (h : replicate n '\\' <:+: s.toList) : replicate (2 * n) '\\' <:+: p.body s := by
  obtain ⟨u, v, huv⟩ := h
  refine ⟨u.flatMap (p.escape (quoteOf s)), v.flatMap (p.escape (quoteOf s)), ?_⟩
  rw [body, ← huv, flatMap_append, flatMap_append, escape_backslashes]

/-! ## Every string is in the text -/

theorem body_infix_quoted (s : String) : inside (p.body s) <:+: p.quoted s :=
  ⟨[(quoteOf s, false)], [(quoteOf s, false)], rfl⟩

mutual

theorem body_infix_printed : ∀ {v : Value} {s : String}, s ∈ texts v →
    inside (p.body s) <:+: p.printed v
  | .str s, _, h => by
    obtain rfl := mem_singleton.mp h
    exact body_infix_quoted _
  | .list xs, _, h => (body_infix_items h).trans ⟨frame "[", frame "]", by simp [printed]⟩
  | .obj kvs, _, h =>
    (body_infix_entries h).trans ⟨frame "\x7b", frame "\x7d", by simp [printed]⟩
  | .null, _, h | .bool _, _, h | .int _, _, h | .float _, _, h => by cases h

theorem body_infix_items : ∀ {xs : List Value} {s : String}, s ∈ textsOfItems xs →
    inside (p.body s) <:+: p.printedItems xs
  | x :: xs, s, h => by
    rcases mem_append.mp h with h | h
    · exact (body_infix_printed h).trans (prefix_append _ _).isInfix
    · refine (body_infix_items h).trans ?_
      exact ((suffix_append _ _).trans (suffix_append _ _)).isInfix

theorem body_infix_entries : ∀ {kvs : List (String × Value)} {s : String},
    s ∈ textsOfEntries kvs → inside (p.body s) <:+: p.printedEntries kvs
  | (k, x) :: kvs, s, h => by
    rcases mem_cons.mp h with rfl | h
    · exact (body_infix_quoted _).trans (prefix_append _ _).isInfix
    have hrest : printed p x ++ (separator kvs ++ p.printedEntries kvs)
        <:+ p.printedEntries ((k, x) :: kvs) :=
      (suffix_append _ _).trans (suffix_append _ _)
    rcases mem_append.mp h with h | h
    · exact (body_infix_printed h).trans
        ((prefix_append _ _).isInfix.trans hrest.isInfix)
    · refine (body_infix_entries h).trans ?_
      exact ((suffix_append _ _).trans ((suffix_append _ _).trans hrest)).isInfix

end

/-! ## Pieces without a character of the frame -/

/-- Every piece of `l` that is inside strings lies in one of the printed `strings`. -/
def Holds (p : Printer) (strings : List String) (l : Marked) : Prop :=
  ∀ cs, cs ≠ [] → inside cs <:+: l → ∃ s ∈ strings, cs <:+: p.body s

variable {ss : List String} {l l' : Marked}

theorem Holds.mono {ss' : List String} (h : Holds p ss l) (hss : ss ⊆ ss') : Holds p ss' l := by
  intro cs hne hcs
  obtain ⟨s, hs, hb⟩ := h cs hne hcs
  exact ⟨s, hss hs, hb⟩

theorem holds_nil (ss : List String) : Holds p ss [] := by
  intro cs hne hcs
  exact absurd (map_eq_nil_iff.mp (infix_nil.mp hcs)) hne

theorem Holds.append {c : Char} (h : Holds p ss l) (h' : Holds p ss l') :
    Holds p ss (l ++ (c, false) :: l') := by
  intro cs hne hcs
  have hc : (c, false) ∉ inside cs := by simp [inside]
  rcases infix_append_iff.mp hcs with hl | hr | ⟨u, v, huv, hu, hv⟩
  · exact h cs hne hl
  · rcases infix_cons_iff.mp hr with hpre | hr
    · -- a piece that starts here would start with the character of the frame
      cases cs with
      | nil => exact absurd rfl hne
      | cons x cs =>
        obtain ⟨hx, -⟩ := cons_prefix_cons.mp hpre
        cases hx
    · exact h' cs hne hr
  · cases v with
    | nil =>
      rw [append_nil] at huv
      exact h cs hne (huv ▸ hu.isInfix)
    | cons y v =>
      obtain ⟨rfl, -⟩ := cons_prefix_cons.mp hv
      exact absurd (huv ▸ mem_append_right u mem_cons_self) hc

theorem Holds.cons {c : Char} (h : Holds p ss l) : Holds p ss ((c, false) :: l) :=
  (holds_nil ss).append h

theorem Holds.framed (h : Holds p ss l) :
    ∀ cs : List Char, Holds p ss (cs.map (·, false) ++ l)
  | [] => h
  | _ :: cs => (h.framed cs).cons

theorem Holds.between (h : Holds p ss l) (h' : Holds p ss l') (t : String) (ht : t.toList ≠ []) :
    Holds p ss (l ++ (frame t ++ l')) := by
  unfold frame
  obtain ⟨c, cs, hcs⟩ := exists_cons_of_ne_nil ht
  rw [hcs]
  exact h.append (h'.framed cs)

theorem holds_frame (ss : List String) (t : String) : Holds p ss (frame t) := by
  simpa [frame] using (holds_nil ss).framed t.toList

theorem holds_quoted {s : String} (hs : s ∈ ss) : Holds p ss (p.quoted s) := by
  refine Holds.cons (Holds.append (fun cs _ hcs => ⟨s, hs, ?_⟩) (holds_nil ss))
  have hmap := hcs.map Prod.fst
  rwa [map_fst_inside, map_fst_inside] at hmap

theorem Holds.rest {α : Type} (h : Holds p ss l) (h' : Holds p ss l') :
    ∀ xs : List α, (xs = [] → l' = []) →
      Holds p ss (l ++ (separator xs ++ l'))
  | [], hnil => by simpa [separator, hnil rfl] using h
  | _ :: _, _ => h.between h' ", " (by decide)

mutual

theorem holds_printed : ∀ v : Value, Holds p (texts v) (p.printed v)
  | .null => holds_frame _ _
  | .bool _ => holds_frame _ _
  | .int _ => holds_frame _ _
  | .float _ => holds_frame _ _
  | .str s => holds_quoted (mem_singleton.mpr rfl)
  | .list xs => by
    have h := (holds_printedItems xs).between (holds_nil _) "]" (by decide)
    rw [append_nil] at h
    exact h.framed _
  | .obj kvs => by
    have h := (holds_printedEntries kvs).between (holds_nil _) "\x7d" (by decide)
    rw [append_nil] at h
    exact h.framed _

theorem holds_printedItems : ∀ xs : List Value, Holds p (textsOfItems xs) (p.printedItems xs)
  | [] => holds_nil _
  | x :: xs => by
    refine Holds.rest ((holds_printed x).mono (subset_append_left _ _))
      ((holds_printedItems xs).mono (subset_append_right _ _)) xs ?_
    rintro rfl
    rfl

theorem holds_printedEntries : ∀ kvs : List (String × Value),
    Holds p (textsOfEntries kvs) (p.printedEntries kvs)
  | [] => holds_nil _
  | (k, x) :: kvs => by
    refine Holds.between (holds_quoted mem_cons_self) (Holds.rest ?_ ?_ kvs ?_) ": "
      (by decide)
    · exact (holds_printed x).mono
        (subset_cons_of_subset _ (subset_append_left _ _))
    · exact (holds_printedEntries kvs).mono
        (subset_cons_of_subset _ (subset_append_right _ _))
    · rintro rfl
      rfl

end

theorem exists_body_of_inside {v : Value} {cs : List Char} (hne : cs ≠ [])
    (h : inside cs <:+: p.printed v) : ∃ s ∈ texts v, cs <:+: p.body s :=
  holds_printed v cs hne h

/-! ## The frame has no backslash -/

theorem not_mem_toString (i : Int) : '\\' ∉ (toString i).toList := by
  have hnat : ∀ n : Nat, '\\' ∉ n.repr.toList := by
    intro n hmem
    rw [Nat.repr, String.toList_ofList] at hmem
    exact absurd (Nat.isDigit_of_mem_toDigits (by decide) (by decide) hmem) (by decide)
  cases i with
  | ofNat n => exact hnat n
  | negSucc n => simpa [Int.repr] using hnat (n + 1)

theorem not_mem_frame {t : String} (h : '\\' ∉ t.toList) : ('\\', false) ∉ frame t := by
  simpa [frame] using h

theorem not_mem_separator {α : Type} : ∀ xs : List α, ('\\', false) ∉ separator xs
  | [] => by simp [separator]
  | _ :: _ => not_mem_frame (by decide)

theorem not_mem_quoted (s : String) : ('\\', false) ∉ p.quoted s := by
  have hq : '\\' ≠ quoteOf s := by
    unfold quoteOf
    split <;> decide
  simp [quoted, inside, hq]

mutual

theorem not_mem_printed : ∀ v : Value, ('\\', false) ∉ p.printed v
  | .null => not_mem_frame (by decide)
  | .bool true => not_mem_frame (by decide)
  | .bool false => not_mem_frame (by decide)
  | .int i => not_mem_frame (not_mem_toString i)
  | .float x => not_mem_frame (p.plain x)
  | .str s => not_mem_quoted s
  | .list xs => by
    have hopen := not_mem_frame (t := "[") (by decide)
    have hclose := not_mem_frame (t := "]") (by decide)
    simpa [printed, hopen, hclose] using not_mem_printedItems xs
  | .obj kvs => by
    have hopen := not_mem_frame (t := "\x7b") (by decide)
    have hclose := not_mem_frame (t := "\x7d") (by decide)
    simpa [printed, hopen, hclose] using not_mem_printedEntries kvs

theorem not_mem_printedItems : ∀ xs : List Value, ('\\', false) ∉ p.printedItems xs
  | [] => not_mem_nil
  | x :: xs => by
    simp [printedItems, not_mem_printed x, not_mem_separator xs, not_mem_printedItems xs]

theorem not_mem_printedEntries : ∀ kvs : List (String × Value),
    ('\\', false) ∉ p.printedEntries kvs
  | [] => not_mem_nil
  | (k, x) :: kvs => by
    have hcolon := not_mem_frame (t := ": ") (by decide)
    simp [printedEntries, hcolon, not_mem_quoted k, not_mem_printed x, not_mem_separator kvs,
      not_mem_printedEntries kvs]

end

end Printer

end AutoDev.Agents
