/-
# `AutoDev.Flows.PlainFlows` — documents on which the two validators agree

`Plain` is a condition on the document: the fields are of the types the backend
reads, and every expression is spelled plainly.  A plain document is read alike
by the editor and the backend, so they agree on it (`validators_agree`).

What is plain is decided from the text.  Whether a plain document is ACCEPTED is
not: the kinds, the graph, the nodes the paths name and the limits are still for
each side to check.
-/
import AutoDev.Flows.Agreement
import AutoDev.Flows.Spelling

namespace AutoDev.Flows.Editor

open List Dict

/-! ## One expression -/

/-- What both sides ask of a path. -/
def Allowed (nodeIds : List String) (allowItem : Bool) (p : SpelledPath) : Prop :=
  match p.root with
  | .nodes => (∀ id ∈ p.names.head?, String.ofList id ∈ nodeIds) ∧
      ∀ w ∈ p.names[1]?, String.ofList w = "output"
  | .flow => ∀ w ∈ p.names.head?, String.ofList w = "input"
  | .item => allowItem = true

/-- What only the backend asks of a path: no node reads its own output, and the inputs of the flow
are declared. -/
def Declared (sc : PathScope) (p : SpelledPath) : Prop :=
  match p.root with
  | .nodes => ∀ id ∈ p.names.head?, sc.selfId ≠ some (String.ofList id)
  | .flow => ∀ declared, sc.declaredInputs = some declared →
      ∀ name ∈ p.names[1]?, String.ofList name ∈ declared
  | .item => True

/-- The text is spelled plainly, and the source that the backend makes of it is an expression with
these tokens.  Where the backend allows the paths of an item and the editor does not, or the other
way round, there is none. -/
def PlainExpr (sc : PathScope) (allowItem : Bool) (text source : List Char) : Prop :=
  ∃ ts ps root, Spelled text ts ps ∧ tokenize (strip source) = .ok ts ∧
    compileExpression source = .ok root ∧
    ∀ p ∈ ps, Declared sc p ∧ (allowItem ≠ sc.allowItem → p.root ≠ .item)

section Expressions

variable {sc : PathScope} {allowItem : Bool} {p : SpelledPath} {s : String} {nodeIds : List String}

variable {ts : List Token} {ps : List SpelledPath} {source : List Char}

def ScanOk (nodeIds : List String) (allowItem : Bool) (expression : String) : Prop :=
  (∀ path ∈ matchAll nodesDot 0 none expression.toList ++
      matchAll nodesBracket 0 none expression.toList,
    path.1 ∈ nodeIds ∧ ∀ seg, path.2 = some seg → seg = ".output") ∧
  (∀ root ∈ matchAll flowDot 0 none expression.toList, root = "input") ∧
  (allowItem = false → matchAll itemWord 0 none expression.toList = [])

theorem validateExpression_eq_nil {place : Place} :
    validateExpression place nodeIds allowItem s = [] ↔ ScanOk nodeIds allowItem s := by
  have hpath : ∀ path : NodePath, validateNodePath place nodeIds path = [] ↔
      path.1 ∈ nodeIds ∧ ∀ seg, path.2 = some seg → seg = ".output" := by
    rintro ⟨nodeId, _ | seg⟩ <;> simp [validateNodePath]
  simp only [validateExpression, ScanOk, append_eq_nil_iff, flatMap_eq_nil_iff, hpath,
    issueIf_eq_nil, ne_eq, not_not, not_and, and_assoc]

theorem Spelled.plain {cs : List Char} (h : Spelled cs ts ps) : ∀ p ∈ ps, p.Plain := by
  induction h with
  | last _ _ => exact nofun
  | path _ _ _ hp _ _ ih => exact forall_mem_cons.mpr ⟨hp, ih⟩

abbrev ExprOk (sc : PathScope) (source : List Char) : Prop :=
  PathsOk sc ((compileExpression source).map ExprNode.paths)

end Expressions

/-! ## Templates -/

section Templates

variable {sc : PathScope} {cs body rest : List Char}

/-- The expressions among the pieces of a text. -/
def bodies (ps : List Piece) : List (List Char) :=
  ps.filterMap fun
    | .lit _ => none
    | .expr body => some body

theorem beforeClose_eq : ∀ cs : List Char, beforeClose cs = (findClose cs).map Prod.fst
  | [] => rfl
  | c :: cs => by
    have ih := beforeClose_eq cs
    by_cases h : ∃ r, c :: cs = '}' :: '}' :: r
    · obtain ⟨r, hr⟩ := h
      rw [hr]
      rfl
    · rw [findClose_cons fun r hr => h ⟨r, hr⟩, Option.map_map]
      rw [beforeClose, ih, Option.map_map]
      · rfl
      · intro r hc hr
        exact h ⟨r, by rw [hc, hr]⟩

theorem matchAll_templates : ∀ (n : Nat) (cs : List Char) (before : Option Char), cs.length ≤ n →
    matchAll templatePattern 0 before cs = (bodies (piecesFrom n cs)).map String.ofList
  | n, [], _, _ => by cases n <;> rfl
  | n + 1, c :: cs, before, hn => by
    rw [length_cons, Nat.add_le_add_iff_right] at hn
    by_cases hopen : ∃ rest, c :: cs = '{' :: '{' :: rest
    · obtain ⟨rest, hr⟩ := hopen
      cases hr
      cases hf : findClose rest with
      | none =>
        have hnone : templatePattern before ('{' :: '{' :: rest) = none := by
          simp [templatePattern, stripPrefix?, beforeClose_eq, hf]
        rw [matchAll_cons hnone, matchAll_templates n _ _ hn, piecesFrom, hf]
        rfl
      | some q =>
        obtain ⟨body, rest'⟩ := q
        have hrest := (findClose_spec hf).1
        have hlen := congrArg length hrest
        simp only [length_append, length_cons] at hlen hn
        have hsome : templatePattern before (('{' :: '{' :: (body ++ ['}', '}'])) ++ rest') =
            some (String.ofList body, ('{' :: '{' :: (body ++ ['}', '}'])).length) := by
          have : findClose (body ++ '}' :: '}' :: rest') = some (body, rest') := hrest ▸ hf
          simp [templatePattern, stripPrefix?, beforeClose_eq, this]
        have hcs : '{' :: '{' :: rest = ('{' :: '{' :: (body ++ ['}', '}'])) ++ rest' := by
          rw [hrest]
          simp
        rw [piecesFrom, hf]
        rw [hcs, matchAll_hit (by simp) hsome, matchAll_templates n rest' _ (by omega)]
        rfl
    · have hnone : templatePattern before (c :: cs) = none := by
        rcases hs : stripPrefix? ['{', '{'] (c :: cs) with _ | r
        · simp [templatePattern, hs]
        · exact absurd ⟨r, stripPrefix?_eq_some.mp hs⟩ hopen
      rw [matchAll_cons hnone, matchAll_templates n cs _ hn, piecesFrom]
      · rfl
      · intro r hc hr
        exact hopen ⟨r, by rw [hc, hr]⟩

theorem templates_eq (s : String) : templates s = (bodies (pieces s.toList)).map String.ofList :=
  matchAll_templates _ _ _ le_rfl

theorem pathsOk_append {x y : Except ExprError (List (List String))} :
    PathsOk sc (do let ps ← x; let qs ← y; .ok (ps ++ qs)) ↔ PathsOk sc x ∧ PathsOk sc y := by
  unfold PathsOk
  constructor
  · rintro ⟨ps, h, hp⟩
    obtain ⟨qs, hx, h⟩ := bind_eq_ok.mp h
    obtain ⟨rs, hy, h⟩ := bind_eq_ok.mp h
    cases h
    rw [forall_mem_append] at hp
    exact ⟨⟨qs, hx, hp.1⟩, rs, hy, hp.2⟩
  · rintro ⟨⟨qs, rfl, hq⟩, rs, rfl, hr⟩
    exact ⟨qs ++ rs, rfl, forall_mem_append.mpr ⟨hq, hr⟩⟩

theorem pathsOk_nil : PathsOk sc (.ok []) := ⟨[], rfl, fun _ h => absurd h not_mem_nil⟩

theorem pathsOk_textPaths : ∀ {ps : List Piece},
    PathsOk sc (textPaths ps) ↔ ∀ body ∈ bodies ps, ExprOk sc body
  | [] => by simp [textPaths, bodies, pathsOk_nil]
  | .lit c :: ps => by
    rw [textPaths, pathsOk_textPaths]
    rfl
  | .expr body :: ps => by
    have hbind : textPaths (.expr body :: ps) = (do
        let ps' ← (compileExpression body).map ExprNode.paths
        let qs ← textPaths ps
        .ok (ps' ++ qs)) := by
      rw [textPaths]
      cases compileExpression body <;> rfl
    have hbodies : bodies (.expr body :: ps) = body :: bodies ps := rfl
    rw [hbind, pathsOk_append, pathsOk_textPaths, hbodies, forall_mem_cons]

theorem forall_templates {s : String} {P : List Char → Prop} :
    (∀ t ∈ templates s, P t.toList) ↔ ∀ body ∈ bodies (pieces s.toList), P body := by
  rw [templates_eq, forall_mem_map]
  simp

mutual

theorem pathsOk_extract : ∀ v : Value, PathsOk sc (extractTemplatePaths v) ↔
    ∀ s ∈ v.strings, ∀ t ∈ templates s, ExprOk sc t.toList
  | .str s => by
    rw [extractTemplatePaths, Value.strings, forall_mem_singleton, forall_templates,
      pathsOk_textPaths]
  | .list xs => by
    rw [extractTemplatePaths, Value.strings]
    exact pathsOk_extractItems xs
  | .obj kvs => by
    rw [extractTemplatePaths, Value.strings]
    exact pathsOk_extractEntries kvs
  | .null | .bool _ | .int _ | .float _ => by simp [extractTemplatePaths, Value.strings, pathsOk_nil]

theorem pathsOk_extractItems : ∀ xs : List Value, PathsOk sc (extractItems xs) ↔
    ∀ s ∈ Value.stringsOfItems xs, ∀ t ∈ templates s, ExprOk sc t.toList
  | [] => by simp [extractItems, Value.stringsOfItems, pathsOk_nil]
  | x :: xs => by
    rw [extractItems, Value.stringsOfItems, forall_mem_append, pathsOk_append, pathsOk_extract x,
      pathsOk_extractItems xs]

theorem pathsOk_extractEntries : ∀ kvs : List (String × Value), PathsOk sc (extractEntries kvs) ↔
    ∀ s ∈ Value.stringsOfEntries kvs, ∀ t ∈ templates s, ExprOk sc t.toList
  | [] => by simp [extractEntries, Value.stringsOfEntries, pathsOk_nil]
  | (_, x) :: kvs => by
    rw [extractEntries, Value.stringsOfEntries, forall_mem_append, pathsOk_append,
      pathsOk_extract x, pathsOk_extractEntries kvs]

end

end Templates

/-! ## The expressions of a document -/

abbrev bindingScope (nodes : List Node) (schema : Option Obj) (n : Node) : PathScope :=
  ⟨nodes.map Node.id, declaredInputs schema, n.type == "map", some n.id⟩

structure ExpressionsPlain (nodes : List Node) (edges : List Value) (schema : Option Obj) :
    Prop where
  predicates : ∀ v ∈ edges, ∀ w, (parsedEdge v).when = some w →
    PlainExpr ⟨nodes.map Node.id, declaredInputs schema, false, none⟩ false w.toList
      (stripTemplate w)
  inputs : ∀ n ∈ nodes, ∀ t ∈ collectTemplates (n.get? "input"),
    PlainExpr (bindingScope nodes schema n) (n.type == "map") t.toList t.toList
  overs : ∀ n ∈ nodes, ∀ t ∈ collectTemplates (n.get? "over"),
    PlainExpr (bindingScope nodes schema n) false t.toList t.toList
  templated : ∀ n ∈ nodes, n.type = "map" → collectTemplates (n.get? "over") ≠ []

section Document

variable {n : Node} {m : Manifest} {vs edges : List Value} {schema : Option Obj} {doc : Obj}
    {specifierSet : String → Bool}

theorem validateBindings_eq_nil {nodeIds : List String}
    (hover : ∀ v, n.get? "over" = some v → n.type = "map" ∧ ∃ s, s ≠ "" ∧ v = .str s)
    (hmap : n.type = "map" → collectTemplates (n.get? "over") ≠ []) :
    validateBindings nodeIds n = .ok [] ↔
      (∀ t ∈ collectTemplates (n.get? "input"), ScanOk nodeIds (n.type == "map") t) ∧
      ∀ t ∈ collectTemplates (n.get? "over"), ScanOk nodeIds false t := by
  simp only [validateBindings, inOrder_eq_nil, forall_mem_cons, not_mem_nil, false_implies,
    implies_true, and_true, Except.ok.injEq, flatMap_eq_nil_iff, validateExpression_eq_nil]
  refine and_congr_right fun _ => ?_
  rcases ho : n.get? "over" with _ | v
  · simp [collectTemplates, falsy]
  · obtain ⟨htype, s, hne, rfl⟩ := hover v ho
    have htemplates := hmap htype
    rw [ho] at htemplates
    simp [htype, falsy, truthy, hne, validateOver, ho, htemplates, validateExpression_eq_nil]

/-- What a document must have for the two validators to read it alike. -/
structure Plain (specifierSet : String → Bool) (doc : Obj) : Prop where
  header : HeaderPlain specifierSet doc
  triggers : ∀ t ∈ items (get? doc "triggers"), TriggerPlain t
  input : ObjectField (get? doc "input")
  output : ObjectField (get? doc "output")
  budgets : BudgetsOk (get? doc "budgets")
  defaults : ObjectField (get? doc "defaults")
  defaultTimeout : ∀ w, (get? doc "defaults").bind (property · "timeoutSec") = some w →
    w = .null ∨ ∃ i, w = .int i ∧ 1 ≤ i
  defaultRetries : RetriesPlain ((get? doc "defaults").bind (property · "retries"))
  nodes : ∀ n ∈ nodesOf doc, NodePlain specifierSet n
  graph : GraphPlain (nodesOf doc) (items (get? doc "edges"))
  expressions : ExpressionsPlain (nodesOf doc) (items (get? doc "edges")) (inputSchema doc)

end Document

end AutoDev.Flows.Editor
