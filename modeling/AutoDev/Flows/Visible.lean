/-
# `AutoDev.Flows.Visible` — an expression sees its declared paths and nothing else

`_collect_paths` gives for every path of an expression its leading names; a
path is cut where it goes into a list by an index.  Two states that AGREE on
the cut paths agree on the whole ones, because resolving a path is resolving
its names first and the rest from the value found there (`resolvePath_append`).
So they cannot be told apart by an expression, nor by a binding: a string that
renders is made of the templates that were extracted, and one that straddles
fails to compile before any state is looked at.
-/
import AutoDev.Flows.Rendering

namespace AutoDev.Flows

open List

/-- Every path resolves to the same value; one that is missing resolves to null. -/
def Agree (paths : List (List String)) (state state' : Value) : Prop :=
  ∀ p ∈ paths, resolvePath (p.map .name) state = resolvePath (p.map .name) state'

section

variable {state state' : Value} {paths qs : List (List String)}

theorem Agree.left (h : Agree (paths ++ qs) state state') : Agree paths state state' :=
  fun p hp => h p (mem_append_left _ hp)

theorem Agree.right (h : Agree (paths ++ qs) state state') : Agree qs state state' :=
  fun p hp => h p (mem_append_right _ hp)

/-! ## Expressions -/

theorem resolvePath_null (segs : List Seg) : resolvePath segs .null = .null := by
  rcases segs with _ | ⟨_ | _, segs⟩ <;> rfl

theorem resolvePath_append (segs segs' : List Seg) (v : Value) :
    resolvePath (segs ++ segs') v = resolvePath segs' (resolvePath segs v) := by
  induction segs generalizing v with
  | nil => rfl
  | cons seg segs ih =>
    -- a segment that is missing gives null on the left, and null resolves to null on the right
    cases seg with
    | name _ | index _ =>
      simp only [cons_append, resolvePath]
      split
      · split
        · exact ih _
        · exact (resolvePath_null segs').symm
      · exact (resolvePath_null segs').symm

theorem leadingNames_append (segs : List Seg) :
    ∃ rest, segs = (leadingNames segs).map .name ++ rest := by
  induction segs with
  | nil => exact ⟨[], rfl⟩
  | cons seg segs ih =>
    rcases seg with s | i
    · obtain ⟨rest, hrest⟩ := ih
      exact ⟨rest, congrArg (Seg.name s :: ·) hrest⟩
    · exact ⟨.index i :: segs, rfl⟩

theorem ExprNode.eval_congr {node : ExprNode} (h : Agree node.paths state state') :
    node.eval state = node.eval state' := by
  induction node with
  | literal v => rfl
  | path segs =>
    obtain ⟨rest, hrest⟩ := leadingNames_append segs
    rw [ExprNode.eval, ExprNode.eval, hrest, resolvePath_append, resolvePath_append,
      h _ mem_cons_self]
  | not operand ih => rw [ExprNode.eval, ExprNode.eval, ih h]
  | compare op l r ihl ihr => rw [ExprNode.eval, ExprNode.eval, ihl h.left, ihr h.right]
  | boolOp op l r ihl ihr =>
    cases op <;> rw [ExprNode.eval, ExprNode.eval, ihl h.left, ihr h.right]

theorem evaluateExpression_congr {cs : List Char}
    (h : ∀ root, compileExpression cs = .ok root → Agree root.paths state state') :
    evaluateExpression cs state = evaluateExpression cs state' := by
  unfold evaluateExpression
  rcases hc : compileExpression cs with e | root
  · rfl
  · exact ExprNode.eval_congr (h root hc)

/-! ## Bindings -/

variable {strOf : Value → String}

theorem interpolate_congr {ps : List Piece}
    (h : ∀ body, .expr body ∈ ps → evaluateExpression body state = evaluateExpression body state') :
    interpolate strOf state ps = interpolate strOf state' ps := by
  induction ps with
  | nil => rfl
  | cons p ps ih =>
    have ih := ih fun body hm => h body (mem_cons_of_mem p hm)
    rcases p with c | b
    · rw [interpolate, interpolate, ih]
    · rw [interpolate, interpolate, ih, h b mem_cons_self]

theorem renderText_congr {s : String} (h : textPaths (pieces s.toList) = .ok paths)
    (hag : Agree paths state state') : renderText strOf state s = renderText strOf state' s := by
  have hbody : ∀ body, .expr body ∈ pieces s.toList →
      evaluateExpression body state = evaluateExpression body state' := by
    intro body hm
    obtain ⟨root, hroot, hsub⟩ := textPaths_body h body hm
    refine evaluateExpression_congr fun root' hroot' => ?_
    cases hroot.symm.trans hroot'
    exact fun p hp => hag p (hsub hp)
  unfold renderText
  rcases hw : wholeTemplate? (strip s.toList) with _ | body
  · simp only [interpolate_congr hbody]
  obtain ⟨b, hb, hlone⟩ := whole_body hw
  split at hlone
  · rw [hlone]
    exact hbody b hb
  -- the string straddles: its body is not an expression in either state
  obtain ⟨ys, rfl⟩ := hlone
  obtain ⟨root, hroot⟩ := compiles_of_textPaths h b hb
  obtain ⟨source, herr⟩ := compileExpression_brace ys hroot
  exact evaluateExpression_congr fun root' hroot' => by cases herr.symm.trans hroot'

mutual

theorem renderTemplate_congr : ∀ {v : Value} {paths : List (List String)},
    extractTemplatePaths v = .ok paths → Agree paths state state' →
      renderTemplate strOf state v = renderTemplate strOf state' v
  | .str s, _, h, hag => by
    rw [extractTemplatePaths] at h
    rw [renderTemplate, renderTemplate]
    exact renderText_congr h hag
  | .list xs, _, h, hag => by
    rw [extractTemplatePaths] at h
    rw [renderTemplate, renderTemplate, renderItems_congr h hag]
  | .obj kvs, _, h, hag => by
    rw [extractTemplatePaths] at h
    rw [renderTemplate, renderTemplate, renderEntries_congr h hag]
  | .null, _, _, _ | .bool _, _, _, _ | .int _, _, _, _ | .float _, _, _, _ => by
    simp only [renderTemplate]

theorem renderItems_congr : ∀ {xs : List Value} {paths : List (List String)},
    extractItems xs = .ok paths → Agree paths state state' →
      renderItems strOf state xs = renderItems strOf state' xs
  | [], _, _, _ => by rw [renderItems, renderItems]
  | x :: xs, _, h, hag => by
    rw [extractItems] at h
    obtain ⟨ps, hx, h⟩ := bind_eq_ok.mp h
    obtain ⟨qs, hxs, h⟩ := bind_eq_ok.mp h
    cases h
    rw [renderItems, renderItems, renderTemplate_congr hx hag.left,
      renderItems_congr hxs hag.right]

theorem renderEntries_congr : ∀ {kvs : List (String × Value)} {paths : List (List String)},
    extractEntries kvs = .ok paths → Agree paths state state' →
      renderEntries strOf state kvs = renderEntries strOf state' kvs
  | [], _, _, _ => by rw [renderEntries, renderEntries]
  | (k, x) :: kvs, _, h, hag => by
    rw [extractEntries] at h
    obtain ⟨ps, hx, h⟩ := bind_eq_ok.mp h
    obtain ⟨qs, hxs, h⟩ := bind_eq_ok.mp h
    cases h
    rw [renderEntries, renderEntries, renderTemplate_congr hx hag.left,
      renderEntries_congr hxs hag.right]

end

/-- Two states that agree on the extracted paths give a binding the same value or the same error,
and so they do for a predicate on the paths of its expression. -/
theorem declared_paths_are_all :
    (∀ v paths, extractTemplatePaths v = .ok paths → Agree paths state state' →
      renderTemplate strOf state v = renderTemplate strOf state' v) ∧
    ∀ source root, compileExpression source = .ok root → Agree root.paths state state' →
      evaluateExpression source state = evaluateExpression source state' := by
  refine ⟨fun v paths h hag => renderTemplate_congr h hag, fun source root h hag => ?_⟩
  refine evaluateExpression_congr fun root' h' => ?_
  cases h.symm.trans h'
  exact hag

end

def greeted (last : String) : Value :=
  .obj [("flow", .obj [("input", .obj [("first", .str "Ada"), ("last", .str last)])])]

theorem declared_paths_are_all_greeting :
    renderTemplate (fun _ => "") (greeted "King") greeting =
      renderTemplate (fun _ => "") (greeted "Byron") greeting :=
  declared_paths_are_all.1 greeting [["flow", "input", "topic"], ["flow", "input", "first"]]
    (by decide +kernel) (by unfold Agree; decide +kernel)

end AutoDev.Flows
