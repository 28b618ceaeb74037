/-
# `AutoDev.Flows.Rendering` — what a validated binding does when it is rendered

`extract_template_paths` runs when a manifest is validated, `render_template`
when a node starts.  The first takes the matches of `{{(.*?)}}` from left to
right, each as short as it can be; the second first asks whether the TRIMMED
string matches as a whole, and a whole match stretches the lazy group.  On

    {{ flow.input.first }} and {{ flow.input.last }}

the first sees two expressions and the second one.  Such a string STRADDLES, and
`renders_iff` says that this is the whole difference: the expression read whole
begins with one that compiles and goes on with a closing brace, which no token
holds (`compileExpression_brace`).
-/
import Mathlib.Data.List.TakeWhile
import AutoDev.Flows.Expressions

namespace AutoDev.Flows

open List Option

/-! ## Tokens do not reach over white space or a closing brace -/

/-- No token but a string literal goes on with the character `d`. -/
structure Stops (d : Char) : Prop where
  op : ∀ t ∈ opTexts, d ∉ t.toList
  digit : isPyDigit d = false
  ident : isIdentChar d = false

variable {d c : Char} {ps : List Piece} {paths : List (List String)}

theorem Stops.ne_dot (hd : Stops d) : d ≠ '.' := by
  rintro rfl
  exact hd.op "." (by decide) (by decide)

theorem stops_brace : Stops '}' := ⟨by decide, by decide, by decide⟩

theorem stops_space (hc : isPySpace c = true) : Stops c := by
  have hmem : c.toNat ∈ [0x9, 0xa, 0xb, 0xc, 0xd, 0x1c, 0x1d, 0x1e, 0x1f, 0x20, 0x85, 0xa0, 0x1680,
      0x2000, 0x2001, 0x2002, 0x2003, 0x2004, 0x2005, 0x2006, 0x2007, 0x2008, 0x2009, 0x200a,
      0x2028, 0x2029, 0x202f, 0x205f, 0x3000] := by
    simpa [isPySpace] using hc
  rw [← Char.ofNat_toNat c]
  generalize c.toNat = n at hmem
  revert n
  refine fun n hn => ⟨?_, ?_, ?_⟩
  · revert n
    decide +kernel
  · revert n
    decide +kernel
  · revert n
    decide +kernel

theorem stripPrefix?_eq_some {t cs rest : List Char} :
    stripPrefix? t cs = some rest ↔ cs = t ++ rest := by
  induction t generalizing cs with
  | nil => simp [stripPrefix?]
  | cons a t ih =>
    cases cs with
    | nil => simp [stripPrefix?]
    | cons c cs =>
      by_cases hac : a = c
      · simp [stripPrefix?, hac, ih]
      · simp [stripPrefix?, hac, Ne.symm hac]

/-- A literal without `d` does not begin to match because a `d` follows. -/
theorem stripPrefix?_append_of_none {t cs : List Char} (ys : List Char) (ht : d ∉ t)
    (h : stripPrefix? t cs = none) : stripPrefix? t (cs ++ d :: ys) = none := by
  refine eq_none_iff_forall_ne_some.mpr fun rest hrest => ?_
  rcases append_eq_append_iff.mp (stripPrefix?_eq_some.mp hrest) with
    ⟨as, rfl, has⟩ | ⟨cs', rfl, -⟩
  · rcases as with _ | ⟨a, as⟩
    · have hself : stripPrefix? (cs ++ []) cs = some [] := stripPrefix?_eq_some.mpr (by simp)
      cases hself.symm.trans h
    · obtain ⟨rfl, -⟩ := cons.inj has
      exact ht (by simp)
  · cases (stripPrefix?_eq_some.mpr rfl).symm.trans h

theorem takeWhile_append_stop {p : Char → Bool} (hp : p d = false) (cs ys : List Char) :
    (cs ++ d :: ys).takeWhile p = cs.takeWhile p := by
  rw [takeWhile_append]
  split_ifs with h
  · simp [hp, (List.takeWhile_prefix p).eq_of_length h]
  · rfl

theorem dropWhile_append_stop {p : Char → Bool} (hp : p d = false) (cs ys : List Char) :
    (cs ++ d :: ys).dropWhile p = cs.dropWhile p ++ d :: ys := by
  rw [dropWhile_append]
  split_ifs with h
  · simp [hp, isEmpty_iff.mp h]
  · rfl

section

variable {d : Char} (hd : Stops d)

include hd

theorem lexOp_append (cs ys : List Char) :
    lexOp (cs ++ d :: ys) = (lexOp cs).map fun p => (p.1, p.2 ++ d :: ys) := by
  have hops := hd.op
  unfold lexOp
  revert hops
  generalize opTexts = texts
  intro hops
  induction texts with
  | nil => rfl
  | cons t ts ih =>
    have hts : ∀ t ∈ ts, d ∉ t.toList := fun u hu => hops u (mem_cons_of_mem t hu)
    rw [findSome?_cons, findSome?_cons]
    rcases h : stripPrefix? t.toList cs with _ | rest
    · rw [stripPrefix?_append_of_none ys (hops t mem_cons_self) h]
      exact ih hts
    · have hys : stripPrefix? t.toList (cs ++ d :: ys) = some (rest ++ d :: ys) :=
        stripPrefix?_eq_some.mpr (by rw [stripPrefix?_eq_some.mp h, append_assoc])
      rw [hys]
      rfl

theorem lexDigits_append (sign cs ys : List Char) :
    lexDigits sign (cs ++ d :: ys) =
      (lexDigits sign cs).map fun p => (p.1, p.2 ++ d :: ys) := by
  unfold lexDigits
  simp only [takeWhile_append_stop hd.digit, dropWhile_append_stop hd.digit]
  by_cases he : (cs.takeWhile isPyDigit).isEmpty = true
  · simp [he]
  simp only [he]
  rcases cs.dropWhile isPyDigit with _ | ⟨c, after⟩
  · simp [hd.ne_dot]
  by_cases hc : c = '.'
  · subst hc
    simp only [cons_append, takeWhile_append_stop hd.digit,
      dropWhile_append_stop hd.digit]
    split_ifs <;> simp
  · simp [hc]

variable {cs : List Char}

theorem lexNumber_append (hcs : cs ≠ []) (ys : List Char) :
    lexNumber (cs ++ d :: ys) = (lexNumber cs).map fun p => (p.1, p.2 ++ d :: ys) := by
  rcases cs with _ | ⟨c, cs⟩
  · exact absurd rfl hcs
  by_cases hc : c = '-'
  · subst hc
    exact lexDigits_append hd ['-'] cs ys
  have h : ∀ ds, lexNumber (c :: ds) = lexDigits [] (c :: ds) := fun ds => by
    rw [lexNumber]
    rintro e he
    exact hc (cons.inj he).1
  rw [cons_append, h, h]
  exact lexDigits_append hd [] (c :: cs) ys

theorem lexIdent_append (ys : List Char) (hcs : cs ≠ []) :
    lexIdent (cs ++ d :: ys) = (lexIdent cs).map fun p => (p.1, p.2 ++ d :: ys) := by
  rcases cs with _ | ⟨c, cs⟩
  · exact absurd rfl hcs
  · rw [cons_append, lexIdent, lexIdent, takeWhile_append_stop hd.ident,
      dropWhile_append_stop hd.ident]
    split_ifs <;> rfl

end

variable {cs t rest body : List Char} {root : ExprNode} {e : ExprError} {state : Value}

theorem lexString_append (ys : List Char) (h : lexString cs = some (t, rest)) :
    lexString (cs ++ ys) = some (t, rest ++ ys) := by
  rcases cs with _ | ⟨q, cs⟩
  · cases h
  rw [lexString] at h
  split_ifs at h with hq
  rcases hd : cs.dropWhile (· != q) with _ | ⟨d, rest'⟩
  · rw [hd] at h
    cases h
  rw [hd] at h
  cases h
  have hlen : (cs.takeWhile (· != q)).length ≠ cs.length := by
    have h := congrArg length (takeWhile_append_dropWhile (p := (· != q)) (l := cs))
    rw [hd, length_append, length_cons] at h
    omega
  rw [cons_append, lexString, if_pos hq, dropWhile_append, takeWhile_append,
    if_neg hlen, hd]
  rfl

theorem lexString_of_lexIdent {p : List Char × List Char} (h : lexIdent cs = some p) :
    lexString cs = none := by
  rcases cs with _ | ⟨c, cs⟩
  · cases h
  rw [lexIdent] at h
  split_ifs at h with hc
  have hq : ¬ (c = '\'' ∨ c = '"') := by
    rintro (rfl | rfl) <;> simp [isIdentStart, isAsciiLetter] at hc
  rw [lexString, if_neg hq]

theorem lexToken_append (hd : Stops d) {t : Token} (ys : List Char)
    (h : lexToken cs = some (t, rest)) : lexToken (cs ++ d :: ys) = some (t, rest ++ d :: ys) := by
  have hcs : cs ≠ [] := by
    rintro rfl
    cases (show lexToken [] = none from rfl).symm.trans h
  unfold lexToken at h ⊢
  rw [lexOp_append hd]
  rcases ho : lexOp cs with _ | ⟨o, r⟩
  · rw [ho] at h
    rw [lexNumber_append hd hcs]
    rcases hn : lexNumber cs with _ | ⟨n, r⟩
    · rw [hn] at h
      rcases hs : lexString cs with _ | ⟨u, r⟩
      · rw [hs] at h
        obtain ⟨⟨u, r⟩, hi, hu⟩ := map_eq_some_iff.mp h
        have hi' : lexIdent (cs ++ d :: ys) = some (u, r ++ d :: ys) := by
          rw [lexIdent_append hd ys hcs, hi]
          rfl
        cases hu
        simp only [map_none, lexString_of_lexIdent hi', hi', map_some]
      · rw [hs] at h
        cases h
        simp only [map_none, lexString_append _ hs]
    · rw [hn] at h
      cases h
      rfl
  · rw [ho] at h
    cases h
    rfl

/-! ## Every token takes a character -/

theorem lexOp_length {t : String} (h : lexOp cs = some (t, rest)) : rest.length < cs.length := by
  obtain ⟨u, hu, hs⟩ := exists_of_findSome?_eq_some h
  obtain ⟨r, hr, he⟩ := map_eq_some_iff.mp hs
  cases he
  have hpos : ∀ t ∈ opTexts, 0 < t.toList.length := by decide
  have := hpos t hu
  rw [stripPrefix?_eq_some.mp hr, length_append]
  omega

theorem lexDigits_length {sign : List Char} (h : lexDigits sign cs = some (t, rest)) :
    rest.length < cs.length := by
  have hsplit := congrArg length
    (takeWhile_append_dropWhile (p := isPyDigit) (l := cs))
  rw [length_append] at hsplit
  simp only [lexDigits] at h
  split_ifs at h with he
  have hpos : 0 < (cs.takeWhile isPyDigit).length := by
    rw [List.isEmpty_iff] at he
    exact length_pos_of_ne_nil he
  split at h
  · next after hd =>
    rw [hd, length_cons] at hsplit
    have hle : (after.dropWhile isPyDigit).length ≤ after.length := length_dropWhile_le _ _
    split_ifs at h
    · cases h
      rw [hd, length_cons]
      omega
    · cases h
      omega
  · cases h
    omega

theorem lexNumber_length (h : lexNumber cs = some (t, rest)) : rest.length < cs.length := by
  unfold lexNumber at h
  split at h
  · exact (lexDigits_length h).trans (Nat.lt_succ_self _)
  · exact lexDigits_length h

theorem lexString_length (h : lexString cs = some (t, rest)) : rest.length < cs.length := by
  rcases cs with _ | ⟨q, cs⟩
  · cases h
  rw [lexString] at h
  split_ifs at h
  split at h
  · next d rest' hd =>
    cases h
    have hle : (cs.dropWhile (· != q)).length ≤ cs.length := length_dropWhile_le _ _
    rw [hd, length_cons] at hle
    rw [length_cons]
    omega
  · cases h

theorem lexIdent_length (h : lexIdent cs = some (t, rest)) : rest.length < cs.length := by
  rcases cs with _ | ⟨c, cs⟩
  · cases h
  · rw [lexIdent] at h
    split_ifs at h
    cases h
    exact Nat.lt_succ_of_le (length_dropWhile_le _ _)

theorem lexToken_length {t : Token} (h : lexToken cs = some (t, rest)) :
    rest.length < cs.length := by
  unfold lexToken at h
  split at h
  · next ho =>
    cases h
    exact lexOp_length ho
  split at h
  · next hn =>
    cases h
    exact lexNumber_length hn
  split at h
  · next hs =>
    cases h
    exact lexString_length hs
  · obtain ⟨p, hi, hp⟩ := map_eq_some_iff.mp h
    cases hp
    exact lexIdent_length hi

/-! ## An expression with a brace behind it -/

theorem lexToken_brace (ys : List Char) : lexToken ('}' :: ys) = none := by
  unfold lexToken
  rfl

theorem tokenizeFrom_space_brace (source : String) (ys : List Char) :
    ∀ {n : Nat} {ws : List Char}, (∀ c ∈ ws, isPySpace c = true) → ws.length < n →
      tokenizeFrom source n (ws ++ '}' :: ys) = .error (.unexpectedCharacter '}' source)
  | 0, _, _, hn => by omega
  | n + 1, [], _, _ => by
    have hsp : ¬ isPySpace '}' = true := by decide
    rw [nil_append, tokenizeFrom, if_neg hsp, lexToken_brace]
  | n + 1, w :: ws, hws, hn => by
    rw [cons_append, tokenizeFrom, if_pos (hws w mem_cons_self)]
    exact tokenizeFrom_space_brace source ys (fun c hc => hws c (mem_cons_of_mem w hc))
      (by simpa using hn)

theorem tokenizeFrom_brace {source source' : String} {ws ys : List Char}
    (hws : ∀ c ∈ ws, isPySpace c = true) :
    ∀ {n m : Nat} {cs : List Char} {ts : List Token}, cs.length ≤ n →
      tokenizeFrom source n cs = .ok ts → cs.length + ws.length < m →
      tokenizeFrom source' m (cs ++ (ws ++ '}' :: ys)) =
        .error (.unexpectedCharacter '}' source')
  | n, m, [], _, _, _, hm => tokenizeFrom_space_brace source' ys hws (by simpa using hm)
  | 0, _, _ :: _, _, hn, _, _ => by simp at hn
  | _, 0, _ :: _, _, _, _, hm => by omega
  | n + 1, m + 1, c :: cs, ts, hn, h, hm => by
    rw [length_cons] at hn hm
    rw [tokenizeFrom] at h
    rw [cons_append, tokenizeFrom]
    by_cases hc : isPySpace c = true
    · rw [if_pos hc] at h ⊢
      exact tokenizeFrom_brace hws (by omega) h (by omega)
    rw [if_neg hc] at h ⊢
    rcases ht : lexToken (c :: cs) with _ | ⟨t, rest⟩
    · rw [ht] at h
      cases h
    rw [ht] at h
    have hlen := lexToken_length ht
    rw [length_cons] at hlen
    -- what follows the text begins with white space or with the brace
    obtain ⟨d, zs, hd, hzs⟩ : ∃ d zs, Stops d ∧ ws ++ '}' :: ys = d :: zs := by
      rcases ws with _ | ⟨w, ws⟩
      · exact ⟨'}', ys, stops_brace, rfl⟩
      · exact ⟨w, ws ++ '}' :: ys, stops_space (hws w mem_cons_self), rfl⟩
    have happ := lexToken_append hd zs ht
    rw [← hzs, cons_append] at happ
    rw [happ]
    dsimp only at h
    rcases hr : tokenizeFrom source n rest with e | ts'
    · rw [hr] at h
      cases h
    · dsimp only
      rw [tokenizeFrom_brace hws (by omega) hr (by omega)]
      rfl

/-- Trimming a text that a brace ends leaves what stands before the brace, from its first
character on. -/
theorem strip_brace (cs ys : List Char) :
    ∃ zs, strip (cs ++ '}' :: ys) = cs.dropWhile isPySpace ++ '}' :: zs := by
  have hsp : isPySpace '}' = false := by decide
  unfold strip
  rw [dropWhile_append_stop hsp, reverse_append, reverse_cons, append_assoc,
    singleton_append, dropWhile_append_stop hsp]
  simp

theorem dropWhile_eq_strip_append (cs : List Char) :
    ∃ ws, (∀ c ∈ ws, isPySpace c = true) ∧ cs.dropWhile isPySpace = strip cs ++ ws := by
  have h := takeWhile_append_dropWhile (p := isPySpace)
    (l := (cs.dropWhile isPySpace).reverse)
  refine ⟨((cs.dropWhile isPySpace).reverse.takeWhile isPySpace).reverse, fun c hc => ?_, ?_⟩
  · exact mem_takeWhile_imp (mem_reverse.mp hc)
  · unfold strip
    rw [← reverse_append, h, reverse_reverse]

theorem tokenize_of_compileExpression (h : compileExpression cs = .ok root) :
    ∃ ts, tokenize (strip cs) = .ok ts := by
  unfold compileExpression at h
  dsimp only at h
  split at h
  · cases h
  · rcases ht : tokenize (strip cs) with e | ts
    · rw [ht] at h
      cases h
    · exact ⟨ts, rfl⟩

theorem compileExpression_brace (ys : List Char) (h : compileExpression cs = .ok root) :
    ∃ source, compileExpression (cs ++ '}' :: ys) = .error (.unexpectedCharacter '}' source) := by
  obtain ⟨ts, hts⟩ := tokenize_of_compileExpression h
  obtain ⟨zs, hz⟩ := strip_brace cs ys
  obtain ⟨ws, hws, hw⟩ := dropWhile_eq_strip_append cs
  rw [hw, append_assoc] at hz
  have htok : tokenize (strip (cs ++ '}' :: ys)) =
      .error (.unexpectedCharacter '}' (String.ofList (strip (cs ++ '}' :: ys)))) := by
    rw [hz]
    refine tokenizeFrom_brace hws le_rfl hts ?_
    simp only [length_append, length_cons]
    omega
  refine ⟨String.ofList (strip (cs ++ '}' :: ys)), ?_⟩
  unfold compileExpression
  rw [if_neg (by rw [hz]; simp), htok]
  rfl

/-! ## The two readings of a string -/

theorem findClose_cons (h : ∀ rest, c :: cs ≠ '}' :: '}' :: rest) :
    findClose (c :: cs) = (findClose cs).map fun p => (c :: p.1, p.2) := by
  rw [findClose]
  intro rest hc hcs
  exact h rest (by rw [hc, hcs])

theorem findClose_spec (h : findClose cs = some (body, rest)) :
    cs = body ++ '}' :: '}' :: rest ∧ ∀ ys, findClose (cs ++ ys) = some (body, rest ++ ys) := by
  induction cs generalizing body with
  | nil => cases h
  | cons c cs ih =>
    by_cases hc : ∃ r, c :: cs = '}' :: '}' :: r
    · obtain ⟨r, hr⟩ := hc
      rw [hr] at h ⊢
      cases h
      exact ⟨rfl, fun _ => rfl⟩
    rw [findClose_cons fun r hr => hc ⟨r, hr⟩] at h
    obtain ⟨⟨b, r⟩, hb, he⟩ := map_eq_some_iff.mp h
    cases he
    refine ⟨by rw [(ih hb).1, cons_append], fun ys => ?_⟩
    have hc' : ∀ r, c :: (cs ++ ys) ≠ '}' :: '}' :: r := by
      intro r' hr'
      obtain ⟨hcb, hcs⟩ := cons.inj hr'
      rcases cs with _ | ⟨c', cs⟩
      · cases hb
      · obtain ⟨hcb', -⟩ := cons.inj hcs
        exact hc ⟨cs, by rw [hcb, hcb']⟩
    rw [cons_append, findClose_cons hc', (ih hb).2]
    rfl

theorem findClose_close (cs : List Char) : ∃ p, findClose (cs ++ ['}', '}']) = some p := by
  induction cs with
  | nil => exact ⟨([], []), rfl⟩
  | cons c cs ih =>
    obtain ⟨p, hp⟩ := ih
    rw [cons_append]
    by_cases hc : ∃ r, c :: (cs ++ ['}', '}']) = '}' :: '}' :: r
    · obtain ⟨r, hr⟩ := hc
      rw [hr]
      exact ⟨([], r), rfl⟩
    · rw [findClose_cons fun r hr => hc ⟨r, hr⟩, hp]
      exact ⟨_, rfl⟩

theorem piecesFrom_eq : ∀ {n m : Nat} {cs : List Char}, cs.length ≤ n → cs.length ≤ m →
    piecesFrom n cs = piecesFrom m cs
  | n, m, [], _, _ => by cases n <;> cases m <;> rfl
  | n + 1, m + 1, c :: cs, hn, hm => by
    rw [length_cons] at hn hm
    unfold piecesFrom
    split
    · next rest =>
      rcases hf : findClose rest with _ | ⟨body, rest'⟩
      · dsimp only
        rw [piecesFrom_eq (m := m) (by omega) (by omega)]
      · have hlen := congrArg length (findClose_spec hf).1
        simp only [length_append, length_cons] at hlen hn hm
        dsimp only
        rw [piecesFrom_eq (m := m) (by omega) (by omega)]
    · rw [piecesFrom_eq (m := m) (by omega) (by omega)]

theorem pieces_template (h : findClose cs = some (body, rest)) :
    pieces ('{' :: '{' :: cs) = .expr body :: pieces rest := by
  have hlen := congrArg length (findClose_spec h).1
  simp only [length_append, length_cons] at hlen
  unfold pieces
  rw [length_cons, piecesFrom, h]
  dsimp only
  rw [piecesFrom_eq (by rw [length_cons]; omega) le_rfl]

theorem pieces_lit (hc : c ≠ '{') (cs : List Char) :
    pieces (c :: cs) = .lit c :: pieces cs := by
  unfold pieces
  rw [length_cons, piecesFrom]
  intro rest h
  exact absurd h hc

theorem pieces_lits {ws : List Char} (hws : ∀ c ∈ ws, isPySpace c = true) (cs : List Char) :
    pieces (ws ++ cs) = ws.map Piece.lit ++ pieces cs := by
  induction ws with
  | nil => rfl
  | cons w ws ih =>
    have hw : w ≠ '{' := by
      rintro rfl
      exact absurd (hws '{' mem_cons_self) (by decide)
    rw [cons_append, pieces_lit hw, ih fun c hc => hws c (mem_cons_of_mem w hc)]
    rfl

theorem pieces_eq_nil (h : pieces cs = []) : cs = [] := by
  rcases cs with _ | ⟨c, cs⟩
  · rfl
  unfold pieces at h
  rw [length_cons] at h
  unfold piecesFrom at h
  split at h
  · split at h <;> cases h
  · cases h

theorem wholeTemplate?_eq_some :
    wholeTemplate? cs = some body ↔ cs = '{' :: '{' :: (body ++ ['}', '}']) := by
  constructor
  · intro h
    unfold wholeTemplate? at h
    split at h
    · next rest hr =>
      obtain ⟨r, hb, rfl⟩ := map_eq_some_iff.mp h
      have hrest := congrArg reverse (stripPrefix?_eq_some.mp hb)
      rw [reverse_reverse, reverse_append] at hrest
      rw [stripPrefix?_eq_some.mp hr, hrest]
      rfl
    · cases h
  · rintro rfl
    simp [wholeTemplate?, stripPrefix?]

theorem strip_decompose (cs : List Char) : ∃ ws ws', (∀ c ∈ ws, isPySpace c = true) ∧
    cs = ws ++ (strip cs ++ ws') := by
  obtain ⟨ws', -, h⟩ := dropWhile_eq_strip_append cs
  refine ⟨cs.takeWhile isPySpace, ws', fun c hc => mem_takeWhile_imp hc, ?_⟩
  rw [← h, takeWhile_append_dropWhile]

def isLoneTemplate (s : String) : Bool :=
  match pieces (strip s.toList) with
  | [.expr _] => true
  | _ => false

/-- The trimmed text begins and ends like a template, and is not one template. -/
def straddles (s : String) : Bool :=
  (wholeTemplate? (strip s.toList)).isSome && !isLoneTemplate s

/-- Where the trimmed text begins and ends like a template, the first template of the string is
the whole body, or a closing brace follows it in the body. -/
theorem whole_body {s : String} (h : wholeTemplate? (strip s.toList) = some body) :
    ∃ b, .expr b ∈ pieces s.toList ∧
      if isLoneTemplate s then body = b else ∃ ys, body = b ++ '}' :: ys := by
  have ht := wholeTemplate?_eq_some.mp h
  obtain ⟨⟨b, rest⟩, hb⟩ := findClose_close body
  obtain ⟨ws, ws', hws, hs⟩ := strip_decompose s.toList
  have hsplit := (findClose_spec hb).1
  refine ⟨b, ?_, ?_⟩
  · rw [hs, pieces_lits hws, ht, cons_append, cons_append,
      pieces_template ((findClose_spec hb).2 ws')]
    simp
  unfold isLoneTemplate
  rw [ht, pieces_template hb]
  rcases rest with _ | ⟨c, rest⟩
  · exact append_cancel_right hsplit
  rcases hp : pieces (c :: rest) with _ | ⟨q, ps⟩
  · cases pieces_eq_nil hp
  · refine ⟨('}' :: c :: rest).dropLast.dropLast, ?_⟩
    have hdrop := congrArg (fun l => l.dropLast.dropLast) hsplit
    simpa [dropLast_append_of_ne_nil] using hdrop

/-! ## What can go wrong at run time -/

theorem bind_eq_ok {ε α β : Type} {x : Except ε α} {f : α → Except ε β} {b : β} :
    (x >>= f) = .ok b ↔ ∃ a, x = .ok a ∧ f a = .ok b := by
  cases x <;> simp [bind, Except.bind]

theorem of_bind_error {ε α β : Type} {x : Except ε α} {f : α → Except ε β} {e : ε} {p : Prop}
    (h : (x >>= f) = .error e) (hx : x = .error e → p) (hf : ∀ a, f a = .error e → p) : p := by
  cases x with
  | error _ =>
    cases h
    exact hx rfl
  | ok a => exact hf a h

def ExprError.isOrdering : ExprError → Bool
  | .orderingNeedsNumbers _ _ _ => true
  | _ => false

theorem compareValues_error {op : CmpOp} {l r : Value} (h : compareValues op l r = .error e) :
    e.isOrdering = true := by
  unfold compareValues at h
  split at h
  · cases h
  · cases h
  · split at h
    · cases h
    · cases h
      rfl

theorem ExprNode.eval_error {node : ExprNode} (h : node.eval state = .error e) :
    e.isOrdering = true := by
  induction node with
  | literal _ | path _ => cases h
  | not operand ih =>
    refine of_bind_error h ih fun v h => ?_
    cases h
  | compare op l r ihl ihr =>
    refine of_bind_error h ihl fun v h => of_bind_error h ihr fun w h => ?_
    exact compareValues_error h
  | boolOp op l r ihl ihr =>
    cases op <;>
    · rw [ExprNode.eval] at h
      refine of_bind_error h ihl fun v h => ?_
      split_ifs at h
      refine of_bind_error h ihr fun w h => ?_
      cases h

def Compiles (ps : List Piece) : Prop :=
  ∀ body, .expr body ∈ ps → ∃ root, compileExpression body = .ok root

theorem textPaths_body (h : textPaths ps = .ok paths) :
    ∀ body, .expr body ∈ ps →
      ∃ root, compileExpression body = .ok root ∧ root.paths ⊆ paths := by
  induction ps generalizing paths with
  | nil => exact nofun
  | cons p ps ih =>
    intro body hm
    rcases p with c | b
    · rcases mem_cons.mp hm with hm | hm
      · cases hm
      · exact ih h body hm
    obtain ⟨root, hb, h⟩ := bind_eq_ok.mp h
    obtain ⟨rest, hp, h⟩ := bind_eq_ok.mp h
    cases h
    rcases mem_cons.mp hm with hm | hm
    · cases hm
      exact ⟨root, hb, subset_append_left _ _⟩
    · obtain ⟨root', hb', hsub⟩ := ih hp body hm
      exact ⟨root', hb', fun p hp => mem_append_right _ (hsub hp)⟩

theorem compiles_of_textPaths (h : textPaths ps = .ok paths) :
    Compiles ps := by
  intro body hm
  obtain ⟨root, hroot, -⟩ := textPaths_body h body hm
  exact ⟨root, hroot⟩

theorem evaluateExpression_error (hc : compileExpression cs = .ok root)
    (h : evaluateExpression cs state = .error e) : e.isOrdering = true := by
  unfold evaluateExpression at h
  rw [hc] at h
  exact ExprNode.eval_error h

theorem interpolate_error {strOf : Value → String} (hps : Compiles ps)
    (h : interpolate strOf state ps = .error e) : e.isOrdering = true := by
  induction ps with
  | nil => cases h
  | cons p ps ih =>
    have hps' : Compiles ps := fun body hm => hps body (mem_cons_of_mem p hm)
    rcases p with c | b
    · rw [interpolate] at h
      refine of_bind_error h (ih hps') fun cs h => ?_
      cases h
    obtain ⟨root, hroot⟩ := hps b mem_cons_self
    refine of_bind_error h (evaluateExpression_error hroot) fun v h => ?_
    refine of_bind_error h (ih hps') fun cs h => ?_
    cases h

/-! ## Strings -/

/-- The string with every template replaced by the text of its value. -/
def interpolated (strOf : Value → String) (state : Value) (s : String) : Except ExprError Value :=
  (interpolate strOf state (pieces s.toList)).map fun cs => .str (String.ofList cs)

section

variable {strOf : Value → String} {state : Value} {s : String}

theorem renderText_of_not_whole (h : wholeTemplate? (strip s.toList) = none) :
    renderText strOf state s = interpolated strOf state s := by
  unfold renderText interpolated
  rw [h]
  rcases interpolate strOf state (pieces s.toList) with e | cs <;> rfl

theorem renderText_of_straddles (hc : Compiles (pieces s.toList)) (hs : straddles s = true) :
    ∃ source, renderText strOf state s = .error (.unexpectedCharacter '}' source) := by
  unfold straddles at hs
  rw [Bool.and_eq_true, Bool.not_eq_true'] at hs
  obtain ⟨body, hw⟩ := isSome_iff_exists.mp hs.1
  obtain ⟨b, hb, hbody⟩ := whole_body hw
  rw [hs.2] at hbody
  obtain ⟨ys, rfl⟩ : ∃ ys, body = b ++ '}' :: ys := hbody
  obtain ⟨root, hroot⟩ := hc b hb
  obtain ⟨source, herr⟩ := compileExpression_brace ys hroot
  refine ⟨source, ?_⟩
  unfold renderText evaluateExpression
  rw [hw]
  dsimp only
  rw [herr]
  rfl

theorem renderText_error (hc : Compiles (pieces s.toList)) (hs : straddles s = false)
    (h : renderText strOf state s = .error e) : e.isOrdering = true := by
  rcases hw : wholeTemplate? (strip s.toList) with _ | body
  · rw [renderText_of_not_whole hw] at h
    unfold interpolated at h
    rcases hi : interpolate strOf state (pieces s.toList) with e' | cs
    · rw [hi] at h
      cases h
      exact interpolate_error hc hi
    · rw [hi] at h
      cases h
  · have hlone : isLoneTemplate s = true := by
      simpa [straddles, hw] using hs
    obtain ⟨b, hb, hbody⟩ := whole_body hw
    rw [if_pos hlone] at hbody
    obtain ⟨root, hroot⟩ := hc b hb
    unfold renderText at h
    rw [hw, hbody] at h
    exact evaluateExpression_error hroot h

theorem renderText_of_not_lone (hs : straddles s = false) (hl : isLoneTemplate s = false) :
    renderText strOf state s = interpolated strOf state s := by
  have hw : wholeTemplate? (strip s.toList) = none := by
    simpa [straddles, hl] using hs
  exact renderText_of_not_whole hw

end

/-! ## Nested values -/

mutual

theorem compiles_of_extract : ∀ {v : Value} {paths : List (List String)},
    extractTemplatePaths v = .ok paths → ∀ s ∈ v.strings, Compiles (pieces s.toList)
  | .str s, _, h => by
    rw [extractTemplatePaths] at h
    rw [Value.strings, forall_mem_singleton]
    exact compiles_of_textPaths h
  | .list xs, _, h => by
    rw [extractTemplatePaths] at h
    rw [Value.strings]
    exact compiles_of_extractItems h
  | .obj kvs, _, h => by
    rw [extractTemplatePaths] at h
    rw [Value.strings]
    exact compiles_of_extractEntries h
  | .null, _, _ | .bool _, _, _ | .int _, _, _ | .float _, _, _ => by simp [Value.strings]

theorem compiles_of_extractItems : ∀ {xs : List Value} {paths : List (List String)},
    extractItems xs = .ok paths → ∀ s ∈ Value.stringsOfItems xs, Compiles (pieces s.toList)
  | [], _, _ => by simp [Value.stringsOfItems]
  | x :: xs, _, h => by
    rw [extractItems] at h
    rw [Value.stringsOfItems, forall_mem_append]
    obtain ⟨ps, hx, h⟩ := bind_eq_ok.mp h
    obtain ⟨qs, hxs, -⟩ := bind_eq_ok.mp h
    exact ⟨compiles_of_extract hx, compiles_of_extractItems hxs⟩

theorem compiles_of_extractEntries : ∀ {kvs : List (String × Value)} {paths : List (List String)},
    extractEntries kvs = .ok paths →
      ∀ s ∈ Value.stringsOfEntries kvs, Compiles (pieces s.toList)
  | [], _, _ => by simp [Value.stringsOfEntries]
  | (k, x) :: kvs, _, h => by
    rw [extractEntries] at h
    rw [Value.stringsOfEntries, forall_mem_append]
    obtain ⟨ps, hx, h⟩ := bind_eq_ok.mp h
    obtain ⟨qs, hxs, -⟩ := bind_eq_ok.mp h
    exact ⟨compiles_of_extract hx, compiles_of_extractEntries hxs⟩

end

mutual

variable {strOf : Value → String} {state : Value} {e : ExprError}

theorem exists_string_error :
    ∀ {v : Value}, renderTemplate strOf state v = .error e →
      ∃ s ∈ v.strings, renderText strOf state s = .error e
  | .str s, h => by
    rw [renderTemplate] at h
    exact ⟨s, by simp [Value.strings], h⟩
  | .list xs, h => by
    rw [renderTemplate] at h
    rw [Value.strings]
    refine of_bind_error h exists_string_error_items fun ys h => ?_
    cases h
  | .obj kvs, h => by
    rw [renderTemplate] at h
    rw [Value.strings]
    refine of_bind_error h exists_string_error_entries fun ys h => ?_
    cases h
  | .null, h | .bool _, h | .int _, h | .float _, h => by simp [renderTemplate] at h

theorem exists_string_error_items :
    ∀ {xs : List Value}, renderItems strOf state xs = .error e →
      ∃ s ∈ Value.stringsOfItems xs, renderText strOf state s = .error e
  | [], h => by simp [renderItems] at h
  | x :: xs, h => by
    rw [renderItems] at h
    simp only [Value.stringsOfItems, mem_append, or_and_right, exists_or]
    refine of_bind_error h (fun hx => .inl (exists_string_error hx)) fun y h => ?_
    refine of_bind_error h (fun hxs => .inr (exists_string_error_items hxs)) fun ys h => ?_
    cases h

theorem exists_string_error_entries :
    ∀ {kvs : List (String × Value)}, renderEntries strOf state kvs = .error e →
      ∃ s ∈ Value.stringsOfEntries kvs, renderText strOf state s = .error e
  | [], h => by simp [renderEntries] at h
  | (k, x) :: kvs, h => by
    rw [renderEntries] at h
    simp only [Value.stringsOfEntries, mem_append, or_and_right, exists_or]
    refine of_bind_error h (fun hx => .inl (exists_string_error hx)) fun y h => ?_
    refine of_bind_error h (fun hxs => .inr (exists_string_error_entries hxs)) fun ys h => ?_
    cases h

end

/-- A binding that validates raises nothing but the ordering error, and every string of it that is
not one template is interpolated template by template, exactly when no string straddles. -/
theorem renders_iff {v : Value} {paths : List (List String)}
    (h : extractTemplatePaths v = .ok paths) (strOf : Value → String) (state : Value) :
    ((∀ e, renderTemplate strOf state v = .error e → e.isOrdering = true) ∧
      ∀ s ∈ v.strings, isLoneTemplate s = false →
        renderText strOf state s = interpolated strOf state s) ↔
    ∀ s ∈ v.strings, straddles s = false := by
  have hc := compiles_of_extract h
  constructor
  · rintro ⟨-, hint⟩ s hs
    by_contra hst
    have hst : straddles s = true := by simpa using hst
    have hlone : isLoneTemplate s = false := by
      unfold straddles at hst
      rw [Bool.and_eq_true, Bool.not_eq_true'] at hst
      exact hst.2
    obtain ⟨source, herr⟩ := renderText_of_straddles (hc s hs) hst
    have hi := hint s hs hlone
    rw [herr] at hi
    unfold interpolated at hi
    -- the templates one by one compile, so that only a comparison could fail
    rcases hp : interpolate strOf state (pieces s.toList) with e | cs
    · rw [hp] at hi
      cases hi
      exact absurd (interpolate_error (hc s hs) hp) (by simp [ExprError.isOrdering])
    · rw [hp] at hi
      cases hi
  · intro hst
    refine ⟨fun e he => ?_, fun s hs hl => renderText_of_not_lone (hst s hs) hl⟩
    obtain ⟨s, hs, hse⟩ := exists_string_error he
    exact renderText_error (hc s hs) (hst s hs) hse

/-- A binding with text before, between and behind its templates. -/
def greeting : Value :=
  .obj [("subject", .str "\x7b\x7b flow.input.topic \x7d\x7d"),
        ("lines", .list [.str "Dear \x7b\x7b flow.input.first \x7d\x7d,", .int 3])]

theorem renders_iff_greeting :
    (extractTemplatePaths greeting).toOption.isSome = true ∧
    ((∀ e, renderTemplate (fun _ => "") (.obj []) greeting = .error e → e.isOrdering = true) ∧
      ∀ s ∈ greeting.strings, isLoneTemplate s = false →
        renderText (fun _ => "") (.obj []) s = interpolated (fun _ => "") (.obj []) s) :=
  ⟨by decide +kernel,
    (renders_iff (show extractTemplatePaths greeting =
      .ok [["flow", "input", "topic"], ["flow", "input", "first"]] by decide +kernel)
      (fun _ => "") (.obj [])).mpr (by decide +kernel)⟩

def fullName : Value :=
  .str "\x7b\x7b flow.input.first \x7d\x7d \x7b\x7b flow.input.last \x7d\x7d"

/-- The binding validates, and rendering it raises because its two templates are read as one. -/
theorem full_name_does_not_render :
    extractTemplatePaths fullName =
      .ok [["flow", "input", "first"], ["flow", "input", "last"]] ∧
    renderTemplate (fun _ => "")
        (.obj [("flow", .obj [("input", .obj [("first", .str "Ada"), ("last", .str "King")])])])
        fullName =
      .error (.unexpectedCharacter '}'
        "flow.input.first \x7d\x7d \x7b\x7b flow.input.last") := by
  decide +kernel

end AutoDev.Flows
