/-
# `AutoDev.Flows.Expressions` — the expression language of flow manifests

`backend/flows/expressions.py`: a tokenizer over one regular expression, a
recursive-descent parser, an evaluator over a state document, and the two
walks over binding values, `render_template` and `extract_template_paths`.

The tokenizer's alternatives are tried in the order of the regular expression
(`ws`, `op`, `number`, `string`, `ident`).  `\s` and `\d` are Python's Unicode
classes; the identifier class is ASCII.  The parser's six procedures call each
other, so they take a `fuel` that every call spends; `parseFuel` is more than
any token list can use.

Two builtins are left open because nothing here depends on them: `str(value)`,
which interpolation uses, is the parameter `strOf` of `renderTemplate`, and a
decimal literal denotes its exact rational.
-/
import AutoDev.Flows.Value

namespace AutoDev.Flows

/-! ## Characters -/

variable (c : Char)

/-- `str.isspace`, the class `\s` and what `strip` removes. -/
def isPySpace : Bool :=
  [0x9, 0xa, 0xb, 0xc, 0xd, 0x1c, 0x1d, 0x1e, 0x1f, 0x20, 0x85, 0xa0, 0x1680, 0x2000, 0x2001,
    0x2002, 0x2003, 0x2004, 0x2005, 0x2006, 0x2007, 0x2008, 0x2009, 0x200a, 0x2028, 0x2029,
    0x202f, 0x205f, 0x3000].contains c.toNat

def decimalZeros : List Nat :=
  [0x30, 0x660, 0x6f0, 0x7c0, 0x966, 0x9e6, 0xa66, 0xae6, 0xb66, 0xbe6, 0xc66, 0xce6, 0xd66,
    0xde6, 0xe50, 0xed0, 0xf20, 0x1040, 0x1090, 0x17e0, 0x1810, 0x1946, 0x19d0, 0x1a80, 0x1a90,
    0x1b50, 0x1bb0, 0x1c40, 0x1c50, 0xa620, 0xa8d0, 0xa900, 0xa9d0, 0xa9f0, 0xaa50, 0xabf0,
    0xff10, 0x104a0, 0x10d30, 0x11066, 0x110f0, 0x11136, 0x111d0, 0x112f0, 0x11450, 0x114d0,
    0x11650, 0x116c0, 0x11730, 0x118e0, 0x11950, 0x11c50, 0x11d50, 0x11da0, 0x16a60, 0x16ac0,
    0x16b50, 0x1d7ce, 0x1d7d8, 0x1d7e2, 0x1d7ec, 0x1d7f6, 0x1e140, 0x1e2f0, 0x1e950, 0x1fbf0]

def decimal? : Option Nat :=
  (decimalZeros.find? fun z => decide (z ≤ c.toNat ∧ c.toNat < z + 10)).map (c.toNat - ·)

def isPyDigit : Bool := (decimal? c).isSome

def isAsciiLetter : Bool :=
  (decide ('a' ≤ c) && decide (c ≤ 'z')) || (decide ('A' ≤ c) && decide (c ≤ 'Z'))

def isAsciiDigit : Bool := decide ('0' ≤ c) && decide (c ≤ '9')

def isIdentStart : Bool := isAsciiLetter c || c == '_'

def isIdentChar : Bool := isAsciiLetter c || isAsciiDigit c || c == '_' || c == '-'

variable (cs : List Char)

def strip : List Char :=
  ((cs.dropWhile isPySpace).reverse.dropWhile isPySpace).reverse

/-! ## Errors -/

inductive ExprError where
  | unexpectedCharacter (c : Char) (source : String)
  | unexpectedEnd
  | expected (text : String)
  | empty
  | trailingTokens (source : String)
  | unexpectedKeyword (text : String)
  | unexpectedToken (text : String)
  | expectedIdentifier (found : String)
  | invalidSubscript (text : String)
  | orderingNeedsNumbers (op : String) (left right : String)
  deriving DecidableEq

/-! ## Tokens -/

/-- The named groups of the token expression that survive tokenizing. -/
inductive TokKind where
  | op
  | number
  | string
  | ident
  deriving DecidableEq

structure Token where
  kind : TokKind
  text : String
  deriving DecidableEq

def opTexts : List String := ["==", "!=", "<=", ">=", "<", ">", "(", ")", "[", "]", "."]

/-- Drop the literal text `t` from the front. -/
def stripPrefix? : List Char → List Char → Option (List Char)
  | [], cs => some cs
  | _ :: _, [] => none
  | t :: ts, c :: cs => if t = c then stripPrefix? ts cs else none

def lexOp : Option (String × List Char) :=
  opTexts.findSome? fun t => (stripPrefix? t.toList cs).map fun rest => (t, rest)

def lexDigits (sign cs : List Char) : Option (List Char × List Char) :=
  let digits := cs.takeWhile isPyDigit
  let rest := cs.dropWhile isPyDigit
  if digits.isEmpty then none
  else
    match rest with
    | '.' :: after =>
      let frac := after.takeWhile isPyDigit
      if frac.isEmpty then some (sign ++ digits, rest)
      else some (sign ++ digits ++ '.' :: frac, after.dropWhile isPyDigit)
    | _ => some (sign ++ digits, rest)

def lexNumber : List Char → Option (List Char × List Char)
  | '-' :: cs => lexDigits ['-'] cs
  | cs => lexDigits [] cs

/-- The group `string`: up to the next quote of the same kind. -/
def lexString : List Char → Option (List Char × List Char)
  | q :: cs =>
    if q = '\'' ∨ q = '"' then
      match cs.dropWhile (· != q) with
      | _ :: rest => some (q :: cs.takeWhile (· != q) ++ [q], rest)
      | [] => none
    else none
  | [] => none

def lexIdent : List Char → Option (List Char × List Char)
  | c :: cs =>
    if isIdentStart c then some (c :: cs.takeWhile isIdentChar, cs.dropWhile isIdentChar) else none
  | [] => none

/-- One token at the front of a text that does not start with white space. -/
def lexToken : Option (Token × List Char) :=
  match lexOp cs with
  | some (t, rest) => some (⟨.op, t⟩, rest)
  | none =>
    match lexNumber cs with
    | some (t, rest) => some (⟨.number, String.ofList t⟩, rest)
    | none =>
      match lexString cs with
      | some (t, rest) => some (⟨.string, String.ofList t⟩, rest)
      | none => (lexIdent cs).map fun (t, rest) => (⟨.ident, String.ofList t⟩, rest)

/-- `_Tokenizer.__init__`.  Every round removes a character, so the length of the text is
fuel enough. -/
def tokenizeFrom (source : String) : Nat → List Char → Except ExprError (List Token)
  | 0, _ => .ok []
  | _ + 1, [] => .ok []
  | n + 1, c :: cs =>
    if isPySpace c then tokenizeFrom source n cs
    else
      match lexToken (c :: cs) with
      | none => .error (.unexpectedCharacter c source)
      | some (t, rest) => (tokenizeFrom source n rest).map (t :: ·)

/-- Tokenize a stripped expression text. -/
def tokenize : Except ExprError (List Token) :=
  tokenizeFrom (String.ofList cs) cs.length cs

/-! ## Syntax trees -/

/-- A path segment: a name or a list index. -/
inductive Seg where
  | name (s : String)
  | index (i : Int)
  deriving DecidableEq

inductive CmpOp where
  | eq
  | ne
  | lt
  | le
  | gt
  | ge
  deriving DecidableEq

def CmpOp.text : CmpOp → String
  | .eq => "=="
  | .ne => "!="
  | .lt => "<"
  | .le => "<="
  | .gt => ">"
  | .ge => ">="

/-- The comparison operator a token text names. -/
def CmpOp.ofText? (t : String) : Option CmpOp :=
  [CmpOp.eq, .ne, .lt, .le, .gt, .ge].find? (·.text == t)

inductive BoolOp where
  | and
  | or
  deriving DecidableEq

inductive ExprNode where
  | literal (v : Value)
  | path (segments : List Seg)
  | compare (op : CmpOp) (left right : ExprNode)
  | boolOp (op : BoolOp) (left right : ExprNode)
  | not (operand : ExprNode)
  deriving DecidableEq

/-! ## The parser -/

def digitsVal (cs : List Char) : Nat :=
  cs.foldl (fun n c => 10 * n + (decimal? c).getD 0) 0

def pyIntText : List Char → Int
  | '-' :: cs => -(digitsVal cs : Int)
  | cs => digitsVal cs

def pyDecimal (cs : List Char) : ℚ :=
  let whole := cs.takeWhile (· != '.')
  let frac := (cs.dropWhile (· != '.')).drop 1
  (digitsVal whole : ℚ) + (digitsVal frac : ℚ) / 10 ^ frac.length

def pyFloatText : List Char → ℚ
  | '-' :: cs => -pyDecimal cs
  | cs => pyDecimal cs

def numberLiteral (text : String) : Value :=
  if text.toList.contains '.' then .float (.fin (pyFloatText text.toList))
  else .int (pyIntText text.toList)

def unquote (text : String) : String := String.ofList (text.toList.tail.dropLast)

def peekKeyword : List Token → Option String
  | t :: _ => if t.kind = .ident ∧ t.text ∈ ["and", "or", "not"] then some t.text else none
  | [] => none

def expect (text : String) : List Token → Except ExprError (List Token)
  | t :: ts => if t.text = text then .ok ts else .error (.expected text)
  | [] => .error (.expected text)

/-- The loop of `_parse_path`, with the segments read so far. -/
def parsePathFrom : Nat → List Seg → List Token → Except ExprError (ExprNode × List Token)
  | 0, segs, ts => .ok (.path segs, ts)
  | n + 1, segs, ts =>
    match ts with
    | ⟨_, "."⟩ :: rest =>
      match rest with
      | [] => .error .unexpectedEnd
      | t :: rest' =>
        if t.kind = .ident then parsePathFrom n (segs ++ [.name t.text]) rest'
        else .error (.expectedIdentifier t.text)
    | ⟨_, "["⟩ :: rest =>
      match rest with
      | [] => .error .unexpectedEnd
      | t :: rest' =>
        if t.kind = .string then do
          let rest'' ← expect "]" rest'
          parsePathFrom n (segs ++ [.name (unquote t.text)]) rest''
        else if t.kind = .number ∧ ¬ t.text.toList.contains '.' then do
          let rest'' ← expect "]" rest'
          parsePathFrom n (segs ++ [.index (pyIntText t.text.toList)]) rest''
        else .error (.invalidSubscript t.text)
    | _ => .ok (.path segs, ts)

/-- Reading one syntax tree off the front of a token list. -/
abbrev ParseResult := Except ExprError (ExprNode × List Token)

mutual

def parseOr : Nat → List Token → ParseResult
  | 0, _ => .error .unexpectedEnd
  | n + 1, ts => do
    let (node, rest) ← parseAnd n ts
    parseOrLoop n node rest

def parseOrLoop : Nat → ExprNode → List Token → ParseResult
  | 0, _, _ => .error .unexpectedEnd
  | n + 1, node, ts =>
    if peekKeyword ts = some "or" then do
      let (right, rest) ← parseAnd n ts.tail
      parseOrLoop n (.boolOp .or node right) rest
    else .ok (node, ts)

def parseAnd : Nat → List Token → ParseResult
  | 0, _ => .error .unexpectedEnd
  | n + 1, ts => do
    let (node, rest) ← parseNot n ts
    parseAndLoop n node rest

def parseAndLoop : Nat → ExprNode → List Token → ParseResult
  | 0, _, _ => .error .unexpectedEnd
  | n + 1, node, ts =>
    if peekKeyword ts = some "and" then do
      let (right, rest) ← parseNot n ts.tail
      parseAndLoop n (.boolOp .and node right) rest
    else .ok (node, ts)

def parseNot : Nat → List Token → ParseResult
  | 0, _ => .error .unexpectedEnd
  | n + 1, ts =>
    if peekKeyword ts = some "not" then do
      let (operand, rest) ← parseNot n ts.tail
      .ok (.not operand, rest)
    else parseComparison n ts

def parseComparison : Nat → List Token → ParseResult
  | 0, _ => .error .unexpectedEnd
  | n + 1, ts => do
    let (left, rest) ← parseOperand n ts
    match rest with
    | t :: rest' =>
      match CmpOp.ofText? t.text with
      | some op => do
        let (right, rest'') ← parseOperand n rest'
        .ok (.compare op left right, rest'')
      | none => .ok (left, rest)
    | [] => .ok (left, rest)

def parseOperand : Nat → List Token → ParseResult
  | 0, _ => .error .unexpectedEnd
  | _ + 1, [] => .error .unexpectedEnd
  | n + 1, t :: ts =>
    if t.text = "(" then do
      let (node, rest) ← parseOr n ts
      let rest' ← expect ")" rest
      .ok (node, rest')
    else
      match t.kind with
      | .number => .ok (.literal (numberLiteral t.text), ts)
      | .string => .ok (.literal (.str (unquote t.text)), ts)
      | .ident =>
        if t.text = "true" ∨ t.text = "false" then .ok (.literal (.bool (t.text = "true")), ts)
        else if t.text = "null" then .ok (.literal .null, ts)
        else if t.text ∈ ["and", "or", "not"] then .error (.unexpectedKeyword t.text)
        else parsePathFrom ts.length [.name t.text] ts
      | .op => .error (.unexpectedToken t.text)

end

/-- Six procedures deep for every token, and one round of a loop for every token. -/
def parseFuel (ts : List Token) : Nat := 8 * ts.length + 8

def compileExpression (source : List Char) : Except ExprError ExprNode := do
  let text := strip source
  if text.isEmpty then .error .empty
  else
    let ts ← tokenize text
    let (root, rest) ← parseOr (parseFuel ts) ts
    if rest.isEmpty then .ok root else .error (.trailingTokens (String.ofList source))

/-! ## The paths an expression reads -/

def leadingNames : List Seg → List String
  | .name s :: segs => s :: leadingNames segs
  | _ => []

def ExprNode.paths : ExprNode → List (List String)
  | .literal _ => []
  | .path segs => [leadingNames segs]
  | .compare _ l r => l.paths ++ r.paths
  | .boolOp _ l r => l.paths ++ r.paths
  | .not e => e.paths

/-! ## Evaluation -/

/-- `current[segment]` on a list, negative indices counting from the end. -/
def indexList (xs : List Value) (i : Int) : Option Value :=
  if 0 ≤ i then xs[i.toNat]? else if -(xs.length : Int) ≤ i then xs[(xs.length + i).toNat]? else none

def resolvePath : List Seg → Value → Value
  | [], v => v
  | .index i :: segs, v =>
    match v with
    | .list xs =>
      match indexList xs i with
      | some w => resolvePath segs w
      | none => .null
    | _ => .null
  | .name s :: segs, v =>
    match v with
    | .obj kvs =>
      match Dict.get? kvs s with
      | some w => resolvePath segs w
      | none => .null
    | _ => .null

def orderCmp : CmpOp → PyFloat → PyFloat → Bool
  | .lt, x, y => x.lt y
  | .le, x, y => x.le y
  | .gt, x, y => y.lt x
  | .ge, x, y => y.le x
  | _, _, _ => false

/-- The comparison of two evaluated operands. -/
def compareValues (op : CmpOp) (l r : Value) : Except ExprError Value :=
  match op with
  | .eq => .ok (.bool (l.pyEq r))
  | .ne => .ok (.bool (!l.pyEq r))
  | op =>
    match l.num?, r.num? with
    | some x, some y => .ok (.bool (orderCmp op x y))
    | _, _ => .error (.orderingNeedsNumbers op.text l.typeName r.typeName)

/-- `_evaluate_node`; `and` and `or` stop at the side that decides. -/
def ExprNode.eval (state : Value) : ExprNode → Except ExprError Value
  | .literal v => .ok v
  | .path segs => .ok (resolvePath segs state)
  | .not e => do
    let v ← e.eval state
    .ok (.bool !v.truthy)
  | .boolOp .and l r => do
    let v ← l.eval state
    if v.truthy then do
      let w ← r.eval state
      .ok (.bool w.truthy)
    else .ok (.bool false)
  | .boolOp .or l r => do
    let v ← l.eval state
    if v.truthy then .ok (.bool true)
    else do
      let w ← r.eval state
      .ok (.bool w.truthy)
  | .compare op l r => do
    let v ← l.eval state
    let w ← r.eval state
    compareValues op v w

def evaluateExpression (source : List Char) (state : Value) : Except ExprError Value := do
  let root ← compileExpression source
  root.eval state

/-! ## Templates -/

/-- A text cut at its templates. -/
inductive Piece where
  | lit (c : Char)
  | expr (body : List Char)
  deriving DecidableEq

/-- The shortest body before a closing brace pair, and what follows the pair. -/
def findClose : List Char → Option (List Char × List Char)
  | '}' :: '}' :: rest => some ([], rest)
  | c :: rest => (findClose rest).map fun (body, rest') => (c :: body, rest')
  | [] => none

/-- The matches of `_TEMPLATE_RE`, left to right, and the text between them. -/
def piecesFrom : Nat → List Char → List Piece
  | 0, _ => []
  | _ + 1, [] => []
  | n + 1, c :: cs =>
    match c, cs with
    | '{', '{' :: rest =>
      match findClose rest with
      | some (body, rest') => .expr body :: piecesFrom n rest'
      | none => .lit '{' :: piecesFrom n ('{' :: rest)
    | c, cs => .lit c :: piecesFrom n cs

/-- Cut a text at its templates. -/
def pieces (cs : List Char) : List Piece := piecesFrom cs.length cs

/-- The group of `_TEMPLATE_RE.fullmatch`: the whole text between the outer braces. -/
def wholeTemplate? (cs : List Char) : Option (List Char) :=
  match stripPrefix? ['{', '{'] cs with
  | some rest => (stripPrefix? ['}', '}'] rest.reverse).map List.reverse
  | none => none

/-- `_TEMPLATE_RE.sub`: every template replaced by the text of its value. -/
def interpolate (strOf : Value → String) (state : Value) :
    List Piece → Except ExprError (List Char)
  | [] => .ok []
  | .lit c :: ps => do
    let rest ← interpolate strOf state ps
    .ok (c :: rest)
  | .expr body :: ps => do
    let v ← evaluateExpression body state
    let rest ← interpolate strOf state ps
    .ok ((strOf v).toList ++ rest)

def renderText (strOf : Value → String) (state : Value) (s : String) : Except ExprError Value :=
  match wholeTemplate? (strip s.toList) with
  | some body => evaluateExpression body state
  | none => do
    let cs ← interpolate strOf state (pieces s.toList)
    .ok (.str (String.ofList cs))

mutual

def renderTemplate (strOf : Value → String) (state : Value) : Value → Except ExprError Value
  | .str s => renderText strOf state s
  | .obj kvs => do
    let kvs' ← renderEntries strOf state kvs
    .ok (.obj kvs')
  | .list xs => do
    let xs' ← renderItems strOf state xs
    .ok (.list xs')
  | v => .ok v

def renderItems (strOf : Value → String) (state : Value) :
    List Value → Except ExprError (List Value)
  | [] => .ok []
  | x :: xs => do
    let y ← renderTemplate strOf state x
    let ys ← renderItems strOf state xs
    .ok (y :: ys)

def renderEntries (strOf : Value → String) (state : Value) :
    List (String × Value) → Except ExprError (List (String × Value))
  | [] => .ok []
  | (k, x) :: kvs => do
    let y ← renderTemplate strOf state x
    let ys ← renderEntries strOf state kvs
    .ok ((k, y) :: ys)

end

def textPaths : List Piece → Except ExprError (List (List String))
  | [] => .ok []
  | .lit _ :: ps => textPaths ps
  | .expr body :: ps => do
    let root ← compileExpression body
    let rest ← textPaths ps
    .ok (root.paths ++ rest)

mutual

def extractTemplatePaths : Value → Except ExprError (List (List String))
  | .str s => textPaths (pieces s.toList)
  | .obj kvs => extractEntries kvs
  | .list xs => extractItems xs
  | _ => .ok []

def extractItems : List Value → Except ExprError (List (List String))
  | [] => .ok []
  | x :: xs => do
    let ps ← extractTemplatePaths x
    let qs ← extractItems xs
    .ok (ps ++ qs)

def extractEntries : List (String × Value) → Except ExprError (List (List String))
  | [] => .ok []
  | (_, x) :: kvs => do
    let ps ← extractTemplatePaths x
    let qs ← extractEntries kvs
    .ok (ps ++ qs)

end

end AutoDev.Flows
