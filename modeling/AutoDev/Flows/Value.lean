/-
# `AutoDev.Flows.Value` — the documents flows compute with

A run's input, its node outputs and its rendered bindings are JSON documents
held as Python values.  Three points of the language show in what the engine
does, and are modelled:

  * numbers: `bool`, `int` and `float` compare by value (`True == 1 == 1.0`).
    A finite float is the rational it denotes; `inf`, `-inf` and `nan` exist
    because `json` reads and writes them;
  * `==` is false on `nan`, but the members of a list or a dict are first
    compared by identity.  Every `nan` a document holds after one trip through
    `json` is the decoder's one object, so INSIDE a container it equals itself
    (`Value.eqv`) and at the top it does not (`Value.pyEq`);
  * dict equality ignores the order of the entries.
-/
import Mathlib.Data.Rat.Defs
import Mathlib.Algebra.Order.Ring.Unbundled.Rat
import AutoDev.Lib.Dict

namespace AutoDev.Flows

/-- A Python float: the rational it denotes, or one of the three others. -/
inductive PyFloat where
  | fin (q : ℚ)
  | posInf
  | negInf
  | nan
  deriving DecidableEq

/-- `<` on floats; false as soon as one side is `nan`. -/
def PyFloat.lt : PyFloat → PyFloat → Bool
  | .fin a, .fin b => decide (a < b)
  | .fin _, .posInf => true
  | .negInf, .fin _ => true
  | .negInf, .posInf => true
  | _, _ => false

def PyFloat.le (a b : PyFloat) : Bool := a.lt b || (decide (a = b) && decide (a ≠ .nan))

/-- `a + b`, without rounding. -/
def PyFloat.add : PyFloat → PyFloat → PyFloat
  | .fin a, .fin b => .fin (a + b)
  | .nan, _ | _, .nan => .nan
  | .posInf, .negInf | .negInf, .posInf => .nan
  | .posInf, _ | _, .posInf => .posInf
  | .negInf, _ | _, .negInf => .negInf

/-- Amounts that are not negative; `nan` is none of them. -/
def PyFloat.Nonneg (x : PyFloat) : Prop := (PyFloat.fin 0).le x = true

instance (x : PyFloat) : Decidable x.Nonneg := inferInstanceAs (Decidable (_ = true))

@[simp] theorem PyFloat.add_fin_zero (x : PyFloat) : x.add (.fin 0) = x := by
  cases x <;> simp [PyFloat.add]

/-- A JSON document. -/
inductive Value where
  | null
  | bool (b : Bool)
  | int (i : Int)
  | float (x : PyFloat)
  | str (s : String)
  | list (xs : List Value)
  | obj (kvs : List (String × Value))
  deriving Inhabited

/-- A JSON object. -/
abbrev Obj := Dict Value

namespace Value

/-! ## Structural equality is decidable -/

mutual

/-- Structural equality. -/
def beq : Value → Value → Bool
  | .null, .null => true
  | .bool a, .bool b => decide (a = b)
  | .int a, .int b => decide (a = b)
  | .float a, .float b => decide (a = b)
  | .str a, .str b => decide (a = b)
  | .list a, .list b => beqList a b
  | .obj a, .obj b => beqObj a b
  | _, _ => false

def beqList : List Value → List Value → Bool
  | [], [] => true
  | a :: as, b :: bs => beq a b && beqList as bs
  | _, _ => false

def beqObj : List (String × Value) → List (String × Value) → Bool
  | [], [] => true
  | (k, a) :: as, (l, b) :: bs => decide (k = l) && beq a b && beqObj as bs
  | _, _ => false

end

mutual

theorem beq_iff : ∀ {a b : Value}, beq a b = true ↔ a = b
  | .null, b | .bool _, b | .int _, b | .float _, b | .str _, b => by cases b <;> simp [beq]
  | .list as, b => by
    cases b with
    | list bs => simp only [beq, beqList_iff (x := as) (y := bs), Value.list.injEq]
    | _ => simp [beq]
  | .obj as, b => by
    cases b with
    | obj bs => simp only [beq, beqObj_iff (x := as) (y := bs), Value.obj.injEq]
    | _ => simp [beq]

theorem beqList_iff : ∀ {x y : List Value}, beqList x y = true ↔ x = y
  | [], bs => by cases bs <;> simp [beqList]
  | a :: as, bs => by
    cases bs with
    | nil => simp [beqList]
    | cons b bs =>
      simp only [beqList, Bool.and_eq_true, List.cons.injEq,
        beq_iff (a := a) (b := b), beqList_iff (x := as) (y := bs)]

theorem beqObj_iff : ∀ {x y : List (String × Value)}, beqObj x y = true ↔ x = y
  | [], bs => by cases bs <;> simp [beqObj]
  | (k, a) :: as, bs => by
    cases bs with
    | nil => simp [beqObj]
    | cons e bs =>
      obtain ⟨l, b⟩ := e
      simp only [beqObj, Bool.and_eq_true, decide_eq_true_eq, List.cons.injEq, Prod.mk.injEq,
        beq_iff (a := a) (b := b), beqObj_iff (x := as) (y := bs)]

end

instance : DecidableEq Value := fun a b => decidable_of_iff (beq a b = true) beq_iff

/-! ## Python's view of a document -/

/-- The number a value is, `bool` being a subtype of `int`. -/
def num? : Value → Option PyFloat
  | .bool b => some (.fin (if b then 1 else 0))
  | .int i => some (.fin i)
  | .float x => some x
  | _ => none

def truthy : Value → Bool
  | .null => false
  | .bool b => b
  | .int i => decide (i ≠ 0)
  | .float x => decide (x ≠ .fin 0)
  | .str s => decide (s ≠ "")
  | .list xs => !xs.isEmpty
  | .obj kvs => !kvs.isEmpty

/-- Two numbers compare by value; anything else here is unequal. -/
def numEq (a b : Value) : Bool :=
  match a.num?, b.num? with
  | some x, some y => decide (x = y)
  | _, _ => false

mutual

/-- Equality of two members of containers: identity, else `==`. -/
def eqv : Value → Value → Bool
  | .null, .null => true
  | .str a, .str b => decide (a = b)
  | .list a, .list b => eqvList a b
  | .obj a, .obj b => decide (a.length = b.length) && eqvObj a b
  | a, b => numEq a b

def eqvList : List Value → List Value → Bool
  | [], [] => true
  | a :: as, b :: bs => eqv a b && eqvList as bs
  | _, _ => false

def eqvObj : List (String × Value) → List (String × Value) → Bool
  | [], _ => true
  | (k, a) :: as, bs =>
    (match Dict.get? bs k with
     | some b => eqv a b
     | none => false) && eqvObj as bs

end

/-- `a == b`.  Identical documents are equal unless they are `nan` itself. -/
def pyEq (a b : Value) : Bool :=
  match a, b with
  | .float .nan, _ => false
  | _, .float .nan => false
  | a, b => decide (a = b) || eqv a b

def typeName : Value → String
  | .null => "NoneType"
  | .bool _ => "bool"
  | .int _ => "int"
  | .float _ => "float"
  | .str _ => "str"
  | .list _ => "list"
  | .obj _ => "dict"

def string : Option Value → String
  | some (.str s) => s
  | _ => ""

mutual

/-- The strings of a document, in order; the keys of its objects are not among them. -/
def strings : Value → List String
  | .str s => [s]
  | .list xs => stringsOfItems xs
  | .obj kvs => stringsOfEntries kvs
  | _ => []

def stringsOfItems : List Value → List String
  | [] => []
  | x :: xs => strings x ++ stringsOfItems xs

def stringsOfEntries : List (String × Value) → List String
  | [] => []
  | (_, x) :: kvs => strings x ++ stringsOfEntries kvs

end

end Value

def Obj.pyEq (a b : Obj) : Bool := Value.pyEq (.obj a) (.obj b)

/-- A document equals itself, also when it holds a `nan` (ADR-005 rests on this). -/
theorem Obj.pyEq_refl (a : Obj) : Obj.pyEq a a = true := by
  simp [Obj.pyEq, Value.pyEq]

example : Value.pyEq (.bool true) (.float (.fin 1)) = true := by decide

example : Value.pyEq (.float .nan) (.float .nan) = false ∧
    Value.pyEq (.list [.float .nan]) (.list [.float .nan]) = true := by decide

end AutoDev.Flows
