/-!
# Query expressions

What a query says, before it is lowered to criteria: comparisons of a field with a value, joined by
`and` and `or`, with explicit groups. The same tree can hold shapes that no query text produces, such
as an `or` below an `and` without a group between them.
-/

namespace EventStore.Query

inductive Op
  | equal
  | notEqual
  | and
  | or
  deriving DecidableEq, Repr, Inhabited

/-- Binding strength; the higher binds tighter. -/
def Op.precedence : Op → Nat
  | .or => 1
  | .and => 2
  | .notEqual => 3
  | .equal => 4

def Op.isComparison : Op → Bool
  | .equal | .notEqual => true
  | .and | .or => false

def Op.isLogical (op : Op) : Bool := !op.isComparison

def Op.text : Op → String
  | .equal => "="
  | .notEqual => "!="
  | .and => "and"
  | .or => "or"

inductive Expr
  | name (text : String)
  | quoted (text : String)
  | integer (value : Int)
  | null
  | group (inner : Expr)
  | binary (op : Op) (left right : Expr)
  deriving DecidableEq, Repr, Inhabited

namespace Expr

def isLeaf : Expr → Bool
  | name _ | quoted _ | integer _ | null => true
  | group _ | binary .. => false

def op? : Expr → Option Op
  | binary op _ _ => some op
  | _ => none

/-- What a leaf contributes to a comparison; `null` is the empty text. -/
def operandText? : Expr → Option String
  | name s | quoted s => some s
  | integer n => some (toString n)
  | null => some ""
  | group _ | binary .. => none

/-- Levels of the tree; a leaf has one. -/
def depth : Expr → Nat
  | group inner => 1 + inner.depth
  | binary _ l r => 1 + max l.depth r.depth
  | _ => 1

/-- The query text of an expression. Comparisons are written without spaces around the operator. -/
def chars : Expr → List Char
  | name s => s.toList
  | quoted s => '"' :: s.toList ++ ['"']
  | integer n => (toString n).toList
  | null => ['n', 'u', 'l', 'l']
  | group inner => '(' :: inner.chars ++ [')']
  | binary op l r =>
    if op.isComparison then l.chars ++ op.text.toList ++ r.chars
    else l.chars ++ ' ' :: op.text.toList ++ ' ' :: r.chars

def text (e : Expr) : String := String.ofList e.chars

end Expr

theorem Op.isLogical_eq_true_iff {op : Op} : op.isLogical = true ↔ op = .and ∨ op = .or := by
  cases op <;> simp [isLogical, isComparison]

theorem Expr.isLeaf_iff_operandText? {e : Expr} : e.isLeaf = e.operandText?.isSome := by
  cases e <;> rfl

end EventStore.Query
