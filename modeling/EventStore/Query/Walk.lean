import EventStore.Query.Expr

/-!
# Walking an expression

An expression as the calls that a reader of it hears from left to right. Where the shape of the tree
groups operators in a way that their precedence would not, the walk says so with a group of its own, so
that whoever listens by precedence alone rebuilds the same tree.
-/

namespace EventStore.Query

inductive Call
  | comparison (op : Op) (left right : Expr)
  | logical (op : Op)
  | operand (e : Expr)
  | enter
  | exit
  deriving DecidableEq, Repr

/-- Whether precedence alone would place `child` differently below `parent`. -/
def Expr.needsGroup (child : Expr) (parent : Op) (isRight : Bool) : Bool :=
  match child with
  | binary op _ _ => op.isLogical &&
      (op.precedence < parent.precedence || (isRight && op.precedence == parent.precedence))
  | _ => false

/-- `calls` between the two ends of a group, if there is to be one. -/
def Call.grouped (wanted : Bool) (calls : List Call) : List Call :=
  if wanted then .enter :: calls ++ [.exit] else calls

def Expr.calls : Expr → List Call
  | .group inner => .enter :: inner.calls ++ [.exit]
  | .binary op l r =>
    if op.isComparison then [.comparison op l r]
    else Call.grouped (l.needsGroup op false) l.calls ++
      .logical op :: Call.grouped (r.needsGroup op true) r.calls
  | .name s => [.operand (.name s)]
  | .quoted s => [.operand (.quoted s)]
  | .integer n => [.operand (.integer n)]
  | .null => [.operand .null]

def Call.text : Call → String
  | .comparison op l r => (Expr.binary op l r).text
  | .logical op => op.text
  | .operand e => s!"leaf:{e.text}"
  | .enter => "("
  | .exit => ")"

theorem Expr.calls_of_isLeaf {e : Expr} (h : e.isLeaf) : e.calls = [.operand e] := by
  cases e <;> first | rfl | simp [isLeaf] at h

end EventStore.Query
