import EventStore.Query.Criteria
import EventStore.Query.Parser
import EventStore.Query.Walk

/-!
# Compiling an expression

A compiler hears the calls of a walk one by one. It keeps a frame of waiting conditions and operators
for every group that is open, and combines conditions as soon as no tighter operator can follow.
-/

namespace EventStore.Query

-- ---- one group -----------------------------------------------------------

/-- Waiting conditions and operators, the latest first. -/
structure Frame where
  operands : List Criteria
  operators : List Op
  deriving DecidableEq, Repr

namespace Frame

def empty : Frame := ⟨[], []⟩

def pushOperand (f : Frame) (c : Criteria) : Frame × Option CompileProblem :=
  if f.operands.length = f.operators.length then ({ f with operands := c :: f.operands }, none)
  else (f, some .adjacentConditions)

/-- Joins the two latest conditions. -/
def combine (op : Op) : List Criteria → Except CompileProblem (List Criteria)
  | b :: a :: rest =>
    match op with
    | .and => .ok (.and a b :: rest)
    | .or => .ok (.or a b :: rest)
    | _ => .error (.cannotCombine op)
  | _ => .error (.missingOperand op)

/-- Applies operators while the latest binds at least as tightly as `strength`. -/
def reduceWhile (strength : Nat) : List Op → List Criteria → Except CompileProblem Frame
  | [], operands => .ok ⟨operands, []⟩
  | op :: ops, operands =>
    if op.precedence < strength then .ok ⟨operands, op :: ops⟩
    else
      match combine op operands with
      | .ok operands' => reduceWhile strength ops operands'
      | .error p => .error p

def pushOperator (f : Frame) (op : Op) : Frame × Option CompileProblem :=
  if f.operands.length = f.operators.length + 1 then
    match reduceWhile op.precedence f.operators f.operands with
    | .ok g => ({ g with operators := op :: g.operators }, none)
    | .error p => (f, some p)
  else (f, some (.noLeftCondition op))

/-- The one condition that a complete group amounts to. -/
def finish (f : Frame) : Except CompileProblem Criteria :=
  match reduceWhile 0 f.operators f.operands with
  | .error p => .error p
  | .ok g =>
    match g.operands with
    | [c] => .ok c
    | [] => .error .emptyExpression
    | cs => .error (.leftoverConditions cs.length)

end Frame

-- ---- all open groups -----------------------------------------------------

/-- The frame in use and, outwards, those it is nested in. -/
structure Compiler where
  current : Frame
  outer : List Frame
  deriving DecidableEq, Repr

namespace Compiler

def fresh : Compiler := ⟨.empty, []⟩

/-- Groups entered and not exited. -/
def depth (k : Compiler) : Nat := k.outer.length

def onCurrent (k : Compiler) (f : Frame → Frame × Option CompileProblem) :
    Compiler × Option CompileProblem :=
  let (g, p) := f k.current
  ({ k with current := g }, p)

def comparison (op : Op) (left right : Expr) : Except CompileProblem Criteria :=
  match left.operandText?, right.operandText? with
  | none, _ => .error (.notAField op left)
  | some _, none => .error (.notAValue op right)
  | some field, some value =>
    match op with
    | .equal => .ok (.equals (.ofProperty field value))
    | .notEqual => .ok (.notEquals (.ofProperty field value))
    | _ => .error (.notAComparison op)

/-- The compiler after one call, and what was wrong with the call. A group that is closed while
incomplete is gone all the same. -/
def hear (k : Compiler) : Call → Compiler × Option CompileProblem
  | .comparison op l r =>
    match comparison op l r with
    | .ok c => k.onCurrent (·.pushOperand c)
    | .error p => (k, some p)
  | .logical op => if op.isLogical then k.onCurrent (·.pushOperator op) else (k, some (.notABoolean op))
  | .operand e => (k, some (.bareOperand e))
  | .enter => (⟨.empty, k.current :: k.outer⟩, none)
  | .exit =>
    match k.outer with
    | [] => (k, some .groupNotOpened)
    | f :: fs =>
      match k.current.finish with
      | .ok c => onCurrent ⟨f, fs⟩ (·.pushOperand c)
      | .error p => (⟨f, fs⟩, some p)

def hearAll (k : Compiler) : List Call → Except CompileProblem Compiler
  | [] => .ok k
  | c :: cs =>
    match k.hear c with
    | (k', none) => k'.hearAll cs
    | (_, some p) => .error p

def finish (k : Compiler) : Except CompileProblem Criteria :=
  if k.outer.isEmpty then k.current.finish else .error (.openGroups k.depth)

end Compiler

def Expr.compile (e : Expr) : Except CompileProblem Criteria :=
  match Compiler.fresh.hearAll e.calls with
  | .ok k => k.finish
  | .error p => .error p

/-- The criteria of a query text; a blank text asks for everything. -/
def compile (query : String) : Except QueryError Criteria :=
  if query.toList.all Text.isBlank then .ok .all
  else
    match parse query with
    | .error e => .error e
    | .ok e =>
      match e.compile with
      | .ok c => .ok c
      | .error p => .error (.uncompilable p)

theorem Compiler.depth_fresh : fresh.depth = 0 := rfl

theorem Compiler.hearAll_append (k : Compiler) (a b : List Call) :
    k.hearAll (a ++ b) = (k.hearAll a).bind (·.hearAll b) := by
  induction a generalizing k with
  | nil => rfl
  | cons c cs ih =>
    simp only [List.cons_append, hearAll]
    split
    · exact ih _
    · rfl

end EventStore.Query
