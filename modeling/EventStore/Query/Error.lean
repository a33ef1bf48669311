import EventStore.Query.Expr

/-!
# Why a query is refused

Each cause is a constructor; the wording is in `message`.
-/

namespace EventStore.Query

/-- What the parser could have gone on with. -/
inductive Wanted
  | operand
  | closing
  deriving DecidableEq, Repr

def Wanted.text : Wanted → String
  | .operand => "Satisfy"
  | .closing => "Char"

inductive SyntaxProblem
  | emptyQuery
  | endOfQuery
  | unexpectedChar (found : Char) (wanted : Wanted)
  | unexpectedRest (rest : String)
  /-- Described by whoever reports it. -/
  | other (text : String)
  deriving DecidableEq, Repr

def SyntaxProblem.message : SyntaxProblem → String
  | .emptyQuery => "empty query"
  | .endOfQuery => "unexpected end of query"
  | .unexpectedChar c w => s!"unexpected '{c}' ({w.text})"
  | .unexpectedRest s => s!"unexpected input '{s}'"
  | .other s => s

inductive CompileProblem
  | adjacentConditions
  | noLeftCondition (op : Op)
  | missingOperand (op : Op)
  | cannotCombine (op : Op)
  | emptyExpression
  | leftoverConditions (count : Nat)
  | openGroups (count : Nat)
  | notAField (op : Op) (found : Expr)
  | notAValue (op : Op) (found : Expr)
  | notAComparison (op : Op)
  | notABoolean (op : Op)
  | bareOperand (found : Expr)
  | groupNotOpened
  /-- Described by whoever reports it. -/
  | other (text : String)
  deriving DecidableEq, Repr

def CompileProblem.message : CompileProblem → String
  | .adjacentConditions => "two conditions without an operator between them"
  | .noLeftCondition op => s!"'{op.text}' has no left-hand condition"
  | .missingOperand op => s!"'{op.text}' is missing an operand"
  | .cannotCombine op => s!"'{op.text}' cannot combine conditions"
  | .emptyExpression => "empty expression"
  | .leftoverConditions n => s!"{n} conditions left without operators"
  | .openGroups n => s!"{n} group(s) left open"
  | .notAField op e => s!"left side of '{op.text}' must be a field, found {e.text}"
  | .notAValue op e => s!"right side of '{op.text}' must be a value, found {e.text}"
  | .notAComparison op => s!"'{op.text}' is not a comparison"
  | .notABoolean op => s!"'{op.text}' is not a boolean operator"
  | .bareOperand e =>
    s!"'{e.text}' is not a condition; expected a comparison such as {e.text}=\"value\""
  | .groupNotOpened => "group closed without being opened"
  | .other s => s

inductive QueryError
  /-- `position` counts bytes. -/
  | malformed (position : Nat) (problem : SyntaxProblem)
  | uncompilable (problem : CompileProblem)
  | badTimeRange (reason : String)
  deriving DecidableEq, Repr

def QueryError.message : QueryError → String
  | .malformed p problem => s!"Syntax error at position {p}: {problem.message}"
  | .uncompilable problem => s!"Compile error: {problem.message}"
  | .badTimeRange reason => s!"Invalid time range: {reason}"

end EventStore.Query
