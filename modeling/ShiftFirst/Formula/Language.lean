import ShiftFirst.Formula.Value
import ShiftFirst.Grammar.Rule

namespace ShiftFirst.Formula

/-- The name of the tokens that formulas may have anywhere. -/
def whitespace : Symbol := "whitespace"

/-- The tokens of formulas and their patterns. -/
def definitions : List (Symbol × String) := [
  ("number", "(?:\\d+\\.?\\d*|\\.\\d+)"),
  (whitespace, "\\s+"),
  ("and", "and"),
  ("or", "or"),
  ("not", "not"),
  ("true", "true"),
  ("false", "false"),
  ("=", "="),
  ("+", "\\+"),
  ("*", "\\*"),
  ("-", "-"),
  ("/", "\\/"),
  ("^", "\\^"),
  ("(", "\\("),
  (")", "\\)")]

/-- The result of an operation on the values of a predicate. -/
abbrev Operation := List Value → Except OperandError Value

/-- The value of a predicate of one symbol. -/
def pass : Operation
  | [v] => .ok v
  | vs => .error (.count 1 vs.length)

/-- The value between two parentheses. -/
def parenthesized : Operation
  | [_, v, _] => .ok v
  | vs => .error (.count 3 vs.length)

/-- An operation on the numbers on both sides of an operator. -/
def arithmetic (op : Binary64 → Binary64 → Binary64) : Operation
  | [left, _, right] => do return .number (op (← left.asNumber) (← right.asNumber))
  | vs => .error (.count 3 vs.length)

/-- An operation on the booleans on both sides of an operator. -/
def logical (op : Bool → Bool → Bool) : Operation
  | [left, _, right] => do return .boolean (op (← left.asBoolean) (← right.asBoolean))
  | vs => .error (.count 3 vs.length)

def equals : Operation
  | [left, _, right] => .ok (.boolean (left.equals right))
  | vs => .error (.count 3 vs.length)

def negate : Operation
  | [_, v] => do return .number (← v.asNumber).neg
  | vs => .error (.count 2 vs.length)

def not : Operation
  | [_, v] => do return .boolean !(← v.asBoolean)
  | vs => .error (.count 2 vs.length)

/-- The number that the text of a token spells. -/
def numeral : Operation
  | [.text s] =>
    match Binary64.read s with
    | .ok x => .ok (.number x)
    | .error e => .error (.badNumeral s e)
  | [v] => .error (.notText v)
  | vs => .error (.count 1 vs.length)

/-- A truth value, whatever the token. -/
def constant (b : Bool) : Operation := fun _ => .ok (.boolean b)

def rule (subject : Symbol) (predicate : List Symbol) (operation : Operation) : Rule Value :=
  ⟨⟨subject, predicate⟩, fun values => (operation values).mapError OperandError.refusal⟩

/-- The grammar of formulas. What binds tighter is nested deeper, and every operator between two
operands groups to the left. -/
def rules : List (Rule Value) := [
  rule "Expr" ["OrExpr"] pass,
  rule "Expr" ["SumExpr"] pass,
  rule "OrExpr" ["OrExpr", "or", "AndExpr"] (logical or),
  rule "OrExpr" ["AndExpr"] pass,
  rule "AndExpr" ["AndExpr", "and", "BoolValue"] (logical and),
  rule "AndExpr" ["BoolValue"] pass,
  rule "BoolValue" ["SumExpr", "=", "SumExpr"] equals,
  rule "BoolValue" ["BoolValue", "=", "OrExpr"] equals,
  rule "BoolValue" ["true"] (constant true),
  rule "BoolValue" ["false"] (constant false),
  rule "BoolValue" ["not", "BoolValue"] not,
  rule "BoolValue" ["(", "OrExpr", ")"] parenthesized,
  rule "SumExpr" ["SumExpr", "+", "MultExpr"] (arithmetic .add),
  rule "SumExpr" ["SumExpr", "-", "MultExpr"] (arithmetic .sub),
  rule "SumExpr" ["MultExpr"] pass,
  rule "MultExpr" ["MultExpr", "*", "Value"] (arithmetic .mul),
  rule "MultExpr" ["MultExpr", "/", "Value"] (arithmetic .div),
  rule "MultExpr" ["PowExpr"] pass,
  rule "PowExpr" ["PowExpr", "^", "Value"] (arithmetic .pow),
  rule "PowExpr" ["Value"] pass,
  rule "Value" ["number"] numeral,
  rule "Value" ["-", "Value"] negate,
  rule "Value" ["(", "SumExpr", ")"] parenthesized]

end ShiftFirst.Formula
