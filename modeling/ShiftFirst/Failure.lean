import ShiftFirst.Pattern.Reader
import ShiftFirst.Symbol
import ShiftFirst.Text.Quoted

namespace ShiftFirst

open Text (quoted quotedChar)

/-- No definition of the lexer matches at a character. -/
structure LexError where
  position : Nat
  found : Char
  input : String
  deriving DecidableEq, Repr

def LexError.message (e : LexError) : String :=
  s!"syntax error at character {e.position} of " ++ quoted e.input ++ ": unexpected " ++
    quotedChar e.found

/-- The pattern of a token definition cannot be read. -/
structure DefinitionError where
  name : Symbol
  cause : PatternError
  deriving DecidableEq, Repr

def DefinitionError.message (e : DefinitionError) : String :=
  "invalid pattern for token " ++ quoted e.name

/-- Why rules make no parser. Rules and items are given as they are displayed. -/
inductive GrammarError where
  /-- Two rules or more are complete in one state. -/
  | reduceReduceConflict (items : List String)
  | emptyGrammar
  | emptyProduction (rule : String)
  | reservedSymbol (rule : String) (symbol : Symbol)
  deriving DecidableEq, Repr

def GrammarError.message : GrammarError → String
  | reduceReduceConflict items =>
    "multiple reductions possible for state:\n\t" ++ "\n\t".intercalate items
  | emptyGrammar => "grammar has no rules"
  | emptyProduction rule => "empty production is not supported: " ++ rule
  | reservedSymbol rule symbol => "rule " ++ rule ++ " uses reserved symbol " ++ quoted symbol

/-- Why the values of a rule's predicate make no value of its subject. -/
inductive ReduceError where
  /-- The start rule was given no value to pass on. -/
  | noValue
  /-- The run has used up its budget of reductions. -/
  | outOfFuel
  /-- The rule itself refuses the values. -/
  | refused (message : String)
  deriving DecidableEq, Repr

def ReduceError.message : ReduceError → String
  | noValue => "start rule reduced without a value"
  | outOfFuel => "out of fuel"
  | refused message => message

/-- Why tokens make no value. -/
inductive ParseError where
  | unexpectedToken (name : Symbol) (value : String) (position : Nat) (expected : List Symbol)
  | unexpectedEnd (expected : List Symbol)
  /-- A rule, as it is displayed, refuses the values from `position` on. -/
  | reduction (rule : String) (position : Nat) (source : ReduceError)
  | missingGoto (state : Nat) (symbol : Symbol)
  | emptyStack
  deriving DecidableEq, Repr

namespace ParseError

def message : ParseError → String
  | unexpectedToken name value position expected =>
    "unexpected " ++ name ++ " " ++ quoted value ++ s!" at character {position}, " ++
      "expected one of: " ++ ", ".intercalate expected
  | unexpectedEnd expected =>
    "unexpected end of input, expected one of: " ++ ", ".intercalate expected
  | reduction rule position source =>
    "cannot reduce " ++ rule ++ s!" at character {position}: " ++ source.message
  | missingGoto state symbol => s!"state {state} has no transition on " ++ symbol
  | emptyStack => "parser stack underflow"

/-- The message of the error behind this one. -/
def cause? : ParseError → Option String
  | reduction _ _ source => some source.message
  | _ => none

end ParseError

/-- Why a run over a stream of tokens gives no value: the stream fails, or the parse does. -/
inductive Failure (ε : Type) where
  | input (e : ε)
  | parse (e : ParseError)
  deriving DecidableEq, Repr

namespace Failure

def message : Failure LexError → String
  | input e => e.message
  | parse e => e.message

def cause? : Failure LexError → Option String
  | input _ => none
  | parse e => e.cause?

end Failure

end ShiftFirst
