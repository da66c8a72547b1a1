import ShiftFirst.Automaton.Build
import ShiftFirst.Token

namespace ShiftFirst

/-- A grammar with its automaton. -/
structure Parser (V : Type) where
  grammar : Grammar V
  automaton : Automaton

/-- What a run reports. -/
inductive ParseEvent where
  | begun
  | lookahead (token : Token)
  | current (state : StateId)
  | shifting (target : StateId)
  | reducing (rule : RuleId)
  /-- The state that a reduction uncovers. -/
  | back (state : StateId)
  | accepted
  deriving DecidableEq, Repr

/-- What a run counts: the tokens it has seen, those it has shifted, and the reductions by rules
of the authors. -/
structure Stats where
  tokens : Nat := 0
  shifts : Nat := 0
  reductions : Nat := 0
  deriving DecidableEq, Repr

namespace Parser

variable {V : Type}

/-- The parser of the given rules, with the events of its construction. -/
def ofRules (rules : List (Rule V)) : List BuildEvent × Except GrammarError (Parser V) :=
  match Grammar.ofRules rules with
  | .error e => ([], .error e)
  | .ok g => (g.automaton.1, g.automaton.2.map (Parser.mk g))

def stateText (p : Parser V) (q : StateId) : String := p.automaton.stateText p.grammar q

def eventText (p : Parser V) : ParseEvent → String
  | .begun => "=== parsing ==="
  | .lookahead token =>
    "Lookahead: " ++ token.name ++ " " ++ Text.quoted token.value ++ s!" at {token.position}"
  | .current q => "Current state:\n" ++ Text.indented (p.stateText q)
  | .shifting q => "Shifting forward to state:\n" ++ Text.indented (p.stateText q)
  | .reducing r => "Reducing using rule " ++ p.grammar.ruleText r
  | .back q => "Reducing back to state:\n" ++ Text.indented (p.stateText q)
  | .accepted => "Accepted"

/-- The terminals that can be shifted in a state. -/
def expected (p : Parser V) (q : StateId) : List Symbol :=
  ((p.automaton.state q).transitions.map (·.1)).filter fun symbol =>
    !p.grammar.isNonterminal symbol

end Parser

end ShiftFirst
