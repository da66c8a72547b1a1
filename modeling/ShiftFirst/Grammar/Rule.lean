import ShiftFirst.Failure

namespace ShiftFirst

/-- A subject and the symbols it can stand for. -/
structure Production where
  subject : Symbol
  predicate : List Symbol
  deriving DecidableEq, Repr, Inhabited

namespace Production

/-- The symbols, each behind a blank. -/
def tail (symbols : List Symbol) : String := String.join (symbols.map (" " ++ ·))

/-- How a production is displayed. -/
def text (p : Production) : String := p.subject ++ " →" ++ tail p.predicate

/-- A production with its fields by name, which leaves out the reduction of the rule. -/
def record (p : Production) : String :=
  "GrammarRule \x7b subject: " ++ Text.quoted p.subject ++ ", predicate: [" ++
    ", ".intercalate (p.predicate.map Text.quoted) ++ "], .. \x7d"

/-- What keeps a production out of a grammar: its subject is one of the two names that belong to
every grammar, or it stands for no symbols. -/
def fault? (p : Production) : Option GrammarError :=
  if p.subject = startSymbol ∨ p.subject = endSymbol then
    some (.reservedSymbol p.text p.subject)
  else if p.predicate = [] then some (.emptyProduction p.text)
  else none

end Production

/-- A production together with the value that it makes of the values of its predicate. -/
structure Rule (V : Type) extends Production where
  reduce : List V → Except ReduceError V

end ShiftFirst
