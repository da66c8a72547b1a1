import ShiftFirst.Grammar.Rule

namespace ShiftFirst

/-- Rules that can be compiled: there is a first one, whose subject is the start symbol, and none
has a fault. -/
structure Grammar (V : Type) where
  rules : List (Rule V)
  rules_ne_nil : rules ≠ []
  faultless : ∀ rule ∈ rules, rule.fault? = none

/-- The number of a rule: zero for the one that begins every grammar, then the order of
authoring. -/
abbrev RuleId := Nat

namespace Grammar

variable {V : Type}

/-- The grammar of the given rules, or what is wrong with the first faulty one. -/
def ofRules (rules : List (Rule V)) : Except GrammarError (Grammar V) :=
  if nonempty : rules = [] then .error .emptyGrammar
  else
    match faults : rules.findSome? fun rule => rule.fault? with
    | some e => .error e
    | none => .ok ⟨rules, nonempty, List.findSome?_eq_none_iff.mp faults⟩

/-- The symbol that a whole text stands for. -/
def start (g : Grammar V) : Symbol := (g.rules.head g.rules_ne_nil).subject

/-- The production that begins every grammar: the start symbol up to the end of the text. -/
def augmented (g : Grammar V) : Production := ⟨startSymbol, [g.start, endSymbol]⟩

def ruleCount (g : Grammar V) : Nat := g.rules.length + 1

def production (g : Grammar V) : RuleId → Production
  | 0 => g.augmented
  | r + 1 => (g.rules[r]?).elim default Rule.toProduction

def productions (g : Grammar V) : List Production :=
  g.augmented :: g.rules.map Rule.toProduction

def ruleText (g : Grammar V) (r : RuleId) : String := (g.production r).text

/-- The names that the grammar mentions, in the order of their first mention. -/
def symbols (g : Grammar V) : SymbolTable :=
  SymbolTable.initial.mention
    (g.start :: g.rules.flatMap fun rule => rule.subject :: rule.predicate)

def isNonterminal (g : Grammar V) (symbol : Symbol) : Bool :=
  g.rules.any (·.subject = symbol)

/-- The rules with a subject, in the order of authoring. -/
def rulesFor (g : Grammar V) (symbol : Symbol) : List RuleId :=
  (List.range' 1 g.rules.length).filter fun r => (g.production r).subject = symbol

/-- The value that a rule makes of the values of its predicate. The rule that begins every
grammar passes on the value of the start symbol. -/
def reduce (g : Grammar V) (r : RuleId) (values : List V) : Except ReduceError V :=
  match r with
  | 0 => (values.head?).elim (.error .noValue) .ok
  | r + 1 => (g.rules[r]?).elim (.error .noValue) (·.reduce values)

/-- The value that a rule makes, and the budget that is left. Each rule of the authors takes one
unit of the budget. -/
def reduceWithin (g : Grammar V) (budget : Nat) (r : RuleId) (values : List V) :
    Except ReduceError V × Nat :=
  match r, budget with
  | 0, _ => (g.reduce 0 values, budget)
  | _ + 1, 0 => (.error .outOfFuel, 0)
  | r + 1, budget + 1 => (g.reduce (r + 1) values, budget)

/-- The nonterminals in the order of their first rules, each with the predicates it has. -/
def summary (g : Grammar V) : String :=
  let subjects := (g.rules.map (·.subject)).eraseDups
  "\n".intercalate <| subjects.map fun subject =>
    "Rules for " ++ subject ++ ":" ++ String.join ((g.rulesFor subject).map fun r =>
      "\n\t" ++ " ".intercalate (g.production r).predicate)

end Grammar

end ShiftFirst
