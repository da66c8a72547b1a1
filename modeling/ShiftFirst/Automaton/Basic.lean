import ShiftFirst.Grammar.Item

namespace ShiftFirst

/-- The number of a state, in the order of discovery. -/
abbrev StateId := Nat

/-- A set of items that a run can be in the middle of. -/
structure State where
  items : ItemSet
  /-- The states behind each symbol, in the order of discovery. -/
  transitions : List (Symbol × StateId)
  /-- The rule to reduce by when the next token cannot be shifted. -/
  reduction : Option RuleId
  deriving DecidableEq, Repr, Inhabited

/-- The states of a grammar. The first two are the state that accepts and the one that every run
starts in. -/
structure Automaton where
  states : List State
  deriving DecidableEq, Repr

namespace Automaton

def accept : StateId := 0

def start : StateId := 1

def state (a : Automaton) (q : StateId) : State := a.states[q]?.getD default

def size (a : Automaton) : Nat := a.states.length

def transition? (a : Automaton) (q : StateId) (symbol : Symbol) : Option StateId :=
  (a.state q).transitions.lookup symbol

end Automaton

namespace Grammar

variable {V : Type}

def completeItems (g : Grammar V) (items : ItemSet) : List Item := items.filter g.isComplete

/-- The rule of the complete item of a set. -/
def reductionOf (g : Grammar V) (items : ItemSet) : Option RuleId :=
  (g.completeItems items).head?.map Item.rule

/-- The symbols behind the dots of a set, in the order of their first items, each with the items
that a step over the symbol leads to. -/
def steps (g : Grammar V) (items : ItemSet) : List (Symbol × ItemSet) :=
  (items.filterMap g.next?).eraseDups.map fun symbol =>
    (symbol, g.closure ((items.filter fun i => g.next? i = some symbol).map Item.advance))

/-- How a set of items is displayed: the rule it can be reduced by, then the items. -/
def itemsText (g : Grammar V) (items : ItemSet) : String :=
  let reduction := (g.reductionOf items).elim "" fun r => "REDUCE " ++ g.ruleText r ++ "\n"
  reduction ++ "\n".intercalate (items.map g.itemText)

end Grammar

/-- How a state is displayed. -/
def Automaton.stateText {V : Type} (a : Automaton) (g : Grammar V) (q : StateId) : String :=
  g.itemsText (a.state q).items

end ShiftFirst
