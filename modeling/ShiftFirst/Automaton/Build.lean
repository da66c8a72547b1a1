import ShiftFirst.Automaton.Basic

namespace ShiftFirst

/-- What the construction of an automaton reports. -/
inductive BuildEvent where
  /-- The rules of the grammar, before anything else. -/
  | rules
  /-- The steps out of a state are looked at next. -/
  | adding (items : ItemSet)
  /-- The symbols that lead out of the state. -/
  | leads (symbols : List Symbol)
  /-- A step leads to these items. -/
  | reached (items : ItemSet)
  /-- There is a state of the items already. -/
  | known
  | finished
  | counted (states : Nat)
  /-- A state and the number of transitions out of it. -/
  | linked (items : ItemSet) (links : Nat)
  deriving DecidableEq, Repr

namespace Grammar

variable {V : Type}

def eventText (g : Grammar V) : BuildEvent → String
  | .rules => g.summary
  | .adding items => "Adding new state:\n" ++ Text.indented (g.itemsText items)
  | .leads symbols => s!"There are {symbols.length} tokens: " ++ ", ".intercalate symbols
  | .reached items =>
    "Creating state from rules:\n\t" ++ "\n\t".intercalate (items.map g.itemText)
  | .known => "... Already had state"
  | .finished => "=== summary ==="
  | .counted states => s!"Identified {states} states:"
  | .linked items links => g.itemsText items ++ s!"\n  ({links} links)"

/-- More than one complete item, which the next token cannot tell apart. -/
def conflict? (g : Grammar V) (items : ItemSet) : Option GrammarError :=
  let complete := g.completeItems items
  if 1 < complete.length then some (.reduceReduceConflict (complete.map g.itemText)) else none

/-- Adds to `known` the sets among `reached` that are new, up to the first conflict. -/
def discover (g : Grammar V) (known : List ItemSet) :
    (reached : List ItemSet) → List BuildEvent × Except GrammarError (List ItemSet)
  | [] => ([], .ok known)
  | items :: rest =>
    if items ∈ known then
      let (events, result) := g.discover known rest
      (.reached items :: .known :: events, result)
    else
      match g.conflict? items with
      | some e => ([.reached items], .error e)
      | none =>
        let (events, result) := g.discover (known ++ [items]) rest
        (.reached items :: events, result)

/-- Looks at the steps out of each set of `known` from the one numbered `next` on, until no set
is left or there is a conflict. There are no more sets than ways to choose among the items, so a
round for each choice is enough. -/
def explore (g : Grammar V) : (rounds next : Nat) → (known : List ItemSet) →
    List BuildEvent × Except GrammarError (List ItemSet)
  | 0, _, known => ([], .ok known)
  | rounds + 1, next, known =>
    match known[next]? with
    | none => ([], .ok known)
    | some items =>
      let steps := g.steps items
      let (events, result) := g.discover known (steps.map (·.2))
      let opening := [.adding items, .leads (steps.map (·.1))]
      match result with
      | .error e => (opening ++ events, .error e)
      | .ok known =>
        let (further, result) := g.explore rounds (next + 1) known
        (opening ++ events ++ further, result)

/-- The state of a set of items, among all sets. -/
def stateOf (g : Grammar V) (known : List ItemSet) (items : ItemSet) : State where
  items := items
  transitions := (g.steps items).map fun (symbol, target) => (symbol, known.idxOf target)
  reduction := g.reductionOf items

/-- The automaton of a grammar, or a conflict that it would have, with the events of its
construction. -/
def automaton (g : Grammar V) : List BuildEvent × Except GrammarError Automaton :=
  let initial := [g.closure [acceptItem], g.closure [initialItem]]
  let (events, result) := g.explore (Nat.pow 2 g.items.length) 0 initial
  match result with
  | .error e => (.rules :: events, .error e)
  | .ok known =>
    let states := known.map (g.stateOf known)
    let links := states.map fun state => BuildEvent.linked state.items state.transitions.length
    (.rules :: events ++ .finished :: .counted states.length :: links, .ok ⟨states⟩)

end Grammar

end ShiftFirst
