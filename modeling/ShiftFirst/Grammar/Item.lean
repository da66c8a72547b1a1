import ShiftFirst.Grammar.Basic

namespace ShiftFirst

/-- A rule with a dot in front of one of the symbols of its predicate, or behind them all. -/
structure Item where
  rule : RuleId
  dot : Nat
  deriving DecidableEq, Repr

/-- The item with the dot one symbol further on. -/
def Item.advance (i : Item) : Item := ⟨i.rule, i.dot + 1⟩

/-- Items in the order of their numbers. -/
abbrev ItemSet := List Item

namespace Grammar

variable {V : Type}

/-- The items of a rule, from the first one on. -/
def itemsOf (g : Grammar V) (r : RuleId) : List Item :=
  (List.range ((g.production r).predicate.length + 1)).map (Item.mk r)

/-- All items, rule by rule. -/
def items (g : Grammar V) : ItemSet := (List.range g.ruleCount).flatMap g.itemsOf

/-- The number of the first item of a rule: that of the items of the rules before. -/
def firstItem (g : Grammar V) : RuleId → Nat
  | 0 => 0
  | r + 1 => g.firstItem r + (g.production r).predicate.length + 1

/-- The number of an item in the list of all items. -/
def itemId (g : Grammar V) (i : Item) : Nat := g.firstItem i.rule + i.dot

/-- The symbol behind the dot. -/
def next? (g : Grammar V) (i : Item) : Option Symbol := (g.production i.rule).predicate[i.dot]?

/-- Whether the dot is behind all symbols. -/
def isComplete (g : Grammar V) (i : Item) : Bool := (g.next? i).isNone

def initialItem : Item := ⟨0, 0⟩

/-- The item that says that a whole text has been read. -/
def acceptItem : Item := ⟨0, 2⟩

/-- How an item is displayed: as its rule, with a mark at the dot. -/
def itemText (g : Grammar V) (i : Item) : String :=
  let p := g.production i.rule
  p.subject ++ " →" ++ Production.tail (p.predicate.take i.dot) ++ " ▲" ++
    Production.tail (p.predicate.drop i.dot)

/-- A grammar by the numbers of its symbols, rules and items. -/
def record (g : Grammar V) : String :=
  s!"Grammar \x7b symbols: {g.symbols.size}, rules: {g.ruleCount}, items: {g.items.length} \x7d"

/-- The rules among `pending` that some symbol of `wanted` leads to, directly or through the
first symbol of another such rule. Each round but the last takes a rule from `pending`, so as many
rounds as there are rules are enough. -/
def rulesLedTo (g : Grammar V) : (rounds : Nat) → (pending : List RuleId) →
    (wanted : List Symbol) → List RuleId
  | 0, _, _ => []
  | rounds + 1, pending, wanted =>
    let hits := pending.filter fun r => (g.production r).subject ∈ wanted
    let others := pending.filter fun r => (g.production r).subject ∉ wanted
    if hits = [] then []
    else hits ++
      g.rulesLedTo rounds others (hits.filterMap fun r => (g.production r).predicate.head?)

/-- The rules whose first items stand beside items that have the symbols `wanted` behind the dot. -/
def expansion (g : Grammar V) (wanted : List Symbol) : List RuleId :=
  g.rulesLedTo g.rules.length (List.range' 1 g.rules.length) wanted

/-- The items of `seeds` and, for each nonterminal behind the dot of an item, the first items of
its rules. -/
def closure (g : Grammar V) (seeds : List Item) : ItemSet :=
  let rules := g.expansion (seeds.filterMap g.next?)
  g.items.filter fun i => i ∈ seeds ∨ i.dot = 0 ∧ i.rule ∈ rules

end Grammar

end ShiftFirst
