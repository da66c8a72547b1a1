import ShiftFirst.Grammar.Basic

namespace ShiftFirst

/-- The number of an item, in the order of the rules and of the dots within a rule. -/
abbrev ItemId := Nat

/-- A rule by the numbers of its symbols, and of its first item. -/
structure NumberedRule where
  subject : SymbolId
  predicate : List SymbolId
  first : ItemId
  deriving DecidableEq, Repr

/-- An item by numbers: its rule, its dot, the symbol behind the dot, and the item with the dot one
symbol further on. -/
structure NumberedItem where
  rule : RuleId
  dot : Nat
  next : Option SymbolId
  advance : Option ItemId
  deriving DecidableEq, Repr

/-- A grammar in which symbols, rules and items go by their numbers. -/
structure Numbering where
  symbols : SymbolTable
  rules : List NumberedRule := []
  items : List NumberedItem := []
  /-- The rules of each subject, in the order of authoring. -/
  bySubject : List (SymbolId × List RuleId) := []
  deriving DecidableEq, Repr

namespace Numbering

/-- The items of a rule, from its first one on. -/
def row (r : RuleId) (predicate : List SymbolId) (first : ItemId) : List NumberedItem :=
  (List.range (predicate.length + 1)).map fun dot =>
    let next := predicate[dot]?
    ⟨r, dot, next, next.map fun _ => first + dot + 1⟩

/-- Adds a rule under the next number, and its items behind all others. -/
def push (n : Numbering) (subject : SymbolId) (predicate : List SymbolId) : Numbering :=
  { n with
    rules := n.rules ++ [⟨subject, predicate, n.items.length⟩]
    items := n.items ++ row n.rules.length predicate n.items.length }

/-- Files a rule under its subject. -/
def file (subject : SymbolId) (r : RuleId) :
    List (SymbolId × List RuleId) → List (SymbolId × List RuleId)
  | [] => [(subject, [r])]
  | (other, rules) :: entries =>
    if other = subject then (other, rules ++ [r]) :: entries
    else (other, rules) :: file subject r entries

/-- The numbering that has only the rule that begins every grammar. -/
def begin (start : Symbol) : Numbering :=
  let (start, symbols) := SymbolTable.initial.intern start
  push { symbols := symbols } SymbolTable.startId [start, SymbolTable.endId]

/-- Adds a rule of the authors: its subject and the symbols of its predicate are given numbers, and
it is filed under its subject. -/
def add (n : Numbering) (p : Production) : Numbering :=
  let (subject, symbols) := n.symbols.intern p.subject
  let (predicate, symbols) := symbols.internAll p.predicate
  { push { n with symbols := symbols } subject predicate with
    bySubject := file subject n.rules.length n.bySubject }

/-- Adds a rule, unless it has a fault. -/
def enter (n : Numbering) (p : Production) : Except GrammarError Numbering :=
  match p.fault? with
  | some e => .error e
  | none => .ok (n.add p)

/-- The numbering of the given rules, one after another, up to the first faulty one. -/
def ofProductions : List Production → Except GrammarError Numbering
  | [] => .error .emptyGrammar
  | first :: rest => (first :: rest).foldlM enter (begin first.subject)

def ofRules {V : Type} (rules : List (Rule V)) : Except GrammarError Numbering :=
  ofProductions (rules.map Rule.toProduction)

def subject (n : Numbering) (r : RuleId) : SymbolId := (n.rules[r]?).elim 0 NumberedRule.subject

def predicate (n : Numbering) (r : RuleId) : List SymbolId :=
  (n.rules[r]?).elim [] NumberedRule.predicate

def firstItem (n : Numbering) (r : RuleId) : ItemId := (n.rules[r]?).elim 0 NumberedRule.first

/-- The item that says that a whole text has been read. -/
def acceptItem (n : Numbering) : ItemId := n.firstItem 0 + 2

/-- The rules with a subject, in the order of authoring. -/
def rulesFor (n : Numbering) (symbol : SymbolId) : List RuleId :=
  (n.bySubject.lookup symbol).getD []

def isNonterminal (n : Numbering) (symbol : SymbolId) : Bool := (n.bySubject.lookup symbol).isSome

/-- A rule with its symbols by name. -/
def production (n : Numbering) (r : RuleId) : Production :=
  ⟨n.symbols.name (n.subject r), (n.predicate r).map n.symbols.name⟩

/-- How a rule is displayed. -/
def ruleText (n : Numbering) (r : RuleId) : String := (n.production r).text

/-- How an item is displayed: as its rule, with a mark at the dot. -/
def itemText (n : Numbering) (i : NumberedItem) : String :=
  let p := n.production i.rule
  p.subject ++ " →" ++ Production.tail (p.predicate.take i.dot) ++ " ▲" ++
    Production.tail (p.predicate.drop i.dot)

end Numbering

end ShiftFirst
