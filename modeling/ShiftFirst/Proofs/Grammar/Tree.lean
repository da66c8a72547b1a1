import ShiftFirst.Proofs.Grammar.Closure
import ShiftFirst.Token

namespace ShiftFirst

mutual

/-- A derivation from a symbol by the rules of the authors. A leaf is a token that the symbol
names; a node has a derivation for each symbol of its rule's predicate. -/
inductive Tree {V : Type} (g : Grammar V) : Symbol → Type
  | leaf (token : Token) : Tree g token.name
  | node (k : Fin g.rules.length) (children : Forest g (g.rules.get k).predicate) :
      Tree g (g.rules.get k).subject

/-- Derivations from symbols in a row. -/
inductive Forest {V : Type} (g : Grammar V) : List Symbol → Type
  | nil : Forest g []
  | cons {symbol : Symbol} {symbols : List Symbol} (first : Tree g symbol)
      (rest : Forest g symbols) : Forest g (symbol :: symbols)

end

/-- What a run does to its stack. -/
inductive Move where
  | shift (token : Token)
  | reduce (rule : RuleId)
  deriving DecidableEq, Repr

variable {V : Type} {g : Grammar V}

mutual

/-- The leaves from left to right. -/
def Tree.tokens {symbol : Symbol} : Tree g symbol → List Token
  | .leaf token => [token]
  | .node _ children => children.tokens

def Forest.tokens {symbols : List Symbol} : Forest g symbols → List Token
  | .nil => []
  | .cons first rest => first.tokens ++ rest.tokens

end

mutual

/-- The number of interior nodes. -/
def Tree.nodes {symbol : Symbol} : Tree g symbol → Nat
  | .leaf _ => 0
  | .node _ children => children.nodes + 1

def Forest.nodes {symbols : List Symbol} : Forest g symbols → Nat
  | .nil => 0
  | .cons first rest => first.nodes + rest.nodes

end

def Tree.position {symbol : Symbol} (tree : Tree g symbol) : Nat :=
  (tree.tokens.head?).elim 0 Token.position

def Forest.position {symbols : List Symbol} (forest : Forest g symbols) : Nat :=
  (forest.tokens.head?).elim 0 Token.position

mutual

/-- The value from the leaves upwards, or the error of the first node, children before parents
and left before right, whose rule refuses the values of its children. -/
def Tree.value [OfToken V] {symbol : Symbol} : Tree g symbol → Except ParseError V
  | .leaf token => .ok (ofToken token)
  | .node k children => do
    let values ← children.values
    ((g.rules.get k).reduce values).mapError (.reduction (g.rules.get k).text children.position)

def Forest.values [OfToken V] {symbols : List Symbol} :
    Forest g symbols → Except ParseError (List V)
  | .nil => .ok []
  | .cons first rest => do
    let value ← first.value
    let values ← rest.values
    return value :: values

end

mutual

/-- The moves of a run that follows the tree: its leaves and nodes, children before parents and
left before right. -/
def Tree.moves {symbol : Symbol} : Tree g symbol → List Move
  | .leaf token => [.shift token]
  | .node k children => children.moves ++ [.reduce (k + 1)]

def Forest.moves {symbols : List Symbol} : Forest g symbols → List Move
  | .nil => []
  | .cons first rest => first.moves ++ rest.moves

end

mutual

/-- The rules of the nodes, children before parents and left before right. -/
def Tree.postorder {symbol : Symbol} : Tree g symbol → List RuleId
  | .leaf _ => []
  | .node k children => children.postorder ++ [k.val + 1]

def Forest.postorder {symbols : List Symbol} : Forest g symbols → List RuleId
  | .nil => []
  | .cons first rest => first.postorder ++ rest.postorder

end

theorem Grammar.reduce_authored (k : Fin g.rules.length) (values : List V) :
    g.reduce (k + 1) values = (g.rules.get k).reduce values := by
  simp [Grammar.reduce]

theorem Grammar.ruleText_authored (k : Fin g.rules.length) :
    g.ruleText (k + 1) = (g.rules.get k).text := by
  rw [Grammar.ruleText, Grammar.production_authored]

theorem Grammar.authored_predicate_ne_nil (k : Fin g.rules.length) :
    (g.rules.get k).predicate ≠ [] :=
  (Production.fault?_eq_none_iff.mp (g.faultless _ (List.getElem_mem k.isLt))).2.2

mutual

theorem Tree.tokens_ne_nil {symbol : Symbol} : (tree : Tree g symbol) → tree.tokens ≠ []
  | .leaf _ => List.cons_ne_nil _ _
  | .node k children => children.tokens_ne_nil (Grammar.authored_predicate_ne_nil k)

theorem Forest.tokens_ne_nil {symbols : List Symbol} :
    (forest : Forest g symbols) → symbols ≠ [] → forest.tokens ≠ []
  | .nil, h => absurd rfl h
  | .cons first _, _ => fun none => first.tokens_ne_nil (List.append_eq_nil_iff.mp none).1

end

mutual

/-- A leaf that is not the whole tree stands for a symbol of some rule's predicate. -/
theorem Tree.mentioned {symbol : Symbol} : (tree : Tree g symbol) →
    ∀ t ∈ tree.tokens, t.name = symbol ∨ ∃ rule ∈ g.rules, t.name ∈ rule.predicate
  | .leaf token, t, mem => by
    obtain rfl := List.mem_singleton.mp mem
    exact Or.inl rfl
  | .node k children, t, mem => by
    rcases children.mentioned t mem with here | deeper
    · exact Or.inr ⟨g.rules.get k, List.getElem_mem k.isLt, here⟩
    · exact Or.inr deeper

theorem Forest.mentioned {symbols : List Symbol} : (forest : Forest g symbols) →
    ∀ t ∈ forest.tokens, t.name ∈ symbols ∨ ∃ rule ∈ g.rules, t.name ∈ rule.predicate
  | .nil, t, mem => absurd mem List.not_mem_nil
  | .cons first rest, t, mem => by
    rcases List.mem_append.mp mem with mem | mem
    · refine (first.mentioned t mem).imp_left fun same => ?_
      rw [same]
      exact List.mem_cons_self
    · exact (rest.mentioned t mem).imp_left (List.mem_cons_of_mem _)

end

theorem Forest.position_cons {symbol : Symbol} {symbols : List Symbol} (first : Tree g symbol)
    (rest : Forest g symbols) : (Forest.cons first rest).position = first.position := by
  obtain ⟨token, tokens, he⟩ := List.exists_cons_of_ne_nil first.tokens_ne_nil
  simp [Forest.position, Tree.position, Forest.tokens, he]

end ShiftFirst
