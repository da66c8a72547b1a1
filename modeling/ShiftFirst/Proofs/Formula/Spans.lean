import ShiftFirst.Proofs.Automaton.Drive
import ShiftFirst.Proofs.Formula.Reading
import ShiftFirst.Proofs.Grammar.Induction
import ShiftFirst.Proofs.Parser.Stack

namespace ShiftFirst.Formula

/-- What can stand behind a part of a level, where a run is to leave the part as it is. -/
def Level.after : Level → List Symbol
  | .value => [")", endSymbol, "or", "and", "=", "+", "-", "*", "/", "^"]
  | .power => [")", endSymbol, "or", "and", "=", "+", "-", "*", "/", "^"]
  | .product => [")", endSymbol, "or", "and", "=", "+", "-", "*", "/"]
  | .sum => [")", endSymbol, "or", "and", "=", "+", "-"]

def Clause.after : Clause → List Symbol
  | .primary => [")", endSymbol, "or", "and", "="]
  | .boolean => [")", endSymbol, "or", "and"]
  | .conjunction => [")", endSymbol, "or", "and"]
  | .disjunction => [")", endSymbol, "or"]

def Level.symbol : Level → Symbol
  | .value => "Value"
  | .power => "PowExpr"
  | .product => "MultExpr"
  | .sum => "SumExpr"

def Clause.symbol : Clause → Symbol
  | .primary => "BoolValue"
  | .boolean => "BoolValue"
  | .conjunction => "AndExpr"
  | .disjunction => "OrExpr"

/-- The symbols that no state shifts which reduces by the production. -/
def settling (production : Production) : List Symbol :=
  match production.subject with
  | "Expr" => [endSymbol]
  | "OrExpr" => Clause.disjunction.after
  | "AndExpr" => Clause.conjunction.after
  | "BoolValue" =>
    match production.predicate with
    | ["not", _] => Clause.boolean.after
    | ["BoolValue", _, _] => [")", endSymbol]
    | _ => Clause.primary.after
  | "SumExpr" => Level.sum.after
  | "MultExpr" => Level.product.after
  | _ => Level.value.after

/-- Whether the symbols that settle the production of each reduction do so. -/
def settlesAll (p : Parser Value) : Bool :=
  p.automaton.states.all fun s => s.reduction.all fun r =>
    (settling (p.grammar.production r)).all fun symbol => (s.transitions.lookup symbol).isNone

set_option maxRecDepth 100000 in
theorem settlesAll_rules : (Parser.ofRules rules).2.toOption.all settlesAll := by decide +kernel

section Span

variable {p : Parser Value} (accepted : (Parser.ofRules rules).2 = .ok p)
  {text text' rest : List Token}

include accepted in
theorem settles {r : RuleId} {symbol : Symbol}
    (mem : symbol ∈ settling (p.grammar.production r)) : p.automaton.Settles r symbol := by
  have check := settlesAll_rules
  rw [accepted] at check
  intro q complete
  cases hq : p.automaton.states[q]? with
  | none =>
    rw [Automaton.state, hq] at complete
    cases complete
  | some s =>
    rw [Automaton.state, hq] at complete
    have here := List.all_eq_true.mp check s (List.mem_of_getElem? hq)
    rw [show s.reduction = some r from complete] at here
    have none := List.all_eq_true.mp here symbol mem
    rw [Automaton.transition?, Automaton.state, hq]
    exact Option.isNone_iff_eq_none.mp none

/-- The name of the first token of a text. Behind a text stands its end. -/
def ahead (text : List Token) : Symbol := (text.head?).elim endSymbol Token.name

theorem ahead_mem {t : Token} {name : Symbol} {names : List Symbol} (named : t.name = name)
    (mem : name ∈ names) : ahead (t :: rest) ∈ names := by
  rw [← named] at mem
  exact mem

/-- A settled derivation from the symbol has the tokens of the first text before the second one,
and the value. -/
def Spans (p : Parser Value) (symbol : Symbol) (text rest : List Token) (v : Value) : Prop :=
  ∃ tree : Tree p.grammar symbol, text = tree.tokens ++ rest ∧ tree.value = .ok v ∧
    tree.Settled p.automaton (ahead rest)

inductive SpansAll (p : Parser Value) :
    List Symbol → List Token → List Token → List Value → Prop
  | nil {rest : List Token} : SpansAll p [] rest rest []
  | cons {symbol : Symbol} {symbols : List Symbol} {text text' rest : List Token} {v : Value}
      {vs : List Value} (first : Spans p symbol text text' v)
      (others : SpansAll p symbols text' rest vs) :
      SpansAll p (symbol :: symbols) text rest (v :: vs)

theorem SpansAll.exists_forest {symbols : List Symbol} {values : List Value}
    (h : SpansAll p symbols text rest values) :
    ∃ forest : Forest p.grammar symbols, text = forest.tokens ++ rest ∧
      forest.values = .ok values ∧ forest.Settled p.automaton (ahead rest) := by
  induction h with
  | nil => exact ⟨.nil, rfl, rfl, trivial⟩
  | @cons symbol symbols text text' rest v vs first _ ih =>
    obtain ⟨tree, rfl, hv, waits⟩ := first
    obtain ⟨forest, rfl, hvs, more⟩ := ih
    have front : ahead (forest.tokens ++ rest) = forest.front (ahead rest) := by
      unfold ahead Forest.front
      cases forest.tokens <;> rfl
    refine ⟨.cons tree forest, by simp [Forest.tokens], ?_, front ▸ waits, more⟩
    exact Forest.values_cons_ok_iff.mpr ⟨v, vs, hv, hvs, rfl⟩

theorem Spans.leaf {t : Token} {name : Symbol} (named : t.name = name) :
    Spans p name (t :: rest) rest (.text t.value) := by
  subst named
  exact ⟨.leaf t, rfl, rfl, trivial⟩

include accepted in
theorem Spans.node {r : Rule Value} (mem : r ∈ rules) {values : List Value} {v : Value}
    (parts : SpansAll p r.predicate text rest values) (made : r.reduce values = .ok v)
    (next : ahead rest ∈ settling r.toProduction) : Spans p r.subject text rest v := by
  have same := (Parser.ofRules_ok_iff.mp accepted).1
  rw [← same] at mem
  obtain ⟨k, hk, rfl⟩ := List.mem_iff_getElem.mp mem
  obtain ⟨children, rfl, hv, waits⟩ := parts.exists_forest
  refine ⟨.node ⟨k, hk⟩ children, rfl, Tree.value_node_ok_iff.mpr ⟨values, hv, made⟩, waits, ?_⟩
  refine settles accepted ?_
  rw [Grammar.production_authored ⟨k, hk⟩]
  exact next

theorem Operator.rule_mem {level operand : Level} {name : Symbol}
    {op : Binary64 → Binary64 → Binary64} (h : Operator level name operand op) :
    rule level.symbol [level.symbol, name, operand.symbol] (arithmetic op) ∈ rules := by
  cases h <;> simp [rules, Level.symbol]

theorem Operator.name_mem {level operand : Level} {name : Symbol}
    {op : Binary64 → Binary64 → Binary64} (h : Operator level name operand op) :
    name ∈ level.after := by
  cases h <;> decide

theorem Operator.after_subset {level operand : Level} {name : Symbol}
    {op : Binary64 → Binary64 → Binary64} (h : Operator level name operand op) :
    level.after ⊆ operand.after := by
  cases h <;> decide

theorem Level.settling_symbol (level : Level) (predicate : List Symbol) :
    settling ⟨level.symbol, predicate⟩ = level.after := by
  cases level <;> rfl

include accepted in
theorem Computes.spans {level : Level} {x : Binary64} (h : Computes level text rest x)
    (next : ahead rest ∈ level.after) : Spans p level.symbol text rest (.number x) := by
  induction h with
  | @number t rest x named spelled =>
    have mem : rule "Value" ["number"] numeral ∈ rules := by simp [rules]
    refine .node accepted mem (.cons (.leaf named) .nil) ?_ next
    simp [rule, numeral, spelled, Except.mapError]
  | negative named _ ih =>
    have mem : rule "Value" ["-", "Value"] negate ∈ rules := by simp [rules]
    exact .node accepted mem (.cons (.leaf named) (.cons (ih next) .nil)) rfl next
  | enclosed opening _ closing ih =>
    have mem : rule "Value" ["(", "SumExpr", ")"] parenthesized ∈ rules := by simp [rules]
    have inner := ih (ahead_mem closing (by decide))
    refine .node accepted mem (.cons (.leaf opening) (.cons inner (.cons (.leaf closing) .nil)))
      rfl next
  | base _ ih =>
    have mem : rule "PowExpr" ["Value"] pass ∈ rules := by simp [rules]
    exact .node accepted mem (.cons (ih next) .nil) rfl next
  | factor _ ih =>
    have mem : rule "MultExpr" ["PowExpr"] pass ∈ rules := by simp [rules]
    have sub : Level.product.after ⊆ Level.power.after := by decide
    exact .node accepted mem (.cons (ih (sub next)) .nil) rfl next
  | term _ ih =>
    have mem : rule "SumExpr" ["MultExpr"] pass ∈ rules := by simp [rules]
    have sub : Level.sum.after ⊆ Level.product.after := by decide
    exact .node accepted mem (.cons (ih (sub next)) .nil) rfl next
  | @chain level operand op t text text' rest x y _ operator _ ihl ihr =>
    have first := ihl operator.name_mem
    have last := ihr (operator.after_subset next)
    refine .node accepted operator.rule_mem
      (.cons first (.cons (.leaf rfl) (.cons last .nil))) rfl ?_
    exact level.settling_symbol _ ▸ next

theorem ahead_of_closes (h : Closes rest) : ahead rest ∈ [")", endSymbol] := by
  obtain ⟨t, _, rfl, closing⟩ := h
  simpa [ahead] using closing

include accepted in
theorem Reads.spans {clause : Clause} {b : Bool}
    (h : Reads Full clause text rest b) (next : ahead rest ∈ clause.after) :
    Spans p clause.symbol text rest (.boolean b) := by
  induction h with
  | truth named =>
    have mem : rule "BoolValue" ["true"] (constant true) ∈ rules := by simp [rules]
    exact .node accepted mem (.cons (.leaf named) .nil) rfl next
  | falsehood named =>
    have mem : rule "BoolValue" ["false"] (constant false) ∈ rules := by simp [rules]
    exact .node accepted mem (.cons (.leaf named) .nil) rfl next
  | enclosed opening _ closing ih =>
    have mem : rule "BoolValue" ["(", "OrExpr", ")"] parenthesized ∈ rules := by simp [rules]
    have inner := ih (ahead_mem closing (by decide))
    exact .node accepted mem (.cons (.leaf opening) (.cons inner (.cons (.leaf closing) .nil)))
      rfl next
  | equation left named right =>
    have mem : rule "BoolValue" ["SumExpr", "=", "SumExpr"] equals ∈ rules := by simp [rules]
    have sub : Clause.primary.after ⊆ Level.sum.after := by decide
    have first := left.spans accepted (ahead_mem named (by decide))
    have last := right.spans accepted (sub next)
    exact .node accepted mem (.cons first (.cons (.leaf named) (.cons last .nil))) rfl next
  | negation named _ ih =>
    have mem : rule "BoolValue" ["not", "BoolValue"] not ∈ rules := by simp [rules]
    exact .node accepted mem (.cons (.leaf named) (.cons (ih next) .nil)) rfl next
  | plain _ ih =>
    have sub : Clause.boolean.after ⊆ Clause.primary.after := by decide
    exact ih (sub next)
  | equal _ named _ closes ihl ihr =>
    have mem : rule "BoolValue" ["BoolValue", "=", "OrExpr"] equals ∈ rules := by simp [rules]
    have sub : [")", endSymbol] ⊆ Clause.disjunction.after := by decide
    have behind := ahead_of_closes closes
    have first := ihl (ahead_mem named (by decide))
    exact .node accepted mem (.cons first (.cons (.leaf named) (.cons (ihr (sub behind)) .nil)))
      rfl behind
  | one _ ih =>
    have mem : rule "AndExpr" ["BoolValue"] pass ∈ rules := by simp [rules]
    exact .node accepted mem (.cons (ih next) .nil) rfl next
  | both _ named _ ihl ihr =>
    have mem : rule "AndExpr" ["AndExpr", "and", "BoolValue"] (logical and) ∈ rules := by
      simp [rules]
    have first := ihl (ahead_mem named (by decide))
    exact .node accepted mem (.cons first (.cons (.leaf named) (.cons (ihr next) .nil))) rfl next
  | only _ ih =>
    have mem : rule "OrExpr" ["AndExpr"] pass ∈ rules := by simp [rules]
    have sub : Clause.disjunction.after ⊆ Clause.conjunction.after := by decide
    exact .node accepted mem (.cons (ih (sub next)) .nil) rfl next
  | either _ named _ ihl ihr =>
    have mem : rule "OrExpr" ["OrExpr", "or", "AndExpr"] (logical or) ∈ rules := by simp [rules]
    have sub : Clause.disjunction.after ⊆ Clause.conjunction.after := by decide
    have first := ihl (ahead_mem named (by decide))
    exact .node accepted mem (.cons first (.cons (.leaf named) (.cons (ihr (sub next)) .nil)))
      rfl next

end Span

end ShiftFirst.Formula
