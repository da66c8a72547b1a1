import ShiftFirst.Proofs.Binary64.Numeral
import ShiftFirst.Proofs.Formula.Flat
import ShiftFirst.Proofs.Formula.Safety
import ShiftFirst.Proofs.Parser.Completeness

namespace ShiftFirst

/-- A symbol that predicates mention and that no rule is for. -/
def Grammar.IsTerminal {V : Type} (g : Grammar V) (symbol : Symbol) : Prop :=
  g.isNonterminal symbol = false ∧ ∃ rule ∈ g.rules, symbol ∈ rule.predicate

namespace Formula

variable {p : Parser Value} {tokens rest : List Token} {last : Token} {v : Value} {budget : Nat}

theorem covers_terminal {g : Grammar Value} (same : g.rules = rules) {t : Token}
    (terminal : g.isNonterminal t.name = false)
    (numeral : t.name = "number" → ∃ x, Binary64.read t.value = .ok x) : Covers t.name [t] := by
  rw [Grammar.isNonterminal, same] at terminal
  generalize named : t.name = name at *
  unfold Covers
  split
  all_goals try exact absurd terminal (by decide)
  next =>
    obtain ⟨x, spelled⟩ := numeral rfl
    exact ⟨t, x, rfl, named, spelled⟩
  next => exact ⟨t, rfl, named⟩

section Parse

variable (accepted : (Parser.ofRules rules).2 = .ok p)
include accepted

theorem Means.spans {text : List Token} (ends : last.name = endSymbol)
    (h : Means text (last :: rest) v) : Spans p "Expr" text (last :: rest) v := by
  cases h with
  | number part =>
    have mem : rule "Expr" ["SumExpr"] pass ∈ rules := by simp [rules]
    have inner := part.spans accepted (ahead_mem ends (by decide))
    exact .node accepted mem (.cons inner .nil) rfl (ahead_mem ends (by decide))
  | boolean part =>
    have mem : rule "Expr" ["OrExpr"] pass ∈ rules := by simp [rules]
    have full := part.closes fun _ => Or.inl ⟨last, rest, rfl, Or.inr ends⟩
    have inner := full.spans accepted (ahead_mem ends (by decide))
    exact .node accepted mem (.cons inner .nil) rfl (ahead_mem ends (by decide))

theorem parse_of_means (ends : last.name = endSymbol) (enough : 11 * tokens.length ≤ budget)
    (h : Means (tokens ++ last :: rest) (last :: rest) v) :
    (p.parse budget (tokens ++ last :: rest)).value = .ok v := by
  obtain ⟨same, built⟩ := Parser.ofRules_ok_iff.mp accepted
  have spans := h.spans accepted ends
  rw [← start_rules same] at spans
  obtain ⟨tree, text, value, settled⟩ := spans
  obtain rfl := List.append_cancel_right text
  have inner := Grammar.not_passesEnd (unmentioned_rules same)
  have nodes := tree.nodes_le_tokens (ranked_rules same)
  exact Parser.parse_of_settled built inner value settled ends rest (by omega)

/-- A parse that succeeds has the value of a derivation of the tokens before the end. -/
theorem tree_of_parse (terminals : ∀ t ∈ tokens, p.grammar.IsTerminal t.name)
    (ends : last.name = endSymbol)
    (h : (p.parse budget (tokens ++ last :: rest)).value = .ok v) :
    ∃ tree : Tree p.grammar p.grammar.start, tree.tokens = tokens ∧ tree.value = .ok v := by
  obtain ⟨stats, outcome⟩ := Ending.outcome_of_value h
  obtain ⟨same, tree, last', rest', text, ends', _, value, _⟩ :=
    Parser.parse_ok_derivation accepted outcome
  have unmentioned := unmentioned_rules same
  -- Both rows of tokens are what stands before the first end token.
  have inside : ∀ t ∈ tokens, decide (t.name ≠ endSymbol) = true := fun t mem => by
    obtain ⟨_, rule, hr, mentioned⟩ := terminals t mem
    exact decide_eq_true fun named => unmentioned rule hr (named ▸ mentioned)
  have inside' : ∀ t ∈ tree.tokens, decide (t.name ≠ endSymbol) = true := fun t mem => by
    refine decide_eq_true fun named => ?_
    rcases tree.mentioned t mem with start | ⟨rule, hr, mentioned⟩
    · rw [start_rules same] at start
      exact absurd (start.symm.trans named) (by decide)
    · exact unmentioned rule hr (named ▸ mentioned)
  have cut := congrArg (List.takeWhile fun t : Token => decide (t.name ≠ endSymbol)) text
  rw [List.takeWhile_append_of_pos inside, List.takeWhile_append_of_pos inside',
    List.takeWhile_cons_of_neg (by simp [ends]), List.takeWhile_cons_of_neg (by simp [ends']),
    List.append_nil, List.append_nil] at cut
  exact ⟨tree, cut.symm, value⟩

theorem derives_of_parse (terminals : ∀ t ∈ tokens, p.grammar.IsTerminal t.name)
    (ends : last.name = endSymbol)
    (h : (p.parse budget (tokens ++ last :: rest)).value = .ok v) :
    p.grammar.Derives ["Expr"] (tokens.map Token.name) := by
  obtain ⟨tree, text, _⟩ := tree_of_parse accepted terminals ends h
  have derives := tree.derives
  rwa [text, start_rules (Parser.ofRules_ok_iff.mp accepted).1] at derives

theorem exists_means_of_read (terminals : ∀ t ∈ tokens, p.grammar.IsTerminal t.name)
    (numerals : ∀ t ∈ tokens, t.name = "number" → ∃ x, Binary64.read t.value = .ok x)
    (closes : Closes rest) (h : p.grammar.Derives ["Expr"] (tokens.map Token.name)) :
    ∃ v, Means (tokens ++ rest) rest v := by
  obtain ⟨same, _⟩ := Parser.ofRules_ok_iff.mp accepted
  have passes : p.grammar.Passes Covers := by
    rw [Grammar.Passes, same]
    exact passes_rules
  -- By induction over a derivation, the tokens are a sum or operands with operators between them.
  obtain ⟨forest, rfl⟩ := h.exists_forest
  have leaves : ∀ t ∈ forest.tokens, Covers t.name [t] := fun t mem =>
    covers_terminal same (terminals t mem).1 (numerals t mem)
  rcases (forest.passes passes leaves).single with ⟨x, part⟩ | flat
  · exact ⟨.number x, .number (part rest)⟩
  · obtain ⟨b, reads⟩ := flat.reads closes
    exact ⟨.boolean b, .boolean reads.longest⟩

theorem exists_means (terminals : ∀ t ∈ tokens, p.grammar.IsTerminal t.name)
    (numerals : ∀ t ∈ tokens, t.name = "number" → Binary64.IsNumeral t.value.toList)
    (closes : Closes rest) (h : p.grammar.Derives ["Expr"] (tokens.map Token.name)) :
    ∃ v, Means (tokens ++ rest) rest v :=
  exists_means_of_read accepted terminals
    (fun t mem named => Binary64.read_of_numeral (numerals t mem named)) closes h

end Parse

/-- The parser of formulas accepts exactly the sentences of its grammar, although some of its states
leave open whether to shift, and gives them the value of their reading. -/
theorem parse_means (accepted : (Parser.ofRules rules).2 = .ok p)
    (terminals : ∀ t ∈ tokens, p.grammar.IsTerminal t.name)
    (numerals : ∀ t ∈ tokens, t.name = "number" → Binary64.IsNumeral t.value.toList)
    (ends : last.name = endSymbol) (rest : List Token) (enough : 11 * tokens.length ≤ budget) :
    ((∃ v, (p.parse budget (tokens ++ last :: rest)).value = .ok v) ↔
      p.grammar.Derives ["Expr"] (tokens.map Token.name)) ∧
    ∀ v, (p.parse budget (tokens ++ last :: rest)).value = .ok v ↔
      Means (tokens ++ last :: rest) (last :: rest) v := by
  have closes : Closes (last :: rest) := ⟨last, rest, rfl, Or.inr ends⟩
  refine ⟨⟨fun ⟨v, h⟩ => derives_of_parse accepted terminals ends h, fun h => ?_⟩,
    fun v => ⟨fun h => ?_, parse_of_means accepted ends enough⟩⟩
  · obtain ⟨v, means⟩ := exists_means accepted terminals numerals closes h
    exact ⟨v, parse_of_means accepted ends enough means⟩
  · have derives := derives_of_parse accepted terminals ends h
    obtain ⟨v', means⟩ := exists_means accepted terminals numerals closes derives
    have value := parse_of_means accepted ends enough means
    obtain rfl := Except.ok.inj (h.symm.trans value)
    exact means

/-- The tokens of `false=false or 1=1`. -/
def comparison : List Token := [
  ⟨"false", "false", 0⟩, ⟨"=", "=", 5⟩, ⟨"false", "false", 6⟩, ⟨"or", "or", 12⟩,
  ⟨"number", "1", 15⟩, ⟨"=", "=", 16⟩, ⟨"number", "1", 17⟩]

/-- What stands behind the first `=` is compared as a whole, so that the value is not the one of
`(false=false) or 1=1`. -/
theorem comparison_means : Means (comparison ++ [.finish 18]) [.finish 18] (.boolean false) := by
  let x : Binary64 := ⟨0x3ff0000000000000⟩
  have spelled : Binary64.read "1" = .ok x := by decide +kernel
  have one : ∀ position rest, Computes .sum (⟨"number", "1", position⟩ :: rest) rest x :=
    fun _ _ => .term (.factor (.base (.number rfl spelled)))
  have closes : Closes [.finish 18] := ⟨_, [], rfl, Or.inr rfl⟩
  have right : Reads Full .disjunction (comparison.drop 2 ++ [.finish 18]) [.finish 18]
      (false || x.equals x) :=
    .either (.only (.one (.plain (.falsehood rfl)))) rfl
      (.one (.plain (.equation (one 15 _) rfl (one 17 _))))
  have whole : Reads Full .boolean (comparison ++ [.finish 18]) [.finish 18]
      (false == (false || x.equals x)) :=
    .equal (.falsehood rfl) rfl right closes
  have value : (false == (false || x.equals x)) = false := by decide
  rw [← value]
  exact .boolean (Reads.only (.one whole)).longest

theorem parse_means_comparison :
    (Parser.ofRules rules).2 = .ok shared.session.parser ∧
      (∀ t ∈ comparison, shared.session.parser.grammar.IsTerminal t.name) ∧
      (∀ t ∈ comparison, t.name = "number" → Binary64.IsNumeral t.value.toList) ∧
      shared.session.parser.grammar.Derives ["Expr"] (comparison.map Token.name) ∧
      (shared.session.parser.parse 77 (comparison ++ [.finish 18])).value = .ok (.boolean false) ∧
      ¬ Means (comparison ++ [.finish 18]) [.finish 18] (.boolean true) := by
  have accepted := (new_answer {} shared_new).2
  have same := (Parser.ofRules_ok_iff.mp accepted).1
  have terminals : ∀ t ∈ comparison, shared.session.parser.grammar.IsTerminal t.name := by
    have among : ∀ t ∈ comparison, (rules.any fun r => r.subject = t.name) = false ∧
        ∃ r ∈ rules, t.name ∈ r.predicate := by
      decide
    intro t mem
    rw [Grammar.IsTerminal, Grammar.isNonterminal, same]
    exact among t mem
  have numerals : ∀ t ∈ comparison, t.name = "number" → Binary64.IsNumeral t.value.toList := by
    have spelled : ∀ t ∈ comparison, t.name = "number" → t.value = "1" := by decide
    intro t mem named
    have digits : t.value.toList = ['1'] := by
      rw [spelled t mem named]
      rfl
    rw [digits]
    refine .digits (List.cons_ne_nil _ _) fun c one => ?_
    rw [List.mem_singleton.mp one]
    rfl
  obtain ⟨derivable, meaning⟩ := parse_means accepted terminals numerals
    (rfl : (Token.finish 18).name = endSymbol) [] (show 11 * comparison.length ≤ 77 by decide)
  have value := (meaning _).mpr comparison_means
  refine ⟨accepted, terminals, numerals, derivable.mp ⟨_, value⟩, value, fun other => ?_⟩
  cases value.symm.trans ((meaning _).mpr other)

end Formula

end ShiftFirst
