import ShiftFirst.Proofs.Formula.Meaning
import ShiftFirst.Proofs.Formula.Stands
import ShiftFirst.Proofs.Lexer.Acceptance
import ShiftFirst.Proofs.Parser.Relocate

namespace ShiftFirst.Formula

variable {audience : Audience} {f : Formula} {log : Log.Filter} {source : String}
  {keys : List (Symbol × String)} {pieces : List Token} {v : Value}

theorem terminal_of_solid {g : Grammar Value} (same : g.rules = rules) {text rest : List Char}
    {position : Nat} (cut : scanner.Pieces position text pieces rest) :
    ∀ t ∈ solid pieces, g.IsTerminal t.name := by
  have names : ∀ d ∈ scanner.definitions, d.name ≠ whitespace →
      (rules.any fun r => r.subject = d.name) = false ∧ ∃ r ∈ rules, d.name ∈ r.predicate := by
    decide
  intro t mem
  obtain ⟨mem, counts⟩ := List.mem_filter.mp mem
  obtain ⟨d, hd, named⟩ := cut.named t mem
  rw [Grammar.IsTerminal, Grammar.isNonterminal, same, named]
  exact names d hd (named ▸ of_decide_eq_true counts)

/-- Where a derivation has a value, its numerals spell numbers. -/
theorem spelled_of_tree {g : Grammar Value} (same : g.rules = rules) {tree : Tree g g.start}
    (value : tree.value = .ok v) :
    ∀ t ∈ tree.tokens, t.name = "number" → ∃ x, Binary64.read t.value = .ok x := by
  have root : Readable g.start v := by
    rw [start_rules same]
    exact fun named => absurd named (by decide)
  intro t mem named
  obtain ⟨s, x, text, spelled⟩ := tree.vouched (vouches_rules same) value root t mem named
  cases text
  exact ⟨x, spelled⟩

theorem length_solid_le (cut : scanner.Pieces 0 source.toList pieces []) :
    (solid pieces).length ≤ (scanner.tokens source).length := by
  have fewer := List.length_filter_le (fun t : Token => t.name ≠ whitespace) pieces
  rw [cut.tokens, List.length_append, List.length_map, solid]
  omega

theorem mem_solid (cut : scanner.Pieces 0 source.toList pieces []) {t : Token}
    (mem : .ok t ∈ scanner.tokens source) (named : t.name = "number") : t ∈ solid pieces := by
  rw [cut.tokens] at mem
  rcases List.mem_append.mp mem with mem | mem
  · obtain ⟨t', mem, same⟩ := List.mem_map.mp mem
    cases same
    refine List.mem_filter.mpr ⟨mem, decide_eq_true ?_⟩
    rw [named]
    decide
  · cases List.mem_singleton.mp mem
    exact absurd named (by decide : endSymbol ≠ "number")

section Evaluator

variable (made : (new audience).answer = .ok f)
include made

theorem lexer_eq_scanner : f.lexer = scanner :=
  Except.ok.inj ((new_answer audience made).1.symm.trans ofDefinitions_definitions)

theorem enough_budget (stream : List (Except LexError Token)) :
    11 * stream.length ≤ f.budget stream := by
  have same := (Parser.ofRules_ok_iff.mp (new_answer audience made).2).1
  rw [budget, same]
  exact Nat.mul_le_mul_right _ (by decide)

/-- Where a text is cut into pieces up to its end, the formula has the value that the parser gives
the pieces that count, or its error. -/
theorem eval_of_pieces (cut : scanner.Pieces 0 source.toList pieces []) (log : Log.Filter) :
    ∃ (budget : Nat) (result : Except ParseError (Value × Stats)),
      11 * (scanner.tokens source).length ≤ budget ∧
      (f.session.parser.run [whitespace] budget (scanner.tokens source)).outcome =
        result.mapError .parse ∧
      (f.session.parser.parse budget (solid pieces ++ [.finish source.length])).outcome =
        result.mapError .parse ∧
      (f.eval log source).answer = (result.map Prod.fst).mapError .parse := by
  have stream : scanner.tokens source = (pieces ++ [Token.finish source.length]).map .ok := by
    rw [cut.tokens, List.map_append]
    rfl
  have skipped : Parser.unskipped [whitespace] (pieces ++ [.finish source.length]) =
      solid pieces ++ [.finish source.length] := by
    rw [Parser.unskipped, List.filter_append]
    exact congrArg (· ++ _) (List.filter_congr fun t _ => by simp)
  obtain ⟨_, built⟩ := Parser.ofRules_ok_iff.mp (new_answer audience made).2
  obtain ⟨result, run, parse⟩ := Parser.run_skip (ε := LexError) built [whitespace]
    (f.budget (scanner.tokens source)) (pieces ++ [.finish source.length])
  rw [← stream] at run
  rw [skipped] at parse
  refine ⟨_, result, enough_budget made _, run, parse, ?_⟩
  rw [answer_eval, lexer_eq_scanner made, Ending.value, run]
  cases result <;> rfl

theorem eval_of_stands (scans : Scans source.toList keys []) (stands : Stands keys v)
    (log : Log.Filter) : (f.eval log source).answer = .ok v := by
  obtain ⟨_, accepted⟩ := new_answer audience made
  obtain ⟨pieces, cut, rfl⟩ := scans 0
  obtain ⟨budget, result, enough, _, parse, answer⟩ := eval_of_pieces made cut log
  have fewer := length_solid_le cut
  have means := (means_iff_stands (closes_finish source.length)).mpr stands
  have enough' : 11 * (solid pieces).length ≤ budget := by omega
  have value := parse_of_means accepted rfl enough' means
  rw [Ending.value, parse] at value
  cases result with
  | error e => cases value
  | ok result =>
    obtain ⟨v', stats⟩ := result
    cases value
    exact answer

/-- An error among the tokens is never passed over: a run would have to end before it. -/
theorem eval_ne_ok_of_stuck {e : LexError}
    (stuck : scanner.tokens source = pieces.map .ok ++ [.error e]) (log : Log.Filter) (v : Value) :
    (f.eval log source).answer ≠ .ok v := by
  intro h
  obtain ⟨_, built⟩ := Parser.ofRules_ok_iff.mp (new_answer audience made).2
  obtain ⟨stats, outcome⟩ := run_of_eval_ok h
  rw [lexer_eq_scanner made] at outcome
  obtain ⟨before, last, read, ends⟩ := Parser.run_ok_read built outcome
  obtain ⟨_, _, rest, stream, _⟩ := Parser.run_ok built outcome
  rw [read] at stream
  rcases (Lexer.beginning_cases stream).2.2 with ⟨d, mem, named⟩ | ⟨rfl, _⟩
  · have others : ∀ d ∈ scanner.definitions, d.name ≠ endSymbol := by decide
    exact others d mem (named.symm.trans ends)
  · rw [stuck, List.append_nil, List.map_append] at stream
    cases (List.append_inj' stream rfl).2

theorem stands_of_parse (cut : scanner.Pieces 0 source.toList pieces []) {budget : Nat}
    (enough : 11 * (scanner.tokens source).length ≤ budget)
    (value : (f.session.parser.parse budget
      (solid pieces ++ [.finish source.length])).value = .ok v) :
    Stands ((solid pieces).map key) v := by
  obtain ⟨_, accepted⟩ := new_answer audience made
  obtain ⟨same, _⟩ := Parser.ofRules_ok_iff.mp accepted
  have terminals := terminal_of_solid same cut
  obtain ⟨tree, tokens, treeValue⟩ := tree_of_parse accepted terminals rfl value
  have numerals := spelled_of_tree same treeValue
  have derives := tree.derives
  rw [tokens] at numerals derives
  rw [start_rules same] at derives
  obtain ⟨v', means⟩ := exists_means_of_read accepted terminals numerals
    (closes_finish source.length) derives
  have fewer := length_solid_le cut
  have same := value.symm.trans (parse_of_means accepted rfl (by omega) means)
  obtain rfl := Except.ok.inj same
  exact (means_iff_stands (closes_finish _)).mp means

/-- What a formula with a value is cut into has the same value wherever it stands. -/
theorem stands_of_eval (h : (f.eval log source).answer = .ok v) :
    ∃ keys, Scans source.toList keys [] ∧ Stands keys v := by
  obtain ⟨pieces, cut | ⟨e, stuck⟩⟩ := scanner.pieces_tokens source
  · obtain ⟨budget, result, enough, _, parse, answer⟩ := eval_of_pieces made cut log
    rw [answer] at h
    refine ⟨_, .of_pieces cut, stands_of_parse made cut enough ?_⟩
    rw [Ending.value, parse]
    cases result with
    | error e => cases h
    | ok result =>
      cases h
      rfl
  · exact absurd h (eval_ne_ok_of_stuck made stuck log v)

/-- Where a text is cut into tokens whose numerals spell numbers, a token out of place is all that
can keep it from having a value. -/
theorem eval_unexpected (scans : Scans source.toList keys []) (spelled : ∀ k ∈ keys, Spelled k)
    (none : ∀ v, ¬ Stands keys v) (log : Log.Filter) :
    ∃ name value position expected, (f.eval log source).answer =
      .error (.parse (.unexpectedToken name value position expected)) := by
  obtain ⟨_, accepted⟩ := new_answer audience made
  obtain ⟨pieces, cut, rfl⟩ := scans 0
  obtain ⟨budget, result, enough, run, parse, answer⟩ := eval_of_pieces made cut log
  cases result with
  | ok result =>
    refine absurd (stands_of_parse made cut enough ?_) (none result.1)
    rw [Ending.value, parse]
    rfl
  | error e =>
    have leaves : ∀ t, .ok t ∈ scanner.tokens source → Typed t.name (ofToken t : Value) :=
      fun t mem => typed_of_mem_tokens ofDefinitions_definitions mem
    have ended : ∀ token, (.ok (.finish source.length) : Except LexError Token) = .ok token →
        token.name = endSymbol := by
      rintro _ ⟨⟩
      rfl
    rcases failure_of_run accepted leaves enough cut.tokens ended run with
      ⟨_, other⟩ | ⟨name, value, position, expected, same⟩ | ⟨t, _, mem, named, refused, _⟩
    · cases other
    · cases same
      exact ⟨name, value, position, expected, answer⟩
    · obtain ⟨x, read⟩ := spelled (key t) (List.mem_map_of_mem (mem_solid cut mem named)) named
      cases refused.symm.trans read

end Evaluator

end ShiftFirst.Formula
