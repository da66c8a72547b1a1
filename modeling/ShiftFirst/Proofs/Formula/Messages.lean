import ShiftFirst.Proofs.Binary64.Text
import ShiftFirst.Proofs.Formula.Evaluation
import ShiftFirst.Proofs.Parser.Viable
import ShiftFirst.Proofs.Parser.Yield
import ShiftFirst.Proofs.Text.Visible

namespace ShiftFirst

open Text

theorem LexError.visible_message (e : LexError) : Visible e.message := by
  unfold message
  simp only [visible_append]
  refine ⟨⟨⟨⟨⟨?_, visible_toString _⟩, ?_⟩, visible_quoted _⟩, ?_⟩, visible_quotedChar _⟩
  all_goals exact visible_of_ascii (by decide)

theorem OperandError.visible_badNumeral (text : String) (cause : Binary64.NumeralError) :
    Visible (badNumeral text cause).message := by
  have seen : Visible cause.message := by
    cases cause <;> exact visible_of_ascii (by decide)
  unfold message
  simp only [visible_append]
  refine ⟨⟨⟨?_, visible_quoted _⟩, ?_⟩, seen⟩
  all_goals exact visible_of_ascii (by decide)

namespace ParseError

theorem visible_unexpectedToken {name : Symbol} (named : Visible name) (value : String)
    (position : Nat) {expected : List Symbol} (names : ∀ symbol ∈ expected, Visible symbol) :
    Visible (unexpectedToken name value position expected).message := by
  have listed : Visible (", ".intercalate expected) :=
    visible_intercalate (visible_of_ascii (by decide)) names
  unfold message
  simp only [visible_append]
  refine ⟨⟨⟨⟨⟨⟨?_, named⟩, ?_⟩, visible_quoted _⟩, ⟨?_, visible_toString _⟩, ?_⟩, ?_⟩, listed⟩
  all_goals exact visible_of_ascii (by decide)

theorem visible_reduction {rule : String} (named : Visible rule) (position : Nat)
    {source : ReduceError} (seen : Visible source.message) :
    Visible (reduction rule position source).message := by
  unfold message
  simp only [visible_append]
  refine ⟨⟨⟨?_, named⟩, ⟨?_, visible_toString _⟩, ?_⟩, seen⟩
  all_goals exact visible_of_ascii (by decide)

end ParseError

theorem Binary64.IsNumeral.visible {text : List Char} (h : IsNumeral text) :
    Visible (String.ofList text) := by
  have digit : ∀ c : Char, c.isDigit → isHidden c = false := by
    intro c digit
    obtain ⟨low, high⟩ := Char.isDigit_iff_toNat.mp digit
    exact isHidden_of_ascii (le_trans (by decide) low) (le_trans high (by decide))
  intro c mem
  rw [String.toList_ofList] at mem
  cases h with
  | digits _ all => exact digit c (all c mem)
  | point _ all =>
    rcases List.mem_append.mp mem with mem | mem
    · exact digit c (all c (List.mem_append_left _ mem))
    · rcases List.mem_cons.mp mem with rfl | mem
      · exact isHidden_of_ascii (by decide) (by decide)
      · exact digit c (all c (List.mem_append_right _ mem))

theorem Binary64.visible_text (x : Binary64) : Visible x.text := by
  obtain ⟨numeral, _⟩ := x.shortest.readDecimal?_text
  have finite := numeral.visible
  unfold text
  split
  next => exact visible_of_ascii (by decide)
  next =>
    dsimp only
    rw [String.ofList_append, visible_append]
    constructor
    · split <;> exact visible_of_ascii (by decide)
    · split
      next => exact visible_of_ascii (by decide)
      next => exact finite

theorem Value.visible_display {v : Value} (shown : (∃ x, v = number x) ∨ ∃ b, v = boolean b) :
    Visible v.display := by
  rcases shown with ⟨x, rfl⟩ | ⟨b, rfl⟩
  · exact x.visible_text
  · cases b <;> exact visible_of_ascii (by decide)

namespace Formula

theorem visible_name : ∀ name ∈ endSymbol :: definitions.map Prod.fst, Visible name := by
  have ascii : ∀ name ∈ endSymbol :: definitions.map Prod.fst, isAscii name := by decide
  exact fun name mem => visible_of_ascii (ascii name mem)

theorem visible_token {lexer : Lexer} (lexed : Lexer.ofDefinitions definitions = .ok lexer)
    {source : String} {t : Token} (mem : .ok t ∈ lexer.tokens source) : Visible t.name := by
  refine visible_name _ ?_
  rcases Lexer.name_of_mem_tokens mem with ⟨d, hd, named⟩ | named
  · rw [named, ← Lexer.ofDefinitions_names lexed]
    exact List.mem_cons_of_mem _ (List.mem_map_of_mem hd)
  · exact named ▸ List.mem_cons_self

theorem visible_symbol {g : Grammar Value} (same : g.rules = rules) {production : Production}
    (mem : production ∈ g.productions) {symbol : Symbol} (inside : symbol ∈ production.predicate) :
    Visible symbol := by
  have ascii : ∀ rule ∈ rules, ∀ symbol ∈ rule.predicate, isAscii symbol := by decide
  refine visible_of_ascii ?_
  rcases List.mem_cons.mp mem with rfl | mem
  · rcases List.mem_pair.mp inside with rfl | rfl
    · rw [start_rules same]
      decide
    · decide
  · obtain ⟨rule, hr, rfl⟩ := List.mem_map.mp mem
    exact ascii rule (same ▸ hr) symbol inside

theorem visible_numeralRule : Visible "Value → number" := by
  have arrow : isHidden '→' = false := by decide +kernel
  have same : "Value → number" = "Value " ++ String.ofList ['→'] ++ " number" := by decide
  rw [same, visible_append, visible_append]
  refine ⟨⟨visible_of_ascii (by decide), fun c mem => ?_⟩, visible_of_ascii (by decide)⟩
  rw [String.toList_ofList] at mem
  exact List.mem_singleton.mp mem ▸ arrow

section Evaluator

variable {audience : Audience} {f : Formula} (made : (new audience).answer = .ok f)
  {log : Log.Filter} {source : String}
include made

/-- No value is displayed with a hidden character. -/
theorem visible_value {v : Value} (h : (f.eval log source).answer = .ok v) : Visible v.display := by
  obtain ⟨lexed, accepted⟩ := new_answer audience made
  obtain ⟨stats, run⟩ := run_of_eval_ok h
  have leaves : ∀ t, .ok t ∈ f.lexer.tokens source → Typed t.name (ofToken t : Value) :=
    fun t mem => typed_of_mem_tokens lexed mem
  exact Value.visible_display (typed_of_run_ok accepted leaves run)

/-- No message about a formula has a hidden character, whatever the text of the formula has. -/
theorem visible_error {e : FormulaError} (h : (f.eval log source).answer = .error e) :
    Visible e.message := by
  obtain ⟨lexed, accepted⟩ := new_answer audience made
  obtain ⟨same, built⟩ := Parser.ofRules_ok_iff.mp accepted
  obtain ⟨failure, run, rfl⟩ := run_of_eval_error h
  have leaves : ∀ t, .ok t ∈ f.lexer.tokens source → Typed t.name (ofToken t : Value) :=
    fun t mem => typed_of_mem_tokens lexed mem
  obtain ⟨items, final, cut, ended⟩ := f.lexer.tokens_ended source
  rcases failure_of_run accepted leaves (enough_budget made _) cut ended run with
    ⟨stuck, rfl⟩ | ⟨name, value, position, expected, rfl⟩ | ⟨t, cause, _, _, _, rfl⟩
  · exact stuck.visible_message
  -- The token is named by the lexer, and those expected in its place by the rules.
  · have mem := Parser.mem_of_mem_kept (Parser.run_unexpected_mem built run)
    have inner := Grammar.not_passesEnd (unmentioned_rules same)
    obtain ⟨looked, _, _, _, rfl, _⟩ := Parser.run_unexpected built inner run rfl
    refine ParseError.visible_unexpectedToken (visible_token lexed mem) value position ?_
    intro symbol expects
    obtain ⟨_, production, known, inside⟩ := Parser.terminal_of_expected built expects
    exact visible_symbol same known inside
  · exact ParseError.visible_reduction visible_numeralRule _ (OperandError.visible_badNumeral _ _)

end Evaluator

end Formula

end ShiftFirst
