import ShiftFirst.Formula.Basic
import ShiftFirst.Proofs.Formula.Rules
import ShiftFirst.Proofs.Lexer.Lossless
import ShiftFirst.Proofs.Parser.Goto
import ShiftFirst.Proofs.Parser.Refusal

namespace ShiftFirst

theorem Session.answer_new {V : Type} (rules : List (Rule V)) (audience : Audience) :
    (Session.new rules audience).answer =
      (Parser.ofRules rules).2.map fun p => ⟨p, audience.trace⟩ := by
  unfold Session.new Session.build Parser.ofRules
  cases Grammar.ofRules rules with
  | error e => rfl
  | ok g =>
    dsimp only
    cases g.automaton.2 <;> rfl

theorem Observed.answer_map {α β : Type} {o : Observed α} {a : α} (h : o.answer = a) (f : α → β) :
    (o.map f).answer = f a := congrArg f h

namespace Formula

theorem new_answer (audience : Audience) {f : Formula} (h : (new audience).answer = .ok f) :
    Lexer.ofDefinitions definitions = .ok f.lexer ∧
      (Parser.ofRules rules).2 = .ok f.session.parser := by
  unfold new at h
  split at h
  next => cases h
  next lexer hl =>
    have answered := (Observed.answer_map (Session.answer_new rules audience) _).symm.trans h
    cases hp : (Parser.ofRules rules).2 with
    | error e =>
      rw [hp] at answered
      cases answered
    | ok p =>
      rw [hp] at answered
      cases answered
      exact ⟨hl, rfl⟩

theorem trace_of_new {audience : Audience} {f : Formula} (h : (new audience).answer = .ok f) :
    f.session.trace = audience.trace := by
  obtain ⟨lexed, parsed⟩ := new_answer audience h
  have session : (Session.new rules audience).answer =
      .ok ⟨f.session.parser, audience.trace⟩ := by
    rw [Session.answer_new, parsed]
    rfl
  unfold new at h
  rw [lexed] at h
  have made := (Observed.answer_map session _).symm.trans h
  exact (congrArg (fun f => f.session.trace) (Except.ok.inj made)).symm

theorem answer_eval (f : Formula) (log : Log.Filter) (source : String) :
    (f.eval log source).answer =
      (f.session.parser.run [whitespace] (f.budget (f.lexer.tokens source))
        (f.lexer.tokens source)).value.mapError .ofFailure := by
  unfold eval
  dsimp only
  rw [Session.run]
  dsimp only
  cases Ending.value (f.session.parser.run [whitespace] (f.budget (f.lexer.tokens source))
    (f.lexer.tokens source)) <;> rfl

theorem run_of_eval_ok {f : Formula} {log : Log.Filter} {source : String} {v : Value}
    (h : (f.eval log source).answer = .ok v) :
    ∃ stats, (f.session.parser.run [whitespace] (f.budget (f.lexer.tokens source))
      (f.lexer.tokens source)).outcome = .ok (v, stats) := by
  rw [answer_eval, Ending.value] at h
  cases run : (f.session.parser.run [whitespace] (f.budget (f.lexer.tokens source))
    (f.lexer.tokens source)).outcome with
  | ok result =>
    rw [run] at h
    cases h
    exact ⟨result.2, rfl⟩
  | error failure =>
    rw [run] at h
    cases h

theorem run_of_eval_error {f : Formula} {log : Log.Filter} {source : String} {e : FormulaError}
    (h : (f.eval log source).answer = .error e) :
    ∃ failure, (f.session.parser.run [whitespace] (f.budget (f.lexer.tokens source))
      (f.lexer.tokens source)).outcome = .error failure ∧ e = .ofFailure failure := by
  rw [answer_eval, Ending.value] at h
  cases run : (f.session.parser.run [whitespace] (f.budget (f.lexer.tokens source))
    (f.lexer.tokens source)).outcome with
  | ok result =>
    rw [run] at h
    cases h
  | error failure =>
    rw [run] at h
    cases h
    exact ⟨failure, rfl, rfl⟩

theorem answer_cell (f : Formula) (log : Log.Filter) (source : String) :
    (f.cell log source).answer =
      if isBlank source then .empty
      else
        match (f.eval log source).answer with
        | .ok value => .value value
        | .error e => .invalid ("=" ++ source) e.message := by
  unfold cell
  split
  next => rfl
  next =>
    dsimp only
    cases (f.eval log source).answer <;> rfl

theorem shared_new : (new {}).answer = .ok shared := by
  have found : ∀ {ε α : Type} {result : Except ε α} (h : result.toOption.isSome),
      result = .ok (result.toOption.get h) := by
    intro ε α result h
    cases result with
    | error e => exact absurd h Bool.false_ne_true
    | ok a => rfl
  exact found new_isSome

theorem kinds_of_token {lexer : Lexer} (h : Lexer.ofDefinitions definitions = .ok lexer)
    {source : String} {t : Token} (mem : .ok t ∈ lexer.tokens source) :
    kinds t.name = ["text"] := by
  have names : ∀ name ∈ definitions.map Prod.fst, kinds name = ["text"] := by decide
  rcases Lexer.name_of_mem_tokens mem with ⟨d, hd, named⟩ | named
  · refine names t.name ?_
    rw [← Lexer.ofDefinitions_names h, named]
    exact List.mem_map_of_mem hd
  · rw [named]
    rfl

theorem typed_token {t : Token} (only : kinds t.name = ["text"]) :
    Typed t.name (ofToken t : Value) := by
  rw [Typed, only]
  exact List.mem_cons_self

theorem typed_of_mem_tokens {lexer : Lexer} (h : Lexer.ofDefinitions definitions = .ok lexer)
    {source : String} {t : Token} (mem : .ok t ∈ lexer.tokens source) :
    Typed t.name (ofToken t : Value) := typed_token (kinds_of_token h mem)

section Run

variable {p : Parser Value} (accepted : (Parser.ofRules rules).2 = .ok p)
  {stream : List (Except LexError Token)} {budget : Nat}
include accepted

theorem typed_of_run_ok (leaves : ∀ t, .ok t ∈ stream → Typed t.name (ofToken t : Value))
    {v : Value} {stats : Stats}
    (h : (p.run [whitespace] budget stream).outcome = .ok (v, stats)) :
    (∃ x, v = .number x) ∨ ∃ b, v = .boolean b := by
  obtain ⟨same, built⟩ := Parser.ofRules_ok_iff.mp accepted
  obtain ⟨tree, last, rest, whole, _, read, value, _⟩ := Parser.run_ok built h
  have typed : Typed p.grammar.start v := by
    refine tree.keeps (keeps_rules same) (fun t mem => leaves t ?_) value
    have kept : t ∈ kept [whitespace] (p.run [whitespace] budget stream).read := by
      rw [read]
      exact List.mem_append_left _ mem
    rw [whole]
    exact List.mem_append_left rest (Parser.mem_of_mem_kept kept)
  rw [start_rules same] at typed
  cases v with
  | number x => exact Or.inl ⟨x, rfl⟩
  | boolean b => exact Or.inr ⟨b, rfl⟩
  | text s => exact absurd (show "text" ∈ kinds "Expr" from typed) (by decide)

/-- Only numerals are ever refused: whatever else a run reduces has values of the right kinds. -/
theorem numeral_of_run_refused
    (leaves : ∀ t, .ok t ∈ stream → Typed t.name (ofToken t : Value))
    (enough : 11 * stream.length ≤ budget) {text : String} {position : Nat} {source : ReduceError}
    (h : (p.run [whitespace] budget stream).outcome =
      .error (.parse (.reduction text position source))) :
    ∃ t e, .ok t ∈ stream ∧ t.name = "number" ∧ Binary64.read t.value = .error e ∧
      text = "Value → number" ∧ position = t.position ∧
      source = (OperandError.badNumeral t.value e).refusal := by
  obtain ⟨same, built⟩ := Parser.ofRules_ok_iff.mp accepted
  have inner := Grammar.not_passesEnd (unmentioned_rules same)
  obtain ⟨k, children, values, htext, hposition, infix_, hvalues, refused⟩ :=
    Parser.run_refused built inner (ranked_rules same) enough h
  have within : ∀ t ∈ children.tokens, .ok t ∈ stream := fun t mem =>
    Parser.mem_of_mem_kept (infix_.subset mem)
  have typed := children.keeps (keeps_rules same) (fun t mem => leaves t (within t mem)) hvalues
  have mem : p.grammar.rules.get k ∈ rules := same ▸ List.getElem_mem k.isLt
  -- A rule that refuses typed values is the one of numerals, whose child is a leaf.
  rcases safe_rules _ mem values typed with ⟨v, made, _⟩ | ⟨production, s, e, hs, hread, made⟩
  · cases made.symm.trans refused
  · have terminal : p.grammar.isNonterminal "number" = false := by
      rw [Grammar.isNonterminal, same]
      decide
    obtain ⟨t, named, tokens, value⟩ :=
      children.of_terminal terminal (congrArg Production.predicate production)
    obtain rfl : t.value = s := by
      rw [value] at hvalues
      exact Value.text.inj (List.cons.inj ((Except.ok.inj hvalues).trans hs)).1
    refine ⟨t, e, within t (by simp [tokens]), named, hread, ?_, ?_, ?_⟩
    · rw [htext, production]
      decide
    · rw [hposition, Forest.position, tokens]
      rfl
    · exact Except.error.inj (refused.symm.trans made)

/-- A run fails with the error of its stream, for a token out of place, or for a numeral. -/
theorem failure_of_run (leaves : ∀ t, .ok t ∈ stream → Typed t.name (ofToken t : Value))
    (enough : 11 * stream.length ≤ budget) {items : List (Except LexError Token)}
    {final : Except LexError Token} (cut : stream = items ++ [final])
    (ended : ∀ token, final = .ok token → token.name = endSymbol) {failure : Failure LexError}
    (h : (p.run [whitespace] budget stream).outcome = .error failure) :
    (∃ e, failure = .input e) ∨
      (∃ name value position expected,
        failure = .parse (.unexpectedToken name value position expected)) ∨
      ∃ t e, .ok t ∈ stream ∧ t.name = "number" ∧ Binary64.read t.value = .error e ∧
        failure = .parse (.reduction "Value → number" t.position
          (OperandError.badNumeral t.value e).refusal) := by
  obtain ⟨same, built⟩ := Parser.ofRules_ok_iff.mp accepted
  cases failure with
  | input e => exact Or.inl ⟨e, rfl⟩
  | parse e =>
    refine Or.inr ?_
    obtain ⟨filled, goto⟩ := Parser.run_error built h
    cases e with
    | unexpectedToken name value position expected =>
      exact Or.inl ⟨name, value, position, expected, rfl⟩
    | unexpectedEnd expected =>
      rw [cut] at h
      have unskipped : endSymbol ∉ [whitespace] := by decide
      exact absurd h
        (Parser.run_ne_unexpectedEnd built (unmentioned_rules same) unskipped ended expected)
    | reduction text position cause =>
      obtain ⟨t, e, mem, named, hread, rfl, rfl, rfl⟩ :=
        numeral_of_run_refused accepted leaves enough h
      exact Or.inr ⟨t, e, mem, named, hread, rfl⟩
    | missingGoto q symbol =>
      exact absurd (goto q symbol rfl).2.2.1 (Grammar.not_passesEnd (unmentioned_rules same))
    | emptyStack => exact absurd rfl filled

end Run

/-- A formula has a number or a boolean for its value. If it has none, its text cannot be cut into
tokens, or one of them is out of place, or is a numeral that spells no number. -/
theorem eval_typed {audience : Audience} {f : Formula} (h : (new audience).answer = .ok f)
    (log : Log.Filter) (source : String) :
    (∃ x, (f.eval log source).answer = .ok (.number x)) ∨
      (∃ b, (f.eval log source).answer = .ok (.boolean b)) ∨
      (∃ e, (f.eval log source).answer = .error (.lex e)) ∨
      (∃ name value position expected, (f.eval log source).answer =
        .error (.parse (.unexpectedToken name value position expected))) ∨
      ∃ t e, .ok t ∈ f.lexer.tokens source ∧ t.name = "number" ∧
        Binary64.read t.value = .error e ∧ (f.eval log source).answer =
          .error (.parse (.reduction "Value → number" t.position
            (OperandError.badNumeral t.value e).refusal)) := by
  obtain ⟨lexer, accepted⟩ := new_answer audience h
  obtain ⟨same, built⟩ := Parser.ofRules_ok_iff.mp accepted
  have leaves : ∀ t, .ok t ∈ f.lexer.tokens source → Typed t.name (ofToken t : Value) :=
    fun t mem => typed_token (kinds_of_token lexer mem)
  have unmentioned := unmentioned_rules same
  rw [answer_eval, Ending.value]
  cases hr : (f.session.parser.run [whitespace] (f.budget (f.lexer.tokens source))
    (f.lexer.tokens source)).outcome with
  | ok result =>
    obtain ⟨v, stats⟩ := result
    rcases typed_of_run_ok accepted leaves hr with ⟨x, rfl⟩ | ⟨b, rfl⟩
    · exact Or.inl ⟨x, rfl⟩
    · exact Or.inr (Or.inl ⟨b, rfl⟩)
  | error failure =>
    refine Or.inr (Or.inr ?_)
    cases failure with
    | input e => exact Or.inl ⟨e, rfl⟩
    | parse e =>
      obtain ⟨enough, goto⟩ := Parser.run_error built hr
      cases e with
      | unexpectedToken name value position expected =>
        exact Or.inr (Or.inl ⟨name, value, position, expected, rfl⟩)
      | unexpectedEnd expected =>
        obtain ⟨items, final, stream, ended⟩ := f.lexer.tokens_ended source
        rw [stream] at hr
        have unskipped : endSymbol ∉ [whitespace] := by decide
        exact absurd hr (Parser.run_ne_unexpectedEnd built unmentioned unskipped ended expected)
      | reduction text position cause =>
        have enough : 11 * (f.lexer.tokens source).length ≤ f.budget (f.lexer.tokens source) := by
          rw [budget, same]
          exact Nat.mul_le_mul_right _ (by decide)
        obtain ⟨t, e, mem, named, hread, rfl, rfl, rfl⟩ :=
          numeral_of_run_refused accepted leaves enough hr
        exact Or.inr (Or.inr ⟨t, e, mem, named, hread, rfl⟩)
      | missingGoto q symbol =>
        exact absurd (goto q symbol rfl).2.2.1 (Grammar.not_passesEnd unmentioned)
      | emptyStack => exact absurd rfl enough

set_option maxRecDepth 100000 in
/-- The digits of formulas are those of all scripts, but numerals have only the Latin ones. -/
theorem eval_typed_wide_digit :
    (new {}).answer = .ok shared ∧
      ∃ t e, .ok t ∈ shared.lexer.tokens "\uff13" ∧ t.name = "number" ∧
        Binary64.read t.value = .error e ∧ (shared.eval .off "\uff13").answer =
          .error (.parse (.reduction "Value → number" t.position
            (OperandError.badNumeral t.value e).refusal)) := by
  have answer : (shared.eval .off "\uff13").answer =
      .error (.parse (.reduction "Value → number" 0
        (OperandError.badNumeral "\uff13" .invalid).refusal)) := by
    decide +kernel
  refine ⟨shared_new, ?_⟩
  rcases eval_typed shared_new .off "\uff13" with
    ⟨x, other⟩ | ⟨b, other⟩ | ⟨e, other⟩ | ⟨name, value, position, expected, other⟩ | refused
  · cases answer.symm.trans other
  · cases answer.symm.trans other
  · cases answer.symm.trans other
  · cases answer.symm.trans other
  · exact refused

end Formula

end ShiftFirst
