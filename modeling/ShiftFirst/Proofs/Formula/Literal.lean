import ShiftFirst.Proofs.Formula.Evaluation
import ShiftFirst.Proofs.Formula.Spacing

namespace ShiftFirst

theorem Lexer.selected_of_mem_tokensFrom {lexer : Lexer} {source : String} {fuel position : Nat}
    {text : List Char} {t : Token} (mem : .ok t ∈ lexer.tokensFrom source fuel position text) :
    t.name = endSymbol ∨ ∃ rest d n, lexer.select rest = some (d, n) ∧ t.name = d.name ∧
      t.value = String.ofList (rest.take n) := by
  induction fuel generalizing position text with
  | zero => cases mem
  | succ fuel ih =>
    unfold tokensFrom at mem
    split at mem
    next =>
      cases List.mem_singleton.mp mem
      exact Or.inl rfl
    next c rest =>
      split at mem
      next => cases List.mem_singleton.mp mem
      next d n selected =>
        rcases List.mem_cons.mp mem with first | later
        · cases first
          exact Or.inr ⟨_, d, n, selected, rfl, rfl⟩
        · exact ih later

namespace Formula

open Pattern
open Text (CharSet digits)

/-- Digits of any script, with or without a point among them. -/
inductive IsLiteral : List Char → Prop
  | digits {text : List Char} (filled : text ≠ []) (all : ∀ c ∈ text, Text.isDigit c) :
      IsLiteral text
  | point {whole fraction : List Char} (filled : whole ++ fraction ≠ [])
      (all : ∀ c ∈ whole ++ fraction, Text.isDigit c) : IsLiteral (whole ++ '.' :: fraction)

/-- The digits of a text are those from `0` to `9`. -/
def Latin (text : List Char) : Prop := ∀ c ∈ text, Text.isDigit c → c.isDigit

instance (text : List Char) : Decidable (Latin text) :=
  List.decidableBAll (fun c => Text.isDigit c → c.isDigit) text

theorem take_many (s : CharSet) (text : List Char) :
    text.take (many s text) = text.takeWhile s.contains :=
  (List.prefix_iff_eq_take.mp (List.takeWhile_prefix _)).symm

theorem all_of_take_many (s : CharSet) (text : List Char) :
    ∀ c ∈ text.take (many s text), s.contains c := by
  intro c mem
  rw [take_many] at mem
  exact List.mem_takeWhile_imp mem

theorem several_some {s : CharSet} {text : List Char} {n : Nat} (h : several s text = some n) :
    n = many s text ∧ 0 < n ∧ text.take n ≠ [] := by
  unfold several at h
  split at h
  next => cases h
  next filled =>
    cases h
    have pos := Nat.pos_of_ne_zero filled
    have within := many_le s text
    refine ⟨rfl, pos, List.ne_nil_of_length_pos ?_⟩
    rw [List.length_take]
    omega

theorem one_point {text : List Char} {n : Nat} (h : one (.single '.') text = some n) :
    n = 1 ∧ ∃ rest, text = '.' :: rest := by
  rw [one_single, wordLength?] at h
  split at h
  next begins =>
    obtain ⟨rest, rfl⟩ := begins
    exact ⟨(Option.some.inj h).symm, rest, rfl⟩
  next => cases h

/-- What the pattern of the numbers takes is a literal. -/
theorem literal_of_length {text : List Char} {n : Nat} (taken : numeralLength? text = some n) :
    IsLiteral (text.take n) := by
  rcases Option.or_eq_some_iff.mp taken with whole | ⟨_, point⟩
  · obtain ⟨m, _, first, rest, rfl⟩ := followed_eq_some whole
    obtain ⟨p, k, optional, last, rfl⟩ := followed_eq_some rest
    obtain ⟨rfl, _, filled⟩ := several_some first
    have front := all_of_take_many digits text
    cases last
    cases dot : one (.single '.') (text.drop (many digits text)) with
    | none =>
      rw [dot] at optional
      cases optional
      rw [Option.getD_none, List.drop_zero, Nat.zero_add, List.take_add]
      refine .digits (fun none => filled (List.append_eq_nil_iff.mp none).1) ?_
      exact List.forall_mem_append.mpr ⟨front, all_of_take_many digits _⟩
    | some p' =>
      rw [dot] at optional
      cases optional
      obtain ⟨rfl, rest, behind⟩ := one_point dot
      rw [List.take_add, behind, Nat.add_comm]
      refine .point (fun none => filled (List.append_eq_nil_iff.mp none).1) ?_
      exact List.forall_mem_append.mpr ⟨front, all_of_take_many digits _⟩
  · obtain ⟨_, k, first, last, rfl⟩ := followed_eq_some point
    obtain ⟨rfl, rest, rfl⟩ := one_point first
    obtain ⟨rfl, _, filled⟩ := several_some last
    rw [Nat.add_comm]
    exact @IsLiteral.point [] _ filled (all_of_take_many digits rest)

theorem literal_of_token {source : String} {t : Token} (mem : .ok t ∈ scanner.tokens source)
    (named : t.name = "number") : IsLiteral t.value.toList := by
  rcases Lexer.selected_of_mem_tokensFrom mem with ended | ⟨rest, d, n, selected, same, value⟩
  · exact absurd (ended.symm.trans named) (by decide)
  · have taken := (taken_of_select selected).2.1
    rw [← same, taken?, if_pos named] at taken
    rw [value, String.toList_ofList]
    exact literal_of_length taken

namespace IsLiteral

variable {text : List Char}

theorem isNumeral (h : IsLiteral text) (latin : Latin text) : Binary64.IsNumeral text := by
  cases h with
  | digits filled all => exact .digits filled fun c mem => latin c mem (all c mem)
  | @point whole fraction filled all =>
    refine .point filled fun c mem => latin c ?_ (all c mem)
    rcases List.mem_append.mp mem with mem | mem
    · exact List.mem_append_left _ mem
    · exact List.mem_append_right _ (List.mem_cons_of_mem _ mem)

end IsLiteral

theorem toLower_of_digit {c : Char} (digit : Text.isDigit c) : c.toLower = c := by
  have apart : Disjoint digits (.between 'A' 'Z') := by decide
  have outside : ¬ ('A'.toNat ≤ c.toNat ∧ c.toNat ≤ 'Z'.toNat) := fun inside =>
    apart.not_both digit (by simpa [CharSet.contains, CharSet.covers, CharSet.between] using inside)
  unfold Char.toLower
  split
  next inside =>
    refine absurd ⟨?_, ?_⟩ outside
    · exact UInt32.le_iff_toNat_le.mp inside.1
    · exact UInt32.le_iff_toNat_le.mp inside.2
  next => rfl

/-- A digit of another script is in the text of no number. -/
theorem foreign_of_digit {c : Char} (digit : Text.isDigit c) :
    c.toLower ∉ Binary64.letters := by
  have outside : Binary64.letters.all fun x => !digits.contains x := by decide
  rw [toLower_of_digit digit]
  intro mem
  have here : !digits.contains c := List.all_eq_true.mp outside c mem
  rw [Text.isDigit] at digit
  rw [digit] at here
  cases here

/-- A literal spells a number if its digits are Latin, and else none. -/
theorem IsLiteral.read {s : String} (h : IsLiteral s.toList) :
    (Latin s.toList → ∃ x, Binary64.read s = .ok x) ∧
      (¬ Latin s.toList → Binary64.read s = .error .invalid) := by
  refine ⟨fun latin => Binary64.read_of_numeral (h.isNumeral latin), fun wide => ?_⟩
  simp only [Latin, not_forall] at wide
  obtain ⟨c, mem, digit, other⟩ := wide
  exact Binary64.read_foreign mem other (foreign_of_digit digit)

theorem reduce_numeral (t : Token) :
    (rule "Value" ["number"] numeral).reduce [ofToken t] =
      match Binary64.read t.value with
      | .ok x => .ok (.number x)
      | .error e => .error (OperandError.badNumeral t.value e).refusal := by
  change (numeral [.text t.value]).mapError OperandError.refusal = _
  rw [numeral]
  cases Binary64.read t.value <;> rfl

theorem IsLiteral.reduce {t : Token} (h : IsLiteral t.value.toList) :
    ((∃ x, (rule "Value" ["number"] numeral).reduce [ofToken t] = .ok (.number x)) ↔
        Latin t.value.toList) ∧
      (¬ Latin t.value.toList → (rule "Value" ["number"] numeral).reduce [ofToken t] =
        .error (OperandError.badNumeral t.value .invalid).refusal) := by
  obtain ⟨spells, refuses⟩ := h.read
  rw [reduce_numeral]
  constructor
  · constructor
    · rintro ⟨x, value⟩
      by_contra wide
      rw [refuses wide] at value
      cases value
    · intro latin
      obtain ⟨x, spelled⟩ := spells latin
      exact ⟨x, by rw [spelled]⟩
  · intro wide
    rw [refuses wide]

/-- The first state goes over a number to one that does nothing but reduce it. -/
def reducesNumber (p : Parser Value) : Bool :=
  (p.automaton.transition? Automaton.start "Value").isSome ∧
    (p.automaton.transition? Automaton.start "number").any fun q =>
      q ≠ Automaton.accept ∧ (p.automaton.state q).transitions = [] ∧
        (p.automaton.state q).reduction = some 21

set_option maxRecDepth 100000 in
theorem reducesNumber_rules : (Parser.ofRules rules).2.toOption.all reducesNumber := by
  decide +kernel

section Numbers

variable {p : Parser Value} (accepted : (Parser.ofRules rules).2 = .ok p)
include accepted

theorem rule_of_numbers :
    p.grammar.rules[20]? = some (rule "Value" ["number"] numeral) := by
  rw [(Parser.ofRules_ok_iff.mp accepted).1]
  rfl

theorem production_of_numbers : p.grammar.production 21 = ⟨"Value", ["number"]⟩ := by
  rw [Grammar.production_of_getElem? (rule_of_numbers accepted)]
  rfl

theorem ruleText_of_numbers : p.grammar.ruleText 21 = "Value → number" := by
  rw [Grammar.ruleText, production_of_numbers accepted]
  decide

theorem reduce_of_numbers {t : Token} {e : Binary64.NumeralError}
    (refused : Binary64.read t.value = .error e) :
    p.grammar.reduce 21 [(ofToken t : Value)] =
      .error (OperandError.badNumeral t.value e).refusal := by
  have made := reduce_numeral t
  rw [refused] at made
  rw [Grammar.reduce, rule_of_numbers accepted]
  exact made

/-- A number that is refused is refused as soon as it has been read. -/
theorem parse_refused {t : Token} (named : t.name = "number") {e : Binary64.NumeralError}
    (refused : Binary64.read t.value = .error e) {budget : Nat} (pos : 0 < budget)
    (final : Token) :
    (p.parse budget [t, final]).outcome =
      .error (.parse (.reduction "Value → number" t.position
        (OperandError.badNumeral t.value e).refusal)) := by
  have check := reducesNumber_rules
  rw [accepted] at check
  obtain ⟨goto, arrives⟩ := of_decide_eq_true check
  obtain ⟨back, goto⟩ := Option.isSome_iff_exists.mp goto
  obtain ⟨q, edge, there⟩ := (Option.any_eq_true _ _).mp arrives
  obtain ⟨other, sole, complete⟩ := of_decide_eq_true there
  have production := production_of_numbers accepted
  have begins : Parser.At (.initial budget ([t, final].map .ok) : Config Empty Value) [] []
      [t, final] := Parser.at_initial
  obtain ⟨c, shifts, here, left⟩ := begins.step_shift (p := p) (by decide) (named ▸ edge)
  have stuck : p.automaton.transition? q final.name = none := by
    rw [Automaton.transition?, sole]
    rfl
  have goes : p.automaton.transition? (topState ([q].drop 1)) (p.grammar.production 21).subject =
      some back := by
    rw [production]
    exact goto
  have halts := here.step_reduce (n := 1) (congrArg (List.length ·.predicate) production)
    (left ▸ pos) other stuck complete (Nat.le_refl 1) goes
  simp only [List.take_succ_cons, List.take_zero, List.reverse_singleton, List.map_cons,
    List.map_nil, reduce_of_numbers accepted refused] at halts
  obtain ⟨ending, step, outcome⟩ := halts
  have ends := (Parser.reaches_of_step shifts).ends (Parser.ends_of_step step)
  rw [Parser.parse, Parser.run_eq ends, outcome, ruleText_of_numbers accepted]
  rfl

end Numbers

section Evaluator

variable {audience : Audience} {f : Formula} (made : (new audience).answer = .ok f)
include made

/-- A formula of which a number alone counts is cut into pieces up to its end. -/
theorem pieces_of_number {source : String} {t : Token}
    (alone : f.tokens source = [.ok t, .ok (.finish source.length)]) :
    ∃ pieces, scanner.Pieces 0 source.toList pieces [] ∧ solid pieces = [t] := by
  have whole : f.tokens source = [.ok t] ++ [.ok (.finish source.length)] := alone
  rw [tokens, lexer_eq_scanner made] at whole
  obtain ⟨pieces, cut | ⟨e, stuck⟩⟩ := scanner.pieces_tokens source
  · rw [cut.tokens, List.filter_append, List.filter_map] at whole
    have front : (solid pieces).map (Except.ok (ε := LexError)) = [t].map .ok :=
      (List.append_inj' whole rfl).1
    exact ⟨pieces, cut, List.map_injective_iff.mpr (fun _ _ => Except.ok.inj) front⟩
  · rw [stuck, List.filter_append] at whole
    cases (List.append_inj' whole rfl).2

theorem eval_refused {source : String} {t : Token}
    (alone : f.tokens source = [.ok t, .ok (.finish source.length)]) (named : t.name = "number")
    {e : Binary64.NumeralError} (refused : Binary64.read t.value = .error e) (log : Log.Filter) :
    (f.eval log source).answer = .error (.parse (.reduction "Value → number" t.position
      (OperandError.badNumeral t.value e).refusal)) := by
  obtain ⟨_, accepted⟩ := new_answer audience made
  obtain ⟨pieces, cut, sole⟩ := pieces_of_number made alone
  obtain ⟨budget, result, enough, _, parse, answer⟩ := eval_of_pieces made cut log
  have fewer := length_solid_le cut
  rw [sole, List.length_singleton] at fewer
  rw [sole, List.singleton_append,
    parse_refused accepted named refused (by omega) (.finish source.length)] at parse
  rw [answer]
  cases result with
  | ok result => cases parse
  | error e' =>
    cases Except.error.inj parse
    rfl

theorem eval_number {source : String} {t : Token}
    (alone : f.tokens source = [.ok t, .ok (.finish source.length)]) (named : t.name = "number")
    {x : Binary64} (spelled : Binary64.read t.value = .ok x) (log : Log.Filter) :
    (f.eval log source).answer = .ok (.number x) := by
  obtain ⟨pieces, cut, sole⟩ := pieces_of_number made alone
  refine eval_of_stands made (.of_pieces cut) (.number fun tokens rest same _ => ?_) log
  rw [sole] at same
  obtain ⟨t', others, rfl, ht, none⟩ := List.map_eq_cons_iff.mp same
  obtain rfl := List.map_eq_nil_iff.mp none
  have value : t'.value = t.value := congrArg Prod.snd ht
  exact (Computes.number ((name_eq ht).trans named) (value ▸ spelled)).lift .sum

/-- A rule refuses nothing but literals with digits of other scripts. -/
theorem wide_of_reduction {log : Log.Filter} {source text : String} {position : Nat}
    {cause : ReduceError}
    (refused : (f.eval log source).answer = .error (.parse (.reduction text position cause))) :
    ∃ t, .ok t ∈ f.lexer.tokens source ∧ t.name = "number" ∧ ¬ Latin t.value.toList ∧
      text = "Value → number" ∧ position = t.position ∧
      cause = (OperandError.badNumeral t.value .invalid).refusal := by
  obtain ⟨lexer, accepted⟩ := new_answer audience made
  have leaves : ∀ t, .ok t ∈ f.lexer.tokens source → Typed t.name (ofToken t : Value) :=
    fun t mem => typed_of_mem_tokens lexer mem
  obtain ⟨failure, outcome, same⟩ := run_of_eval_error refused
  cases failure with
  | input e => cases same
  | parse e =>
    cases same
    obtain ⟨t, e, mem, named, refused, text, position, cause⟩ :=
      numeral_of_run_refused accepted leaves (enough_budget made _) outcome
    obtain ⟨spells, refuses⟩ := (literal_of_token (lexer_eq_scanner made ▸ mem) named).read
    have wide : ¬ Latin t.value.toList := by
      intro latin
      obtain ⟨x, spelled⟩ := spells latin
      cases spelled.symm.trans refused
    cases refused.symm.trans (refuses wide)
    exact ⟨t, mem, named, wide, text, position, cause⟩

/-- Every numeral is a literal, and is made a number exactly if its digits are Latin. A formula is
never refused by a rule but for a literal that is not, and of the formulas that are one literal all
others have a number for their value. -/
theorem literals_evaluate_iff (log : Log.Filter) (source : String) :
    (∃ r ∈ f.session.parser.grammar.rules, r.toProduction = ⟨"Value", ["number"]⟩ ∧
      ∀ t, .ok t ∈ f.lexer.tokens source → t.name = "number" →
        IsLiteral t.value.toList ∧
        ((∃ x, r.reduce [ofToken t] = .ok (.number x)) ↔ Latin t.value.toList) ∧
        (¬ Latin t.value.toList →
          r.reduce [ofToken t] = .error (OperandError.badNumeral t.value .invalid).refusal)) ∧
    (∀ text position cause,
      (f.eval log source).answer = .error (.parse (.reduction text position cause)) →
        ∃ t, .ok t ∈ f.lexer.tokens source ∧ t.name = "number" ∧ ¬ Latin t.value.toList ∧
          text = "Value → number" ∧ position = t.position ∧
          cause = (OperandError.badNumeral t.value .invalid).refusal) ∧
    ∀ t, f.tokens source = [.ok t, .ok (.finish source.length)] → t.name = "number" →
      ((∃ x, (f.eval log source).answer = .ok (.number x)) ↔ Latin t.value.toList) ∧
      (¬ Latin t.value.toList →
        (f.eval log source).answer = .error (.parse (.reduction "Value → number" t.position
          (OperandError.badNumeral t.value .invalid).refusal))) := by
  have same := (Parser.ofRules_ok_iff.mp (new_answer audience made).2).1
  have literal {t : Token} (mem : .ok t ∈ f.lexer.tokens source) (named : t.name = "number") :
      IsLiteral t.value.toList := literal_of_token (lexer_eq_scanner made ▸ mem) named
  refine ⟨⟨rule "Value" ["number"] numeral, ?_, rfl, fun t mem named => ?_⟩,
    fun text position cause refused => wide_of_reduction made refused, fun t alone named => ?_⟩
  · rw [same]
    simp [rules]
  · exact ⟨literal mem named, (literal mem named).reduce⟩
  · have among : .ok t ∈ f.tokens source := alone ▸ List.mem_cons_self
    obtain ⟨spells, refuses⟩ := (literal (List.mem_filter.mp among).1 named).read
    have error (wide : ¬ Latin t.value.toList) := eval_refused made alone named (refuses wide) log
    refine ⟨⟨?_, fun latin => ?_⟩, error⟩
    · rintro ⟨x, value⟩
      by_contra wide
      cases value.symm.trans (error wide)
    · obtain ⟨x, spelled⟩ := spells latin
      exact ⟨x, eval_number made alone named spelled log⟩

end Evaluator

set_option maxRecDepth 100000 in
theorem literals_evaluate_iff_shared :
    (new {}).answer = .ok shared ∧
      shared.tokens " 1.5" = [.ok ⟨"number", "1.5", 1⟩, .ok (.finish 4)] ∧
      Latin "1.5".toList ∧ ∃ x, (shared.eval .off " 1.5").answer = .ok (.number x) := by
  have alone : shared.tokens " 1.5" = [.ok ⟨"number", "1.5", 1⟩, .ok (.finish 4)] := by
    rw [tokens, lexer_eq_scanner shared_new]
    decide +kernel
  have latin : Latin "1.5".toList := by decide +kernel
  obtain ⟨_, _, evaluates⟩ := literals_evaluate_iff shared_new .off " 1.5"
  exact ⟨shared_new, alone, latin, (evaluates _ alone rfl).1.mpr latin⟩

set_option maxRecDepth 100000 in
/-- The pattern of the numbers takes the digits of all scripts, but the rule that makes numbers of
them takes the Latin ones alone. -/
theorem wide_literal_refused :
    ∃ t, .ok t ∈ shared.lexer.tokens "\uff13" ∧ t.name = "number" ∧
      (shared.eval .off "\uff13").answer = .error (.parse (.reduction "Value → number" t.position
        (OperandError.badNumeral t.value .invalid).refusal)) := by
  have alone : shared.tokens "\uff13" = [.ok ⟨"number", "\uff13", 0⟩, .ok (.finish 1)] := by
    rw [tokens, lexer_eq_scanner shared_new]
    decide +kernel
  have refused : Binary64.read "\uff13" = .error .invalid := by decide +kernel
  have among : .ok ⟨"number", "\uff13", 0⟩ ∈ shared.tokens "\uff13" := alone ▸ List.mem_cons_self
  exact ⟨_, (List.mem_filter.mp among).1, rfl, eval_refused shared_new alone rfl refused .off⟩

end Formula

end ShiftFirst
