import ShiftFirst.Proofs.Automaton.Viable
import ShiftFirst.Proofs.Parser.Journal
import ShiftFirst.Proofs.Parser.Soundness

namespace ShiftFirst

variable {ε V : Type}

/-- A symbol that no rule is for, and that predicates mention, that of the rule that begins every
grammar among them. -/
def Grammar.IsAugmentedTerminal (g : Grammar V) (symbol : Symbol) : Prop :=
  g.isNonterminal symbol = false ∧ ∃ production ∈ g.productions, symbol ∈ production.predicate

theorem Grammar.production_mem {g : Grammar V} {r : RuleId} (h : r ≤ g.rules.length) :
    g.production r ∈ g.productions := by
  cases r with
  | zero => exact List.mem_cons_self
  | succ r =>
    obtain ⟨rule, mem, _, same⟩ := Grammar.rule_of_authored (Nat.succ_pos r) h
    rw [same]
    exact List.mem_cons_of_mem _ (List.mem_map_of_mem mem)

/-- The names that an error says a text could have gone on with. -/
def ParseError.expected? : ParseError → Option (List Symbol)
  | .unexpectedToken _ _ _ expected => some expected
  | .unexpectedEnd expected => some expected
  | _ => none

namespace Parser

variable {p : Parser V} {skip : List Symbol} {stream : List (Except ε Token)}
  {c looked next : Config ε V} {stack : List (Sigma (Tree p.grammar))} {budget : Nat}

theorem mem_expected {q : StateId} {symbol : Symbol} :
    symbol ∈ p.expected q ↔
      (p.automaton.transition? q symbol).isSome ∧ p.grammar.isNonterminal symbol = false := by
  rw [expected, List.mem_filter, Automaton.transition?, List.lookup_isSome_iff, List.mem_map,
    Bool.not_eq_true']
  simp only [beq_iff_eq, eq_comm (a := symbol)]

theorem nodup_expected (built : p.Built) (q : StateId) : (p.expected q).Nodup :=
  (Grammar.nodup_transitions built q).filter _

theorem terminal_of_expected (built : p.Built) {q : StateId} {symbol : Symbol}
    (h : symbol ∈ p.expected q) : p.grammar.IsAugmentedTerminal symbol := by
  obtain ⟨edge, terminal⟩ := mem_expected.mp h
  obtain ⟨i, hi, hn⟩ := (built.canonical.transition_isSome q symbol).mp edge
  have known := (Grammar.mem_items.mp (built.canonical.items_subset q hi)).1
  exact ⟨terminal, _, Grammar.production_mem known, List.mem_of_getElem? hn⟩

/-- The symbols on the stack stand for the tokens that have been shifted. -/
theorem derives_leaves (stack : List (Sigma (Tree p.grammar))) :
    p.grammar.Derives (stack.map Sigma.fst).reverse ((leaves stack).map Token.name) := by
  have derives := (Forest.ofList stack.reverse).derives
  rwa [Forest.tokens_ofList, List.map_reverse] at derives

theorem Accounts.viable [OfToken V] (h : p.Accounts skip stream c stack) (built : p.Built) :
    p.grammar.Viable ((leaves stack).map Token.name) := by
  have viable := built.canonical.viable h.path
  rw [← List.append_nil (List.reverse _)] at viable
  simpa using viable.derives (derives_leaves stack)

/-- What a state expects goes on with some sentential form behind the tokens shifted so far. -/
theorem Accounts.viable_expected [OfToken V] (h : p.Accounts skip stream c stack)
    (built : p.Built) {symbol : Symbol} (expects : symbol ∈ p.expected c.top) :
    p.grammar.Viable ((leaves stack).map Token.name ++ [symbol]) := by
  have edge := (mem_expected.mp expects).1
  rw [Config.top_eq] at edge
  exact (built.canonical.viable_of_transition h.path edge).derives (derives_leaves stack)

theorem Accounts.tokens_moves [OfToken V] {moves : List Move}
    (h : p.Accounts skip stream c stack) (records : Records skip c moves) :
    Move.tokens moves = leaves stack :=
  List.append_cancel_right (records.shifted.trans h.shifted)

theorem Halt.of_expected {e : ParseError} {expected : List Symbol}
    (halt : p.Halt c (.parse e : Failure ε)) (names : e.expected? = some expected) :
    e = p.reject c ∧ expected = p.expected c.top := by
  cases halt with
  | reduction complete popped =>
    rcases popFrames_error popped with ⟨rfl, _⟩ | ⟨_, rfl, _⟩ <;> cases names
  | missingGoto => cases names
  | reject =>
    refine ⟨rfl, ?_⟩
    unfold Parser.reject at names
    split at names <;> cases names <;> rfl

/-- A run has shifted the leaves of the derivations that it ends with. -/
theorem tokens_of_step [OfToken V] {ending : Ending ε V}
    (reaches : p.Reaches skip (.initial budget stream) c) (hs : p.step skip c = .inl ending)
    (accounts : p.Accounts skip stream c stack) :
    Move.tokens (movesAfter none ending.journal.reverse) = leaves stack := by
  obtain ⟨moves, records⟩ := records_of_reaches reaches
  rw [← accounts.tokens_moves records]
  exact records.tokens_of_end hs

theorem run_viable [OfToken V] (built : p.Built) (inner : ¬ p.grammar.PassesEnd)
    (skip : List Symbol) (budget : Nat) (stream : List (Except ε Token)) :
    p.grammar.Viable ((Move.tokens (p.run skip budget stream).moves).map Token.name) := by
  obtain ⟨ending, ⟨c, reaches, hs⟩, run⟩ := p.run_ends skip budget stream
  obtain ⟨stack, sound⟩ := sound_of_reaches built inner reaches
  rw [run, Ending.moves, tokens_of_step reaches hs sound.accounts]
  exact sound.accounts.viable built

theorem read_of_act [OfToken V] {ending : Ending ε V} (h : p.act c = .inl ending) :
    ending.journal.reverse.filterMap Entry.item? = c.read := by
  rw [List.filterMap_reverse, Config.read]
  rcases act_end_journal h with journal | ⟨r, _, journal⟩ <;> rw [journal] <;> rfl

/-- A run that ends for lack of the right token has come to a state that expects other names, with
derivations of all tokens before that one on its stack. -/
theorem run_unexpected [OfToken V] (built : p.Built) (inner : ¬ p.grammar.PassesEnd)
    {e : ParseError} {expected : List Symbol}
    (h : (p.run skip budget stream).outcome = .error (.parse e))
    (names : e.expected? = some expected) :
    ∃ looked stack, p.Accounts skip stream looked stack ∧ e = p.reject looked ∧
      expected = p.expected looked.top ∧ (p.run skip budget stream).read = looked.read ∧
      Move.tokens (p.run skip budget stream).moves = leaves stack := by
  obtain ⟨ending, ⟨c, reaches, hs⟩, run⟩ := p.run_ends skip budget stream
  obtain ⟨stack, sound⟩ := sound_of_reaches built inner reaches
  rw [run] at h ⊢
  rcases end_of_step hs with ⟨top, rfl⟩ | ⟨going, ⟨_, failed⟩ | ⟨looked, failure, hl, halt, failed⟩⟩
  · obtain ⟨_, _, _, _, ⟨_, _, outcome⟩, _⟩ := sound.accepted built top
    cases outcome.symm.trans h
  · cases failed.symm.trans h
  · cases failed.symm.trans h
    obtain ⟨items, looks⟩ := look_ok hl
    obtain ⟨rejected, expects⟩ := halt.of_expected names
    rw [step_look going hl] at hs
    refine ⟨looked, stack, sound.accounts.looks looks, rejected, expects, read_of_act hs, ?_⟩
    exact tokens_of_step reaches ((step_look going hl).trans hs) sound.accounts

/-- Where rules do not mention the end of the text, what a run has shifted at any moment is the
beginning of a sentential form. A token that a run ends with is not shifted, and each of the
terminals that the run expects in its place is once more the next symbol of such a beginning. -/
theorem shifted_viable [OfToken V] {rules : List (Rule V)} {p : Parser V}
    (accepted : (Parser.ofRules rules).2 = .ok p)
    (inner : ∀ rule ∈ rules, endSymbol ∉ rule.predicate) (skip : List Symbol) (budget : Nat)
    (stream : List (Except ε Token)) :
    (∀ past, past <+: (p.run skip budget stream).journal →
      p.grammar.Viable ((Move.tokens (movesAfter none past)).map Token.name)) ∧
    (∀ name value position expected, (p.run skip budget stream).outcome =
        .error (.parse (.unexpectedToken name value position expected)) →
      kept skip (p.run skip budget stream).read =
        Move.tokens (p.run skip budget stream).moves ++ [⟨name, value, position⟩]) ∧
    ∀ e expected, (p.run skip budget stream).outcome = .error (.parse e) →
      e.expected? = some expected →
      expected.Nodup ∧ ∀ symbol ∈ expected, p.grammar.IsAugmentedTerminal symbol ∧
        p.grammar.Viable
          ((Move.tokens (p.run skip budget stream).moves).map Token.name ++ [symbol]) := by
  obtain ⟨rfl, built⟩ := ofRules_ok_iff.mp accepted
  have within := Grammar.not_passesEnd inner
  refine ⟨fun past begins => ?_, fun name value position expected h => ?_,
    fun e expected h names => ?_⟩
  · refine (run_viable built within skip budget stream).shorten (List.IsPrefix.map _ ?_)
    exact (movesAfter_mono begins).filterMap _
  · obtain ⟨looked, stack, accounts, rejected, _, read, tokens⟩ := run_unexpected built within h rfl
    have ahead : looked.lookahead = some ⟨name, value, position⟩ := by
      unfold Parser.reject at rejected
      split at rejected
      next held => cases rejected; exact held
      next => cases rejected
    rw [read, accounts.shifted, tokens, ahead]
    rfl
  · obtain ⟨looked, stack, accounts, _, rfl, _, tokens⟩ := run_unexpected built within h names
    refine ⟨nodup_expected built _, fun symbol expects => ?_⟩
    rw [tokens]
    exact ⟨terminal_of_expected built expects, accounts.viable_expected built expects⟩

/-- The tokens of `1*2 3`. -/
def sumsApart : List Token := [⟨"n", "1", 0⟩, ⟨"*", "*", 1⟩, ⟨"n", "2", 2⟩, ⟨"n", "3", 4⟩]

set_option maxRecDepth 100000 in
theorem shifted_viable_sums :
    (Parser.ofRules sums.rules).2 = .ok sumsParser ∧
      (∀ rule ∈ sums.rules, endSymbol ∉ rule.predicate) ∧
      (sumsParser.parse 5 sumsApart).outcome =
        .error (.parse (.unexpectedToken "n" "3" 4 ["$", "+"])) ∧
      Move.tokens (sumsParser.parse 5 sumsApart).moves = sumsApart.take 3 ∧
      sums.Viable ["n", "*"] ∧ sums.Viable ["n", "*", "n", "+"] := by
  have accepted := ofRules_ok_iff.mpr ⟨rfl, built_sums⟩
  have inner : ∀ rule ∈ sums.rules, endSymbol ∉ rule.predicate := by decide
  have outcome : (sumsParser.parse 5 sumsApart).outcome =
      .error (.parse (.unexpectedToken "n" "3" 4 ["$", "+"])) := by decide +kernel
  have shifted : Move.tokens (sumsParser.parse 5 sumsApart).moves = sumsApart.take 3 := by
    decide +kernel
  obtain ⟨moments, _, expects⟩ :=
    shifted_viable accepted inner [] 5 (sumsApart.map (Except.ok : Token → Except Empty Token))
  have earlier := moments _ (List.take_prefix 11 (sumsParser.parse 5 sumsApart).journal)
  have named : (Move.tokens (movesAfter none
      ((sumsParser.parse 5 sumsApart).journal.take 11))).map Token.name = ["n", "*"] := by
    decide +kernel
  have further := ((expects _ _ outcome rfl).2 "+" (by simp)).2
  rw [named] at earlier
  rw [← parse, shifted] at further
  exact ⟨accepted, inner, outcome, shifted, earlier, further⟩

end Parser

end ShiftFirst
