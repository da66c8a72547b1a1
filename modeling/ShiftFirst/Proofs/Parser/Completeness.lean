import ShiftFirst.Proofs.Parser.Follow
import ShiftFirst.Proofs.Parser.Soundness
import ShiftFirst.Session

namespace ShiftFirst

variable {V : Type}

/-- The automaton moves along a settled tree of the whole text, and accepts behind the end of it. -/
theorem Tree.Settled.drives_accept {g : Grammar V} {a : Automaton} {tree : Tree g g.start}
    {last : Token} (settled : tree.Settled a last.name) (h : g.Canonical a)
    (inner : ¬ g.PassesEnd) (ends : last.name = endSymbol) (rest : List Token) :
    ∃ q, a.Drives g [] (tree.tokens ++ last :: rest) (tree.moves ++ [.shift last])
      [Automaton.accept, q] rest := by
  have wanted : g.next? Grammar.initialItem = some g.start := rfl
  have begins : Grammar.initialItem ∈ (a.state (topState [])).items := h.initialItem_mem_start
  obtain ⟨q, _, started, drives⟩ := tree.drives h rest begins wanted settled
  have going : q ≠ Automaton.accept :=
    h.ne_accept_of_next started (show g.next? ⟨0, 1⟩ = some endSymbol from rfl)
  have edge : a.transition? q last.name = some Automaton.accept :=
    ends ▸ h.transition_accept inner started
  exact ⟨q, drives.trans (.shift going edge (.done _ _))⟩

theorem Tree.drives_accept {g : Grammar V} {a : Automaton} (h : g.Canonical a)
    (decided : a.Decided g) (inner : ¬ g.PassesEnd) (tree : Tree g g.start)
    (terminals : ∀ t ∈ tree.tokens, g.isNonterminal t.name = false) {last : Token}
    (ends : last.name = endSymbol) (rest : List Token) :
    ∃ q, a.Drives g [] (tree.tokens ++ last :: rest) (tree.moves ++ [.shift last])
      [Automaton.accept, q] rest := by
  have terminal : g.isNonterminal last.name = false := ends ▸ g.endSymbol_terminal
  have whole : g.Sentential ([] ++ g.start :: last.name :: []) := by
    rw [ends]
    exact .refl
  exact (tree.settled decided terminals terminal whole).drives_accept h inner ends rest

namespace Parser

variable {p : Parser V}

theorem parse_of_settled [OfToken V] (built : p.Built) (inner : ¬ p.grammar.PassesEnd)
    {tree : Tree p.grammar p.grammar.start} {value : V} (made : tree.value = .ok value)
    {last : Token} (settled : tree.Settled p.automaton last.name) (ends : last.name = endSymbol)
    (rest : List Token) {budget : Nat} (enough : tree.nodes ≤ budget) :
    (p.parse budget (tree.tokens ++ last :: rest)).value = .ok value := by
  obtain ⟨q, drives⟩ := settled.drives_accept built.canonical inner ends rest
  have affordable : Move.cost (tree.moves ++ [.shift last]) ≤ budget := by
    rw [Move.cost_append, tree.cost_moves]
    exact enough
  have arrives := (at_initial (ε := Empty)).follow drives affordable
  rw [tree.replay_moves, made] at arrives
  obtain ⟨c, reaches, there⟩ := arrives
  obtain ⟨f, fs, frames, _, hfs⟩ := List.map_eq_cons_iff.mp there.stack
  obtain ⟨f', fs', rfl, entry, _⟩ := List.map_eq_cons_iff.mp hfs
  have hends := reaches.ends (ends_of_step (step_accept there.top))
  rw [parse, run_eq hends, Ending.value, finish_outcome frames]
  exact congrArg Except.ok (congrArg Prod.snd entry)

/-- If no state leaves open whether to shift, the parse of a sentence gives the value of its
derivation or the error of the first rule that refuses, and there is no other derivation. -/
theorem parse_sentence [OfToken V] {rules : List (Rule V)}
    (accepted : (Parser.ofRules rules).2 = .ok p)
    (inner : ∀ rule ∈ rules, endSymbol ∉ rule.predicate)
    (decided : p.automaton.Decided p.grammar) (tree : Tree p.grammar p.grammar.start)
    (terminals : ∀ t ∈ tree.tokens, p.grammar.isNonterminal t.name = false) {last : Token}
    (ends : last.name = endSymbol) (rest : List Token) {budget : Nat}
    (enough : tree.nodes ≤ budget) :
    (p.parse budget (tree.tokens ++ last :: rest)).value = tree.value.mapError Failure.parse ∧
      ∀ tree' : Tree p.grammar p.grammar.start, tree'.tokens = tree.tokens → tree' = tree := by
  obtain ⟨rfl, built⟩ := ofRules_ok_iff.mp accepted
  have canonical := built.canonical
  have within : ¬ p.grammar.PassesEnd := fun passes => by
    obtain ⟨rule, mem, mentioned⟩ := passes.mentioned
    exact inner rule mem mentioned
  obtain ⟨q, drives⟩ := tree.drives_accept canonical decided within terminals ends rest
  constructor
  · have affordable : Move.cost (tree.moves ++ [.shift last]) ≤ budget := by
      rw [Move.cost_append, tree.cost_moves]
      exact enough
    have arrives := (at_initial (ε := Empty)).follow drives affordable
    rw [tree.replay_moves] at arrives
    cases hv : tree.value with
    | error e =>
      rw [hv] at arrives
      obtain ⟨ending, hends, outcome⟩ := arrives
      rw [parse, run_eq hends, Ending.value, outcome]
      rfl
    | ok value =>
      rw [hv] at arrives
      obtain ⟨c, reaches, there⟩ := arrives
      obtain ⟨f, fs, frames, _, hfs⟩ := List.map_eq_cons_iff.mp there.stack
      obtain ⟨f', fs', rfl, entry, hfs'⟩ := List.map_eq_cons_iff.mp hfs
      obtain rfl := List.map_eq_nil_iff.mp hfs'
      have hends := reaches.ends (ends_of_step (step_accept there.top))
      rw [parse, run_eq hends, Ending.value, finish_outcome frames]
      exact congrArg Except.ok (congrArg Prod.snd entry)
  · intro tree' same
    obtain ⟨q', drives'⟩ := tree'.drives_accept canonical decided within (same ▸ terminals)
      ends rest
    rw [same] at drives'
    have moves := drives'.moves_unique drives rfl rfl
    have moves : [] ++ tree'.moves = [] ++ tree.moves := List.append_cancel_right moves
    have trees := (tree'.moves_injective tree moves).1
    exact eq_of_heq (Sigma.mk.inj trees).2

def sumsPairs : List (Symbol × Symbol) := [
  ("sum", endSymbol), ("product", endSymbol), ("n", endSymbol), ("sum", "+"), ("product", "+"),
  ("n", "+"), ("+", "product"), ("+", "n"), ("n", "*"), ("*", "product"), ("*", "n")]

theorem covers_sums : sums.Covers sumsPairs := ⟨by decide, by decide, by decide, by decide⟩

set_option maxRecDepth 100000 in
theorem decided_sums : sumsParser.automaton.Decided sums :=
  Automaton.decided_of_covers covers_sums (by decide +kernel)

/-- The derivation of `1+2*3`. -/
def sumsTree : Tree sums sums.start :=
  .node ⟨0, by decide⟩ (.cons
    (.node ⟨1, by decide⟩ (.cons (.node ⟨3, by decide⟩ (.cons (.leaf ⟨"n", "1", 0⟩) .nil)) .nil))
    (.cons (.leaf ⟨"+", "+", 1⟩) (.cons
      (.node ⟨2, by decide⟩ (.cons (.leaf ⟨"n", "2", 2⟩) (.cons (.leaf ⟨"*", "*", 3⟩) (.cons
        (.node ⟨3, by decide⟩ (.cons (.leaf ⟨"n", "3", 4⟩) .nil)) .nil))))
      .nil)))

theorem parse_sums_sentence :
    (∀ rule ∈ sums.rules, endSymbol ∉ rule.predicate) ∧ sumsParser.automaton.Decided sums ∧
      (∀ t ∈ sumsTree.tokens, sums.isNonterminal t.name = false) ∧ sumsTree.nodes ≤ 5 ∧
      (sumsParser.parse 5 sumsText).value = .ok "123*+" ∧
      ∀ tree : Tree sums sums.start, tree.tokens = sumsTree.tokens → tree = sumsTree := by
  have inner : ∀ rule ∈ sums.rules, endSymbol ∉ rule.predicate := by decide
  have terminals : ∀ t ∈ sumsTree.tokens, sums.isNonterminal t.name = false := by decide
  have enough : sumsTree.nodes ≤ 5 := by decide
  obtain ⟨value, unique⟩ := parse_sentence (ofRules_ok_iff.mpr ⟨rfl, built_sums⟩) inner
    decided_sums sumsTree terminals (rfl : (Token.finish 5).name = endSymbol) [] enough
  exact ⟨inner, decided_sums, terminals, enough, value, unique⟩

end Parser

end ShiftFirst
