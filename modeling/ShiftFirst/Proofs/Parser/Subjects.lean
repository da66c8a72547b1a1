import ShiftFirst.Proofs.Automaton.Accessible
import ShiftFirst.Proofs.Parser.Completeness
import ShiftFirst.Proofs.Parser.Viable

namespace ShiftFirst

variable {ε V : Type}

namespace Parser

variable {p : Parser V} {skip : List Symbol} {stream : List (Except ε Token)} {budget : Nat}
  {c looked next : Config ε V} {shifted : List Token} {symbol : Symbol}

/-- No token with the name is shifted, and a run that takes one from its stream does not succeed. -/
def Refuses [OfToken V] (p : Parser V) (symbol : Symbol) : Prop :=
  ∀ (ε : Type) (skip : List Symbol) (budget : Nat) (stream : List (Except ε Token)),
    (∀ token ∈ Move.tokens (p.run skip budget stream).moves, token.name ≠ symbol) ∧
    ∀ result, (p.run skip budget stream).outcome = .ok result →
      ∀ token ∈ kept skip (p.run skip budget stream).read, token.name ≠ symbol

/-- A run has kept the tokens that it has shifted and the one that it looks at, and there are
states that lead over the names of those shifted. -/
structure Admits (p : Parser V) (skip : List Symbol) (stream : List (Except ε Token))
    (c : Config ε V) (shifted : List Token) : Prop where
  read : c.read ++ c.stream = stream
  kept : kept skip c.read = shifted ++ c.lookahead.toList
  edges : ∀ token ∈ shifted, ∃ q t, p.automaton.transition? q token.name = some t

theorem Admits.looks {items : List (Except ε Token)} (h : p.Admits skip stream c shifted)
    (looks : Looks skip c looked items) : p.Admits skip stream looked shifted where
  read := by rw [looks.read, List.append_assoc, ← looks.stream, h.read]
  kept := by rw [looks.read, kept_append, h.kept, looks.ahead, List.append_assoc]
  edges := h.edges

theorem Admits.turn [OfToken V] (h : p.Admits skip stream c shifted) (turn : p.Turn c next) :
    ∃ shifted, p.Admits skip stream next shifted := by
  cases turn with
  | @shift token target ahead edge =>
    have taken := h.kept
    rw [ahead] at taken
    refine ⟨shifted ++ [token], h.read, taken.trans (List.append_nil _).symm, ?_⟩
    intro t mem
    rcases List.mem_append.mp mem with earlier | last
    · exact h.edges t earlier
    · rw [List.mem_singleton.mp last]
      exact ⟨_, target, edge⟩
  | reduce => exact ⟨shifted, h.read, h.kept, h.edges⟩

theorem Admits.step [OfToken V] (h : ∃ shifted, p.Admits skip stream c shifted)
    (hs : p.step skip c = .inr next) : ∃ shifted, p.Admits skip stream next shifted := by
  obtain ⟨shifted, h⟩ := h
  obtain ⟨_, looked, hl, turn⟩ := turn_of_step hs
  obtain ⟨items, looks⟩ := look_ok hl
  exact (h.looks looks).turn turn

theorem admits_of_reaches [OfToken V] (h : p.Reaches skip (.initial budget stream) c) :
    ∃ shifted, p.Admits skip stream c shifted :=
  h.keeps (P := fun c => ∃ shifted, p.Admits skip stream c shifted) Admits.step
    ⟨[], rfl, rfl, fun _ mem => absurd mem List.not_mem_nil⟩

theorem Admits.moves {moves : List Move} (h : p.Admits skip stream c shifted)
    (records : Records skip c moves) : Move.tokens moves = shifted :=
  List.append_cancel_right (records.shifted.trans h.kept)

/-- Whatever a run shifts is the end of the text or has the name of an accessible symbol. -/
theorem accessible_of_shifted [OfToken V] (built : p.Built) {token : Token}
    (mem : token ∈ Move.tokens (p.run skip budget stream).moves) :
    token.name = endSymbol ∨ p.grammar.Accessible token.name := by
  obtain ⟨ending, ⟨c, reaches, hs⟩, run⟩ := p.run_ends skip budget stream
  obtain ⟨shifted, admits⟩ := admits_of_reaches reaches
  obtain ⟨moves, records⟩ := records_of_reaches reaches
  rw [run, Ending.moves, records.tokens_of_end hs, admits.moves records] at mem
  obtain ⟨q, t, edge⟩ := admits.edges token mem
  exact built.canonical.accessible_of_transition edge

/-- A run that succeeds has shifted all that it has kept. -/
theorem kept_of_ok [OfToken V] (built : p.Built) {result : V × Stats}
    (h : (p.run skip budget stream).outcome = .ok result) :
    kept skip (p.run skip budget stream).read = Move.tokens (p.run skip budget stream).moves ∧
      ¬ p.grammar.PassesEnd := by
  obtain ⟨ending, ⟨c, reaches, hs⟩, run⟩ := p.run_ends skip budget stream
  rw [run] at h ⊢
  rcases end_of_step hs with ⟨top, rfl⟩ | ⟨_, ⟨e, failed⟩ | ⟨_, failure, _, _, failed⟩⟩
  · have inner : ¬ p.grammar.PassesEnd := fun passes =>
      (onPath_of_reaches reaches).top_ne_accept (built.canonical.transition_ne_accept passes) top
    obtain ⟨stack, sound⟩ := sound_of_reaches built inner reaches
    obtain ⟨moves, records⟩ := records_of_reaches reaches
    have shifted := records.shifted
    rw [sound.settled top] at shifted
    rw [read_finish, Ending.moves, records.tokens_of_end hs]
    exact ⟨shifted.symm.trans (List.append_nil _), inner⟩
  · cases failed.symm.trans h
  · cases failed.symm.trans h

/-- A run over tokens that are named as the symbols on a way shifts them all. -/
theorem reaches_along [OfToken V] (built : p.Built) {states : List StateId} {symbols : List Symbol}
    (path : p.automaton.Path states symbols) {tokens : List Token} (rest : List Token)
    (names : tokens.map Token.name = symbols.reverse) (budget : Nat) :
    ∃ (c : Config ε V) (stack : List (Nat × V)),
      p.Reaches [] (.initial budget ((tokens ++ rest).map .ok)) c ∧ At c states stack rest := by
  induction path generalizing tokens rest with
  | nil =>
    obtain rfl := List.map_eq_nil_iff.mp names
    exact ⟨_, [], .refl, at_initial⟩
  | @cons states symbols symbol q below edge ih =>
    rw [List.reverse_cons] at names
    obtain ⟨before, last, rfl, earlier, one⟩ := List.map_eq_append_iff.mp names
    obtain ⟨token, rfl, rfl⟩ := List.map_eq_singleton_iff.mp one
    obtain ⟨c, stack, reaches, there⟩ := ih (token :: rest) earlier
    obtain ⟨i, hi, hn⟩ := (built.canonical.transition_isSome _ _).mp (by rw [edge]; rfl)
    obtain ⟨next, hs, there, _⟩ :=
      there.step_shift (built.canonical.ne_accept_of_next hi hn) edge
    refine ⟨next, _, ?_, there⟩
    rw [List.append_assoc]
    exact reaches.trans (reaches_of_step hs)

/-- Each accessible symbol is the name of a token that some run shifts. -/
theorem shifted_of_accessible [OfToken V] (built : p.Built)
    (accessible : p.grammar.Accessible symbol) (budget : Nat) :
    ∃ tokens : List Token,
      ∃ token ∈ Move.tokens (p.parse budget tokens).moves, token.name = symbol := by
  obtain ⟨states, symbols, path, i, hi, hn⟩ :=
    built.canonical.exists_path_of_accessible accessible
  obtain ⟨q, edge, _⟩ := built.canonical.advance hi hn
  let tokens : List Token := (symbol :: symbols).reverse.map fun name => ⟨name, "", 0⟩
  have names : tokens.map Token.name = (symbol :: symbols).reverse := by
    rw [List.map_map]
    exact List.map_id _
  obtain ⟨c, stack, reaches, there⟩ :=
    reaches_along (ε := Empty) built (.cons path edge) [] names budget
  rw [List.append_nil] at reaches
  -- Nothing is left of the tokens there, so that all have been shifted.
  obtain ⟨none, passed⟩ := List.append_eq_nil_iff.mp there.ahead
  obtain ⟨shifted, admits⟩ := admits_of_reaches reaches
  have all := admits.kept
  have read := admits.read
  rw [passed, List.append_nil] at read
  rw [read, kept_all, List.map_eq_nil_iff.mp none, List.append_nil] at all
  obtain ⟨moves, records⟩ := records_of_reaches reaches
  obtain ⟨ending, he⟩ := Sum.isLeft_iff.mp (p.advance_isLeft [] (Nat.lt_succ_self c.weight))
  obtain ⟨last, further, hs⟩ := ends_of_advance he
  obtain ⟨later, records'⟩ := records.reaches further
  have run := run_eq (reaches.ends ⟨last, further, hs⟩)
  refine ⟨tokens, ⟨symbol, "", 0⟩, ?_, rfl⟩
  rw [parse, run, Ending.moves, records'.tokens_of_end hs, Move.tokens_append,
    admits.moves records, ← all]
  simp [tokens]

/-- A parser refuses the tokens that are named as the subject of a rule exactly if the symbol is
not accessible. So it always shifts a token named as the start symbol: where any run succeeds, the
one over this token and the end of the text does, and gives the value of the token. What errors say
is expected are terminals alone. -/
theorem refuses_subject_iff [OfToken V] {rules : List (Rule V)} {p : Parser V}
    (accepted : (Parser.ofRules rules).2 = .ok p) :
    (∀ rule ∈ rules, p.Refuses rule.subject ↔ ¬ p.grammar.Accessible rule.subject) ∧
    (∀ (ε : Type) skip budget (stream : List (Except ε Token)) result,
      (p.run skip budget stream).outcome = .ok result →
        ∀ token last : Token, token.name = p.grammar.start → last.name = endSymbol →
          ∀ budget rest, (p.parse budget (token :: last :: rest)).value = .ok (ofToken token)) ∧
    ∀ q, ∀ symbol ∈ p.expected q, ∀ rule ∈ rules, rule.subject ≠ symbol := by
  obtain ⟨rfl, built⟩ := ofRules_ok_iff.mp accepted
  refine ⟨fun rule mem => ⟨fun refuses accessible => ?_, fun stray => ?_⟩, ?_, ?_⟩
  · obtain ⟨tokens, token, shifted, named⟩ := shifted_of_accessible built accessible 0
    exact (refuses Empty [] 0 (tokens.map .ok)).1 token shifted named
  · have never : ∀ {ε : Type} {skip budget} {stream : List (Except ε Token)},
        ∀ token ∈ Move.tokens (p.run skip budget stream).moves, token.name ≠ rule.subject := by
      rintro ε skip budget stream token shifted same
      rcases accessible_of_shifted built shifted with ends | accessible
      · have fault := p.grammar.faultless rule mem
        exact (Production.fault?_eq_none_iff.mp fault).2.1 (same.symm.trans ends)
      · exact stray (same ▸ accessible)
    refine fun ε skip budget stream => ⟨never, fun result h token taken => ?_⟩
    rw [(kept_of_ok built h).1] at taken
    exact never token taken
  · intro ε skip budget stream result h token last named ends budget' rest
    have inner := (kept_of_ok built h).2
    obtain ⟨name, value, position⟩ := token
    obtain rfl : name = p.grammar.start := named
    let leaf : Tree p.grammar p.grammar.start := .leaf ⟨p.grammar.start, value, position⟩
    have settled : leaf.Settled p.automaton last.name := trivial
    exact parse_of_settled built inner rfl settled ends rest (Nat.zero_le _)
  · intro q symbol expects rule mem same
    have terminal := (mem_expected.mp expects).2
    exact absurd (decide_eq_true same) (List.any_eq_false.mp terminal rule mem)

/-- A grammar with a rule that its start symbol does not lead to. -/
def stray : Grammar String where
  rules := [
    ⟨⟨"S", ["a"]⟩, fun vs => .ok ("S[" ++ ",".intercalate vs ++ "]")⟩,
    ⟨⟨"B", ["b"]⟩, fun vs => .ok ("B[" ++ ",".intercalate vs ++ "]")⟩]
  rules_ne_nil := List.cons_ne_nil _ _
  faultless := by decide

def strayParser : Parser String := ⟨stray, stray.automaton.2.toOption.getD ⟨[]⟩⟩

set_option maxRecDepth 100000 in
theorem built_stray : strayParser.Built := by
  rw [Built]
  decide +kernel

theorem refuses_subject_stray :
    (Parser.ofRules stray.rules).2 = .ok strayParser ∧
      strayParser.Refuses "B" ∧ ¬ strayParser.Refuses "S" ∧
      (strayParser.parse 5 [⟨"a", "a", 0⟩, .finish 1]).outcome = .ok ("S[a]", ⟨2, 2, 1⟩) ∧
      (strayParser.parse 0 [⟨"S", "x", 0⟩, .finish 1]).value = .ok "x" := by
  have accepted := ofRules_ok_iff.mpr ⟨rfl, built_stray⟩
  have outcome : (strayParser.parse 5 [⟨"a", "a", 0⟩, .finish 1]).outcome =
      .ok ("S[a]", ⟨2, 2, 1⟩) := by decide +kernel
  have known : ∀ symbol, stray.Accessible symbol → symbol ∈ ["S", "a"] := by
    intro symbol accessible
    induction accessible with
    | start => decide
    | rule _ mem mentioned ih =>
      rcases List.mem_pair.mp mem with rfl | rfl
      · exact List.mem_cons_of_mem _ mentioned
      · exact absurd ih (by decide)
  obtain ⟨refuses, begins, _⟩ := refuses_subject_iff accepted
  refine ⟨accepted, ?_, ?_, outcome, ?_⟩
  · exact (refuses _ (List.mem_cons_of_mem _ List.mem_cons_self)).mpr fun accessible =>
      absurd (known _ accessible) (by decide)
  · exact fun h => (refuses _ List.mem_cons_self).mp h .start
  · exact begins Empty [] 5 _ _ outcome _ (.finish 1) rfl rfl 0 []

theorem subject_shifted_stray :
    (Parser.ofRules stray.rules).2 = .ok strayParser ∧
      (∃ rule ∈ stray.rules, rule.subject = "S") ∧
      Move.tokens (strayParser.parse 100000 [⟨"S", "x", 0⟩, .finish 1]).moves =
        [⟨"S", "x", 0⟩, .finish 1] ∧
      (strayParser.parse 100000 [⟨"S", "x", 0⟩, .finish 1]).outcome = .ok ("x", ⟨2, 2, 0⟩) := by
  have accepted := ofRules_ok_iff.mpr ⟨rfl, built_stray⟩
  exact ⟨accepted, ⟨_, List.mem_cons_self, rfl⟩, by decide +kernel, by decide +kernel⟩

end Parser

end ShiftFirst
