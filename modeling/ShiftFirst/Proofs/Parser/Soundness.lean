import ShiftFirst.Proofs.Automaton.Ending
import ShiftFirst.Proofs.Parser.Journal
import ShiftFirst.Proofs.Parser.Stack

namespace ShiftFirst

variable {ε V : Type} {g : Grammar V}

/-- The items that a run takes from its stream. -/
def Ending.read (ending : Ending ε V) : List (Except ε Token) :=
  ending.journal.filterMap Entry.item?

theorem Tree.leaf_of_terminal {symbol : Symbol} (tree : Tree g symbol)
    (terminal : g.isNonterminal symbol = false) :
    ∃ token, token.name = symbol ∧ tree.tokens = [token] ∧ tree.nodes = 0 ∧
      tree.moves = [.shift token] := by
  cases tree with
  | leaf token => exact ⟨token, rfl, rfl, rfl, rfl⟩
  | node k =>
    refine absurd terminal (Bool.not_eq_false _ ▸ ?_)
    exact List.any_eq_true.mpr ⟨g.rules.get k, List.getElem_mem k.isLt, by simp⟩

namespace Parser

variable {p : Parser V} {skip : List Symbol} {stream : List (Except ε Token)}
  {c looked next : Config ε V} {stack : List (Sigma (Tree p.grammar))}

def leaves (stack : List (Sigma (Tree p.grammar))) : List Token :=
  stack.reverse.flatMap fun t => t.2.tokens

def interior (stack : List (Sigma (Tree p.grammar))) : Nat := (Forest.ofList stack).nodes

/-- The moves that make the derivations of a stack. -/
def making (stack : List (Sigma (Tree p.grammar))) : List Move :=
  stack.reverse.flatMap fun t => t.2.moves

/-- The stack of a run holds derivations that account for all it has done: their leaves are the
tokens that it has shifted, their values those of its frames. -/
structure Accounts [OfToken V] (p : Parser V) (skip : List Symbol) (stream : List (Except ε Token))
    (c : Config ε V) (stack : List (Sigma (Tree p.grammar))) : Prop where
  path : p.automaton.Path c.states (stack.map Sigma.fst)
  carried : List.Forall₂ Frame.Carries c.frames stack
  read : c.read ++ c.stream = stream
  shifted : kept skip c.read = leaves stack ++ c.lookahead.toList
  tokens : c.stats.tokens = (kept skip c.read).length
  shifts : c.stats.shifts = (leaves stack).length
  reductions : c.stats.reductions = interior stack

theorem Accounts.looks [OfToken V] {items : List (Except ε Token)}
    (h : p.Accounts skip stream c stack) (looks : Looks skip c looked items) :
    p.Accounts skip stream looked stack where
  path := by
    rw [looks.states]
    exact h.path
  carried := by
    rw [looks.frames]
    exact h.carried
  read := by rw [looks.read, List.append_assoc, ← looks.stream, h.read]
  shifted := by rw [looks.read, kept_append, h.shifted, looks.ahead, List.append_assoc]
  tokens := by rw [looks.tokens, looks.read, kept_append, List.length_append, h.tokens]
  shifts := looks.shifts.trans h.shifts
  reductions := looks.reductions.trans h.reductions

theorem leaves_cons (t : Sigma (Tree p.grammar)) (stack : List (Sigma (Tree p.grammar))) :
    leaves (t :: stack) = leaves stack ++ t.2.tokens := by
  simp [leaves]

theorem making_cons (t : Sigma (Tree p.grammar)) (stack : List (Sigma (Tree p.grammar))) :
    making (t :: stack) = making stack ++ t.2.moves := by
  simp [making]

theorem Accounts.shift [OfToken V] (h : p.Accounts skip stream c stack) {token : Token}
    {target : StateId} (ahead : c.lookahead = some token)
    (edge : p.automaton.transition? c.top token.name = some target) :
    p.Accounts skip stream (shiftStep (c.note (.current c.top)) token target)
      (⟨token.name, .leaf token⟩ :: stack) where
  path := by
    rw [Config.top_eq] at edge
    exact .cons h.path edge
  carried := .cons ⟨rfl, rfl⟩ h.carried
  read := h.read
  shifted := by
    have held := h.shifted
    rw [ahead] at held
    rw [leaves_cons]
    exact held.trans (List.append_nil _).symm
  tokens := h.tokens
  shifts := by
    rw [leaves_cons, List.length_append]
    exact congrArg (· + 1) h.shifts
  reductions := h.reductions.trans (Nat.zero_add _).symm

theorem Accounts.popped [OfToken V] (h : p.Accounts skip stream c stack) (built : p.Built) {r : Nat}
    (complete : (p.automaton.state c.top).reduction = some r) :
    ∃ children : Forest p.grammar (p.grammar.production r).predicate,
      leaves stack = leaves (stack.drop (p.grammar.production r).predicate.length) ++
        children.tokens ∧
      interior stack = interior (stack.drop (p.grammar.production r).predicate.length) +
        children.nodes ∧
      making stack = making (stack.drop (p.grammar.production r).predicate.length) ++
        children.moves ∧
      children.values = .ok
        ((c.frames.take (p.grammar.production r).predicate.length).reverse.map Frame.value) ∧
      ((((c.frames.take (p.grammar.production r).predicate.length).reverse.head?).elim 0
        Frame.position) = children.position) := by
  rw [Config.top_eq] at complete
  obtain ⟨_, symbols, _⟩ :=
    built.canonical.retrace h.path (built.canonical.mem_of_reduction complete)
  -- The way back from the complete item has the predicate of its rule on top of the stack.
  rw [List.take_length, ← List.map_take, ← List.map_reverse] at symbols
  generalize (p.grammar.production r).predicate.length = n at symbols ⊢
  generalize (p.grammar.production r).predicate = predicate at symbols ⊢
  subst symbols
  have carried := List.forall₂_reverse_iff.mpr (List.forall₂_take n h.carried)
  obtain ⟨values, position⟩ := Forest.values_ofList carried
  refine ⟨Forest.ofList (stack.take n).reverse, ?_, ?_, ?_, values, position⟩
  · rw [Forest.tokens_ofList, leaves, leaves, ← List.flatMap_append, ← List.reverse_append,
      List.take_append_drop]
  · rw [Forest.nodes_reverse, interior, interior, Nat.add_comm, ← Forest.nodes_append,
      List.take_append_drop]
  · rw [Forest.moves_ofList, making, making, ← List.flatMap_append, ← List.reverse_append,
      List.take_append_drop]

/-- Where the rule that begins every grammar is kept for the accepting state, a reduction makes a
node of the derivations that it takes from the stack. -/
theorem Accounts.reduce [OfToken V] (h : p.Accounts skip stream c stack) (built : p.Built)
    {r : Nat} {reduced : Reduced V} {target : StateId} (authored : 1 ≤ r)
    (complete : (p.automaton.state c.top).reduction = some r)
    (popped : p.popFrames c r = .ok reduced)
    (edge : p.automaton.transition? (topState (reduced.below.map Frame.state))
      (p.grammar.production r).subject = some target) :
    ∃ stack', p.Accounts skip stream (reducedTo (c.note (.current c.top)) r reduced target)
      stack' ∧ making stack' = making stack ++ [.reduce r] := by
  obtain ⟨k, rfl⟩ :=
    Grammar.exists_authored authored (built.canonical.le_of_reduction complete)
  have hp := Grammar.production_authored k
  have cut := h.popped built complete
  have hstates := popFrames_states popped
  obtain ⟨_, below, position, made⟩ := popFrames_ok popped
  have hvalue := Grammar.reduceWithin_ok made
  rw [Grammar.reduce_authored] at hvalue
  rw [hp] at cut edge hvalue position below hstates
  obtain ⟨children, hleaves, hnodes, hmaking, hvalues, hposition⟩ := cut
  refine ⟨⟨_, .node k children⟩ :: stack.drop (p.grammar.rules.get k).predicate.length,
    ⟨?_, ?_, h.read, ?_, h.tokens, ?_, ?_⟩, ?_⟩
  · rw [states_reducedTo]
    rw [hstates] at edge ⊢
    rw [List.map_cons, List.map_drop]
    exact .cons (h.path.drop _) edge
  · refine .cons ⟨?_, ?_⟩ (below ▸ List.forall₂_drop _ h.carried)
    · rw [Tree.value, hvalues]
      exact congrArg (Except.mapError _) hvalue
    · rw [position, hposition]
      rfl
  · rw [leaves_cons]
    exact hleaves ▸ h.shifted
  · rw [leaves_cons]
    exact (hleaves ▸ h.shifts)
  · have := h.reductions
    rw [hnodes] at this
    simp only [reducedTo, Config.note, this, interior, Forest.ofList, Forest.nodes, Tree.nodes]
    omega
  · rw [making_cons, hmaking, Tree.moves, List.append_assoc]

/-- What a run that can get to the accepting state keeps: derivations account for its stack, its
journal tells of the moves that make them, and it has shifted all tokens once it accepts. -/
structure Sound [OfToken V] (p : Parser V) (skip : List Symbol) (stream : List (Except ε Token))
    (c : Config ε V) (stack : List (Sigma (Tree p.grammar))) : Prop where
  accounts : p.Accounts skip stream c stack
  records : Records skip c (making stack)
  settled : c.top = Automaton.accept → c.lookahead = none

theorem Sound.turn [OfToken V] (h : p.Sound skip stream c stack) (built : p.Built)
    (inner : ¬ p.grammar.PassesEnd) (going : c.top ≠ Automaton.accept)
    (hl : look skip c = .ok looked) (turn : p.Turn looked next) :
    ∃ stack', p.Sound skip stream next stack' := by
  obtain ⟨items, looks⟩ := look_ok hl
  have accounts := h.accounts.looks looks
  have records := h.records.looks looks (looks.journal hl)
  cases turn with
  | shift ahead edge =>
    refine ⟨_, accounts.shift ahead edge, ?_, fun _ => rfl⟩
    rw [making_cons]
    exact records.shift ahead
  | @reduce r reduced target _ complete popped edge =>
    have authored : 1 ≤ r :=
      built.canonical.authored_of_reduction inner (looks.top.trans_ne going) complete
    obtain ⟨stack', reduced, made⟩ := accounts.reduce built authored complete popped edge
    refine ⟨stack', reduced, made ▸ records.reduce, fun top => ?_⟩
    rw [show target = Automaton.accept from top] at edge
    have terminal := (built.canonical.of_transition_accept edge).1
    have authored := Grammar.subject_ne_reserved authored (built.canonical.le_of_reduction complete)
    exact absurd terminal authored.2

theorem Sound.step [OfToken V] (h : ∃ stack, p.Sound skip stream c stack) (built : p.Built)
    (inner : ¬ p.grammar.PassesEnd)
    (hs : p.step skip c = .inr next) : ∃ stack, p.Sound skip stream next stack := by
  obtain ⟨stack, h⟩ := h
  obtain ⟨going, looked, hl, turn⟩ := turn_of_step hs
  exact h.turn built inner going hl turn

theorem sound_initial [OfToken V] {budget : Nat} {stream : List (Except ε Token)} :
    p.Sound skip stream (.initial budget stream) [] where
  accounts := ⟨.nil, .nil, rfl, rfl, rfl, rfl, rfl⟩
  records := records_initial
  settled := by
    intro top
    cases top

theorem sound_of_reaches [OfToken V] (built : p.Built) (inner : ¬ p.grammar.PassesEnd)
    {budget : Nat} (h : p.Reaches skip (.initial budget stream) c) :
    ∃ stack, p.Sound skip stream c stack :=
  h.keeps (P := fun c => ∃ stack, p.Sound skip stream c stack)
    (fun h hs => Sound.step h built inner hs) ⟨[], sound_initial⟩

/-- A run accepts with a derivation from the start symbol below the end of the text. -/
theorem Sound.accepted [OfToken V] (h : p.Sound skip stream c stack) (built : p.Built)
    (top : c.top = Automaton.accept) :
    ∃ (tree : Tree p.grammar p.grammar.start) (last : Token),
      last.name = endSymbol ∧ kept skip c.read = tree.tokens ++ [last] ∧
      (∃ value, tree.value = .ok value ∧ (p.finish c).outcome = .ok (value, c.stats)) ∧
      c.stats = ⟨tree.tokens.length + 1, tree.tokens.length + 1, tree.nodes⟩ ∧
      making stack = tree.moves ++ [.shift last] := by
  obtain ⟨accounts, _, settled⟩ := h
  have symbols := built.canonical.symbols_of_accept accounts.path (Config.top_eq c ▸ top)
  obtain ⟨⟨_, ending⟩, below, rfl, rfl, hbelow⟩ := List.map_eq_cons_iff.mp symbols
  obtain ⟨⟨_, tree⟩, rest, rfl, rfl, hrest⟩ := List.map_eq_cons_iff.mp hbelow
  obtain rfl := List.map_eq_nil_iff.mp hrest
  obtain ⟨last, named, leaf, nodes, shift⟩ :=
    ending.leaf_of_terminal p.grammar.endSymbol_terminal
  have carried := accounts.carried
  obtain ⟨f, _, hf, hfs, frames⟩ := List.forall₂_cons_right_iff.mp carried
  obtain ⟨f', _, carries, hfs', rfl⟩ := List.forall₂_cons_right_iff.mp hfs
  obtain rfl := List.forall₂_nil_right_iff.mp hfs'
  have row : leaves [⟨endSymbol, ending⟩, ⟨p.grammar.start, tree⟩] = tree.tokens ++ [last] := by
    simp [leaves, leaf]
  have read : kept skip c.read = tree.tokens ++ [last] := by
    rw [accounts.shifted, row, settled top, Option.toList_none, List.append_nil]
  refine ⟨tree, last, named, read, ⟨f'.value, carries.1, finish_outcome frames⟩, ?_,
    by simp [making, shift]⟩
  have tokens := accounts.tokens
  have shifts := accounts.shifts
  have reductions := accounts.reductions
  rw [read, List.length_append] at tokens
  rw [row, List.length_append] at shifts
  simp only [interior, Forest.ofList, Forest.nodes, nodes, Nat.zero_add, Nat.add_zero] at reductions
  exact congr (congr (congrArg Stats.mk tokens) shifts) reductions

theorem OnPath.top_ne_accept (h : p.OnPath c)
    (never : ∀ q symbol, p.automaton.transition? q symbol ≠ some Automaton.accept) :
    c.top ≠ Automaton.accept := by
  obtain ⟨symbols, path⟩ := h
  rw [Config.top_eq]
  cases hs : c.states with
  | nil => exact (by decide)
  | cons q states =>
    rw [hs] at path
    cases path with
    | cons _ edge =>
      rintro rfl
      exact never _ _ edge

theorem read_finish {outcome : Except (Failure ε) (V × Stats)} :
    (Ending.mk outcome (p.finish c).journal.reverse).read = c.read := by
  rw [Ending.read, Config.read, List.filterMap_reverse, finish]
  split <;> rfl

/-- A run that accepts gives the value of a derivation of the tokens that it has kept, and has made
the moves along it. -/
theorem run_ok [OfToken V] (built : p.Built) {budget : Nat} {v : V} {stats : Stats}
    (h : (p.run skip budget stream).outcome = .ok (v, stats)) :
    ∃ (tree : Tree p.grammar p.grammar.start) (last : Token) (rest : List (Except ε Token)),
      stream = (p.run skip budget stream).read ++ rest ∧ last.name = endSymbol ∧
      kept skip (p.run skip budget stream).read = tree.tokens ++ [last] ∧
      tree.value = .ok v ∧
      stats = ⟨tree.tokens.length + 1, tree.tokens.length + 1, tree.nodes⟩ ∧
      (p.run skip budget stream).moves = tree.moves ++ [.shift last] := by
  obtain ⟨ending, ⟨c, reaches, hs⟩, run⟩ := p.run_ends skip budget stream
  rw [run] at h ⊢
  rcases end_of_step hs with ⟨top, rfl⟩ | ⟨_, ⟨e, failed⟩ | ⟨_, failure, _, _, failed⟩⟩
  · -- Only where no rule goes on behind the end of the text does a run get to the accepting state.
    have inner : ¬ p.grammar.PassesEnd := fun passes =>
      (onPath_of_reaches reaches).top_ne_accept (built.canonical.transition_ne_accept passes) top
    obtain ⟨stack, sound⟩ := sound_of_reaches built inner reaches
    obtain ⟨tree, last, named, read, ⟨value, hvalue, outcome⟩, stats, made⟩ :=
      sound.accepted built top
    have moves : movesAfter none (p.finish c).journal.reverse = making stack := by
      rcases sound.records.ends hs with same | ⟨_, _, _, going, _⟩
      · exact same
      · exact absurd top going
    rw [read_finish]
    cases outcome.symm.trans h
    exact ⟨tree, last, c.stream, sound.accounts.read.symm, named, read, hvalue, stats,
      moves.trans made⟩
  · cases failed.symm.trans h
  · cases failed.symm.trans h

/-- A parse that succeeds has read a sentence and the end of the text behind it, and gives the
value of a derivation of the sentence from the start symbol. -/
theorem parse_ok_derivation [OfToken V] {rules : List (Rule V)} {p : Parser V}
    (built : (Parser.ofRules rules).2 = .ok p) {budget : Nat} {tokens : List Token} {v : V}
    {stats : Stats} (h : (p.parse budget tokens).outcome = .ok (v, stats)) :
    p.grammar.rules = rules ∧
    ∃ (tree : Tree p.grammar p.grammar.start) (last : Token) (rest : List Token),
      tokens = tree.tokens ++ last :: rest ∧ last.name = endSymbol ∧
      (p.parse budget tokens).read = (tree.tokens ++ [last]).map .ok ∧
      tree.value = .ok v ∧
      stats = ⟨tree.tokens.length + 1, tree.tokens.length + 1, tree.nodes⟩ := by
  obtain ⟨rules_eq, built⟩ := ofRules_ok_iff.mp built
  obtain ⟨tree, last, rest, stream, named, read, value, stats, _⟩ := run_ok built h
  obtain ⟨taken, rest, rfl, hread, rfl⟩ := List.map_eq_append_iff.mp stream
  rw [← hread, kept_all] at read
  subst read
  refine ⟨rules_eq, tree, last, rest, by simp, named, hread.symm, value, stats⟩

/-- Sums of products, by rules that put the operation behind its operands. -/
def sums : Grammar String where
  rules := [
    ⟨⟨"sum", ["sum", "+", "product"]⟩, fun vs => .ok (vs.getD 0 "" ++ vs.getD 2 "" ++ "+")⟩,
    ⟨⟨"sum", ["product"]⟩, fun vs => .ok (vs.getD 0 "")⟩,
    ⟨⟨"product", ["n", "*", "product"]⟩, fun vs => .ok (vs.getD 0 "" ++ vs.getD 2 "" ++ "*")⟩,
    ⟨⟨"product", ["n"]⟩, fun vs => .ok (vs.getD 0 "")⟩]
  rules_ne_nil := List.cons_ne_nil _ _
  faultless := by decide

def sumsParser : Parser String := ⟨sums, sums.automaton.2.toOption.getD ⟨[]⟩⟩

set_option maxRecDepth 100000 in
theorem built_sums : sumsParser.Built := by
  rw [Built]
  decide +kernel

/-- The tokens of `1+2*3`. -/
def sumsText : List Token :=
  [⟨"n", "1", 0⟩, ⟨"+", "+", 1⟩, ⟨"n", "2", 2⟩, ⟨"*", "*", 3⟩, ⟨"n", "3", 4⟩, .finish 5]

set_option maxRecDepth 100000 in
theorem parse_sums_derivation :
    (Parser.ofRules sums.rules).2 = .ok sumsParser ∧
      (sumsParser.parse 6 sumsText).outcome = .ok ("123*+", ⟨6, 6, 5⟩) ∧
      ∃ (tree : Tree sums sums.start) (last : Token) (rest : List Token),
        sumsText = tree.tokens ++ last :: rest ∧ last.name = endSymbol ∧
        tree.value = .ok "123*+" ∧ tree.nodes = 5 := by
  have built := ofRules_ok_iff.mpr ⟨rfl, built_sums⟩
  have outcome : (sumsParser.parse 6 sumsText).outcome = .ok ("123*+", ⟨6, 6, 5⟩) := by
    decide +kernel
  obtain ⟨_, tree, last, rest, text, named, _, value, stats⟩ := parse_ok_derivation built outcome
  exact ⟨built, outcome, tree, last, rest, text, named, value,
    (congrArg Stats.reductions stats).symm⟩

end Parser

end ShiftFirst
