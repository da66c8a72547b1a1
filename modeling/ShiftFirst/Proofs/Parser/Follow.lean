import ShiftFirst.Proofs.Automaton.Drive
import ShiftFirst.Proofs.Parser.Turn

namespace ShiftFirst

variable {ε V : Type}

/-- How many of the moves take a unit of the budget at most. -/
def Move.cost : List Move → Nat
  | [] => 0
  | .shift _ :: moves => cost moves
  | .reduce _ :: moves => cost moves + 1

theorem Move.cost_append (moves moves' : List Move) :
    cost (moves ++ moves') = cost moves + cost moves' := by
  induction moves with
  | nil => simp [cost]
  | cons move moves ih =>
    cases move with
    | shift _ => simp [cost, ih]
    | reduce _ =>
      simp only [List.cons_append, cost, ih]
      omega

mutual

theorem Tree.cost_moves {g : Grammar V} {symbol : Symbol} :
    (tree : Tree g symbol) → Move.cost tree.moves = tree.nodes
  | .leaf _ => rfl
  | .node _ children => by
    rw [Tree.moves, Move.cost_append, children.cost_moves]
    rfl

theorem Forest.cost_moves {g : Grammar V} {symbols : List Symbol} :
    (forest : Forest g symbols) → Move.cost forest.moves = forest.nodes
  | .nil => rfl
  | .cons first rest => by
    rw [Forest.moves, Move.cost_append, first.cost_moves, rest.cost_moves]
    rfl

end

theorem Grammar.reduceWithin_of_pos {g : Grammar V} {budget : Nat} (pos : 0 < budget) (r : RuleId)
    (values : List V) :
    ∃ left, budget ≤ left + 1 ∧ g.reduceWithin budget r values = (g.reduce r values, left) := by
  cases r with
  | zero => exact ⟨budget, Nat.le_succ _, rfl⟩
  | succ r =>
    cases budget with
    | zero => exact absurd pos (Nat.lt_irrefl 0)
    | succ budget => exact ⟨budget, Nat.le_refl _, rfl⟩

def Frame.entry (frame : Frame V) : Nat × V := (frame.position, frame.value)

namespace Parser

variable {p : Parser V} {c : Config ε V} {states states' : List StateId} {stack : List (Nat × V)}
  {token : Token} {tokens tokens' : List Token} {moves : List Move}

/-- A configuration has these states, positions and values on its stack, and these tokens before
it. -/
structure At (c : Config ε V) (states : List StateId) (stack : List (Nat × V))
    (tokens : List Token) : Prop where
  states : c.states = states
  stack : c.frames.map Frame.entry = stack
  ahead : c.lookahead.toList.map .ok ++ c.stream = tokens.map Except.ok
  open_ : c.exhausted = false

theorem at_initial {budget : Nat} :
    At (.initial budget (tokens.map .ok) : Config ε V) [] [] tokens :=
  ⟨rfl, rfl, rfl, rfl⟩

theorem act_shift [OfToken V] {target : StateId} (ahead : c.lookahead = some token)
    (edge : p.automaton.transition? c.top token.name = some target) :
    p.act c = .inr (shiftStep (c.note (.current c.top)) token target) := by
  have hs : p.shift? (c.note (.current c.top)) = some (token, target) :=
    shift?_eq_some_iff.mpr ⟨ahead, edge⟩
  rw [act, hs]

theorem act_reduce [OfToken V] {r : RuleId}
    (stuck : ∀ token, c.lookahead = some token →
      p.automaton.transition? c.top token.name = none)
    (complete : (p.automaton.state c.top).reduction = some r) :
    p.act c = p.reduceStep (c.note (.current c.top)) r := by
  have hs : p.shift? (c.note (.current c.top)) = none := by
    cases hs : p.shift? (c.note (.current c.top)) with
    | none => rfl
    | some shift =>
      obtain ⟨ahead, edge⟩ := shift?_eq_some_iff.mp hs
      exact absurd (edge.symm.trans (stuck _ ahead)) (Option.some_ne_none _)
  rw [act, hs]
  simp only [Config.top_note, complete]

theorem At.look (h : At c states stack (token :: tokens)) :
    ∃ looked, look [] c = .ok looked ∧ At looked states stack (token :: tokens) ∧
      looked.lookahead = some token ∧ looked.budget = c.budget := by
  obtain ⟨hstates, hstack, ahead, hopen⟩ := h
  cases hl : c.lookahead with
  | some held =>
    rw [hl] at ahead
    obtain ⟨he, _⟩ := List.cons.inj ahead
    cases he
    refine ⟨c, ?_, ⟨hstates, hstack, hl ▸ ahead, hopen⟩, hl, rfl⟩
    rw [Parser.look, if_neg (by simp [hl])]
  | none =>
    rw [hl] at ahead
    have stream : c.stream = .ok token :: tokens.map .ok := ahead
    have hlook : Parser.look [] c = .ok { c with
        lookahead := some token
        stream := tokens.map .ok
        stats := { c.stats with tokens := c.stats.tokens + 1 }
        journal := .event (.lookahead token) :: .pulled (.ok token) :: c.journal } := by
      rw [Parser.look, if_pos (by simp [hl, hopen]), stream]
      rw [pull, if_neg List.not_mem_nil]
    exact ⟨_, hlook, ⟨hstates, hstack, rfl, hopen⟩, rfl, rfl⟩

theorem At.top (h : At c states stack tokens) : c.top = topState states := by
  rw [Config.top_eq, h.states]

theorem At.shift [OfToken V] (h : At c states stack (token :: tokens))
    (ahead : c.lookahead = some token) (q : StateId) :
    At (shiftStep (c.note (.current c.top)) token q) (q :: states)
      ((token.position, ofToken token) :: stack) tokens where
  states := congrArg (q :: ·) h.states
  stack := congrArg ((token.position, ofToken token) :: ·) h.stack
  ahead := by
    have := h.ahead
    rw [ahead] at this
    exact (List.cons.inj this).2
  open_ := h.open_

theorem At.popFrames (h : At c states stack tokens) {r : RuleId} {n : Nat}
    (hn : (p.grammar.production r).predicate.length = n) (affordable : 0 < c.budget)
    (enough : n ≤ states.length) :
    ∃ left, c.budget ≤ left + 1 ∧
      p.popFrames c r =
        match p.grammar.reduce r ((stack.take n).reverse.map Prod.snd) with
        | .error e => .error (.reduction (p.grammar.ruleText r)
          (((stack.take n).reverse.head?).elim 0 Prod.fst) e)
        | .ok value => .ok ⟨((stack.take n).reverse.head?).elim 0 Prod.fst, value, left,
          c.frames.drop n⟩ := by
  obtain ⟨hstates, rfl, _, _⟩ := h
  rw [← hstates, Config.states, List.length_map] at enough
  rw [← List.map_take, ← List.map_reverse, List.map_map, List.head?_map, Option.elim_map]
  obtain ⟨left, hle, hreduce⟩ := p.grammar.reduceWithin_of_pos affordable r
    ((c.frames.take n).reverse.map Frame.value)
  refine ⟨left, hle, ?_⟩
  rw [Parser.popFrames, hn, if_neg (Nat.not_lt.mpr enough)]
  dsimp only
  rw [hreduce]
  change _ = match p.grammar.reduce r ((c.frames.take n).reverse.map Frame.value) with
    | .error e => _
    | .ok value => _
  cases p.grammar.reduce r ((c.frames.take n).reverse.map Frame.value) <;> rfl

theorem At.step_shift [OfToken V] (h : At c states stack (token :: tokens)) {q : StateId}
    (going : topState states ≠ Automaton.accept)
    (edge : p.automaton.transition? (topState states) token.name = some q) :
    ∃ next, p.step [] c = .inr next ∧
      At next (q :: states) ((token.position, ofToken token) :: stack) tokens ∧
      next.budget = c.budget := by
  rw [← h.top] at going
  obtain ⟨looked, hl, there, ahead, budget⟩ := h.look
  rw [← there.top] at edge
  exact ⟨_, (step_look going hl).trans (act_shift ahead edge), there.shift ahead q, budget⟩

theorem At.step_reduce [OfToken V] (h : At c states stack (token :: tokens)) {q : StateId}
    {r : RuleId} {n : Nat} (hn : (p.grammar.production r).predicate.length = n)
    (affordable : 0 < c.budget) (going : topState states ≠ Automaton.accept)
    (stuck : p.automaton.transition? (topState states) token.name = none)
    (complete : (p.automaton.state (topState states)).reduction = some r)
    (enough : n ≤ states.length)
    (edge : p.automaton.transition? (topState (states.drop n))
      (p.grammar.production r).subject = some q) :
    match p.grammar.reduce r ((stack.take n).reverse.map Prod.snd) with
    | .error e => ∃ ending, p.step [] c = .inl ending ∧ ending.outcome =
        .error (.parse (.reduction (p.grammar.ruleText r)
          (((stack.take n).reverse.head?).elim 0 Prod.fst) e))
    | .ok value => ∃ next, p.step [] c = .inr next ∧
        At next (q :: states.drop n)
          ((((stack.take n).reverse.head?).elim 0 Prod.fst, value) :: stack.drop n)
          (token :: tokens) ∧
        c.budget ≤ next.budget + 1 := by
  rw [← h.top] at going
  obtain ⟨looked, hl, there, ahead, budget⟩ := h.look
  rw [← there.top] at stuck complete
  have only : ∀ held, looked.lookahead = some held →
      p.automaton.transition? looked.top held.name = none := fun held hheld => by
    cases ahead.symm.trans hheld
    exact stuck
  rw [step_look going hl, act_reduce only complete]
  obtain ⟨left, hle, popped⟩ := there.popFrames hn (budget ▸ affordable) enough
  cases made : p.grammar.reduce r ((stack.take n).reverse.map Prod.snd) with
  | error e =>
    rw [made] at popped
    rcases reduceStep_cases (p := p) (c := looked.note (.current looked.top)) (r := r) with
      ⟨e', he, journal, hs⟩ | ⟨reduced, hr, _⟩
    · cases he.symm.trans popped
      exact ⟨_, hs, rfl⟩
    · cases hr.symm.trans popped
  | ok value =>
    rw [made] at popped
    have below : (looked.frames.drop n).map Frame.state = states.drop n := by
      rw [← there.states, Config.states, List.map_drop]
    rcases reduceStep_cases (p := p) (c := looked.note (.current looked.top)) (r := r) with
      ⟨e', he, _⟩ | ⟨reduced, hr, ⟨none, _⟩ | ⟨target, some, hs⟩⟩
    · cases he.symm.trans popped
    · cases hr.symm.trans popped
      rw [below] at none
      cases none.symm.trans edge
    · cases hr.symm.trans popped
      rw [below] at some
      cases some.symm.trans edge
      refine ⟨_, hs, ⟨?_, ?_, there.ahead, there.open_⟩, budget ▸ hle⟩
      · rw [states_reducedTo, below]
      · rw [← there.stack, ← List.map_drop]
        rfl

/-- A run gets to states and tokens with the stack of a replay, or ends with its error. -/
def Arrives [OfToken V] (p : Parser V) (c : Config ε V) (states : List StateId)
    (tokens : List Token) : Except ParseError (List (Nat × V)) → Prop
  | .error e => ∃ ending, p.Ends [] c ending ∧ ending.outcome = .error (.parse e)
  | .ok stack => ∃ c', p.Reaches [] c c' ∧ At c' states stack tokens

theorem Arrives.before [OfToken V] {next : Config ε V}
    {result : Except ParseError (List (Nat × V))} (hs : p.step [] c = .inr next)
    (h : p.Arrives next states tokens result) : p.Arrives c states tokens result := by
  cases result with
  | error e =>
    obtain ⟨ending, ends, outcome⟩ := h
    exact ⟨ending, (reaches_of_step hs).ends ends, outcome⟩
  | ok stack =>
    obtain ⟨c', reaches, there⟩ := h
    exact ⟨c', (reaches_of_step hs).trans reaches, there⟩

/-- A run follows the automaton, as far as the rules do not refuse. -/
theorem At.follow [OfToken V]
    (drives : p.automaton.Drives p.grammar states tokens moves states' tokens')
    (h : At c states stack tokens) (enough : Move.cost moves ≤ c.budget) :
    p.Arrives c states' tokens' (p.grammar.replay moves stack) := by
  induction drives generalizing c stack with
  | done => exact ⟨c, .refl, h⟩
  | shift going edge _ ih =>
    obtain ⟨next, hs, there, budget⟩ := h.step_shift going edge
    exact (ih there (budget ▸ enough)).before hs
  | @reduce states _ _ _ _ _ _ r going stuck complete sufficient edge _ ih =>
    have pos : 0 < c.budget := Nat.lt_of_lt_of_le (Nat.succ_pos _) enough
    have step := h.step_reduce rfl pos going stuck complete sufficient edge
    cases made : p.grammar.reduce r
        ((stack.take (p.grammar.production r).predicate.length).reverse.map Prod.snd) with
    | error e =>
      rw [made] at step
      obtain ⟨ending, hs, outcome⟩ := step
      simp only [Grammar.replay, made]
      exact ⟨ending, ends_of_step hs, outcome⟩
    | ok value =>
      rw [made] at step
      obtain ⟨next, hs, there, budget⟩ := step
      simp only [Grammar.replay, made]
      exact (ih there (Nat.le_of_succ_le_succ (Nat.le_trans enough budget))).before hs

end Parser

end ShiftFirst
