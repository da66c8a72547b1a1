import ShiftFirst.Proofs.Parser.Subjects

namespace ShiftFirst

variable {ε V : Type}

/-- The rows of tokens that the entries of a stack stand for, its top first, when moves have been
made: a shifted token stands for itself, and what a reduction makes stands for all that the entries
it takes stand for. -/
def Grammar.yields (g : Grammar V) : List Move → List (List Token) → List (List Token)
  | [], stack => stack
  | .shift token :: moves, stack => g.yields moves ([token] :: stack)
  | .reduce r :: moves, stack =>
    let n := (g.production r).predicate.length
    g.yields moves ((stack.take n).reverse.flatten :: stack.drop n)

/-- The tokens that a reduction by a rule covers when moves have been made. -/
def Grammar.covered (g : Grammar V) (moves : List Move) (r : RuleId) : List Token :=
  ((g.yields moves []).take (g.production r).predicate.length).reverse.flatten

theorem Grammar.yields_append {g : Grammar V} (moves moves' : List Move)
    (stack : List (List Token)) :
    g.yields (moves ++ moves') stack = g.yields moves' (g.yields moves stack) := by
  induction moves generalizing stack with
  | nil => rfl
  | cons move moves ih => cases move <;> exact ih _

theorem Grammar.flatten_yields {g : Grammar V} (moves : List Move) (stack : List (List Token)) :
    (g.yields moves stack).reverse.flatten = stack.reverse.flatten ++ Move.tokens moves := by
  induction moves generalizing stack with
  | nil => exact (List.append_nil _).symm
  | cons move moves ih =>
    cases move with
    | shift token =>
      refine (ih _).trans ?_
      rw [List.reverse_cons, List.flatten_append, List.append_assoc]
      rfl
    | reduce r =>
      refine (ih _).trans ?_
      rw [List.reverse_cons, List.flatten_append, List.flatten_singleton, ← List.flatten_append,
        ← List.reverse_append, List.take_append_drop]
      rfl

/-- What a reduction covers are the last of the tokens that have been shifted. -/
theorem Grammar.covered_suffix {g : Grammar V} (moves : List Move) (r : RuleId) :
    g.covered moves r <:+ Move.tokens moves := by
  refine ⟨((g.yields moves []).drop (g.production r).predicate.length).reverse.flatten, ?_⟩
  rw [covered, ← List.flatten_append, ← List.reverse_append, List.take_append_drop,
    flatten_yields]
  rfl

/-- A frame has the position of the first of the tokens that it stands for. -/
def Frame.Begins (frame : Frame V) (tokens : List Token) : Prop :=
  ∃ t rest, tokens = t :: rest ∧ frame.position = t.position

theorem Frame.begins_flatten {frames : List (Frame V)} {rows : List (List Token)}
    (h : List.Forall₂ Frame.Begins frames rows) (filled : frames ≠ []) :
    ∃ t rest, rows.flatten = t :: rest ∧ (frames.head?).elim 0 Frame.position = t.position := by
  cases h with
  | nil => exact absurd rfl filled
  | cons begins _ =>
    obtain ⟨t, rest, rfl, position⟩ := begins
    exact ⟨t, _, rfl, position⟩

namespace Parser

variable {p : Parser V} {skip : List Symbol} {stream : List (Except ε Token)} {budget : Nat}
  {c looked next : Config ε V} {ending : Ending ε V} {moves : List Move}

/-- The journal of a run tells of moves, and each frame has the position of the first token that it
stands for after these. -/
structure Placed (p : Parser V) (skip : List Symbol) (c : Config ε V) (moves : List Move) :
    Prop where
  records : Records skip c moves
  begins : List.Forall₂ Frame.Begins c.frames (p.grammar.yields moves [])

theorem Placed.covered (h : p.Placed skip c moves) {r : RuleId}
    (filled : (p.grammar.production r).predicate ≠ [])
    (enough : (p.grammar.production r).predicate.length ≤ c.frames.length) :
    ∃ t rest, p.grammar.covered moves r = t :: rest ∧
      ((c.frames.take (p.grammar.production r).predicate.length).reverse.head?).elim 0
        Frame.position = t.position := by
  refine Frame.begins_flatten (List.forall₂_reverse_iff.mpr (List.forall₂_take _ h.begins)) ?_
  refine List.ne_nil_of_length_pos ?_
  rw [List.length_reverse, List.length_take_of_le enough]
  exact List.length_pos_iff.mpr filled

theorem Placed.looks [OfToken V] (h : p.Placed skip c moves) (hl : look skip c = .ok looked) :
    p.Placed skip looked moves := by
  obtain ⟨items, looks⟩ := look_ok hl
  refine ⟨h.records.looks looks (looks.journal hl), ?_⟩
  rw [looks.frames]
  exact h.begins

theorem Placed.turn [OfToken V] (h : p.Placed skip c moves) (built : p.Built)
    (turn : p.Turn c next) : ∃ moves, p.Placed skip next moves := by
  cases turn with
  | @shift token target ahead edge =>
    refine ⟨_, h.records.shift ahead, ?_⟩
    rw [Grammar.yields_append]
    exact .cons ⟨token, [], rfl, rfl⟩ h.begins
  | @reduce r reduced target stuck complete popped edge =>
    refine ⟨_, h.records.reduce, ?_⟩
    obtain ⟨enough, below, position, _⟩ := popFrames_ok popped
    have filled := Grammar.predicate_ne_nil (built.canonical.le_of_reduction complete)
    obtain ⟨t, rest, covers, first⟩ := h.covered filled enough
    rw [Grammar.yields_append]
    refine .cons ⟨t, rest, covers, position.trans first⟩ ?_
    rw [below]
    exact List.forall₂_drop _ h.begins

theorem Placed.step [OfToken V] (built : p.Built) (h : ∃ moves, p.Placed skip c moves)
    (hs : p.step skip c = .inr next) : ∃ moves, p.Placed skip next moves := by
  obtain ⟨moves, h⟩ := h
  obtain ⟨_, looked, hl, turn⟩ := turn_of_step hs
  exact (h.looks hl).turn built turn

theorem placed_of_reaches [OfToken V] (built : p.Built)
    (h : p.Reaches skip (.initial budget stream) c) : ∃ moves, p.Placed skip c moves :=
  h.keeps (P := fun c => ∃ moves, p.Placed skip c moves) (Placed.step built)
    ⟨[], records_initial, .nil⟩

theorem act_refused [OfToken V] (h : p.act c = .inl ending) {text : String} {position : Nat}
    {cause : ReduceError}
    (failed : ending.outcome = .error (.parse (.reduction text position cause))) :
    ∃ r, (p.automaton.state c.top).reduction = some r ∧
      p.popFrames c r = .error (.reduction text position cause) ∧
      ending.journal = .event (.reducing r) :: .event (.current c.top) :: c.journal := by
  unfold act at h
  dsimp only at h
  split at h
  next => cases h
  next =>
    split at h
    next r complete =>
      cases popped : p.popFrames (c.note (.current c.top)) r with
      | error e =>
        rw [reduceStep_of_error popped] at h
        cases h
        cases failed
        exact ⟨r, complete, popped, rfl⟩
      | ok reduced =>
        rw [reduceStep_of_popFrames popped] at h
        split at h
        next =>
          cases h
          cases failed
        next => cases h
    next =>
      cases h
      simp only [Config.fail, reject] at failed
      split at failed <;> cases failed

theorem mem_of_pull_error {journal : List (Entry ε)} {e : ε}
    (h : pull skip c stream journal = .error ending) (failed : ending.outcome = .error (.input e)) :
    .error e ∈ stream := by
  induction stream generalizing journal with
  | nil => cases h
  | cons item rest ih =>
    cases item with
    | error e' =>
      cases h
      cases failed
      exact List.mem_cons_self
    | ok token =>
      simp only [pull] at h
      split at h
      next => exact List.mem_cons_of_mem _ (ih h)
      next => cases h

variable [OfToken V]

/-- An error of the input that ends a run comes from its stream. -/
theorem run_input_mem {e : ε} (h : (p.run skip budget stream).outcome = .error (.input e)) :
    .error e ∈ stream := by
  obtain ⟨ending, ⟨c, reaches, hs⟩, run⟩ := p.run_ends skip budget stream
  rw [run] at h
  obtain ⟨shifted, admits⟩ := admits_of_reaches reaches
  rcases end_of_step hs with ⟨top, rfl⟩ | ⟨going, _⟩
  · unfold finish at h
    split at h <;> cases h
  · cases hl : look skip c with
    | ok looked =>
      rw [step_look going hl] at hs
      rcases act_cases (p := p) (c := looked) with ⟨_, goes, _⟩ | ⟨failure, _, ends, halt⟩
      · cases goes.symm.trans hs
      · cases ends.symm.trans hs
        cases h
        cases halt
    | error ending' =>
      rw [step_look_error going hl] at hs
      cases hs
      unfold look at hl
      split at hl
      next => exact admits.read ▸ List.mem_append_right _ (mem_of_pull_error hl h)
      next => cases hl

/-- A token that a run does not expect comes from its stream, and is not passed over. -/
theorem run_unexpected_mem (built : p.Built) {name : Symbol} {value : String} {position : Nat}
    {expected : List Symbol}
    (h : (p.run skip budget stream).outcome =
      .error (.parse (.unexpectedToken name value position expected))) :
    ⟨name, value, position⟩ ∈ kept skip stream := by
  obtain ⟨c, looked, reaches, _, hl, halt⟩ := run_halts built h
  obtain ⟨shifted, admits⟩ := admits_of_reaches reaches
  obtain ⟨items, looks⟩ := look_ok hl
  have admits := admits.looks looks
  obtain ⟨rejected, _⟩ := halt.of_expected rfl
  have ahead : looked.lookahead = some ⟨name, value, position⟩ := by
    unfold reject at rejected
    split at rejected
    next held =>
      cases rejected
      exact held
    next => cases rejected
  rw [← admits.read, kept_append, admits.kept, ahead]
  simp

/-- A reduction that fails is the last move of its run, and is about the place where the first of
the tokens begins that it covers. -/
theorem run_refused_place (built : p.Built) {text : String} {position : Nat} {cause : ReduceError}
    (h : (p.run skip budget stream).outcome = .error (.parse (.reduction text position cause))) :
    ∃ moves r t rest, (p.run skip budget stream).moves = moves ++ [.reduce r] ∧
      text = p.grammar.ruleText r ∧ p.grammar.covered moves r = t :: rest ∧
      position = t.position ∧ t :: rest <:+: kept skip stream := by
  obtain ⟨c, looked, ending, reaches, _, hl, ends, run⟩ := run_acts built h
  rw [run] at h
  obtain ⟨r, complete, popped, journal⟩ := act_refused ends h
  obtain ⟨moves, placed⟩ := placed_of_reaches built reaches
  have placed := placed.looks hl
  obtain ⟨shifted, admits⟩ := admits_of_reaches reaches
  obtain ⟨items, looks⟩ := look_ok hl
  have admits := admits.looks looks
  -- The frames of the predicate are there, so the failure is that of the rule itself.
  have path : p.OnPath looked := by
    rw [OnPath, looks.states]
    exact onPath_of_reaches reaches
  obtain ⟨enough, _⟩ := path.complete built complete
  have filled := Grammar.predicate_ne_nil (built.canonical.le_of_reduction complete)
  obtain ⟨t, rest, covers, first⟩ := placed.covered filled enough
  rcases popFrames_error popped with ⟨short, _⟩ | ⟨source, refused, _⟩
  · cases short
  · cases refused
    refine ⟨moves, r, t, rest, ?_, rfl, covers, first, ?_⟩
    · rw [run, Ending.moves, journal]
      simpa [movesAfter] using placed.records.tells
        [.event (.current looked.top), .event (.reducing r)]
    · rw [← covers, ← admits.read, kept_append, admits.kept, ← admits.moves placed.records,
        List.append_assoc]
      obtain ⟨before, moved⟩ := Grammar.covered_suffix (g := p.grammar) moves r
      exact ⟨before, _, congrArg (· ++ _) moved⟩

end Parser

end ShiftFirst
