import ShiftFirst.Proofs.Parser.Stack

namespace ShiftFirst

variable {ε ε' V : Type}

/-- A token that stands elsewhere. -/
def Token.relocate (μ : Nat → Nat) (t : Token) : Token := { t with position := μ t.position }

def Frame.relocate (μ : Nat → Nat) (frame : Frame V) : Frame V :=
  { frame with position := μ frame.position }

def Reduced.relocate (μ : Nat → Nat) (reduced : Reduced V) : Reduced V :=
  { reduced with
    position := μ reduced.position
    below := reduced.below.map (Frame.relocate μ) }

/-- An error about tokens that stand elsewhere. -/
def ParseError.relocate (μ : Nat → Nat) : ParseError → ParseError
  | .unexpectedToken name value position expected =>
    .unexpectedToken name value (μ position) expected
  | .unexpectedEnd expected => .unexpectedEnd expected
  | .reduction rule position source => .reduction rule (μ position) source
  | .missingGoto state symbol => .missingGoto state symbol
  | .emptyStack => .emptyStack

theorem ParseError.relocate_id (e : ParseError) : e.relocate id = e := by
  cases e <;> rfl

def Failure.relocate (μ : Nat → Nat) (ν : ε → ε') : Failure ε → Failure ε'
  | .input e => .input (ν e)
  | .parse e => .parse (e.relocate μ)

/-- An item of a stream whose tokens stand elsewhere, and whose errors are others. -/
def relocateItem (μ : Nat → Nat) (ν : ε → ε') : Except ε Token → Except ε' Token
  | .ok t => .ok (t.relocate μ)
  | .error e => .error (ν e)

theorem Failure.relocate_id (e : Failure ε) : e.relocate id id = e := by
  cases e with
  | input e => rfl
  | parse e => exact congrArg Failure.parse e.relocate_id

theorem relocateItem_id (item : Except ε Token) : relocateItem id id item = item := by
  cases item <;> rfl

/-- Two runs end with the same result, or with the same error about other places. -/
def Ending.Displaced (μ : Nat → Nat) (ν : ε → ε') (ending : Ending ε V) (ending' : Ending ε' V) :
    Prop :=
  ending'.outcome = ending.outcome.mapError (Failure.relocate μ ν)

namespace Parser

variable {p p' : Parser V} {φ : RuleId → RuleId} {skip skip' : List Symbol} {c : Config ε V}
  {c' : Config ε' V} {μ : Nat → Nat} {ν : ε → ε'}

/-- Two parsers do the same in every state, where `φ` takes the number of a rule that the one
reduces by to the number of the rule that the other reduces by. -/
structure Mimics (p p' : Parser V) (φ : RuleId → RuleId) : Prop where
  begins : φ 0 = 0
  production : ∀ r, p'.grammar.production (φ r) = p.grammar.production r
  reduceWithin : ∀ budget r values,
    p'.grammar.reduceWithin budget (φ r) values = p.grammar.reduceWithin budget r values
  transition? : ∀ q symbol, p'.automaton.transition? q symbol = p.automaton.transition? q symbol
  reduction : ∀ q,
    (p'.automaton.state q).reduction = (p.automaton.state q).reduction.map φ
  expected : ∀ q, p'.expected q = p.expected q

theorem Mimics.refl (p : Parser V) : p.Mimics p id where
  begins := rfl
  production _ := rfl
  reduceWithin _ _ _ := rfl
  transition? _ _ := rfl
  reduction _ := (Option.map_id_apply).symm
  expected _ := rfl

/-- An item that is not passed over. -/
def counts (skip : List Symbol) : Except ε Token → Bool
  | .ok t => t.name ∉ skip
  | .error _ => true

theorem counts_relocateItem (item : Except ε Token) :
    counts skip (relocateItem μ ν item) = counts skip item := by
  cases item <;> rfl

theorem pull_of_counts {t : Token} (held : counts skip (.ok t : Except ε Token))
    (rest : List (Except ε Token)) (journal : List (Entry ε)) :
    pull skip c (.ok t :: rest) journal = .ok { c with
      lookahead := some t
      stream := rest
      stats := { c.stats with tokens := c.stats.tokens + 1 }
      journal := .event (.lookahead t) :: .pulled (.ok t) :: journal } := by
  rw [pull, if_neg (of_decide_eq_true held)]

/-- What is passed over leaves its traces in the journal alone. -/
theorem exists_pull_eq (skip : List Symbol) (c : Config ε V) (stream : List (Except ε Token))
    (journal : List (Entry ε)) :
    ∃ rest journal', pull skip c stream journal = pull skip c rest journal' ∧
      rest.filter (counts skip) = stream.filter (counts skip) ∧
      ∀ item ∈ rest.head?, counts skip item := by
  induction stream generalizing journal with
  | nil => exact ⟨[], journal, rfl, rfl, by simp⟩
  | cons item stream ih =>
    by_cases held : counts skip item
    · exact ⟨item :: stream, journal, rfl, rfl, by simpa using held⟩
    · cases item with
      | error e => exact absurd rfl held
      | ok t =>
        have passed : t.name ∈ skip := by simpa [counts] using held
        obtain ⟨rest, journal', same, filtered, first⟩ := ih (.pulled (.ok t) :: journal)
        refine ⟨rest, journal', ?_, ?_, first⟩
        · rw [pull, if_pos passed, same]
        · rw [filtered, List.filter_cons_of_neg held]

/-- Two runs are at the same point over streams that are the same up to the places of the tokens
and up to those that each passes over. -/
structure Displaced (skip skip' : List Symbol) (μ : Nat → Nat) (ν : ε → ε') (c : Config ε V)
    (c' : Config ε' V) : Prop where
  frames : c'.frames = c.frames.map (Frame.relocate μ)
  lookahead : c'.lookahead = c.lookahead.map (Token.relocate μ)
  exhausted : c'.exhausted = c.exhausted
  budget : c'.budget = c.budget
  stats : c'.stats = c.stats
  stream : c'.stream.filter (counts skip') =
    (c.stream.filter (counts skip)).map (relocateItem μ ν)

namespace Displaced

variable (h : Displaced skip skip' μ ν c c')
include h

theorem top : c'.top = c.top := by
  rw [Config.top, Config.top, h.frames, List.head?_map]
  cases c.frames.head? <;> rfl

theorem note (e e' : ParseEvent) : Displaced skip skip' μ ν (c.note e) (c'.note e') :=
  ⟨h.frames, h.lookahead, h.exhausted, h.budget, h.stats, h.stream⟩

/-- Both look at the same token, or both come upon the same error. -/
theorem pull (stream : List (Except ε Token)) (stream' : List (Except ε' Token))
    (journal : List (Entry ε)) (journal' : List (Entry ε'))
    (same : stream'.filter (counts skip') =
      (stream.filter (counts skip)).map (relocateItem μ ν)) :
    (∃ looked looked', Parser.pull skip c stream journal = .ok looked ∧
      Parser.pull skip' c' stream' journal' = .ok looked' ∧
      Displaced skip skip' μ ν looked looked') ∨
    ∃ ending ending', Parser.pull skip c stream journal = .error ending ∧
      Parser.pull skip' c' stream' journal' = .error ending' ∧ ending.Displaced μ ν ending' := by
  obtain ⟨rest, told, pulls, filtered, first⟩ := exists_pull_eq skip c stream journal
  obtain ⟨rest', told', pulls', filtered', first'⟩ :=
    exists_pull_eq skip' c' stream' journal'
  rw [← filtered, ← filtered'] at same
  rw [pulls, pulls']
  cases rest with
  | nil =>
    cases rest' with
    | nil =>
      refine Or.inl ⟨_, _, rfl, rfl, ?_⟩
      exact ⟨h.frames, h.lookahead, rfl, h.budget, h.stats, rfl⟩
    | cons item' rest' =>
      rw [List.filter_cons_of_pos (first' item' rfl)] at same
      cases same
  | cons item rest =>
    rw [List.filter_cons_of_pos (first item rfl), List.map_cons] at same
    cases rest' with
    | nil => cases same
    | cons item' rest' =>
      rw [List.filter_cons_of_pos (first' item' rfl)] at same
      obtain ⟨rfl, behind⟩ := List.cons.inj same
      cases item with
      | error e => exact Or.inr ⟨_, _, rfl, rfl, rfl⟩
      | ok t =>
        have taken := pull_of_counts (c := c) (first _ rfl) rest told
        have taken' := pull_of_counts (c := c') (first' _ rfl) rest' told'
        refine Or.inl ⟨_, _, taken, taken', ?_⟩
        refine ⟨h.frames, rfl, h.exhausted, h.budget, ?_, behind⟩
        rw [h.stats]

theorem look :
    (∃ looked looked', Parser.look skip c = .ok looked ∧ Parser.look skip' c' = .ok looked' ∧
      Displaced skip skip' μ ν looked looked') ∨
    ∃ ending ending', Parser.look skip c = .error ending ∧ Parser.look skip' c' = .error ending' ∧
      ending.Displaced μ ν ending' := by
  have idle : (c'.lookahead.isNone ∧ !c'.exhausted) ↔ (c.lookahead.isNone ∧ !c.exhausted) := by
    rw [h.lookahead, h.exhausted, Option.isNone_map]
  unfold Parser.look
  by_cases looks : c.lookahead.isNone ∧ !c.exhausted
  · rw [if_pos looks, if_pos (idle.mpr looks)]
    exact h.pull _ _ _ _ h.stream
  · rw [if_neg looks, if_neg (mt idle.mp looks)]
    exact Or.inl ⟨c, c', rfl, rfl, h⟩

variable (m : p.Mimics p' φ)
include m

theorem popFrames {r : RuleId} (filled : (p.grammar.production r).predicate ≠ []) :
    p'.popFrames c' (φ r) =
      ((p.popFrames c r).map (Reduced.relocate μ)).mapError (ParseError.relocate μ) := by
  simp only [Parser.popFrames, Grammar.ruleText, m.production, m.reduceWithin, h.frames, h.budget,
    List.length_map]
  by_cases few : c.frames.length < (p.grammar.production r).predicate.length
  · rw [if_pos few, if_pos few]
    rfl
  · rw [if_neg few, if_neg few, ← List.map_take, ← List.map_reverse, ← List.map_drop]
    have some : (c.frames.take (p.grammar.production r).predicate.length).reverse ≠ [] := by
      have := List.length_pos_iff.mpr filled
      rw [← List.length_pos_iff, List.length_reverse, List.length_take]
      omega
    obtain ⟨first, others, popped⟩ := List.exists_cons_of_ne_nil some
    have values : (List.map (Frame.relocate μ) (first :: others)).map Frame.value =
        (first :: others).map Frame.value := by
      rw [List.map_map]
      rfl
    rw [popped, values]
    obtain ⟨made | made, left⟩ :=
      p.grammar.reduceWithin c.budget r ((first :: others).map Frame.value) <;> rfl

theorem shift? : p'.shift? c' = (p.shift? c).map (Prod.map (Token.relocate μ) id) := by
  rw [Parser.shift?, Parser.shift?, h.lookahead, h.top]
  cases c.lookahead with
  | none => rfl
  | some t =>
    simp only [Option.map_some, Token.relocate, Option.bind_eq_bind, Option.bind_some,
      m.transition?]
    cases p.automaton.transition? c.top t.name <;> rfl

theorem reject : p'.reject c' = (p.reject c).relocate μ := by
  rw [Parser.reject, Parser.reject, h.lookahead, h.top, m.expected]
  cases c.lookahead <;> rfl

theorem finish : (p.finish c).Displaced μ ν (p'.finish c') := by
  have popped := h.popFrames m (r := 0) (Grammar.predicate_ne_nil (Nat.zero_le _))
  rw [m.begins] at popped
  rw [Parser.finish, Parser.finish, popped]
  cases p.popFrames c 0 with
  | error e => rfl
  | ok reduced =>
    exact congrArg (fun stats => Except.ok (reduced.value, stats)) h.stats

theorem reduceStep {r : RuleId} (filled : (p.grammar.production r).predicate ≠ []) :
    Sum.LiftRel (Ending.Displaced μ ν) (Displaced skip skip' μ ν) (p.reduceStep c r)
      (p'.reduceStep c' (φ r)) := by
  have popped := h.popFrames m filled
  cases hp : p.popFrames c r with
  | error e =>
    rw [hp] at popped
    rw [reduceStep_of_error hp, reduceStep_of_error popped]
    exact .inl rfl
  | ok reduced =>
    rw [hp] at popped
    have below : (reduced.relocate μ).below.map Frame.state = reduced.below.map Frame.state := by
      rw [Reduced.relocate, List.map_map]
      rfl
    rw [reduceStep_of_popFrames hp, reduceStep_of_popFrames popped, below, m.production,
      m.transition?]
    cases p.automaton.transition? (topState (reduced.below.map Frame.state))
        (p.grammar.production r).subject with
    | none => exact .inl rfl
    | some target =>
      refine .inr ⟨rfl, h.lookahead, h.exhausted, rfl, ?_, h.stream⟩
      exact congrArg (fun stats => { stats with reductions := stats.reductions + 1 }) h.stats

variable [OfToken V] (alike : ∀ t : Token, (ofToken (t.relocate μ) : V) = ofToken t)
  (built : p.Built)
include alike built

theorem act :
    Sum.LiftRel (Ending.Displaced μ ν) (Displaced skip skip' μ ν) (p.act c) (p'.act c') := by
  have noted : Displaced skip skip' μ ν (c.note (.current c.top)) (c'.note (.current c'.top)) :=
    h.note _ _
  unfold Parser.act
  dsimp only
  rw [noted.shift? m]
  cases p.shift? (c.note (.current c.top)) with
  | some shift =>
    obtain ⟨t, target⟩ := shift
    refine .inr ⟨?_, rfl, h.exhausted, h.budget, ?_, h.stream⟩
    · have frame := alike t
      simp only [Parser.shiftStep, Config.note, id_eq, h.frames, List.map_cons, frame]
      rfl
    · exact congrArg (fun stats => { stats with shifts := stats.shifts + 1 }) h.stats
  | none =>
    simp only [Option.map_none, noted.top, m.reduction]
    cases complete : (p.automaton.state (c.note (.current c.top)).top).reduction with
    | none =>
      refine .inl ?_
      rw [noted.reject m]
      rfl
    | some r =>
      have known := built.canonical.le_of_reduction complete
      exact noted.reduceStep m (Grammar.predicate_ne_nil known)

theorem step :
    Sum.LiftRel (Ending.Displaced μ ν) (Displaced skip skip' μ ν) (p.step skip c)
      (p'.step skip' c') := by
  by_cases accepts : c.top = Automaton.accept
  · rw [step_accept accepts, step_accept (h.top.trans accepts)]
    exact .inl (h.finish m)
  · have going : c'.top ≠ Automaton.accept := h.top.trans_ne accepts
    rcases h.look with ⟨looked, looked', hl, hl', there⟩ | ⟨ending, ending', hl, hl', same⟩
    · rw [step_look accepts hl, step_look going hl']
      exact there.act m alike built
    · rw [step_look_error accepts hl, step_look_error going hl']
      exact .inl same

end Displaced

/-- A run of a parser that does the same has the same result, or the same error. Where the tokens
stand, and what is passed over between them, is nothing to it: the error is about the other
places. -/
theorem Mimics.run [OfToken V] (m : p.Mimics p' φ) (built : p.Built)
    (alike : ∀ t : Token, (ofToken (t.relocate μ) : V) = ofToken t) (skip skip' : List Symbol)
    (budget : Nat) {stream : List (Except ε Token)} {stream' : List (Except ε' Token)}
    (same : stream'.filter (counts skip') =
      (stream.filter (counts skip)).map (relocateItem μ ν)) :
    (p'.run skip' budget stream').outcome =
      (p.run skip budget stream).outcome.mapError (Failure.relocate μ ν) := by
  have begins : Displaced skip skip' μ ν (.initial budget stream : Config ε V)
      (.initial budget stream') := ⟨rfl, rfl, rfl, rfl, rfl, same⟩
  obtain ⟨ending, ends, run⟩ := p.run_ends skip budget stream
  obtain ⟨ending', ends', displaced⟩ :=
    ends.simulated (fun related => Displaced.step related m alike built) begins
  rw [run, run_eq ends']
  exact displaced

/-- On one stream a parser that does the same has the same result or the same error. -/
theorem Mimics.outcome_eq [OfToken V] (m : p.Mimics p' φ) (built : p.Built) (skip : List Symbol)
    (budget : Nat) (stream : List (Except ε Token)) :
    (p'.run skip budget stream).outcome = (p.run skip budget stream).outcome := by
  have same : stream.filter (counts skip) =
      (stream.filter (counts skip)).map (relocateItem id id) := by
    rw [funext relocateItem_id, List.map_id']
  have ends := m.run built (fun _ => rfl) skip skip budget same
  rw [funext Failure.relocate_id] at ends
  rw [ends]
  cases (p.run skip budget stream).outcome <;> rfl

/-- The tokens that are not passed over. -/
def unskipped (skip : List Symbol) (tokens : List Token) : List Token :=
  tokens.filter fun t => t.name ∉ skip

/-- Two ends of runs have the same result or the same error. -/
def Agree (ending : Ending ε V) (ending' : Ending ε' V) : Prop :=
  ∃ result : Except ParseError (V × Stats), ending.outcome = result.mapError .parse ∧
    ending'.outcome = result.mapError .parse

/-- A run over tokens that all stay where they are ends as the other does. -/
theorem agree_of_displaced {ending : Ending Empty V} {ending' : Ending ε V}
    (h : ending.Displaced id Empty.elim ending') : Agree ending' ending := by
  obtain ⟨outcome, journal⟩ := ending
  rcases outcome with ⟨e | e⟩ | result
  · exact e.elim
  · refine ⟨.error e, h.trans ?_, rfl⟩
    exact congrArg (fun e => Except.error (Failure.parse e)) e.relocate_id
  · exact ⟨.ok result, h, rfl⟩

/-- A run that passes over tokens does as it does without them. -/
theorem run_skip [OfToken V] {p : Parser V} (built : p.Built) (skip : List Symbol) (budget : Nat)
    (tokens : List Token) :
    Agree (p.run skip budget (tokens.map (Except.ok (ε := ε))))
      (p.parse budget (unskipped skip tokens)) := by
  refine agree_of_displaced ((Mimics.refl p).run built (fun _ => rfl) [] skip budget ?_)
  have left : ((unskipped skip tokens).map Except.ok).filter (counts (ε := Empty) []) =
      (unskipped skip tokens).map .ok := List.filter_eq_self.mpr fun item _ => by
    cases item <;> simp [counts]
  rw [left, List.filter_map, List.map_map]
  rfl

end Parser

end ShiftFirst
