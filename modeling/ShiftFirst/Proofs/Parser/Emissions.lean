import ShiftFirst.Proofs.Parser.Soundness

namespace ShiftFirst

variable {ε V : Type}

section Derivations

variable {g : Grammar V}

/-- The rules that moves reduce by. -/
def Move.rules (moves : List Move) : List RuleId :=
  moves.filterMap fun
    | .shift _ => none
    | .reduce r => some r

theorem Move.rules_append (moves moves' : List Move) :
    rules (moves ++ moves') = rules moves ++ rules moves' :=
  List.filterMap_append

mutual

theorem Tree.rules_moves {symbol : Symbol} :
    (tree : Tree g symbol) → Move.rules tree.moves = tree.postorder
  | .leaf _ => rfl
  | .node k children => by
    rw [Tree.moves, Move.rules_append, children.rules_moves]
    rfl

theorem Forest.rules_moves {symbols : List Symbol} :
    (forest : Forest g symbols) → Move.rules forest.moves = forest.postorder
  | .nil => rfl
  | .cons first rest => by
    rw [Forest.moves, Move.rules_append, first.rules_moves, rest.rules_moves]
    rfl

end

mutual

theorem Tree.length_postorder {symbol : Symbol} :
    (tree : Tree g symbol) → tree.postorder.length = tree.nodes
  | .leaf _ => rfl
  | .node k children => by
    rw [Tree.postorder, List.length_append, children.length_postorder]
    rfl

theorem Forest.length_postorder {symbols : List Symbol} :
    (forest : Forest g symbols) → forest.postorder.length = forest.nodes
  | .nil => rfl
  | .cons first rest => by
    rw [Forest.postorder, List.length_append, first.length_postorder, rest.length_postorder]
    rfl

end

end Derivations

namespace ParseEvent

def isLookahead : ParseEvent → Bool
  | lookahead _ => true
  | _ => false

def isShifting : ParseEvent → Bool
  | shifting _ => true
  | _ => false

def isReducing : ParseEvent → Bool
  | reducing _ => true
  | _ => false

/-- Events before an acceptance account for the tokens that are looked at, and for the number of
those that are shifted. -/
structure Account (events : List ParseEvent) (tokens : List Token) (shifts : Nat) : Prop where
  lookaheads : events.filter isLookahead = tokens.map lookahead
  shifted : (events.filter isShifting).length = shifts
  before : .accepted ∉ events

namespace Account

theorem append {events events' : List ParseEvent} {tokens tokens' : List Token}
    {shifts shifts' : Nat} (h : Account events tokens shifts)
    (h' : Account events' tokens' shifts') :
    Account (events ++ events') (tokens ++ tokens') (shifts + shifts') where
  lookaheads := by rw [List.filter_append, h.lookaheads, h'.lookaheads, List.map_append]
  shifted := by rw [List.filter_append, List.length_append, h.shifted, h'.shifted]
  before := List.not_mem_append h.before h'.before

theorem looked (tokens : List Token) : Account (tokens.map lookahead) tokens 0 := by
  induction tokens with
  | nil => exact ⟨rfl, rfl, List.not_mem_nil⟩
  | cons token tokens ih =>
    have first : Account [lookahead token] [token] 0 := ⟨rfl, rfl, by simp⟩
    exact first.append ih

theorem shift (q target : StateId) : Account [.current q, .shifting target] [] 1 :=
  ⟨rfl, rfl, by simp⟩

/-- Events of other kinds count for nothing. -/
theorem quiet {events : List ParseEvent} (h : ∀ e ∈ events,
    e.isLookahead = false ∧ e.isShifting = false ∧ e ≠ .accepted) : Account events [] 0 where
  lookaheads := List.filter_eq_nil_iff.mpr fun e mem => by simp [(h e mem).1]
  shifted := List.length_eq_zero_iff.mpr <|
    List.filter_eq_nil_iff.mpr fun e mem => by simp [(h e mem).2.1]
  before mem := (h _ mem).2.2 rfl

end Account

end ParseEvent

def Entry.event? : Entry ε → Option ParseEvent
  | .pulled _ => none
  | .event e => some e

/-- The events of a run, in order. -/
def Ending.events (ending : Ending ε V) : List ParseEvent := ending.journal.filterMap Entry.event?

/-- The events of a run so far, in order. -/
def Config.events (c : Config ε V) : List ParseEvent := (c.journal.filterMap Entry.event?).reverse

/-- The reductions that a journal notes down are those among the moves it tells of. -/
theorem rules_movesAfter (seen : Option Token) (entries : List (Entry ε)) :
    (entries.filterMap Entry.event?).filter ParseEvent.isReducing =
      (Move.rules (movesAfter seen entries)).map ParseEvent.reducing := by
  induction entries generalizing seen with
  | nil => rfl
  | cons entry entries ih =>
    cases entry with
    | pulled item => exact ih seen
    | event e =>
      cases e with
      | lookahead token => exact ih (some token)
      | shifting target =>
        have quiet : Move.rules (seen.toList.map Move.shift) = [] := by cases seen <;> rfl
        rw [movesAfter, Move.rules_append, quiet]
        exact ih none
      | reducing r => exact congrArg (ParseEvent.reducing r :: ·) (ih seen)
      | begun => exact ih seen
      | current q => exact ih seen
      | back q => exact ih seen
      | accepted => exact ih seen

theorem events_reports (skip : List Symbol) (items : List (Except ε Token)) :
    (items.flatMap (reports skip)).filterMap Entry.event? =
      (kept skip items).map ParseEvent.lookahead := by
  induction items with
  | nil => rfl
  | cons item items ih =>
    rw [List.flatMap_cons, List.filterMap_append, ih]
    cases item with
    | error e => rfl
    | ok token =>
      rw [kept_cons]
      by_cases passed : token.name ∈ skip
      · rw [reports, if_pos passed, if_pos passed]
        rfl
      · rw [reports, if_neg passed, if_neg passed]
        rfl

namespace Parser

variable {p : Parser V} {skip : List Symbol} {c looked next : Config ε V} {ending : Ending ε V}

/-- The events of a run that goes on account for the tokens that it has kept, and for those that it
has shifted. -/
def Emits (skip : List Symbol) (c : Config ε V) : Prop :=
  ParseEvent.Account c.events (kept skip c.read) c.stats.shifts

theorem emits_initial [OfToken V] {budget : Nat} {stream : List (Except ε Token)} :
    Emits skip (.initial budget stream : Config ε V) :=
  show ParseEvent.Account [.begun] [] 0 from
    .quiet (by simp [ParseEvent.isLookahead, ParseEvent.isShifting])

theorem Looks.events {items : List (Except ε Token)} (looks : Looks skip c looked items)
    (h : look skip c = .ok looked) :
    looked.events = c.events ++ (kept skip items).map ParseEvent.lookahead := by
  rw [Config.events, Config.events, ← List.filterMap_reverse, ← List.filterMap_reverse,
    looks.journal h, List.filterMap_append, events_reports]

theorem Emits.look (h : Emits skip c) (hl : look skip c = .ok looked) : Emits skip looked := by
  obtain ⟨items, looks⟩ := look_ok hl
  rw [Emits, looks.events hl, looks.read, kept_append, looks.shifts]
  exact h.append (.looked _)

theorem Emits.turn [OfToken V] (h : Emits skip c) (turn : p.Turn c next) : Emits skip next := by
  cases turn with
  | @shift token target =>
    have events : (shiftStep (c.note (.current c.top)) token target).events =
        c.events ++ [.current c.top, .shifting target] := by
      simp [Config.events, shiftStep, Config.note, Entry.event?]
    have account := h.append (.shift c.top target)
    rwa [List.append_nil, ← events] at account
  | @reduce r reduced target =>
    obtain ⟨q, events⟩ : ∃ q, (reducedTo (c.note (.current c.top)) r reduced target).events =
        c.events ++ [.current c.top, .reducing r, .back q] := by
      simp [Config.events, reducedTo, Config.note, Entry.event?]
    have idle : ParseEvent.Account [.current c.top, .reducing r, .back q] [] 0 :=
      .quiet (by simp [ParseEvent.isLookahead, ParseEvent.isShifting])
    have account := h.append idle
    rwa [List.append_nil, ← events] at account

theorem Emits.step [OfToken V] (h : Emits skip c) (hs : p.step skip c = .inr next) :
    Emits skip next := by
  obtain ⟨_, looked, hl, turn⟩ := turn_of_step hs
  exact (h.look hl).turn turn

theorem emits_of_reaches [OfToken V] {budget : Nat} {stream : List (Except ε Token)}
    (h : p.Reaches skip (.initial budget stream) c) : Emits skip c :=
  h.keeps Emits.step emits_initial

theorem pull_error_events {stream : List (Except ε Token)} {journal : List (Entry ε)}
    (h : pull skip c stream journal = .error ending) :
    ending.journal.filterMap Entry.event? = journal.filterMap Entry.event? := by
  induction stream generalizing journal with
  | nil => simp [pull] at h
  | cons item rest ih =>
    cases item with
    | error e =>
      cases h
      rfl
    | ok token =>
      simp only [pull] at h
      split at h
      next =>
        have same := ih h
        exact same
      next => simp at h

theorem accepted_not_mem (h : Emits skip c) :
    .accepted ∉ c.journal.filterMap Entry.event? := fun mem =>
  h.before (List.mem_reverse.mpr mem)

/-- A step that ends a run in an error does not tell of acceptance. -/
theorem Emits.fails [OfToken V] (h : Emits skip c) (hs : p.step skip c = .inl ending)
    {failure : Failure ε} (failed : ending.outcome = .error failure) :
    .accepted ∉ ending.journal.filterMap Entry.event? := by
  by_cases top : c.top = Automaton.accept
  · rw [step_accept top] at hs
    cases hs
    unfold finish at failed ⊢
    split at failed
    next => exact accepted_not_mem h
    next => cases failed
  cases hl : Parser.look skip c with
  | error ending' =>
    rw [step_look_error top hl] at hs
    cases hs
    unfold Parser.look at hl
    split at hl
    next =>
      rw [pull_error_events hl]
      exact accepted_not_mem h
    next => simp at hl
  | ok looked =>
    rw [step_look top hl] at hs
    have before := accepted_not_mem (h.look hl)
    rcases act_end_journal hs with journal | ⟨r, _, journal⟩
    · simpa [journal, Entry.event?] using before
    · simpa [journal, Entry.event?] using before

theorem run_fails_events [OfToken V] {budget : Nat} {stream : List (Except ε Token)}
    {failure : Failure ε} (failed : (p.run skip budget stream).outcome = .error failure) :
    .accepted ∉ (p.run skip budget stream).events := by
  obtain ⟨ending, ⟨c, reaches, hs⟩, run⟩ := p.run_ends skip budget stream
  rw [run] at failed ⊢
  rw [Ending.events, List.filterMap_reverse, List.mem_reverse]
  exact (emits_of_reaches reaches).fails hs failed

/-- The events of a run that accepts: a lookahead for each token it has kept, a shift for each it
has shifted, a reduction for each of its moves that is one, and acceptance at the end. -/
theorem run_ok_events [OfToken V] {budget : Nat} {stream : List (Except ε Token)} {v : V}
    {stats : Stats} (h : (p.run skip budget stream).outcome = .ok (v, stats)) :
    ∃ before, (p.run skip budget stream).events = before ++ [.accepted] ∧ .accepted ∉ before ∧
      before.filter ParseEvent.isLookahead =
        (kept skip (p.run skip budget stream).read).map ParseEvent.lookahead ∧
      (before.filter ParseEvent.isShifting).length = stats.shifts ∧
      before.filter ParseEvent.isReducing =
        (Move.rules (p.run skip budget stream).moves).map ParseEvent.reducing := by
  have reductions := rules_movesAfter none (p.run skip budget stream).journal
  rw [← Ending.moves, ← Ending.events] at reductions
  obtain ⟨ending, ⟨c, reaches, hs⟩, run⟩ := p.run_ends skip budget stream
  rw [run] at h reductions ⊢
  rcases end_of_step hs with ⟨_, rfl⟩ | ⟨_, ⟨e, failed⟩ | ⟨_, failure, _, _, failed⟩⟩
  · obtain ⟨lookaheads, shifts, before⟩ := emits_of_reaches reaches
    have outcome : (p.finish c).outcome = .ok (v, stats) := h
    have events : (Ending.mk (p.finish c).outcome (p.finish c).journal.reverse).events =
          c.events ++ [.accepted] ∧ stats = c.stats := by
      rw [Ending.events, Config.events, List.filterMap_reverse, ← List.reverse_cons]
      unfold finish at outcome ⊢
      split at outcome
      next => cases outcome
      next =>
        cases outcome
        exact ⟨rfl, rfl⟩
    obtain ⟨events, rfl⟩ := events
    rw [events, List.filter_append] at reductions
    refine ⟨c.events, events, before, ?_, shifts, (List.append_nil _).symm.trans reductions⟩
    rw [read_finish]
    exact lookaheads
  · cases failed.symm.trans h
  · cases failed.symm.trans h

end Parser

end ShiftFirst
