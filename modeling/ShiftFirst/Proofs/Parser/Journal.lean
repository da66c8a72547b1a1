import ShiftFirst.Proofs.Parser.Follow
import ShiftFirst.Proofs.Parser.Steps

namespace ShiftFirst

variable {ε V : Type}

/-- The tokens that are shifted by the moves. -/
def Move.tokens (moves : List Move) : List Token :=
  moves.filterMap fun
    | .shift token => some token
    | .reduce _ => none

theorem Move.tokens_append (moves moves' : List Move) :
    tokens (moves ++ moves') = tokens moves ++ tokens moves' :=
  List.filterMap_append

/-- The moves that entries of a journal tell of. A shift is that of the token seen last; `seen` is
the one seen before them all. -/
def movesAfter (seen : Option Token) : List (Entry ε) → List Move
  | [] => []
  | .event (.lookahead token) :: later => movesAfter (some token) later
  | .event (.shifting _) :: later => seen.toList.map .shift ++ movesAfter none later
  | .event (.reducing r) :: later => .reduce r :: movesAfter seen later
  | _ :: later => movesAfter seen later

theorem movesAfter_append (seen : Option Token) (past later : List (Entry ε)) :
    ∃ seen', movesAfter seen (past ++ later) = movesAfter seen past ++ movesAfter seen' later := by
  induction past generalizing seen with
  | nil => exact ⟨seen, rfl⟩
  | cons entry past ih =>
    cases entry with
    | pulled item => exact ih seen
    | event e =>
      cases e with
      | lookahead token => exact ih (some token)
      | shifting target =>
        obtain ⟨seen', same⟩ := ih none
        refine ⟨seen', ?_⟩
        rw [List.cons_append, movesAfter, same, movesAfter, List.append_assoc]
      | reducing r =>
        obtain ⟨seen', same⟩ := ih seen
        exact ⟨seen', congrArg (Move.reduce r :: ·) same⟩
      | begun => exact ih seen
      | current q => exact ih seen
      | back q => exact ih seen
      | accepted => exact ih seen

theorem movesAfter_mono {past journal : List (Entry ε)} (h : past <+: journal) :
    movesAfter none past <+: movesAfter none journal := by
  obtain ⟨later, rfl⟩ := h
  obtain ⟨seen, same⟩ := movesAfter_append none past later
  exact ⟨_, same.symm⟩

/-- The moves of a run, by its journal. -/
def Ending.moves (ending : Ending ε V) : List Move := movesAfter none ending.journal

/-- What a run notes down when it takes an item from its stream. -/
def reports (skip : List Symbol) : Except ε Token → List (Entry ε)
  | .error e => [.pulled (.error e)]
  | .ok token =>
    if token.name ∈ skip then [.pulled (.ok token)]
    else [.pulled (.ok token), .event (.lookahead token)]

theorem movesAfter_reports (skip : List Symbol) (items : List (Except ε Token))
    (seen : Option Token) (later : List (Entry ε)) :
    movesAfter seen (items.flatMap (reports skip) ++ later) =
      movesAfter ((kept skip items).getLast?.or seen) later := by
  induction items generalizing seen with
  | nil => rfl
  | cons item items ih =>
    rw [List.flatMap_cons, List.append_assoc]
    cases item with
    | error e => exact ih seen
    | ok token =>
      by_cases passed : token.name ∈ skip
      · have skipped : kept skip (.ok token :: items) = kept skip items := by simp [kept, passed]
        rw [reports, if_pos passed, skipped]
        exact ih seen
      · have taken : kept skip (.ok token :: items) = token :: kept skip items := by
          simp [kept, passed]
        rw [reports, if_neg passed, taken, List.getLast?_cons]
        refine (ih (some token)).trans ?_
        cases (kept skip items).getLast? <;> rfl

namespace Parser

variable {p : Parser V} {skip : List Symbol} {c looked next : Config ε V} {ending : Ending ε V}
  {moves : List Move}

theorem pull_journal {stream : List (Except ε Token)} {journal : List (Entry ε)}
    (h : pull skip c stream journal = .ok looked) :
    ∃ items, stream = items ++ looked.stream ∧
      looked.journal.reverse = journal.reverse ++ items.flatMap (reports skip) := by
  induction stream generalizing journal with
  | nil =>
    cases h
    exact ⟨[], rfl, (List.append_nil _).symm⟩
  | cons item rest ih =>
    cases item with
    | error e => simp [pull] at h
    | ok token =>
      simp only [pull] at h
      split at h
      next passed =>
        obtain ⟨items, stream, same⟩ := ih h
        refine ⟨.ok token :: items, congrArg (_ :: ·) stream, ?_⟩
        rw [same, List.flatMap_cons, reports, if_pos passed, List.reverse_cons, List.append_assoc]
      next held =>
        cases h
        refine ⟨[.ok token], rfl, ?_⟩
        rw [List.flatMap_singleton, reports, if_neg held, List.reverse_cons, List.reverse_cons,
          List.append_assoc]
        rfl

theorem Looks.journal {items : List (Except ε Token)} (looks : Looks skip c looked items)
    (h : look skip c = .ok looked) :
    looked.journal.reverse = c.journal.reverse ++ items.flatMap (reports skip) := by
  unfold look at h
  split at h
  next =>
    obtain ⟨items', stream, same⟩ := pull_journal h
    rwa [List.append_cancel_right (looks.stream.symm.trans stream)]
  next =>
    cases h
    rw [List.self_eq_append_left.mp looks.stream]
    exact (List.append_nil _).symm

/-- A journal tells of the moves of a run so far, and of the token that it looks at; the moves are
those that the run has counted. -/
structure Records (skip : List Symbol) (c : Config ε V) (moves : List Move) : Prop where
  tells : ∀ later, movesAfter none (c.journal.reverse ++ later) =
    moves ++ movesAfter c.lookahead later
  shifted : Move.tokens moves ++ c.lookahead.toList = kept skip c.read
  shifts : c.stats.shifts = (Move.tokens moves).length
  reductions : c.stats.reductions = Move.cost moves

theorem records_initial [OfToken V] {budget : Nat} {stream : List (Except ε Token)} :
    Records skip (.initial budget stream : Config ε V) [] :=
  ⟨fun _ => rfl, rfl, rfl, rfl⟩

theorem Records.looks {items : List (Except ε Token)} (h : Records skip c moves)
    (looks : Looks skip c looked items)
    (journal : looked.journal.reverse = c.journal.reverse ++ items.flatMap (reports skip)) :
    Records skip looked moves where
  tells later := by
    have single : ∀ token : Option Token, token.toList.getLast? = token := fun token => by
      cases token <;> rfl
    have seen := congrArg List.getLast? looks.ahead
    rw [List.getLast?_append, single, single] at seen
    rw [journal, List.append_assoc, h.tells, movesAfter_reports, seen]
  shifted := by rw [looks.ahead, ← List.append_assoc, h.shifted, looks.read, kept_append]
  shifts := looks.shifts.trans h.shifts
  reductions := looks.reductions.trans h.reductions

theorem Records.shift [OfToken V] (h : Records skip c moves) {token : Token} {target : StateId}
    (ahead : c.lookahead = some token) :
    Records skip (shiftStep (c.note (.current c.top)) token target) (moves ++ [.shift token]) where
  tells later := by
    have told := h.tells (.event (.current c.top) :: .event (.shifting target) :: later)
    rw [ahead] at told
    simpa [shiftStep, Config.note, movesAfter] using told
  shifted := by
    have shifted := h.shifted
    rw [ahead] at shifted
    rw [Move.tokens_append]
    exact (List.append_nil _).trans shifted
  shifts := by
    rw [Move.tokens_append, List.length_append, ← h.shifts]
    rfl
  reductions := by
    rw [Move.cost_append, ← h.reductions]
    rfl

theorem Records.reduce (h : Records skip c moves) {r : RuleId} {reduced : Reduced V}
    {target : StateId} :
    Records skip (reducedTo (c.note (.current c.top)) r reduced target)
      (moves ++ [.reduce r]) where
  tells later := by
    have told := fun q => h.tells
      (.event (.current c.top) :: .event (.reducing r) :: .event (.back q) :: later)
    simpa [reducedTo, Config.note, movesAfter] using told _
  shifted := by
    rw [Move.tokens_append]
    exact (congrArg (· ++ _) (List.append_nil _)).trans h.shifted
  shifts := by
    rw [Move.tokens_append, List.length_append, ← h.shifts]
    rfl
  reductions := by
    rw [Move.cost_append, ← h.reductions]
    rfl

theorem Records.turn [OfToken V] (h : Records skip c moves) (turn : p.Turn c next) :
    ∃ move, Records skip next (moves ++ [move]) := by
  cases turn with
  | shift ahead => exact ⟨_, h.shift ahead⟩
  | reduce => exact ⟨_, h.reduce⟩

theorem Records.step [OfToken V] (h : Records skip c moves) (hs : p.step skip c = .inr next) :
    ∃ move, Records skip next (moves ++ [move]) := by
  obtain ⟨_, looked, hl, turn⟩ := turn_of_step hs
  obtain ⟨items, looks⟩ := look_ok hl
  exact (h.looks looks (looks.journal hl)).turn turn

theorem Records.reaches [OfToken V] (h : Records skip c moves) (reaches : p.Reaches skip c next) :
    ∃ later, Records skip next (moves ++ later) := by
  refine reaches.keeps (P := fun c => ∃ later, Records skip c (moves ++ later))
    (fun {c c'} h hs => ?_) ⟨[], (List.append_nil moves).symm ▸ h⟩
  obtain ⟨later, h⟩ := h
  obtain ⟨move, h⟩ := h.step hs
  exact ⟨later ++ [move], by rwa [← List.append_assoc]⟩

theorem records_of_reaches [OfToken V] {budget : Nat} {stream : List (Except ε Token)}
    (h : p.Reaches skip (.initial budget stream) c) : ∃ moves, Records skip c moves := by
  obtain ⟨moves, records⟩ := records_initial.reaches h
  exact ⟨moves, records⟩

theorem pull_error_journal {stream : List (Except ε Token)} {journal : List (Entry ε)}
    (h : pull skip c stream journal = .error ending) :
    ∃ later, ending.journal.reverse = journal.reverse ++ later ∧
      ∀ seen, movesAfter seen later = [] := by
  induction stream generalizing journal with
  | nil => simp [pull] at h
  | cons item rest ih =>
    cases item with
    | error e =>
      cases h
      exact ⟨[.pulled (.error e)], List.reverse_cons, fun _ => rfl⟩
    | ok token =>
      simp only [pull] at h
      split at h
      next =>
        obtain ⟨later, same, none⟩ := ih h
        refine ⟨.pulled (.ok token) :: later, ?_, none⟩
        rw [same, List.reverse_cons, List.append_assoc]
        rfl
      next => simp at h

theorem reduceStep_end_journal {r : RuleId} (h : p.reduceStep c r = .inl ending) :
    ending.journal = .event (.reducing r) :: c.journal := by
  cases hp : p.popFrames c r with
  | error e =>
    rw [reduceStep_of_error hp] at h
    cases h
    rfl
  | ok reduced =>
    rw [reduceStep_of_popFrames hp] at h
    split at h
    next =>
      cases h
      rfl
    next => simp at h

theorem act_end_journal [OfToken V] (h : p.act c = .inl ending) :
    ending.journal = .event (.current c.top) :: c.journal ∨
      ∃ r, (p.automaton.state c.top).reduction = some r ∧
        ending.journal = .event (.reducing r) :: .event (.current c.top) :: c.journal := by
  unfold act at h
  dsimp only at h
  split at h
  next => simp at h
  next =>
    split at h
    next r complete => exact Or.inr ⟨r, complete, reduceStep_end_journal h⟩
    next =>
      cases h
      exact Or.inl rfl

/-- A run ends without a further move, but for a reduction that may fail. -/
theorem Records.ends [OfToken V] (h : Records skip c moves) (hs : p.step skip c = .inl ending) :
    movesAfter none ending.journal.reverse = moves ∨
      ∃ looked r, look skip c = .ok looked ∧ c.top ≠ Automaton.accept ∧
        (p.automaton.state looked.top).reduction = some r ∧
        movesAfter none ending.journal.reverse = moves ++ [.reduce r] := by
  by_cases top : c.top = Automaton.accept
  · rw [step_accept top] at hs
    obtain rfl := Sum.inl.inj hs
    refine Or.inl ?_
    unfold finish
    split
    next => simpa [Config.fail, movesAfter] using h.tells []
    next => simpa [movesAfter] using h.tells [.event .accepted]
  cases hl : look skip c with
  | error ending' =>
    rw [step_look_error top hl] at hs
    obtain rfl := Sum.inl.inj hs
    unfold look at hl
    split at hl
    next =>
      obtain ⟨later, journal, none⟩ := pull_error_journal hl
      rw [journal, h.tells, none, List.append_nil]
      exact Or.inl rfl
    next => simp at hl
  | ok looked =>
    rw [step_look top hl] at hs
    obtain ⟨items, looks⟩ := look_ok hl
    have told := (h.looks looks (looks.journal hl)).tells
    rcases act_end_journal hs with journal | ⟨r, complete, journal⟩
    · refine Or.inl ?_
      simpa [journal, movesAfter] using told [.event (.current looked.top)]
    · refine Or.inr ⟨looked, r, rfl, top, complete, ?_⟩
      simpa [journal, movesAfter] using
        told [.event (.current looked.top), .event (.reducing r)]

theorem Records.tokens_of_end [OfToken V] (h : Records skip c moves)
    (hs : p.step skip c = .inl ending) :
    Move.tokens (movesAfter none ending.journal.reverse) = Move.tokens moves := by
  rcases h.ends hs with same | ⟨_, r, _, _, _, same⟩
  · rw [same]
  · rw [same, Move.tokens_append]
    exact List.append_nil _

end Parser

end ShiftFirst
