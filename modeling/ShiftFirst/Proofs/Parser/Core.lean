import ShiftFirst.Proofs.Parser.Turn

namespace ShiftFirst

variable {ε ε' V : Type}

def Entry.mapError (f : ε → ε') : Entry ε → Entry ε'
  | .pulled item => .pulled (item.mapError f)
  | .event e => .event e

def Failure.mapInput (f : ε → ε') : Failure ε → Failure ε'
  | .input e => .input (f e)
  | .parse e => .parse e

def Ending.mapError (f : ε → ε') (ending : Ending ε V) : Ending ε' V :=
  ⟨ending.outcome.mapError (Failure.mapInput f), ending.journal.map (Entry.mapError f)⟩

theorem Entry.map_mapError_elim (f : ε → ε') (entries : List (Entry Empty)) :
    (entries.map (mapError Empty.elim)).map (mapError f) = entries.map (mapError Empty.elim) := by
  rw [List.map_map]
  refine List.map_congr_left fun entry _ => ?_
  cases entry with
  | pulled item =>
    cases item with
    | error e => exact e.elim
    | ok token => rfl
  | event e => rfl

theorem Entry.mapError_id (entry : Entry ε) : entry.mapError id = entry := by
  cases entry with
  | pulled item => cases item <;> rfl
  | event e => rfl

theorem Failure.outcome_mapInput_elim {α : Type} (f : ε → ε')
    (outcome : Except (Failure Empty) α) :
    (outcome.mapError (mapInput Empty.elim)).mapError (mapInput f) =
      outcome.mapError (mapInput Empty.elim) := by
  cases outcome with
  | ok result => rfl
  | error failure =>
    cases failure with
    | input e => exact e.elim
    | parse e => rfl

theorem Ending.mapError_id (ending : Ending ε V) : ending.mapError id = ending := by
  obtain ⟨outcome, journal⟩ := ending
  have entries : journal.map (Entry.mapError id) = journal :=
    (List.map_congr_left fun entry _ => entry.mapError_id).trans journal.map_id
  rw [mapError, entries]
  rcases outcome with ⟨_ | _⟩ | _ <;> rfl

namespace Config

/-- A run without its stream and without what has happened. -/
def core (c : Config ε V) : Config Empty V :=
  ⟨c.frames, c.lookahead, c.exhausted, [], c.budget, c.stats, []⟩

/-- The end of a run whose core ends. -/
def conclude (c : Config ε V) (ending : Ending Empty V) : Ending ε V :=
  ⟨ending.outcome.mapError (Failure.mapInput Empty.elim),
    ending.journal.map (Entry.mapError Empty.elim) ++ c.journal⟩

/-- What a run goes on as whose core goes on. -/
def resume (c : Config ε V) (next : Config Empty V) : Config ε V :=
  ⟨next.frames, next.lookahead, next.exhausted, c.stream, next.budget, next.stats,
    next.journal.map (Entry.mapError Empty.elim) ++ c.journal⟩

theorem mapError_conclude {f : ε → ε'} {c : Config ε V} {c' : Config ε' V}
    (journal : c'.journal = c.journal.map (Entry.mapError f)) (ending : Ending Empty V) :
    (c.conclude ending).mapError f = c'.conclude ending := by
  rw [conclude, conclude, Ending.mapError, Failure.outcome_mapInput_elim, List.map_append,
    Entry.map_mapError_elim, journal]

theorem journal_resume {f : ε → ε'} {c : Config ε V} {c' : Config ε' V}
    (journal : c'.journal = c.journal.map (Entry.mapError f)) (next : Config Empty V) :
    (c'.resume next).journal = (c.resume next).journal.map (Entry.mapError f) := by
  rw [resume, resume, List.map_append, Entry.map_mapError_elim, journal]

end Config

namespace Parser

variable {p : Parser V} {c : Config ε V}

theorem finish_core : p.finish c = c.conclude (p.finish c.core) := by
  have popped : p.popFrames c.core 0 = p.popFrames c 0 := rfl
  rw [finish, finish, popped]
  cases p.popFrames c 0 <;> rfl

theorem reduceStep_core (r : RuleId) (e : ParseEvent) :
    p.reduceStep (c.note e) r = (p.reduceStep (c.core.note e) r).map c.conclude c.resume := by
  cases popped : p.popFrames c r with
  | error _ =>
    rw [reduceStep_of_error (c := c.note e) popped, reduceStep_of_error (c := c.core.note e) popped]
    rfl
  | ok reduced =>
    rw [reduceStep_of_popFrames (c := c.note e) popped,
      reduceStep_of_popFrames (c := c.core.note e) popped]
    cases p.automaton.transition? (topState (reduced.below.map Frame.state))
        (p.grammar.production r).subject <;> rfl

/-- Between two looks at its stream a run does not depend on it. -/
theorem act_core [OfToken V] : p.act c = (p.act c.core).map c.conclude c.resume := by
  have top : c.core.top = c.top := rfl
  have shift : p.shift? (c.core.note (.current c.top)) = p.shift? (c.note (.current c.top)) := rfl
  have reject : p.reject (c.core.note (.current c.top)) = p.reject (c.note (.current c.top)) := rfl
  unfold act
  dsimp only
  rw [top, shift]
  cases p.shift? (c.note (.current c.top)) with
  | some found => rfl
  | none =>
    simp only [Config.top_note, top, reject]
    cases (p.automaton.state c.top).reduction with
    | none => rfl
    | some r => exact reduceStep_core r _

end Parser

end ShiftFirst
