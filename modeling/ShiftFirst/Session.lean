import ShiftFirst.Parser.Run
import ShiftFirst.Trace.Audience

namespace ShiftFirst

/-- An answer, with what the numbered listeners have heard and what the log has kept. -/
structure Observed (α : Type) where
  answer : α
  heard : List (Nat × String) := []
  records : List Log.Record := []
  deriving Repr

namespace Observed

variable {α β : Type}

def map (f : α → β) (o : Observed α) : Observed β := ⟨f o.answer, o.heard, o.records⟩

/-- Adds records behind those that are there. -/
def andLog (o : Observed α) (records : List Log.Record) : Observed α :=
  { o with records := o.records ++ records }

end Observed

/-- A parser and those who listen to it. -/
structure Session (V : Type) where
  parser : Parser V
  trace : Registry Nat

namespace Session

variable {V ε : Type}

/-- The parser of the given rules, under observation. -/
def build (rules : List (Rule V)) (audience : Audience) :
    Observed (Except GrammarError (Parser V)) :=
  match Grammar.ofRules rules with
  | .error e => ⟨.error e, [], []⟩
  | .ok g =>
    let (events, result) := g.automaton
    { answer := result.map (Parser.mk g)
      heard := events.flatMap fun e => audience.hear .grammar fun _ => g.eventText e
      records := events.flatMap fun e => audience.log.message .grammar fun _ => g.eventText e }

/-- A new parser, whose construction and runs the subscribers of the registry hear. -/
def new (rules : List (Rule V)) (audience : Audience) :
    Observed (Except GrammarError (Session V)) :=
  let built := build rules audience
  match built.answer with
  | .error e => built.map fun _ => .error e
  | .ok p =>
    (built.map fun _ => .ok ⟨p, audience.trace⟩).andLog
      (audience.log.built p.automaton.size p.grammar.ruleCount)

/-- Replaces the rules. If they make no parser, the session stays as it is. -/
def setRules (s : Session V) (rules : List (Rule V)) (log : Log.Filter) :
    Observed (Except GrammarError Unit × Session V) :=
  let built := build rules ⟨s.trace, log⟩
  match built.answer with
  | .error e => built.map fun _ => (.error e, s)
  | .ok p => built.map fun _ => (.ok (), { s with parser := p })

def subscribe (s : Session V) (channel : Channel) (listener : Nat) : Subscription × Session V :=
  let (subscription, trace) := s.trace.subscribe channel listener
  (subscription, { s with trace := trace })

def cancel (s : Session V) (subscription : Subscription) : Bool × Session V :=
  let (found, trace) := s.trace.cancel subscription
  (found, { s with trace := trace })

/-- A session by its grammar, the number of its states and its subscriptions. -/
def record (s : Session V) : String :=
  "Parser \x7b grammar: " ++ s.parser.grammar.record ++
    s!", states: {s.parser.automaton.size}, trace: " ++ s.trace.text ++ " \x7d"

/-- What a run is like: the names of the tokens it passes over, its budget of reductions, and
whether its tokens come fresh from a lexer, which logs them. -/
structure Manner (ε : Type) where
  skip : List Symbol := []
  budget : Nat
  pulled : Except ε Token → List Log.Record := fun _ => []

/-- A run over a stream, under observation. -/
def run [OfToken V] (s : Session V) (log : Log.Filter) (manner : Manner ε)
    (stream : List (Except ε Token)) : Observed (Ending ε V) :=
  let ending := s.parser.run manner.skip manner.budget stream
  let audience : Audience := ⟨s.trace, log⟩
  { answer := ending
    heard := ending.journal.flatMap fun
      | .pulled _ => []
      | .event e => audience.hear .parse fun _ => s.parser.eventText e
    records := ending.journal.flatMap fun
      | .pulled item => manner.pulled item
      | .event e => log.message .parse fun _ => s.parser.eventText e }

end Session

namespace Ending

variable {V ε : Type}

/-- How many items a run has taken from its stream. -/
def pulls (ending : Ending ε V) : Nat :=
  (ending.journal.filter fun | .pulled _ => true | .event _ => false).length

def value (ending : Ending ε V) : Except (Failure ε) V := ending.outcome.map (·.1)

end Ending

end ShiftFirst
