import ShiftFirst.Formula.Language
import ShiftFirst.Session

namespace ShiftFirst

/-- Evaluates formulas. -/
structure Formula where
  lexer : Lexer
  session : Session Value

/-- Why there is no value: of a formula, by its text, or of any formula, by the language. -/
inductive FormulaError where
  | lex (e : LexError)
  | parse (e : ParseError)
  | grammar (e : GrammarError)
  | definition (e : DefinitionError)
  deriving DecidableEq, Repr

namespace FormulaError

def message : FormulaError → String
  | lex e => e.message
  | parse e => e.message
  | grammar e => "invalid formula grammar: " ++ e.message
  | definition e => e.message

/-- The message of the error behind this one. -/
def cause? : FormulaError → Option String
  | parse e => e.cause?
  | grammar e => some e.message
  | _ => none

/-- Whether the text of the formula is to blame. -/
def isUserError : FormulaError → Bool
  | lex _ => true
  | parse _ => true
  | grammar _ => false
  | definition _ => false

def ofFailure : Failure LexError → FormulaError
  | .input e => .lex e
  | .parse e => .parse e

end FormulaError

namespace Formula

/-- An evaluator, whose construction and runs the subscribers of the audience hear. -/
def new (audience : Audience) : Observed (Except FormulaError Formula) :=
  match Lexer.ofDefinitions definitions with
  | .error e => ⟨.error (.definition e), [], []⟩
  | .ok lexer =>
    (Session.new rules audience).map fun
      | .error e => .error (.grammar e)
      | .ok session => .ok ⟨lexer, session⟩

theorem new_isSome : (new {}).answer.toOption.isSome := by decide +kernel

/-- The evaluator that nobody listens to. -/
def shared : Formula := (new {}).answer.toOption.get new_isSome

/-- Subscribes a listener to a channel of an evaluator. -/
def observe (f : Formula) (channel : Channel) (listener : Nat) : Subscription × Formula :=
  let (subscription, session) := f.session.subscribe channel listener
  (subscription, { f with session := session })

/-- Cancels a subscription, and tells whether it was there. -/
def cancel (f : Formula) (subscription : Subscription) : Bool × Formula :=
  let (found, session) := f.session.cancel subscription
  (found, { f with session := session })

/-- The tokens of a formula and the token behind them, without those between the others. -/
def tokens (f : Formula) (source : String) : List (Except LexError Token) :=
  (f.lexer.tokens source).filter fun
    | .ok token => token.name ≠ whitespace
    | .error _ => true

/-- How many reductions a run over a stream may take, which are more than formulas ever need. -/
def budget (f : Formula) (stream : List (Except LexError Token)) : Nat :=
  (2 * f.session.parser.grammar.rules.length + 1) * stream.length

/-- The value of a formula, under observation. -/
def eval (f : Formula) (log : Log.Filter) (source : String) :
    Observed (Except FormulaError Value) :=
  let stream := f.lexer.tokens source
  let run := f.session.run log ⟨[whitespace], f.budget stream, log.matched⟩ stream
  match run.answer.value with
  | .error e => run.map fun _ => .error (.ofFailure e)
  | .ok value => (run.map fun _ => .ok value).andLog (log.evaluated source value.display)

/-- The value of a formula. -/
def eval? (f : Formula) (source : String) : Except FormulaError Value :=
  (f.eval .off source).answer

/-- What a cell shows for its formula. -/
inductive Cell where
  | empty
  | value (v : Value)
  /-- The formula has no value: the cell goes on showing its text. -/
  | invalid (display message : String)
  deriving DecidableEq, Repr

/-- Whether a text has blanks alone. -/
def isBlank (source : String) : Bool := source.toList.all Text.isBlank

/-- The cell of a formula, under observation. -/
def cell (f : Formula) (log : Log.Filter) (source : String) : Observed Cell :=
  if isBlank source then ⟨.empty, [], []⟩
  else
    let evaluated := f.eval log source
    match evaluated.answer with
    | .ok value => evaluated.map fun _ => .value value
    | .error e =>
      (evaluated.map fun _ => .invalid ("=" ++ source) e.message).andLog
        (log.failed source e.message)

end Formula

end ShiftFirst
