import ShiftFirst.Lexer
import ShiftFirst.Trace.Registry

namespace ShiftFirst.Log

inductive Level where
  | debug
  | trace
  deriving DecidableEq, Repr

/-- One line of a log. -/
structure Record where
  level : Level
  target : String
  text : String
  deriving DecidableEq, Repr

/-- Which records are kept: those up to a level, if any, and of some targets or of all. -/
structure Filter where
  level : Option Level
  targets : Option (List String) := none
  deriving DecidableEq, Repr

namespace Filter

/-- Keeps no record. -/
def off : Filter := ⟨none, none⟩

def admits (f : Filter) (level : Level) (target : String) : Bool :=
  (match f.level, level with
    | none, _ => false
    | some .debug, .trace => false
    | _, _ => true) && f.targets.all (target ∈ ·)

/-- The record of a text, if it is kept. -/
def keep (f : Filter) (level : Level) (target : String) (text : Unit → String) : List Record :=
  if f.admits level target then [⟨level, target, text ()⟩] else []

/-- The record of a message on a channel. -/
def message (f : Filter) (channel : Channel) (text : Unit → String) : List Record :=
  f.keep .trace channel.target text

/-- The record of a token that the lexer has found; it keeps none of the token behind the text. -/
def matched (f : Filter) : Except LexError Token → List Record
  | .error _ => []
  | .ok token =>
    if token.value = "" then []
    else f.keep .trace "cellgram::lexer" fun _ =>
      "MATCHED: " ++ Text.quoted token.name ++ " " ++ Text.quoted token.value ++
        s!" at {token.position}"

/-- The record of an automaton that has been built for a new parser. -/
def built (f : Filter) (states rules : Nat) : List Record :=
  f.keep .debug "cellgram::parser" fun _ =>
    s!"built automaton with {states} states for {rules} rules"

/-- The record of a formula that has a value. -/
def evaluated (f : Filter) (source value : String) : List Record :=
  f.keep .debug "cellgram_calc::formula" fun _ =>
    "evaluated " ++ Text.quoted source ++ " to " ++ value

/-- The record of a cell whose formula has no value. -/
def failed (f : Filter) (source reason : String) : List Record :=
  f.keep .debug "cellgram_calc::formula" fun _ =>
    "formula " ++ Text.quoted source ++ " failed: " ++ reason

end Filter

end ShiftFirst.Log
