import ShiftFirst.Failure
import ShiftFirst.Pattern.Matcher
import ShiftFirst.Token

namespace ShiftFirst

/-- Which of the matches at a place makes the token. -/
inductive MatchPolicy where
  | longest
  | shortest
  deriving DecidableEq, Repr

/-- Whether a match of `candidate` characters replaces one of `best` characters. -/
def MatchPolicy.prefers (policy : MatchPolicy) (candidate best : Nat) : Bool :=
  match policy with
  | longest => best < candidate
  | shortest => candidate < best

/-- The tokens called `name` are the texts that `pattern` matches. -/
structure TokenDefinition where
  name : Symbol
  pattern : Pattern
  deriving DecidableEq, Repr

/-- Cuts texts into tokens. -/
structure Lexer where
  definitions : List TokenDefinition
  policy : MatchPolicy
  deriving DecidableEq, Repr

namespace Lexer

/-- Reads a definition from a name and the text of a pattern. -/
def readDefinition (d : Symbol × String) : Except DefinitionError TokenDefinition :=
  match Pattern.read d.2 with
  | .ok pattern => .ok ⟨d.1, pattern⟩
  | .error cause => .error ⟨d.1, cause⟩

/-- The lexer with the given names and patterns, or the first pattern that cannot be read. The
longest match makes the token. -/
def ofDefinitions (definitions : List (Symbol × String)) : Except DefinitionError Lexer := do
  return ⟨← definitions.mapM readDefinition, .longest⟩

/-- The definition whose match at the start of `rest` makes the token, and the number of its
characters. Empty matches do not count, and of equal ones the first wins. -/
def select (lexer : Lexer) (rest : List Char) : Option (TokenDefinition × Nat) :=
  lexer.definitions.foldl
    (fun best d =>
      match d.pattern.matchLength? rest with
      | none => best
      | some 0 => best
      | some n =>
        match best with
        | some (_, m) => if lexer.policy.prefers n m then some (d, n) else best
        | none => some (d, n))
    none

/-- The tokens of `rest`, which stands behind the first `position` characters of `source`. -/
def tokensFrom (lexer : Lexer) (source : String) :
    (fuel position : Nat) → (rest : List Char) → List (Except LexError Token)
  | 0, _, _ => []
  | fuel + 1, position, rest =>
    match rest with
    | [] => [.ok (.finish position)]
    | c :: _ =>
      match lexer.select rest with
      | none => [.error ⟨position, c, source⟩]
      | some (d, n) =>
        .ok ⟨d.name, String.ofList (rest.take n), position⟩ ::
          tokensFrom lexer source fuel (position + n) (rest.drop n)

/-- The tokens of a text and the token behind them, or the tokens up to the place where nothing
matches and the error there. -/
def tokens (lexer : Lexer) (source : String) : List (Except LexError Token) :=
  lexer.tokensFrom source (source.length + 1) 0 source.toList

end Lexer

/-- A reader that hands out the tokens of a text one at a time. -/
structure Tokens where
  lexer : Lexer
  source : String
  /-- How many bytes of the text are behind. -/
  offset : Nat := 0
  /-- How many characters of the text are behind. -/
  position : Nat := 0
  done : Bool := false
  deriving Repr

def Lexer.lex (lexer : Lexer) (source : String) : Tokens := { lexer, source }

namespace Tokens

/-- What is left of the text. -/
def rest (s : Tokens) : List Char :=
  (String.Pos.Raw.extract s.source ⟨s.offset⟩ s.source.rawEndPos).toList

/-- The next item, if there is one, and the reader as it is then. -/
def next (s : Tokens) : Option (Except LexError Token) × Tokens :=
  if s.done then (none, s)
  else
    match s.rest with
    | [] => (some (.ok (.finish s.position)), { s with done := true })
    | c :: rest =>
      match s.lexer.select (c :: rest) with
      | none => (some (.error ⟨s.position, c, s.source⟩), { s with done := true })
      | some (d, n) =>
        let text := String.ofList ((c :: rest).take n)
        (some (.ok ⟨d.name, text, s.position⟩),
          { s with
            offset := s.offset + text.utf8ByteSize
            position := s.position + text.length })

/-- The reader after so many items have been asked for. -/
def after (s : Tokens) : Nat → Tokens
  | 0 => s
  | n + 1 => s.next.2.after n

end Tokens

end ShiftFirst
