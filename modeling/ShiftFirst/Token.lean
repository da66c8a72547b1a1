import ShiftFirst.Symbol

namespace ShiftFirst

/-- A piece of a text: the terminal it stands for, its characters and the number of characters
before it. -/
structure Token where
  name : Symbol
  value : String
  position : Nat
  deriving DecidableEq, Repr

namespace Token

/-- The token behind the last one of a text. -/
def finish (position : Nat) : Token := ⟨endSymbol, "", position⟩

def isFinish (token : Token) : Bool := token.name = endSymbol

end Token

/-- The values that a parse can make of tokens. -/
class OfToken (V : Type) where
  ofToken : Token → V

export OfToken (ofToken)

instance : OfToken String := ⟨Token.value⟩

end ShiftFirst
