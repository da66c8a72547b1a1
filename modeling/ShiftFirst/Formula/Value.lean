import ShiftFirst.Binary64.Decimal
import ShiftFirst.Failure
import ShiftFirst.Token

namespace ShiftFirst

/-- What a formula or a part of one stands for. -/
inductive Value where
  | number (x : Binary64)
  | boolean (b : Bool)
  /-- The text of a token that has not been interpreted. -/
  | text (s : String)
  deriving DecidableEq, Repr

namespace Value

def kind : Value → String
  | number _ => "number"
  | boolean _ => "boolean"
  | text _ => "text"

def display : Value → String
  | number x => x.text
  | boolean b => if b then "true" else "false"
  | text s => s

/-- Equality as formulas have it: as numbers compare, and never between kinds. -/
def equals : Value → Value → Bool
  | number x, number y => x.equals y
  | boolean a, boolean b => a = b
  | text s, text t => s = t
  | _, _ => false

end Value

instance : OfToken Value := ⟨fun token => .text token.value⟩

/-- Why operands have no result. -/
inductive OperandError where
  | count (expected got : Nat)
  | notNumber (found : Value)
  | notBoolean (found : Value)
  | notText (found : Value)
  | badNumeral (text : String) (cause : Binary64.NumeralError)
  deriving DecidableEq, Repr

namespace OperandError

def message : OperandError → String
  | count expected got => s!"expected {expected} operands, got {got}"
  | notNumber found => "expected a number, found " ++ found.kind ++ " " ++ found.display
  | notBoolean found => "expected a boolean, found " ++ found.kind ++ " " ++ found.display
  | notText found => "expected number text, found " ++ found.kind
  | badNumeral text cause => "invalid number " ++ Text.quoted text ++ ": " ++ cause.message

def refusal (e : OperandError) : ReduceError := .refused e.message

end OperandError

namespace Value

def asNumber : Value → Except OperandError Binary64
  | number x => .ok x
  | v => .error (.notNumber v)

def asBoolean : Value → Except OperandError Bool
  | boolean b => .ok b
  | v => .error (.notBoolean v)

end Value

end ShiftFirst
