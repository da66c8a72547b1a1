namespace ShiftFirst

/-- A number of the IEEE format of 64 bits, as its bits. -/
structure Binary64 where
  bits : UInt64
  deriving DecidableEq, Repr

namespace Binary64

def ofFloat (x : Float) : Binary64 := ⟨x.toBits⟩

def toFloat (x : Binary64) : Float := .ofBits x.bits

def add (x y : Binary64) : Binary64 := ofFloat (x.toFloat + y.toFloat)

def sub (x y : Binary64) : Binary64 := ofFloat (x.toFloat - y.toFloat)

def mul (x y : Binary64) : Binary64 := ofFloat (x.toFloat * y.toFloat)

def div (x y : Binary64) : Binary64 := ofFloat (x.toFloat / y.toFloat)

def pow (x y : Binary64) : Binary64 := ofFloat (x.toFloat ^ y.toFloat)

/-- Whether the sign bit is set. -/
def negative (x : Binary64) : Bool := Nat.pow 2 63 ≤ x.bits.toNat

/-- The bits but for the sign. -/
def magnitude (x : Binary64) : Nat := x.bits.toNat % Nat.pow 2 63

/-- The number with a sign and a magnitude. -/
def ofMagnitude (negative : Bool) (magnitude : Nat) : Binary64 :=
  ⟨.ofNat ((if negative then Nat.pow 2 63 else 0) + magnitude)⟩

/-- The magnitude of the infinities. Larger ones are of what is not a number. -/
def infiniteMagnitude : Nat := 2047 * Nat.pow 2 52

def isNaN (x : Binary64) : Bool := infiniteMagnitude < x.magnitude

def isInfinite (x : Binary64) : Bool := x.magnitude = infiniteMagnitude

/-- The number with the sign bit flipped. -/
def neg (x : Binary64) : Binary64 := ofMagnitude (!x.negative) x.magnitude

/-- Equality as arithmetic has it: what is not a number equals nothing, and the zeros are equal. -/
def equals (x y : Binary64) : Bool :=
  !x.isNaN && !y.isNaN && (x = y || x.magnitude = 0 && y.magnitude = 0)

/-- The exponent field, which is zero for the numbers of less than full precision. -/
def exponentField (x : Binary64) : Nat := x.magnitude / Nat.pow 2 52

/-- A finite number is, but for its sign, its significand times two to the power of its unit. -/
def significand (x : Binary64) : Nat :=
  x.magnitude % Nat.pow 2 52 + if x.exponentField = 0 then 0 else Nat.pow 2 52

def unit (x : Binary64) : Int := (max x.exponentField 1 : Nat) - 1075

end Binary64

end ShiftFirst
