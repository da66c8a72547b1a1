import ShiftFirst.Pattern.Expression
import ShiftFirst.Text.Ascii
import ShiftFirst.Text.Blank
import ShiftFirst.Text.CaseFold
import ShiftFirst.Text.Digit
import ShiftFirst.Text.Word

namespace ShiftFirst

open Text (CharSet)

/-- Why a text is not a pattern. -/
inductive PatternError where
  | nothingToRepeat
  | badRepetition
  | badGroup
  | unclosedGroup
  | unopenedGroup
  | badEscape
  | unclosedClass
  /-- A class has a member that is no character, or a range from one. -/
  | badClassMember
  /-- A range ends before it begins. -/
  | emptyRange
  deriving DecidableEq, Repr

namespace Expression

/-- The modes that a pattern can switch. -/
structure Mode where
  ignoreCase : Bool := false
  /-- Whether the dot also takes a line break. -/
  dotTakesBreak : Bool := false
  deriving DecidableEq, Repr

/-- What a backslash and the characters after it stand for. -/
inductive Escape where
  | literal (c : Char)
  | set (s : CharSet)
  | anchor (a : Anchor)
  deriving DecidableEq, Repr

def hexValue? (c : Char) : Option Nat :=
  if '0' ≤ c ∧ c ≤ '9' then some (c.toNat - '0'.toNat)
  else if 'a' ≤ c ∧ c ≤ 'f' then some (c.toNat - 'a'.toNat + 10)
  else if 'A' ≤ c ∧ c ≤ 'F' then some (c.toNat - 'A'.toNat + 10)
  else none

/-- The character with the code point that hexadecimal digits spell. -/
def characterOfHex? (digits : List Char) : Option Char := do
  guard (digits ≠ [])
  let values ← digits.mapM hexValue?
  let n := values.foldl (fun n d => n * 16 + d) 0
  guard n.isValidChar
  return Char.ofNat n

/-- A character by number: in braces, or with `width` digits. -/
def readNumbered (width : Nat) (s : List Char) : Except PatternError (Escape × List Char) :=
  let (digits, rest) :=
    match s with
    | '\x7b' :: tail => (tail.takeWhile (· ≠ '\x7d'), (tail.dropWhile (· ≠ '\x7d')).drop 1)
    | _ => (s.take width, s.drop width)
  let closed := s.head? ≠ some '\x7b' ∨ '\x7d' ∈ s
  let full := s.head? = some '\x7b' ∨ digits.length = width
  match characterOfHex? digits with
  | some c => if closed ∧ full then .ok (.literal c, rest) else .error .badEscape
  | none => .error .badEscape

/-- A word anchor, from behind its `b`. Without a name in braces it is the edge of a word. -/
def readWordAnchor (s : List Char) : Except PatternError (Anchor × List Char) :=
  let named (c : Char) : Bool := c.isAlpha || c == '-'
  match s with
  | '\x7b' :: tail =>
    if !tail.head?.any named then .ok (.wordEdge, s)
    else
      match String.ofList (tail.takeWhile named), tail.dropWhile named with
      | "start", '\x7d' :: rest => .ok (.wordStart, rest)
      | "end", '\x7d' :: rest => .ok (.wordFinish, rest)
      | "start-half", '\x7d' :: rest => .ok (.noWordBefore, rest)
      | "end-half", '\x7d' :: rest => .ok (.noWordAfter, rest)
      | _, _ => .error .badEscape
  | _ => .ok (.wordEdge, s)

/-- Reads what follows a backslash. -/
def readEscape : List Char → Except PatternError (Escape × List Char)
  | [] => .error .badEscape
  | c :: rest =>
    match c with
    | 'd' => .ok (.set Text.digits, rest)
    | 'D' => .ok (.set Text.digits.complement, rest)
    | 's' => .ok (.set Text.blanks, rest)
    | 'S' => .ok (.set Text.blanks.complement, rest)
    | 'w' => .ok (.set Text.wordCharacters, rest)
    | 'W' => .ok (.set Text.wordCharacters.complement, rest)
    | 'b' => do
      let (a, rest) ← readWordAnchor rest
      return (.anchor a, rest)
    | 'B' => .ok (.anchor .noWordEdge, rest)
    | 'A' => .ok (.anchor .start, rest)
    | 'z' => .ok (.anchor .finish, rest)
    | '<' => .ok (.anchor .wordStart, rest)
    | '>' => .ok (.anchor .wordFinish, rest)
    | 'a' => .ok (.literal '\x07', rest)
    | 'f' => .ok (.literal '\x0c', rest)
    | 'n' => .ok (.literal '\n', rest)
    | 'r' => .ok (.literal '\r', rest)
    | 't' => .ok (.literal '\t', rest)
    | 'v' => .ok (.literal '\x0b', rest)
    | 'x' => readNumbered 2 rest
    | 'u' => readNumbered 4 rest
    | 'U' => readNumbered 8 rest
    | _ =>
      if c.toNat < 128 ∧ !c.isAlphanum then .ok (.literal c, rest)
      else .error .badEscape

/-- The operations between the operands of a class. -/
inductive ClassOp where
  | inter
  | diff
  | symmDiff
  deriving DecidableEq, Repr

def ClassOp.apply : ClassOp → CharSet → CharSet → CharSet
  | inter => CharSet.inter
  | diff => CharSet.diff
  | symmDiff => CharSet.symmDiff

/-- A set with the case variants of its members, where the mode asks for them. -/
def Mode.widen (mode : Mode) (s : CharSet) : CharSet :=
  if mode.ignoreCase then s.anyCase else s

/-- The value of a class once its last operand is read. -/
def Mode.combine (mode : Mode) (left : Option (ClassOp × CharSet)) (right : CharSet) : CharSet :=
  match left with
  | none => right
  | some (op, s) => op.apply (mode.widen s) (mode.widen right)

/-- One end of a range, or a member by itself. -/
def readMember : List Char → Except PatternError (Escape × List Char)
  | [] => .error .unclosedClass
  | '\\' :: rest => readEscape rest
  | c :: rest => .ok (.literal c, rest)

def Escape.members : Escape → Except PatternError CharSet
  | literal c => .ok (CharSet.single c)
  | set s => .ok s
  | anchor _ => .error .badClassMember

/-- A member of a class, or a range of members. A hyphen before the end of the class, or before
another hyphen, makes no range. -/
def readClassItem (s : List Char) : Except PatternError (CharSet × List Char) := do
  let (low, rest) ← readMember s
  match rest with
  | [] => .error .unclosedClass
  | '-' :: ']' :: _ => return (← low.members, rest)
  | '-' :: '-' :: _ => return (← low.members, rest)
  | '-' :: tail =>
    let (high, rest) ← readMember tail
    match low, high with
    | .literal a, .literal b =>
      if a ≤ b then return (CharSet.between a b, rest) else .error .emptyRange
    | _, _ => .error .badClassMember
  | _ => return (← low.members, rest)

/-- Whether a caret stands at the beginning, which negates a class. -/
def readCaret (s : List Char) : Bool × List Char :=
  match s with
  | '^' :: rest => (true, rest)
  | _ => (false, s)

/-- The opening of a class: whether it is negated, and the members that stand for themselves
only there, which are hyphens, or else a closing bracket. -/
def readClassHead (s : List Char) : Bool × CharSet × List Char :=
  let (negated, s) := readCaret s
  match s with
  | '-' :: rest => (negated, CharSet.single '-', rest.dropWhile (· = '-'))
  | ']' :: rest => (negated, CharSet.single ']', rest)
  | _ => (negated, CharSet.none, s)

/-- Reads an ASCII class from behind its opening bracket, if there is one: a name between colons,
or the name of what is not in it behind a caret. -/
def readNamedClass? (mode : Mode) : List Char → Option (CharSet × List Char)
  | ':' :: s =>
    let (negated, s) := readCaret s
    match Text.asciiClass? (String.ofList (s.takeWhile (· ≠ ':'))), s.dropWhile (· ≠ ':') with
    | some members, ':' :: ']' :: rest =>
      let members := mode.widen members
      some (if negated then members.complement else members, rest)
    | _, _ => none
  | _ => none

/-- Reads a class to its closing bracket, with what stands left of the last operator and the
members read since. -/
def readClassBody : (fuel : Nat) → Mode → Option (ClassOp × CharSet) → CharSet → List Char →
    Except PatternError (CharSet × List Char)
  | 0, _, _, _, _ => .error .unclosedClass
  | fuel + 1, mode, left, members, s =>
    let operator (op : ClassOp) (rest : List Char) :=
      readClassBody fuel mode (some (op, mode.combine left members)) CharSet.none rest
    match s with
    | [] => .error .unclosedClass
    | ']' :: rest => .ok (mode.widen (mode.combine left members), rest)
    | '[' :: rest =>
      match readNamedClass? mode rest with
      | some (named, rest) => readClassBody fuel mode left (members.union named) rest
      | none => do
        let (negated, first, rest) := readClassHead rest
        let (inner, rest) ← readClassBody fuel mode none first rest
        let inner := if negated then inner.complement else inner
        readClassBody fuel mode left (members.union inner) rest
    | '&' :: '&' :: rest => operator .inter rest
    | '-' :: '-' :: rest => operator .diff rest
    | '~' :: '~' :: rest => operator .symmDiff rest
    | _ => do
      let (item, rest) ← readClassItem s
      readClassBody fuel mode left (members.union item) rest

/-- Reads a class from behind its opening bracket. -/
def readClass (mode : Mode) (s : List Char) : Except PatternError (CharSet × List Char) := do
  let (negated, first, rest) := readClassHead s
  let (members, rest) ← readClassBody (s.length + 1) mode none first rest
  return (if negated then members.complement else members, rest)

/-- A count of rounds, with blanks around it. -/
def readCount (s : List Char) : Except PatternError (Nat × List Char) :=
  let s := s.dropWhile Text.isBlank
  let digits := s.takeWhile Char.isDigit
  let n := digits.foldl (fun n d => n * 10 + (d.toNat - '0'.toNat)) 0
  if digits = [] ∨ Nat.pow 2 32 ≤ n then .error .badRepetition
  else .ok (n, (s.dropWhile Char.isDigit).dropWhile Text.isBlank)

/-- Reads bounds from behind their opening brace. -/
def readBounds (s : List Char) : Except PatternError (Bounds × List Char) := do
  let (least, rest) ← readCount s
  match rest with
  | '\x7d' :: rest => return (⟨least, some least⟩, rest)
  | ',' :: '\x7d' :: rest => return (⟨least, none⟩, rest)
  | ',' :: rest =>
    let (most, rest) ← readCount rest
    match rest with
    | '\x7d' :: rest =>
      if least ≤ most then return (⟨least, some most⟩, rest) else .error .badRepetition
    | _ => .error .badRepetition
  | _ => .error .badRepetition

/-- Reads a repetition operator, if `s` begins with one. -/
def readRepetition (s : List Char) : Except PatternError (Option (Bounds × List Char)) :=
  match s with
  | '*' :: rest => .ok (some (⟨0, none⟩, rest))
  | '+' :: rest => .ok (some (⟨1, none⟩, rest))
  | '?' :: rest => .ok (some (⟨0, some 1⟩, rest))
  | '\x7b' :: rest => some <$> readBounds rest
  | _ => .ok none

/-- What a parenthesis opens. -/
inductive Opening where
  /-- A group with a mode of its own, which a match can be asked for if it is captured. -/
  | group (captured : Bool) (mode : Mode)
  /-- No group: the mode changes up to the end of the group around. -/
  | switch (mode : Mode)
  deriving DecidableEq, Repr

/-- Reads the mode switches behind `(?`. Each mode can be switched once, and a hyphen, behind
which modes are switched off, must be followed by one. -/
def readSwitches (mode : Mode) (on : Bool) (seen : List Char) :
    List Char → Except PatternError (Opening × List Char)
  | [] => .error .badGroup
  | c :: rest =>
    let dangling := seen.head? = some '-'
    if c = ':' ∧ !dangling then .ok (.group false mode, rest)
    else if c = ')' ∧ !dangling ∧ seen ≠ [] then .ok (.switch mode, rest)
    else if c ∈ seen then .error .badGroup
    else match c with
    | 'i' => readSwitches ⟨on, mode.dotTakesBreak⟩ on (c :: seen) rest
    | 's' => readSwitches ⟨mode.ignoreCase, on⟩ on (c :: seen) rest
    | '-' => readSwitches mode false (c :: seen) rest
    | _ => .error .badGroup

/-- Reads what follows an opening parenthesis. -/
def readOpening (mode : Mode) (s : List Char) : Except PatternError (Opening × List Char) :=
  match s with
  | '?' :: rest => readSwitches mode true [] rest
  | _ => .ok (.group true mode, s)

/-- Reads one part that is neither a group nor a repetition operator. -/
def readPart (mode : Mode) (c : Char) (rest : List Char) :
    Except PatternError (Expression × List Char) :=
  let literal (c : Char) := ofSet (mode.widen (CharSet.single c))
  let allButBreak := (CharSet.single '\n').complement
  match c with
  | '.' => .ok (ofSet (if mode.dotTakesBreak then CharSet.all else allButBreak), rest)
  | '^' => .ok (anchor .start, rest)
  | '$' => .ok (anchor .finish, rest)
  | '[' => do
    let (members, rest) ← readClass mode rest
    return (ofSet members, rest)
  | '\\' => do
    match ← readEscape rest with
    | (.literal c, rest) => return (literal c, rest)
    | (.set s, rest) => return (ofSet s, rest)
    | (.anchor a, rest) => return (anchor a, rest)
  | _ => .ok (literal c, rest)

/-- Reads alternatives up to a closing parenthesis or the end, after the alternatives `earlier`
and the parts `current` of the one being read, both latest first. A part that is `none` only
switches the mode and cannot be repeated. -/
def readAlternatives : (fuel : Nat) → Mode → (earlier : List Expression) →
    (current : List (Option Expression)) → List Char →
    Except PatternError (Expression × List Char)
  | 0, _, _, _, _ => .error .unclosedGroup
  | fuel + 1, mode, earlier, current, s => do
    let alternatives := chain (current.reverse.filterMap id) :: earlier
    match s with
    | [] => return (choice alternatives.reverse, s)
    | ')' :: _ => return (choice alternatives.reverse, s)
    | '|' :: rest => readAlternatives fuel mode alternatives [] rest
    | '(' :: rest =>
      match ← readOpening mode rest with
      | (.switch mode, rest) => readAlternatives fuel mode earlier (none :: current) rest
      | (.group captured inner, rest) =>
        match ← readAlternatives fuel inner [] [] rest with
        | (e, ')' :: rest) =>
          let e := if captured then group e else e
          readAlternatives fuel mode earlier (some e :: current) rest
        | _ => .error .unclosedGroup
    | c :: rest =>
      match ← readRepetition s with
      | some (bounds, rest) =>
        match current with
        | some e :: current =>
          let (greed, rest) : Greed × List Char :=
            match rest with
            | '?' :: rest => (.lazy, rest)
            | _ => (.greedy, rest)
          readAlternatives fuel mode earlier (some (e.times bounds greed) :: current) rest
        | _ => .error .nothingToRepeat
      | none =>
        let (e, rest) ← readPart mode c rest
        readAlternatives fuel mode earlier (some e :: current) rest

/-- The expression that a text spells. -/
def read (s : String) : Except PatternError Expression := do
  match ← readAlternatives (s.length + 1) {} [] [] s.toList with
  | (e, []) => return e
  | _ => .error .unopenedGroup

end Expression

/-- The pattern that a text spells. -/
def Pattern.read (s : String) : Except PatternError Pattern := do
  return (← Expression.read s).toPattern

end ShiftFirst
