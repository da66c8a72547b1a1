import ShiftFirst.Pattern.Basic

namespace ShiftFirst

open Text (CharSet)

/-- How often something is repeated: at least so often and at most so often. -/
structure Bounds where
  least : Nat
  most : Option Nat
  deriving DecidableEq, Repr

namespace Pattern

/-- As many rounds as the bounds ask for. -/
def repeated (p : Pattern) (bounds : Bounds) (greed : Greed) : Pattern :=
  match bounds.most with
  | none => atLeast greed p bounds.least
  | some most => between greed p bounds.least most

end Pattern

/-- A pattern as it is written. The functions that make expressions of parts keep to a normal
form, in which different spellings of one thing are the same. -/
inductive Expression where
  | empty
  /-- Characters in a row, one or more. -/
  | text (chars : List Char)
  /-- One character of a set, which has none or several. -/
  | set (s : CharSet)
  | anchor (a : Anchor)
  | repeated (e : Expression) (bounds : Bounds) (greed : Greed)
  /-- What matches `e` can be asked for. -/
  | group (e : Expression)
  /-- A part that is no sequence, and what follows it. -/
  | seq (e rest : Expression)
  /-- An alternative that is no choice, and what it is preferred to. -/
  | alt (e rest : Expression)
  deriving DecidableEq, Repr

namespace Expression

def toPattern : Expression → Pattern
  | empty => .empty
  | text chars => .chain (chars.map fun c => .set (CharSet.single c))
  | set s => .set s
  | anchor a => .anchor a
  | repeated e bounds greed => e.toPattern.repeated bounds greed
  | group e => e.toPattern
  | seq e rest => .seq e.toPattern rest.toPattern
  | alt e rest => .alt e.toPattern rest.toPattern

/-- Whether an expression takes no character, however it matches. -/
def takesNothing : Expression → Bool
  | empty => true
  | text _ => false
  | set _ => false
  | anchor _ => true
  | repeated e _ _ => e.takesNothing
  | group e => e.takesNothing
  | seq e rest => e.takesNothing && rest.takesNothing
  | alt e rest => e.takesNothing && rest.takesNothing

def hasGroup : Expression → Bool
  | repeated e _ _ => e.hasGroup
  | group _ => true
  | seq e rest => e.hasGroup || rest.hasGroup
  | alt e rest => e.hasGroup || rest.hasGroup
  | _ => false

/-- Whether two expressions are the same. A group that can be asked for is like no other. -/
def sameAs (a b : Expression) : Bool := a = b && !a.hasGroup

/-- One character of a set. -/
def ofSet (s : CharSet) : Expression :=
  match s.member? with
  | some c => text [c]
  | none => set s

/-- The parts of a sequence. -/
def parts : Expression → List Expression
  | empty => []
  | seq e rest => e :: rest.parts
  | e => [e]

def ofParts : List Expression → Expression
  | [] => empty
  | [e] => e
  | e :: rest => seq e (ofParts rest)

/-- The alternatives of a choice. -/
def branches : Expression → List Expression
  | alt e rest => e :: rest.branches
  | e => [e]

def ofBranches : List Expression → Expression
  | [] => set CharSet.none
  | [e] => e
  | e :: rest => alt e (ofBranches rest)

/-- Puts a part before others. Characters in a row are one part. -/
def addPart : Expression → List Expression → List Expression
  | text chars, text more :: rest => text (chars ++ more) :: rest
  | e, rest => e :: rest

/-- Expressions one after another. -/
def chain (es : List Expression) : Expression :=
  ofParts ((es.flatMap parts).foldr addPart [])

/-- As many rounds as the bounds ask for. What takes no character is tried once at most, as a
further round would add nothing. -/
def times (e : Expression) (bounds : Bounds) (greed : Greed) : Expression :=
  let bounds : Bounds :=
    if e.takesNothing then ⟨min bounds.least 1, some (min (bounds.most.getD 1) 1)⟩ else bounds
  if bounds = ⟨0, some 0⟩ then empty
  else if bounds = ⟨1, some 1⟩ then e
  else repeated e bounds greed

/-- The character that is all of an expression, if it is one. -/
def char? : Expression → Option Char
  | text [c] => some c
  | _ => none

/-- The set that an expression takes one character of, if it is written as a set. -/
def set? : Expression → Option CharSet
  | set s => some s
  | _ => none

/-- The set that a choice among single characters, or among sets, comes down to. -/
def commonSet? (es : List Expression) : Option CharSet :=
  let sets := (es.mapM fun e => e.char?.map CharSet.single) <|> es.mapM set?
  sets.map fun sets => sets.foldl CharSet.union CharSet.none

/-- One of several alternatives, as they are. -/
def ofAlternatives (es : List Expression) : Expression :=
  let es := es.flatMap branches
  match commonSet? es with
  | some s => ofSet s
  | none => ofBranches es

/-- The parts that two sequences begin with alike. -/
def sharedParts (a b : List Expression) : List Expression :=
  ((a.zip b).takeWhile fun (x, y) => x.sameAs y).map (·.1)

/-- The parts that all of several sequences begin with. There are none if one of them is no
sequence of two parts or more. -/
def commonParts (es : List Expression) : List Expression :=
  match es.map parts with
  | [] => []
  | first :: rest =>
    if (first :: rest).all (2 ≤ ·.length) then rest.foldl sharedParts first else []

/-- One of several alternatives. The parts that all of them begin with are matched first, and the
choice is among what follows them. -/
def choice (alternatives : List Expression) : Expression :=
  let es := alternatives.flatMap branches
  match alternatives, commonSet? es, commonParts es with
  | [e], _, _ => e
  | _, some s, _ => ofSet s
  | _, none, [] => ofBranches es
  | _, none, common =>
    chain (common ++ [ofAlternatives (es.map fun e => chain (e.parts.drop common.length))])

end Expression

end ShiftFirst
