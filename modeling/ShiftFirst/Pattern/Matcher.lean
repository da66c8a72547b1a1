import ShiftFirst.Pattern.Basic
import ShiftFirst.Text.Word

namespace ShiftFirst

/-- A place in a text: how many characters stand before it, the last of these, and the characters
after it. -/
structure Cursor where
  position : Nat
  before : Option Char
  rest : List Char
  deriving DecidableEq, Repr

namespace Cursor

def ofChars (s : List Char) : Cursor := ⟨0, none, s⟩

/-- The place behind the next character, if that is in the set. -/
def take? (c : Cursor) (s : Text.CharSet) : Option Cursor :=
  match c.rest with
  | [] => none
  | x :: rest => if s.contains x then some ⟨c.position + 1, some x, rest⟩ else none

end Cursor

def Anchor.holds (a : Anchor) (c : Cursor) : Bool :=
  let wordBefore := c.before.any Text.isWordCharacter
  let wordAfter := c.rest.head?.any Text.isWordCharacter
  match a with
  | start => c.before.isNone
  | finish => c.rest.isEmpty
  | wordEdge => wordBefore != wordAfter
  | noWordEdge => wordBefore == wordAfter
  | wordStart => !wordBefore && wordAfter
  | wordFinish => wordBefore && !wordAfter
  | noWordBefore => !wordBefore
  | noWordAfter => !wordAfter

namespace Pattern

/-- The way from a whole pattern to one of its parts, the last turn first. -/
abbrev Part := List Bool

/-- The branching parts that a search has come to, with the positions where it did, the furthest
position first. -/
abbrev Visits := List (Nat × List Part)

namespace Visits

def seen (position : Nat) (part : Part) : Visits → Bool
  | [] => false
  | (n, parts) :: rest =>
    if n < position then false
    else if n = position then part ∈ parts
    else seen position part rest

def add (position : Nat) (part : Part) : Visits → Visits
  | [] => [(position, [part])]
  | (n, parts) :: rest =>
    if n < position then (position, [part]) :: (n, parts) :: rest
    else if n = position then (n, part :: parts) :: rest
    else (n, parts) :: add position part rest

end Visits

/-- The answer of a search, or else the visits that have led to none. -/
abbrev Attempt (α : Type) := Except Visits α

/-- What is left to do after a match, at the place that it reaches. -/
abbrev Continuation (α : Type) := Visits → Cursor → Attempt α

/-- The answer of `first`, or else that of `second` after the visits of `first`. -/
def either {α : Type} (first second : Visits → Attempt α) (visits : Visits) : Attempt α :=
  match first visits with
  | .ok answer => .ok answer
  | .error visits => second visits

/-- The answer of the preferred way. -/
def prefer {α : Type} (greed : Greed) (more fewer : Visits → Attempt α) : Visits → Attempt α :=
  match greed with
  | .greedy => either more fewer
  | .lazy => either fewer more

/-- Goes on from a branching part, unless the search has been there: then this way leads to no
answer that another has not led to. -/
def visit {α : Type} (part : Part) (c : Cursor) (go : Visits → Attempt α) (visits : Visits) :
    Attempt α :=
  if visits.seen c.position part then .error visits else go (visits.add c.position part)

/-- Further rounds of `round`, or none. There is one visit at most for each place, so `fuel`
beyond the length of the rest is never used up. -/
def rounds {α : Type} (greed : Greed) (part : Part)
    (round : Visits → Cursor → Continuation α → Attempt α) :
    (fuel : Nat) → Visits → Cursor → Continuation α → Attempt α
  | 0, visits, _, _ => .error visits
  | fuel + 1, visits, c, k =>
    visit part c
      (prefer greed
        (fun visits => round visits c fun visits next => rounds greed part round fuel visits next k)
        (fun visits => k visits c))
      visits

/-- The first answer of `k` in the order of preference of the ways in which a pattern, which is a
part of the whole one, matches at `c`. -/
def search {α : Type} : Pattern → Part → Visits → Cursor → Continuation α → Attempt α
  | empty, _, visits, c, k => k visits c
  | set s, _, visits, c, k =>
    match c.take? s with
    | some next => k visits next
    | none => .error visits
  | anchor a, _, visits, c, k => if a.holds c then k visits c else .error visits
  | seq p q, part, visits, c, k =>
    p.search (false :: part) visits c fun visits next => q.search (true :: part) visits next k
  | alt p q, part, visits, c, k =>
    visit part c
      (either
        (fun visits => p.search (false :: part) visits c k)
        (fun visits => q.search (true :: part) visits c k))
      visits
  | opt greed p, part, visits, c, k =>
    visit part c
      (prefer greed
        (fun visits => p.search (false :: part) visits c k)
        (fun visits => k visits c))
      visits
  | star greed p, part, visits, c, k =>
    rounds greed part (p.search (false :: part)) (c.rest.length + 1) visits c k
  | plus greed p, part, visits, c, k =>
    p.search (false :: part) visits c fun visits next =>
      rounds greed part (p.search (false :: part)) (next.rest.length + 1) visits next k

/-- The number of characters of the preferred match of the pattern at the start of `s`. -/
def matchLength? (p : Pattern) (s : List Char) : Option Nat :=
  (p.search [] [] (.ofChars s) fun _ c => .ok c.position).toOption

end Pattern

end ShiftFirst
