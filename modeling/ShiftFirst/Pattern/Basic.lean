import ShiftFirst.Text.CharSet

namespace ShiftFirst

open Text (CharSet)

/-- A place between two characters that a pattern can ask for. -/
inductive Anchor where
  | start
  | finish
  /-- A word begins or ends here. -/
  | wordEdge
  /-- No word begins or ends here. -/
  | noWordEdge
  | wordStart
  | wordFinish
  /-- No word continues or ends here. -/
  | noWordBefore
  /-- No word begins or continues here. -/
  | noWordAfter
  deriving DecidableEq, Repr

/-- Whether a repetition tries more rounds first, or fewer. -/
inductive Greed where
  | greedy
  | lazy
  deriving DecidableEq, Repr

/-- A pattern over characters. -/
inductive Pattern where
  | empty
  | set (s : CharSet)
  | anchor (a : Anchor)
  | seq (p q : Pattern)
  /-- Either pattern, the first one by preference. -/
  | alt (p q : Pattern)
  | opt (greed : Greed) (p : Pattern)
  /-- Any number of rounds. -/
  | star (greed : Greed) (p : Pattern)
  /-- One round or more. -/
  | plus (greed : Greed) (p : Pattern)
  deriving DecidableEq, Repr

namespace Pattern

/-- The patterns one after another. -/
def chain (ps : List Pattern) : Pattern :=
  match ps with
  | [] => empty
  | [p] => p
  | p :: rest => seq p (chain rest)

/-- Whether a pattern can match without taking a character. -/
def nullable : Pattern → Bool
  | empty => true
  | set _ => false
  | anchor _ => true
  | seq p q => p.nullable && q.nullable
  | alt p q => p.nullable || q.nullable
  | opt _ _ => true
  | star _ _ => true
  | plus _ p => p.nullable

/-- Any number of rounds. Where a round can be empty, one round is tried before none: a round
that takes nothing must count as a way to match. -/
def anyNumber (greed : Greed) (p : Pattern) : Pattern :=
  if p.nullable then opt greed (plus greed p) else star greed p

/-- `n` rounds. -/
def times (n : Nat) (p : Pattern) : Pattern := chain (List.replicate n p)

/-- At most `n` rounds, each further one inside the one before. -/
def atMost (greed : Greed) (p : Pattern) : Nat → Pattern
  | 0 => empty
  | 1 => opt greed p
  | n + 1 => opt greed (seq p (atMost greed p n))

/-- `least` rounds or more. -/
def atLeast (greed : Greed) (p : Pattern) : Nat → Pattern
  | 0 => anyNumber greed p
  | 1 => plus greed p
  | n + 1 => seq (times n p) (plus greed p)

/-- Between `least` and `most` rounds. -/
def between (greed : Greed) (p : Pattern) (least most : Nat) : Pattern :=
  if most ≤ least then times least p
  else if least = 0 then atMost greed p most
  else seq (times least p) (atMost greed p (most - least))

end Pattern

end ShiftFirst
