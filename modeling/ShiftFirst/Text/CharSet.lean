namespace ShiftFirst.Text

/-- A set of characters, given by its runs of code points with both ends included. The runs stand
in order and do not touch, so that sets of the same characters are equal. -/
abbrev CharSet := List (Nat × Nat)

namespace CharSet

/-- Whether a code point is in a run. -/
def covers (s : CharSet) (n : Nat) : Bool := s.any fun run => run.1 ≤ n && n ≤ run.2

def contains (s : CharSet) (c : Char) : Bool := s.covers c.toNat

/-- The characters between two ends, both included. -/
def between (first last : Char) : CharSet := [(first.toNat, last.toNat)]

def single (c : Char) : CharSet := between c c

def none : CharSet := []

def all : CharSet := [(0, 0x10ffff)]

/-- The one member of a set, if there is just one. -/
def member? : CharSet → Option Char
  | [(first, last)] => if first = last then some (Char.ofNat first) else Option.none
  | _ => Option.none

/-- Adds a run, joined with those it touches. -/
def insert (run : Nat × Nat) : CharSet → CharSet
  | [] => [run]
  | first :: rest =>
    if run.2 + 1 < first.1 then run :: first :: rest
    else if first.2 + 1 < run.1 then first :: insert run rest
    else insert (min run.1 first.1, max run.2 first.2) rest

def union (a b : CharSet) : CharSet := b.foldl (fun s run => s.insert run) a

/-- The code point before that of a character; none is that of a surrogate. -/
def before (n : Nat) : Nat := if n = 0xe000 then 0xd7ff else n - 1

/-- The code point behind that of a character; none is that of a surrogate. -/
def after (n : Nat) : Nat := if n = 0xd7ff then 0xe000 else n + 1

/-- The characters from `first` on that are in none of the runs. -/
def gaps (first : Nat) : CharSet → CharSet
  | [] => if first ≤ 0x10ffff then [(first, 0x10ffff)] else []
  | run :: rest =>
    let later := gaps (after run.2) rest
    if first < run.1 then (first, before run.1) :: later else later

def complement (s : CharSet) : CharSet := gaps 0 s

def inter (a b : CharSet) : CharSet := (a.complement.union b.complement).complement

def diff (a b : CharSet) : CharSet := inter a b.complement

def symmDiff (a b : CharSet) : CharSet := union (diff a b) (diff b a)

end CharSet

end ShiftFirst.Text
