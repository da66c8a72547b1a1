import Mathlib.Algebra.BigOperators.Group.List.Basic
import Mathlib.Algebra.Ring.Int.Defs
import Mathlib.Data.List.Infix
import ShiftFirst.Formula.Language

namespace ShiftFirst.Formula

/-- The levels of the parts that stand for numbers, from the one that binds tightest on. -/
inductive Level where
  | value
  | power
  | product
  | sum
  deriving DecidableEq, Repr

/-- The operators of a level, each with the level of its right operand. -/
inductive Operator : Level → Symbol → Level → (Binary64 → Binary64 → Binary64) → Prop
  | power : Operator .power "^" .value .pow
  | times : Operator .product "*" .value .mul
  | over : Operator .product "/" .value .div
  | plus : Operator .sum "+" .product .add
  | minus : Operator .sum "-" .product .sub

/-- The first text is a part of a level and then the second one. The number of the part has each
operator apply to all operands of its chain on the left. -/
inductive Computes : Level → List Token → List Token → Binary64 → Prop
  | number {t : Token} {rest : List Token} {x : Binary64} (named : t.name = "number")
      (spelled : Binary64.read t.value = .ok x) : Computes .value (t :: rest) rest x
  | negative {t : Token} {text rest : List Token} {x : Binary64} (named : t.name = "-")
      (part : Computes .value text rest x) : Computes .value (t :: text) rest x.neg
  | enclosed {t u : Token} {text rest : List Token} {x : Binary64} (opening : t.name = "(")
      (part : Computes .sum text (u :: rest) x) (closing : u.name = ")") :
      Computes .value (t :: text) rest x
  | base {text rest : List Token} {x : Binary64} (part : Computes .value text rest x) :
      Computes .power text rest x
  | factor {text rest : List Token} {x : Binary64} (part : Computes .power text rest x) :
      Computes .product text rest x
  | term {text rest : List Token} {x : Binary64} (part : Computes .product text rest x) :
      Computes .sum text rest x
  | chain {level operand : Level} {op : Binary64 → Binary64 → Binary64} {t : Token}
      {text text' rest : List Token} {x y : Binary64} (left : Computes level text (t :: text') x)
      (operator : Operator level t.name operand op) (right : Computes operand text' rest y) :
      Computes level text rest (op x y)

namespace Computes

variable {level : Level} {text rest : List Token} {x : Binary64}

theorem lift (h : Computes .value text rest x) (level : Level) : Computes level text rest x := by
  cases level with
  | value => exact h
  | power => exact .base h
  | product => exact .factor (.base h)
  | sum => exact .term (.factor (.base h))

theorem widen (h : Computes level text rest x) : Computes .sum text rest x := by
  cases level with
  | value => exact .term (.factor (.base h))
  | power => exact .term (.factor h)
  | product => exact .term h
  | sum => exact h

end Computes

/-- The levels of the parts that stand for truth values, from the one that binds tightest on. -/
inductive Clause where
  | primary
  | boolean
  | conjunction
  | disjunction
  deriving DecidableEq, Repr

/-- The first text is a part of a level and then the second one, and the part has a truth value.
What stands to the right of an equality of truth values is a disjunction of some extent. -/
inductive Reads (extent : List Token → List Token → Prop) :
    Clause → List Token → List Token → Bool → Prop
  | truth {t : Token} {rest : List Token} (named : t.name = "true") :
      Reads extent .primary (t :: rest) rest true
  | falsehood {t : Token} {rest : List Token} (named : t.name = "false") :
      Reads extent .primary (t :: rest) rest false
  | enclosed {t u : Token} {text rest : List Token} {b : Bool} (opening : t.name = "(")
      (part : Reads extent .disjunction text (u :: rest) b) (closing : u.name = ")") :
      Reads extent .primary (t :: text) rest b
  | equation {t : Token} {text text' rest : List Token} {x y : Binary64}
      (left : Computes .sum text (t :: text') x) (named : t.name = "=")
      (right : Computes .sum text' rest y) : Reads extent .primary text rest (x.equals y)
  | negation {t : Token} {text rest : List Token} {b : Bool} (named : t.name = "not")
      (part : Reads extent .boolean text rest b) : Reads extent .boolean (t :: text) rest !b
  | plain {text rest : List Token} {b : Bool} (part : Reads extent .primary text rest b) :
      Reads extent .boolean text rest b
  | equal {t : Token} {text text' rest : List Token} {a b : Bool}
      (left : Reads extent .primary text (t :: text') a) (named : t.name = "=")
      (right : Reads extent .disjunction text' rest b) (fits : extent text' rest) :
      Reads extent .boolean text rest (a == b)
  | one {text rest : List Token} {b : Bool} (part : Reads extent .boolean text rest b) :
      Reads extent .conjunction text rest b
  | both {t : Token} {text text' rest : List Token} {a b : Bool}
      (left : Reads extent .conjunction text (t :: text') a) (named : t.name = "and")
      (right : Reads extent .boolean text' rest b) : Reads extent .conjunction text rest (a && b)
  | only {text rest : List Token} {b : Bool} (part : Reads extent .conjunction text rest b) :
      Reads extent .disjunction text rest b
  | either {t : Token} {text text' rest : List Token} {a b : Bool}
      (left : Reads extent .disjunction text (t :: text') a) (named : t.name = "or")
      (right : Reads extent .conjunction text' rest b) :
      Reads extent .disjunction text rest (a || b)

/-- Any extent will do. -/
def Loose (_text _rest : List Token) : Prop := True

/-- No disjunction at the beginning of the first text goes on beyond the beginning of the second
one, whatever equalities in it take. -/
def Longest (text rest : List Token) : Prop :=
  ∀ rest' b, Reads Loose .disjunction text rest' b → rest.length ≤ rest'.length

/-- The first text is a formula of a value, and then the second text. -/
inductive Means : List Token → List Token → Value → Prop
  | number {text rest : List Token} {x : Binary64} (part : Computes .sum text rest x) :
      Means text rest (.number x)
  | boolean {text rest : List Token} {b : Bool} (part : Reads Longest .disjunction text rest b) :
      Means text rest (.boolean b)

/-- The text ends a formula, or a part of one between parentheses. -/
def Closes (text : List Token) : Prop :=
  ∃ t rest, text = t :: rest ∧ (t.name = ")" ∨ t.name = endSymbol)

def Full (_text rest : List Token) : Prop := Closes rest

section Extent

variable {extent extent' : List Token → List Token → Prop} {level operand : Level} {clause : Clause}
  {text text' rest : List Token} {t : Token} {x : Binary64} {a b : Bool}

theorem Reads.mono (h : Reads extent clause text rest b)
    (weaker : ∀ text rest b, Reads extent .disjunction text rest b → extent text rest →
      extent' text rest) : Reads extent' clause text rest b := by
  induction h with
  | truth named => exact .truth named
  | falsehood named => exact .falsehood named
  | enclosed opening _ closing ih => exact .enclosed opening ih closing
  | equation left named right => exact .equation left named right
  | negation named _ ih => exact .negation named ih
  | plain _ ih => exact .plain ih
  | equal _ named right fits ihl ihr =>
    exact .equal ihl named ihr (weaker _ _ _ right fits)
  | one _ ih => exact .one ih
  | both _ named _ ihl ihr => exact .both ihl named ihr
  | only _ ih => exact .only ih
  | either _ named _ ihl ihr => exact .either ihl named ihr

theorem Reads.loosen (h : Reads extent clause text rest b) :
    Reads Loose clause text rest b :=
  h.mono fun _ _ _ _ _ => trivial

end Extent

/-- How a token changes the number of open parentheses. The end of the text counts as one that
closes. -/
def nesting (t : Token) : Int :=
  if t.name = "(" then 1 else if t.name = ")" ∨ t.name = endSymbol then -1 else 0

def depth (tokens : List Token) : Int := (tokens.map nesting).sum

theorem depth_append (tokens tokens' : List Token) :
    depth (tokens ++ tokens') = depth tokens + depth tokens' := by
  rw [depth, List.map_append, List.sum_append, depth, depth]

theorem depth_cons (t : Token) (tokens : List Token) :
    depth (t :: tokens) = nesting t + depth tokens := rfl

/-- The tokens before the rest of a text close exactly the parentheses that they open. -/
def Balanced (text rest : List Token) : Prop :=
  ∃ tokens, text = tokens ++ rest ∧ depth tokens = 0 ∧
    ∀ before, before <+: tokens → 0 ≤ depth before

namespace Balanced

variable {text text' rest : List Token} {t u : Token}

theorem token (inner : nesting t = 0) : Balanced (t :: rest) rest := by
  refine ⟨[t], rfl, by simp [depth, inner], fun before within => ?_⟩
  rcases List.prefix_cons_iff.mp within with rfl | ⟨_, rfl, none⟩
  · exact Int.le_refl 0
  · obtain rfl := List.prefix_nil.mp none
    simp [depth, inner]

theorem trans (h : Balanced text text') (h' : Balanced text' rest) : Balanced text rest := by
  obtain ⟨tokens, rfl, level, above⟩ := h
  obtain ⟨tokens', rfl, level', above'⟩ := h'
  refine ⟨tokens ++ tokens', by simp, by rw [depth_append, level, level']; rfl, ?_⟩
  rintro before ⟨after, split⟩
  rcases List.append_eq_append_iff.mp split with ⟨more, rfl, _⟩ | ⟨more, rfl, rfl⟩
  · exact above before ⟨more, rfl⟩
  · rw [depth_append, level, Int.zero_add]
    exact above' more ⟨after, rfl⟩

theorem cons (h : Balanced text rest) (inner : nesting t = 0) : Balanced (t :: text) rest :=
  (token inner).trans h

theorem join (h : Balanced text (t :: text')) (inner : nesting t = 0)
    (h' : Balanced text' rest) : Balanced text rest :=
  h.trans (h'.cons inner)

theorem enclosed (opening : t.name = "(") (h : Balanced text (u :: rest)) (closing : u.name = ")") :
    Balanced (t :: text) rest := by
  obtain ⟨tokens, rfl, level, above⟩ := h
  have up : nesting t = 1 := if_pos opening
  have down : nesting u = -1 := by simp [nesting, closing]
  refine ⟨t :: (tokens ++ [u]), by simp, ?_, fun before within => ?_⟩
  · rw [depth_cons, depth_append, level, up]
    simp [depth, down]
  · rcases List.prefix_cons_iff.mp within with rfl | ⟨before, rfl, inner⟩
    · exact Int.le_refl 0
    · rw [depth_cons, up]
      rcases List.prefix_concat_iff.mp inner with rfl | inner
      · rw [depth_append, level]
        simp [depth, down]
      · have := above before inner
        omega

theorem length_le (h : Balanced text rest) : rest.length ≤ text.length := by
  obtain ⟨tokens, rfl, _⟩ := h
  rw [List.length_append]
  omega

/-- What a closing token stands behind cannot go on over it. -/
theorem length_le_of_closes (h : Balanced text rest) (closes : Closes rest)
    (h' : Balanced text text') : rest.length ≤ text'.length := by
  obtain ⟨tokens, rfl, level, _⟩ := h
  obtain ⟨tokens', split, _, above⟩ := h'
  obtain ⟨t, behind, rfl, closing⟩ := closes
  by_contra shorter
  have other : t.name ≠ "(" := by
    rcases closing with closing | closing
    · rw [closing]
      decide
    · rw [closing]
      decide
  have down : nesting t = -1 := by rw [nesting, if_neg other, if_pos closing]
  rcases List.append_eq_append_iff.mp split with ⟨more, rfl, he⟩ | ⟨more, rfl, he⟩
  · cases more with
    | nil => exact shorter (Nat.le_of_eq (congrArg List.length he))
    | cons u more =>
      obtain ⟨rfl, _⟩ := List.cons.inj he
      have below := above (tokens ++ [t]) ⟨more, by simp⟩
      rw [depth_append, level, depth_cons, down] at below
      exact absurd below (by decide)
  · rw [he, List.length_append] at shorter
    omega

end Balanced

section Extent

variable {extent : List Token → List Token → Prop} {level operand : Level} {clause : Clause}
  {text text' rest : List Token} {t : Token} {x : Binary64} {a b : Bool}

theorem nesting_of_name {name : Symbol} (named : t.name = name)
    (inner : name ∉ ["(", ")", endSymbol]) : nesting t = 0 := by
  subst named
  simp only [List.mem_cons, List.not_mem_nil, or_false, not_or] at inner
  rw [nesting, if_neg inner.1, if_neg (not_or.mpr inner.2)]

theorem Operator.nesting {op : Binary64 → Binary64 → Binary64}
    (h : Operator level t.name operand op) : nesting t = 0 := by
  refine nesting_of_name rfl ?_
  generalize t.name = name at h
  cases h <;> decide

theorem Computes.balanced (h : Computes level text rest x) : Balanced text rest := by
  induction h with
  | number named _ => exact .token (nesting_of_name named (by decide))
  | negative named _ ih => exact ih.cons (nesting_of_name named (by decide))
  | enclosed opening _ closing ih => exact ih.enclosed opening closing
  | base _ ih => exact ih
  | factor _ ih => exact ih
  | term _ ih => exact ih
  | chain _ operator _ ihl ihr => exact ihl.join operator.nesting ihr

theorem Reads.balanced (h : Reads extent clause text rest b) : Balanced text rest := by
  induction h with
  | truth named => exact .token (nesting_of_name named (by decide))
  | falsehood named => exact .token (nesting_of_name named (by decide))
  | enclosed opening _ closing ih => exact ih.enclosed opening closing
  | equation left named right =>
    exact left.balanced.join (nesting_of_name named (by decide)) right.balanced
  | negation named _ ih => exact ih.cons (nesting_of_name named (by decide))
  | plain _ ih => exact ih
  | equal _ named _ _ ihl ihr => exact ihl.join (nesting_of_name named (by decide)) ihr
  | one _ ih => exact ih
  | both _ named _ ihl ihr => exact ihl.join (nesting_of_name named (by decide)) ihr
  | only _ ih => exact ih
  | either _ named _ ihl ihr => exact ihl.join (nesting_of_name named (by decide)) ihr

/-- Where all equalities take what is left up to the end of the formula or of the parenthesis
around them, they take the longest disjunctions. -/
theorem Reads.longest (h : Reads Full clause text rest b) :
    Reads Longest clause text rest b :=
  h.mono fun _ _ _ right closes _ _ other =>
    right.balanced.length_le_of_closes closes other.balanced

/-- The text ends a formula or goes on with what a disjunction before it could take. -/
def Resumes (text : List Token) : Prop :=
  Closes text ∨ ∃ t text' rest b, text = t :: text' ∧
    (t.name = "and" ∧ Reads Loose .boolean text' rest b ∨
      t.name = "or" ∧ Reads Loose .conjunction text' rest b)

theorem Reads.exists_and (h : Reads Loose .disjunction text (t :: text') a)
    (named : t.name = "and") (more : Reads Loose .boolean text' rest b) :
    ∃ c, Reads Loose .disjunction text rest c := by
  cases h with
  | only part => exact ⟨_, .only (.both part named more)⟩
  | either left named' right => exact ⟨_, .either left named' (.both right named more)⟩

theorem Longest.closes (h : Longest text rest)
    (right : Reads Loose .disjunction text rest b) (resumes : Resumes rest) :
    Closes rest := by
  rcases resumes with closes | ⟨t, text', rest', c, rfl, ⟨named, more⟩ | ⟨named, more⟩⟩
  · exact closes
  · obtain ⟨d, longer⟩ := right.exists_and named more
    have := h _ _ longer
    have := more.balanced.length_le
    rw [List.length_cons] at *
    omega
  · have := h _ _ (.either right named more)
    have := more.balanced.length_le
    rw [List.length_cons] at *
    omega

/-- The longest disjunction to the right of an equality goes up to the end of the formula or of
the parenthesis around it: what else could follow, it could take as well. -/
theorem Reads.closes (h : Reads Longest clause text rest b)
    (resumes : clause ≠ .primary → Resumes rest) :
    Reads Full clause text rest b := by
  induction h with
  | truth named => exact .truth named
  | falsehood named => exact .falsehood named
  | enclosed opening _ closing ih =>
    exact .enclosed opening (ih fun _ => Or.inl ⟨_, _, rfl, Or.inl closing⟩) closing
  | equation left named right => exact .equation left named right
  | negation named _ ih => exact .negation named (ih fun _ => resumes (by decide))
  | plain _ ih => exact .plain (ih fun other => absurd rfl other)
  | equal _ named right longest ihl ihr =>
    have here := resumes (by decide)
    exact .equal (ihl fun other => absurd rfl other) named (ihr fun _ => here)
      (longest.closes right.loosen here)
  | one _ ih => exact .one (ih fun _ => resumes (by decide))
  | both _ named right ihl ihr =>
    refine .both (ihl fun _ => ?_) named (ihr fun _ => resumes (by decide))
    exact Or.inr ⟨_, _, _, _, rfl, Or.inl ⟨named, right.loosen⟩⟩
  | only _ ih => exact .only (ih fun _ => resumes (by decide))
  | either _ named right ihl ihr =>
    refine .either (ihl fun _ => ?_) named (ihr fun _ => resumes (by decide))
    exact Or.inr ⟨_, _, _, _, rfl, Or.inr ⟨named, right.loosen⟩⟩

end Extent

end ShiftFirst.Formula
