import ShiftFirst.Proofs.Formula.Spans

namespace ShiftFirst.Formula

variable {tokens tokens' text text' rest : List Token} {t : Token} {b c : Bool}

/-- The tokens have a truth value, alone and as the left side of an equality. -/
structure Operand (tokens : List Token) : Prop where
  alone : ∀ rest, ∃ b, Reads Full .boolean (tokens ++ rest) rest b
  equal : ∀ t text rest b, t.name = "=" → Reads Full .disjunction text rest b → Closes rest →
    ∃ c, Reads Full .boolean (tokens ++ t :: text) rest c

theorem operand_of_primary (h : ∀ rest, ∃ b, Reads Full .primary (tokens ++ rest) rest b) :
    Operand tokens where
  alone rest := by
    obtain ⟨b, reads⟩ := h rest
    exact ⟨b, .plain reads⟩
  equal t text rest b named right closes := by
    obtain ⟨a, reads⟩ := h (t :: text)
    exact ⟨_, .equal reads named right closes⟩

theorem Operand.negation (named : t.name = "not") (h : Operand tokens) : Operand (t :: tokens) where
  alone rest := by
    obtain ⟨b, reads⟩ := h.alone rest
    exact ⟨!b, .negation named reads⟩
  equal u text rest b named' right closes := by
    obtain ⟨c, reads⟩ := h.equal u text rest b named' right closes
    exact ⟨!c, .negation named reads⟩

/-- Operands with operators between them, whatever binds tighter. -/
inductive Flat : List Token → Prop
  | operand {tokens : List Token} (h : Operand tokens) : Flat tokens
  | join {t : Token} {tokens tokens' : List Token} (first : Operand tokens)
      (operator : t.name ∈ ["and", "or", "="]) (others : Flat tokens') :
      Flat (tokens ++ t :: tokens')

namespace Flat

theorem append (h : Flat tokens) (operator : t.name ∈ ["and", "or", "="]) (h' : Flat tokens') :
    Flat (tokens ++ t :: tokens') := by
  induction h with
  | operand first => exact .join first operator h'
  | join first operator' _ ih =>
    rw [List.append_assoc, List.cons_append]
    exact .join first operator' ih

theorem negation (named : t.name = "not") (h : Flat tokens) : Flat (t :: tokens) := by
  cases h with
  | operand first => exact .operand (first.negation named)
  | join first operator others => exact .join (first.negation named) operator others

end Flat

section Prepend

variable (first : Operand tokens) {clause : Clause}
include first

/-- An operand and `and` go to the front of the first conjunction. -/
theorem Reads.prepend_and (named : t.name = "and") (h : Reads Full clause text rest c)
    (wide : clause = .conjunction ∨ clause = .disjunction) :
    ∃ d, Reads Full clause (tokens ++ t :: text) rest d := by
  induction h with
  | @one text _ _ part =>
    obtain ⟨b, reads⟩ := first.alone (t :: text)
    exact ⟨_, .both (.one reads) named part⟩
  | both _ named' right ih _ =>
    obtain ⟨d, reads⟩ := ih (Or.inl rfl)
    exact ⟨_, .both reads named' right⟩
  | only _ ih =>
    obtain ⟨d, reads⟩ := ih (Or.inl rfl)
    exact ⟨_, .only reads⟩
  | either _ named' right ih _ =>
    obtain ⟨d, reads⟩ := ih (Or.inr rfl)
    exact ⟨_, .either reads named' right⟩
  | _ => simp at wide

/-- An operand and `or` become a conjunction of their own. -/
theorem Reads.prepend_or (named : t.name = "or") (h : Reads Full clause text rest c)
    (wide : clause = .disjunction) : ∃ d, Reads Full clause (tokens ++ t :: text) rest d := by
  induction h with
  | @only text _ _ part =>
    obtain ⟨b, reads⟩ := first.alone (t :: text)
    exact ⟨_, .either (.only (.one reads)) named part⟩
  | either _ named' right ih _ =>
    obtain ⟨d, reads⟩ := ih rfl
    exact ⟨_, .either reads named' right⟩
  | _ => simp at wide

end Prepend

/-- Operands and operators have a reading: what stands behind the first `=` is a disjunction of its
own, and `and` and `or` join the operands before it. -/
theorem Flat.reads (h : Flat tokens) (closes : Closes rest) :
    ∃ b, Reads Full .disjunction (tokens ++ rest) rest b := by
  induction h with
  | operand first =>
    obtain ⟨b, reads⟩ := first.alone rest
    exact ⟨b, .only (.one reads)⟩
  | @join t tokens tokens' first operator _ ih =>
    obtain ⟨c, right⟩ := ih
    rw [List.append_assoc, List.cons_append]
    simp only [List.mem_cons, List.not_mem_nil, or_false] at operator
    rcases operator with named | named | named
    · exact right.prepend_and first named (Or.inr rfl)
    · exact right.prepend_or first named rfl
    · -- The equality takes all that is left, so the operand alone is on its left side.
      obtain ⟨d, reads⟩ := first.equal t _ rest c named right closes
      exact ⟨d, .only (.one reads)⟩

/-- The tokens are a part of the level, whatever follows. -/
def Numeric (level : Level) (tokens : List Token) : Prop :=
  ∃ x, ∀ rest, Computes level (tokens ++ rest) rest x

/-- What the tokens of a symbol are in terms of readings. -/
def Covers (symbol : Symbol) (tokens : List Token) : Prop :=
  match symbol with
  | "Expr" => Numeric .sum tokens ∨ Flat tokens
  | "OrExpr" => Flat tokens
  | "AndExpr" => Flat tokens
  | "BoolValue" => Flat tokens
  | "SumExpr" => Numeric .sum tokens
  | "MultExpr" => Numeric .product tokens
  | "PowExpr" => Numeric .power tokens
  | "Value" => Numeric .value tokens
  | "number" => ∃ t x, tokens = [t] ∧ t.name = "number" ∧ Binary64.read t.value = .ok x
  | name => ∃ t, tokens = [t] ∧ t.name = name

theorem Level.covers (level : Level) : Covers level.symbol tokens = Numeric level tokens := by
  cases level <;> rfl

theorem Clause.covers (clause : Clause) : Covers clause.symbol tokens = Flat tokens := by
  cases clause <;> rfl

theorem Operator.covers {level operand : Level} {name : Symbol}
    {op : Binary64 → Binary64 → Binary64} (h : Operator level name operand op) :
    Covers name tokens = ∃ t, tokens = [t] ∧ t.name = name := by
  cases h <;> rfl

theorem numeric_chain {level operand : Level} {name : Symbol} {op : Binary64 → Binary64 → Binary64}
    (operator : Operator level name operand op)
    (rows : Rows Covers [level.symbol, name, operand.symbol] tokens) : Numeric level tokens := by
  obtain ⟨front, between, back, rfl, left, sign, right⟩ := rows.triple
  rw [level.covers] at left
  rw [operand.covers] at right
  rw [operator.covers] at sign
  obtain ⟨x, left⟩ := left
  obtain ⟨y, right⟩ := right
  obtain ⟨t, rfl, rfl⟩ := sign
  refine ⟨op x y, fun rest => ?_⟩
  rw [List.append_assoc]
  exact .chain (left _) operator (right rest)

theorem numeric_number (rows : Rows Covers ["number"] tokens) : Numeric .value tokens := by
  obtain ⟨t, x, rfl, named, spelled⟩ := rows.single
  exact ⟨x, fun _ => .number named spelled⟩

theorem numeric_negative (rows : Rows Covers ["-", "Value"] tokens) : Numeric .value tokens := by
  obtain ⟨_, back, rfl, ⟨t, rfl, named⟩, ⟨x, part⟩⟩ := rows.pair
  exact ⟨x.neg, fun rest => .negative named (part rest)⟩

theorem numeric_enclosed (rows : Rows Covers ["(", "SumExpr", ")"] tokens) :
    Numeric .value tokens := by
  obtain ⟨_, between, _, rfl, ⟨t, rfl, opening⟩, ⟨x, part⟩, ⟨u, rfl, closing⟩⟩ := rows.triple
  refine ⟨x, fun rest => ?_⟩
  have inner := part (u :: rest)
  exact .enclosed opening (by simpa using inner) closing

theorem flat_join (left right : Clause) {name : Symbol} (operator : name ∈ ["and", "or", "="])
    (rows : Rows Covers [left.symbol, name, right.symbol] tokens) : Flat tokens := by
  obtain ⟨front, between, back, rfl, first, sign, last⟩ := rows.triple
  rw [left.covers] at first
  rw [right.covers] at last
  have sign : ∃ t, between = [t] ∧ t.name = name := by
    simp only [List.mem_cons, List.not_mem_nil, or_false] at operator
    rcases operator with rfl | rfl | rfl <;> exact sign
  obtain ⟨t, rfl, rfl⟩ := sign
  exact first.append operator last

theorem flat_equation (rows : Rows Covers ["SumExpr", "=", "SumExpr"] tokens) : Flat tokens := by
  obtain ⟨front, _, back, rfl, ⟨x, left⟩, ⟨t, rfl, named⟩, ⟨y, right⟩⟩ := rows.triple
  refine .operand (operand_of_primary fun rest => ⟨x.equals y, ?_⟩)
  rw [List.append_assoc]
  exact .equation (left _) named (right rest)

theorem flat_negation (rows : Rows Covers ["not", "BoolValue"] tokens) : Flat tokens := by
  obtain ⟨_, back, rfl, ⟨t, rfl, named⟩, part⟩ := rows.pair
  exact Flat.negation named part

theorem flat_enclosed (rows : Rows Covers ["(", "OrExpr", ")"] tokens) : Flat tokens := by
  obtain ⟨_, between, _, rfl, ⟨t, rfl, opening⟩, part, ⟨u, rfl, closing⟩⟩ := rows.triple
  refine .operand (operand_of_primary fun rest => ?_)
  have closes : Closes (u :: rest) := ⟨u, rest, rfl, Or.inl closing⟩
  obtain ⟨b, inner⟩ := Flat.reads part closes
  exact ⟨b, .enclosed opening (by simpa using inner) closing⟩

theorem flat_truth (rows : Rows Covers ["true"] tokens) : Flat tokens := by
  obtain ⟨t, rfl, named⟩ := rows.single
  exact .operand (operand_of_primary fun _ => ⟨true, .truth named⟩)

theorem flat_falsehood (rows : Rows Covers ["false"] tokens) : Flat tokens := by
  obtain ⟨t, rfl, named⟩ := rows.single
  exact .operand (operand_of_primary fun _ => ⟨false, .falsehood named⟩)

theorem passes_rules : ∀ r ∈ rules, ∀ tokens, Rows Covers r.predicate tokens →
    Covers r.subject tokens := by
  simp only [rules, List.forall_mem_cons]
  refine ⟨fun _ rows => Or.inr rows.single, fun _ rows => Or.inl rows.single,
    fun _ rows => flat_join .disjunction .conjunction (by decide) rows, fun _ rows => rows.single,
    fun _ rows => flat_join .conjunction .boolean (by decide) rows, fun _ rows => rows.single,
    fun _ rows => flat_equation rows,
    fun _ rows => flat_join .boolean .disjunction (by decide) rows, fun _ rows => flat_truth rows,
    fun _ rows => flat_falsehood rows, fun _ rows => flat_negation rows,
    fun _ rows => flat_enclosed rows, fun _ rows => numeric_chain .plus rows,
    fun _ rows => numeric_chain .minus rows, fun _ rows => ?_,
    fun _ rows => numeric_chain .times rows, fun _ rows => numeric_chain .over rows,
    fun _ rows => ?_, fun _ rows => numeric_chain .power rows, fun _ rows => ?_,
    fun _ rows => numeric_number rows, fun _ rows => numeric_negative rows,
    fun _ rows => numeric_enclosed rows, ?_⟩
  · obtain ⟨x, part⟩ := rows.single
    exact ⟨x, fun rest => .term (part rest)⟩
  · obtain ⟨x, part⟩ := rows.single
    exact ⟨x, fun rest => .factor (part rest)⟩
  · obtain ⟨x, part⟩ := rows.single
    exact ⟨x, fun rest => .base (part rest)⟩
  · exact fun r mem => absurd mem List.not_mem_nil

end ShiftFirst.Formula
