import ShiftFirst.Formula.Language
import ShiftFirst.Proofs.Grammar.Induction
import ShiftFirst.Proofs.Grammar.Rank

namespace ShiftFirst.Formula

/-- The kinds of the values that a symbol can have. A terminal has the text of its token. -/
def kinds (symbol : Symbol) : List String :=
  match symbol with
  | "Expr" => ["number", "boolean"]
  | "OrExpr" => ["boolean"]
  | "AndExpr" => ["boolean"]
  | "BoolValue" => ["boolean"]
  | "SumExpr" => ["number"]
  | "MultExpr" => ["number"]
  | "PowExpr" => ["number"]
  | "Value" => ["number"]
  | _ => ["text"]

def Typed (symbol : Symbol) (v : Value) : Prop := v.kind ∈ kinds symbol

variable {symbol left mid right subject : Symbol} {predicate : List Symbol} {operation : Operation}
  {v : Value}

theorem Typed.number (h : Typed symbol v) (only : kinds symbol = ["number"]) :
    ∃ x, v = .number x := by
  rw [Typed, only, List.mem_singleton] at h
  cases v with
  | number x => exact ⟨x, rfl⟩
  | boolean b => exact absurd h (by simp [Value.kind])
  | text s => exact absurd h (by simp [Value.kind])

theorem Typed.boolean (h : Typed symbol v) (only : kinds symbol = ["boolean"]) :
    ∃ b, v = .boolean b := by
  rw [Typed, only, List.mem_singleton] at h
  cases v with
  | number x => exact absurd h (by simp [Value.kind])
  | boolean b => exact ⟨b, rfl⟩
  | text s => exact absurd h (by simp [Value.kind])

theorem Typed.text (h : Typed symbol v) (only : kinds symbol = ["text"]) : ∃ s, v = .text s := by
  rw [Typed, only, List.mem_singleton] at h
  cases v with
  | number x => exact absurd h (by simp [Value.kind])
  | boolean b => exact absurd h (by simp [Value.kind])
  | text s => exact ⟨s, rfl⟩

/-- Of values of the kinds of a predicate's symbols an operation makes one of a kind of the
subject. -/
def Total (operation : Operation) (subject : Symbol) (predicate : List Symbol) : Prop :=
  ∀ values, List.Forall₂ Typed predicate values → ∃ v, operation values = .ok v ∧ Typed subject v

theorem total_pass (sub : kinds symbol ⊆ kinds subject) : Total pass subject [symbol] := by
  rintro _ (_ | ⟨typed, _ | _⟩)
  exact ⟨_, rfl, sub typed⟩

theorem total_parenthesized (sub : kinds mid ⊆ kinds subject) :
    Total parenthesized subject [left, mid, right] := by
  rintro _ (_ | ⟨_, _ | ⟨typed, _ | ⟨_, _ | _⟩⟩⟩)
  exact ⟨_, rfl, sub typed⟩

theorem total_arithmetic (op : Binary64 → Binary64 → Binary64) (hl : kinds left = ["number"])
    (hr : kinds right = ["number"]) (hs : "number" ∈ kinds subject) :
    Total (arithmetic op) subject [left, mid, right] := by
  rintro _ (_ | ⟨first, _ | ⟨_, _ | ⟨last, _ | _⟩⟩⟩)
  obtain ⟨x, rfl⟩ := first.number hl
  obtain ⟨y, rfl⟩ := last.number hr
  exact ⟨.number (op x y), rfl, hs⟩

theorem total_logical (op : Bool → Bool → Bool) (hl : kinds left = ["boolean"])
    (hr : kinds right = ["boolean"]) (hs : "boolean" ∈ kinds subject) :
    Total (logical op) subject [left, mid, right] := by
  rintro _ (_ | ⟨first, _ | ⟨_, _ | ⟨last, _ | _⟩⟩⟩)
  obtain ⟨a, rfl⟩ := first.boolean hl
  obtain ⟨b, rfl⟩ := last.boolean hr
  exact ⟨.boolean (op a b), rfl, hs⟩

theorem total_equals (hs : "boolean" ∈ kinds subject) :
    Total equals subject [left, mid, right] := by
  rintro _ (_ | ⟨_, _ | ⟨_, _ | ⟨_, _ | _⟩⟩⟩)
  exact ⟨_, rfl, hs⟩

theorem total_constant (b : Bool) (hs : "boolean" ∈ kinds subject) :
    Total (constant b) subject predicate :=
  fun _ _ => ⟨_, rfl, hs⟩

theorem total_negate (hr : kinds right = ["number"]) (hs : "number" ∈ kinds subject) :
    Total negate subject [left, right] := by
  rintro _ (_ | ⟨_, _ | ⟨last, _ | _⟩⟩)
  obtain ⟨x, rfl⟩ := last.number hr
  exact ⟨.number x.neg, rfl, hs⟩

theorem total_not (hr : kinds right = ["boolean"]) (hs : "boolean" ∈ kinds subject) :
    Total not subject [left, right] := by
  rintro _ (_ | ⟨_, _ | ⟨last, _ | _⟩⟩)
  obtain ⟨b, rfl⟩ := last.boolean hr
  exact ⟨.boolean !b, rfl, hs⟩

/-- Of typed values a rule makes one, unless it is the rule of numerals and the text of its token
spells no number. -/
def Safe (r : Rule Value) : Prop :=
  ∀ values, List.Forall₂ Typed r.predicate values →
    (∃ v, r.reduce values = .ok v ∧ Typed r.subject v) ∨
      r.toProduction = ⟨"Value", ["number"]⟩ ∧ ∃ s e, values = [.text s] ∧
        Binary64.read s = .error e ∧
        r.reduce values = .error (OperandError.badNumeral s e).refusal

theorem Total.safe (h : Total operation subject predicate) :
    Safe (rule subject predicate operation) := by
  intro values typed
  obtain ⟨v, made, kind⟩ := h values typed
  exact Or.inl ⟨v, congrArg (Except.mapError OperandError.refusal) made, kind⟩

theorem safe_numeral : Safe (rule "Value" ["number"] numeral) := by
  rintro _ (_ | ⟨typed, _ | _⟩)
  obtain ⟨s, rfl⟩ := typed.text rfl
  cases hs : Binary64.read s with
  | ok x =>
    refine Or.inl ⟨.number x, ?_, List.mem_cons_self⟩
    simp [rule, numeral, hs, Except.mapError]
  | error e =>
    refine Or.inr ⟨rfl, s, e, rfl, hs, ?_⟩
    simp [rule, numeral, hs, Except.mapError]

theorem safe_rules : ∀ r ∈ rules, Safe r := by
  simp only [rules, List.forall_mem_cons]
  refine ⟨(total_pass (by decide)).safe, (total_pass (by decide)).safe,
    (total_logical or rfl rfl (by decide)).safe, (total_pass (by decide)).safe,
    (total_logical and rfl rfl (by decide)).safe, (total_pass (by decide)).safe,
    (total_equals (by decide)).safe, (total_equals (by decide)).safe,
    (total_constant true (by decide)).safe, (total_constant false (by decide)).safe,
    (total_not rfl (by decide)).safe, (total_parenthesized (by decide)).safe,
    (total_arithmetic .add rfl rfl (by decide)).safe,
    (total_arithmetic .sub rfl rfl (by decide)).safe, (total_pass (by decide)).safe,
    (total_arithmetic .mul rfl rfl (by decide)).safe,
    (total_arithmetic .div rfl rfl (by decide)).safe, (total_pass (by decide)).safe,
    (total_arithmetic .pow rfl rfl (by decide)).safe, (total_pass (by decide)).safe,
    safe_numeral, (total_negate rfl (by decide)).safe, (total_parenthesized (by decide)).safe, ?_⟩
  exact fun r mem => absurd mem List.not_mem_nil

section Rules

variable {g : Grammar Value} (h : g.rules = rules)
include h

theorem start_rules : g.start = "Expr" := by
  obtain ⟨_, _, _⟩ := g
  subst h
  rfl

theorem unmentioned_rules : ∀ rule ∈ g.rules, endSymbol ∉ rule.predicate := by
  rw [h]
  decide

theorem keeps_rules : g.Keeps Typed := by
  rw [Grammar.Keeps, h]
  intro rule mem values value typed made
  rcases safe_rules rule mem values typed with ⟨v, made', kind⟩ | ⟨_, s, e, _, _, refused⟩
  · obtain rfl := Except.ok.inj (made.symm.trans made')
    exact kind
  · cases made.symm.trans refused

/-- The text of a numeral spells a number. -/
def Readable (symbol : Symbol) (v : Value) : Prop :=
  symbol = "number" → ∃ s x, v = .text s ∧ Binary64.read s = .ok x

omit h in
theorem readable_of_not_mem {values : List Value} (other : "number" ∉ predicate)
    (length : predicate.length = values.length) : List.Forall₂ Readable predicate values := by
  refine List.forall₂_iff_zip.mpr ⟨length, fun {symbol v} mem named => ?_⟩
  exact absurd (named ▸ (List.of_mem_zip mem).1) other

theorem vouches_rules : g.Vouches Readable := by
  rw [Grammar.Vouches, h]
  have numerals : ∀ r ∈ rules, "number" ∈ r.predicate → r = rule "Value" ["number"] numeral := by
    intro r mem inside
    simp only [rules, List.mem_cons, List.not_mem_nil, or_false] at mem
    rcases mem with rfl | rfl | rfl | rfl | rfl | rfl | rfl | rfl | rfl | rfl | rfl | rfl | rfl |
      rfl | rfl | rfl | rfl | rfl | rfl | rfl | rfl | rfl | rfl
    all_goals first | rfl | exact absurd inside (by decide)
  intro r mem values value length made
  by_cases inside : "number" ∈ r.predicate
  · obtain rfl := numerals r mem inside
    obtain ⟨v, rfl⟩ := List.length_eq_one_iff.mp length.symm
    refine .cons (fun _ => ?_) .nil
    cases v with
    | text s =>
      cases hs : Binary64.read s with
      | ok x => exact ⟨s, x, rfl, hs⟩
      | error e => simp [rule, numeral, hs, Except.mapError] at made
    | number x => cases made
    | boolean b => cases made
  · exact readable_of_not_mem inside length

/-- What stands for a symbol alone is of a lower rank. -/
def rank (symbol : Symbol) : Nat :=
  match symbol with
  | "Value" => 1
  | "PowExpr" => 2
  | "MultExpr" => 3
  | "SumExpr" => 4
  | "BoolValue" => 1
  | "AndExpr" => 2
  | "OrExpr" => 3
  | "Expr" => 5
  | _ => 0

theorem ranked_rules : g.Ranked rank 5 where
  le symbol := by
    unfold rank
    split <;> omega
  falls := by
    have falls : ∀ rule ∈ rules, ∀ symbol ∈ rule.predicate, rule.predicate.length = 1 →
        rank symbol < rank rule.subject := by
      decide
    rw [h]
    intro rule mem symbol single
    exact falls rule mem symbol (by simp [single]) (by simp [single])

end Rules

end ShiftFirst.Formula
