import ShiftFirst.Proofs.Formula.Evaluation
import ShiftFirst.Proofs.Formula.Precedence

namespace ShiftFirst.Formula

/-- The operators between two numbers. -/
inductive Sign where
  | plus
  | minus
  | times
  | divide
  | power
  deriving DecidableEq, Repr

namespace Sign

def symbol : Sign → Symbol
  | plus => "+"
  | minus => "-"
  | times => "*"
  | divide => "/"
  | power => "^"

def apply : Sign → Binary64 → Binary64 → Binary64
  | plus => .add
  | minus => .sub
  | times => .mul
  | divide => .div
  | power => .pow

def level : Sign → Level
  | plus => .sum
  | minus => .sum
  | times => .product
  | divide => .product
  | power => .power

/-- The level of the part that an operator takes on its right. -/
def operand : Sign → Level
  | plus => .product
  | minus => .product
  | times => .value
  | divide => .value
  | power => .value

theorem operator (o : Sign) : Operator o.level o.symbol o.operand o.apply := by
  cases o <;> constructor

theorem of_operator {o : Sign} {level operand : Level} {op : Binary64 → Binary64 → Binary64}
    (h : Operator level o.symbol operand op) : level = o.level ∧ operand = o.operand := by
  generalize named : o.symbol = name at h
  revert named
  cases h <;> cases o <;> decide

theorem operand_eq_value (o : Sign) (h : o.level ≠ .sum) : o.operand = .value := by
  revert h
  cases o <;> decide

theorem operand_eq_product (o : Sign) (h : o.level = .sum) : o.operand = .product := by
  revert h
  cases o <;> decide

theorem symbol_mem (o : Sign) : o.symbol ∈ words := by cases o <;> decide

end Sign

/-- A numeral that formulas may have. -/
structure Literal where
  text : String
  numeral : Binary64.IsNumeral text.toList

namespace Literal

def value (n : Literal) : Binary64 := (Binary64.read n.text).toOption.getD ⟨0⟩

theorem read_text (n : Literal) : Binary64.read n.text = .ok n.value := by
  obtain ⟨x, spelled⟩ := Binary64.read_of_numeral n.numeral
  rw [value, spelled]
  rfl

end Literal

section Row

variable {level level' operand : Level} {behind : Sign → Level} {text text' rest : List Token}
  {t : Token} {x y : Binary64} {o : Sign} {row : List (Sign × Binary64)}

/-- Every part of the first level is one of the second level. -/
def Level.Within (level level' : Level) : Prop :=
  ∀ text rest x, Computes level text rest x → Computes level' text rest x

/-- Operands with operators between them stand in front of the rest. The first one is a part of a
level, and each of the others one of the level that belongs to the operator before it. -/
inductive Row (behind : Sign → Level) :
    Level → List Token → List Token → Binary64 → List (Sign × Binary64) → Prop
  | last {level : Level} {text rest : List Token} {x : Binary64}
      (part : Computes level text rest x) : Row behind level text rest x []
  | more {level : Level} {t : Token} {text text' rest : List Token} {x y : Binary64} {o : Sign}
      {row : List (Sign × Binary64)} (part : Computes level text (t :: text') x)
      (named : t.name = o.symbol) (others : Row behind (behind o) text' rest y row) :
      Row behind level text rest x ((o, y) :: row)

/-- A part and an operator go to the front of the first operand. -/
theorem Row.absorb (part : Computes o.level text (t :: text') x) (named : t.name = o.symbol)
    (h : Row behind o.operand text' rest y row) :
    Row behind o.level text rest (o.apply x y) row := by
  have operator : Operator o.level t.name o.operand o.apply := named ▸ o.operator
  cases h with
  | last right => exact .last (part.chain operator right)
  | more right named' others => exact .more (part.chain operator right) named' others

theorem Row.single (h : Row behind level text rest x row) (none : row = []) :
    Computes level text rest x := by
  subst none
  cases h with
  | last part => exact part

/-- Where the operators of a level have operands of the level that they take, the others stand
between parts of that level when it is contracted. An operand that is to stay of a tighter level
must not be followed by an operator of the contracted one. -/
theorem Row.contract (l : Level) (behind' : Sign → Level)
    (tight : ∀ o ∈ row.map Prod.fst, o.level = l → behind o = o.operand)
    (loose : ∀ o ∈ row.map Prod.fst, o.level ≠ l →
      (behind o).Within l ∧ (behind o).Within (behind' o))
    (kept : (row.map Prod.fst).IsChain fun o o' => o.level ≠ l → o'.level = l → behind' o = l)
    (h : Row behind level text rest x row) (within : level.Within l) (front : level.Within level')
    (head : ∀ o ∈ (row.map Prod.fst).head?, o.level = l → level' = l) :
    Row behind' level' text rest (contract Sign.level Sign.apply l x row).1
      (contract Sign.level Sign.apply l x row).2 := by
  induction row generalizing level level' text x with
  | nil =>
    cases h with
    | last part => exact .last (front _ _ _ part)
  | cons first row ih =>
    obtain ⟨o, y⟩ := first
    obtain ⟨here, tight⟩ := List.forall_mem_cons.mp tight
    obtain ⟨here', loose⟩ := List.forall_mem_cons.mp loose
    obtain ⟨next, kept⟩ := List.isChain_cons.mp kept
    cases h with
    | more part named others =>
      by_cases same : o.level = l
      · subst same
        rw [contract_tight rfl, head o rfl rfl]
        rw [here rfl] at others
        exact ih tight loose kept (.absorb (within _ _ _ part) named others) (fun _ _ _ => id)
          (fun _ _ _ => id) fun _ _ _ => rfl
      · rw [contract_loose same]
        obtain ⟨within', front'⟩ := here' same
        exact .more (front _ _ _ part) named
          (ih tight loose kept others within' front' fun o' mem => next o' mem same)

end Row

section Flat

variable {level : Level} {first : Literal} {row : List (Sign × Literal)} {rest : List Token}

/-- The tokens of numbers with operators between them. -/
def numerals (first : Literal) (row : List (Sign × Literal)) : List Token :=
  (flat Sign.symbol Literal.text first row).map tokenOf

/-- The numbers that the operands are. -/
def values (row : List (Sign × Literal)) : List (Sign × Binary64) :=
  row.map fun (o, n) => (o, n.value)

theorem map_fst_values (row : List (Sign × Literal)) :
    (values row).map Prod.fst = row.map Prod.fst := by
  rw [values, List.map_map]
  rfl

theorem Literal.computes (n : Literal) (rest : List Token) :
    Computes .value (tokenOf n.text :: rest) rest n.value :=
  .number (nameOf_numeral n.numeral) n.read_text

theorem row_numerals (first : Literal) (row : List (Sign × Literal)) (rest : List Token) :
    Row (fun _ => .value) .value (numerals first row ++ rest) rest first.value (values row) := by
  induction row generalizing first with
  | nil => exact .last (first.computes rest)
  | cons next row ih =>
    obtain ⟨o, n⟩ := next
    exact .more (first.computes _) (nameOf_word o.symbol_mem) (ih n)

/-- No operator that takes a single value on its right comes right before a power. -/
def Unpowered (operators : List Sign) : Prop :=
  operators.IsChain fun o o' => o.level = .product → o'.level ≠ .power

/-- The level of the operands behind an operator once all powers are taken. -/
def settled (o : Sign) : Level := if o.level = .product then .value else .power

theorem settled_within (o : Sign) : (settled o).Within .product := by
  unfold settled
  split
  · exact fun _ _ _ part => part.lift .product
  · exact fun _ _ _ => .factor

theorem computes_numerals (unpowered : Unpowered (row.map Prod.fst)) (rest : List Token) :
    Computes .sum (numerals first row ++ rest) rest
      (byPrecedence Sign.level Sign.apply [.power, .product, .sum] first.value (values row)) := by
  have value : ∀ level : Level, Level.value.Within level := fun level _ _ _ part => part.lift level
  have powers := (row_numerals first row rest).contract .power settled
    (fun o _ power => (o.operand_eq_value (by rw [power]; decide)).symm)
    (fun _ _ _ => ⟨value _, value _⟩) (by
      rw [map_fst_values]
      exact unpowered.imp fun o o' apart _ power => if_neg fun product => apart product power)
    (value _) (value .power) fun _ _ _ => rfl
  have products := powers.contract .product (fun _ => .product)
    (fun o _ product => (if_pos product).trans (o.operand_eq_value (by rw [product]; decide)).symm)
    (fun o _ _ => ⟨settled_within o, settled_within o⟩)
    (List.pairwise_of_forall fun _ _ _ _ => rfl).isChain (fun _ _ _ => .factor)
    (fun _ _ _ => .factor) fun _ _ _ => rfl
  have sums := products.contract .sum (fun _ => .sum)
    (fun o _ sum => (o.operand_eq_product sum).symm)
    (fun _ _ _ => ⟨fun _ _ _ => .term, fun _ _ _ => .term⟩)
    (List.pairwise_of_forall fun _ _ _ _ => rfl).isChain (fun _ _ _ => .term)
    (fun _ _ _ => .term) fun _ _ _ => rfl
  have none : (contractAll Sign.level Sign.apply [.power, .product, .sum] first.value
      (values row)).2 = [] :=
    contractAll_eq_nil fun o _ => by cases o <;> decide
  exact sums.single none

theorem numerals_nil : numerals first [] = [tokenOf first.text] := rfl

theorem numerals_cons {o : Sign} {n : Literal} :
    numerals first ((o, n) :: row) = tokenOf first.text :: tokenOf o.symbol :: numerals n row :=
  rfl

theorem numerals_head (first : Literal) (row : List (Sign × Literal)) :
    ∃ tokens, numerals first row = tokenOf first.text :: tokens := by
  cases row with
  | nil => exact ⟨[], rfl⟩
  | cons next row => exact ⟨_, rfl⟩

/-- A token that is not a numeral is one of the operators. -/
theorem numerals_split {front back : List Token} {t : Token}
    (h : numerals first row = front ++ t :: back) (named : t.name ≠ "number") :
    ∃ before o n after, row = before ++ (o, n) :: after ∧ front = numerals first before ∧
      t.name = o.symbol ∧ back = numerals n after := by
  have literal : ∀ n : Literal, (tokenOf n.text).name = "number" := fun n =>
    nameOf_numeral n.numeral
  induction row generalizing first front with
  | nil =>
    rw [numerals_nil] at h
    cases front with
    | nil =>
      obtain ⟨rfl, _⟩ := List.cons.inj h
      exact absurd (literal first) named
    | cons u front => exact absurd (List.cons.inj h).2 (by simp)
  | cons next row ih =>
    obtain ⟨o, n⟩ := next
    rw [numerals_cons] at h
    cases front with
    | nil =>
      obtain ⟨rfl, _⟩ := List.cons.inj h
      exact absurd (literal first) named
    | cons u front =>
      obtain ⟨rfl, behind⟩ := List.cons.inj h
      cases front with
      | nil =>
        obtain ⟨rfl, rfl⟩ := List.cons.inj behind
        exact ⟨[], o, n, row, rfl, rfl, nameOf_word o.symbol_mem, rfl⟩
      | cons u' front =>
        obtain ⟨rfl, others⟩ := List.cons.inj behind
        obtain ⟨before, o', n', after, rfl, rfl, symbol, rfl⟩ := ih others
        exact ⟨(o, n) :: before, o', n', after, rfl, rfl, symbol, rfl⟩

/-- The operators that a part of a level may have outside parentheses. -/
def Level.Confines : Level → List Sign → Prop
  | .value, operators => operators = []
  | .power, operators => ∀ o ∈ operators, o.level = .power
  | .product, operators => ∀ o ∈ operators, o.level ≠ .sum
  | .sum, _ => True

theorem confines_append {before after : List Sign} {o : Sign} (confines : o.level.Confines before)
    (alone : o.level ≠ .sum → after = []) : o.level.Confines (before ++ o :: after) := by
  by_cases sum : o.level = .sum
  · rw [sum]
    trivial
  · rw [alone sum]
    have last : ∀ P : Sign → Prop, P o → ∀ o' ∈ [o], P o' := fun _ => List.forall_mem_singleton.mpr
    cases o with
    | plus => exact absurd rfl sum
    | minus => exact absurd rfl sum
    | times => exact List.forall_mem_append.mpr ⟨confines, last _ sum⟩
    | divide => exact List.forall_mem_append.mpr ⟨confines, last _ sum⟩
    | power => exact List.forall_mem_append.mpr ⟨confines, last _ rfl⟩

/-- An operator with what it takes on both sides has no power right behind a product: powers have
nothing but powers on their left side, and products take single values on their right. -/
theorem unpowered_append {before after : List Sign} {o : Sign} (h : Unpowered before)
    (h' : Unpowered after) (confines : o.level.Confines before)
    (alone : o.level ≠ .sum → after = []) : Unpowered (before ++ o :: after) := by
  refine List.isChain_append.mpr ⟨h, List.isChain_cons.mpr ⟨fun o' mem product => ?_, h'⟩,
    fun o' last _ mem product power => ?_⟩
  · rw [alone (by rw [product]; decide)] at mem
    cases mem
  · cases mem
    rw [power] at confines
    cases product.symm.trans (confines o' (List.mem_of_getLast? last))

/-- What begins with a numeral is none of the parts that begin with another token. -/
theorem numeral_begins {text : List Token} {t : Token}
    (whole : t :: text = numerals first row ++ rest) : t.name = "number" := by
  obtain ⟨tokens, begins⟩ := numerals_head first row
  rw [begins] at whole
  rw [(List.cons.inj whole).1]
  exact nameOf_numeral first.numeral

theorem Computes.confined {text : List Token} {x : Binary64} (h : Computes level text rest x)
    (whole : text = numerals first row ++ rest) :
    level.Confines (row.map Prod.fst) ∧ Unpowered (row.map Prod.fst) := by
  induction h generalizing first row with
  | @number t rest =>
    have single : [t] = numerals first row := List.append_cancel_right whole
    cases row with
    | nil => exact ⟨rfl, .nil⟩
    | cons next row =>
      rw [numerals_cons] at single
      cases (List.cons.inj single).2
  | negative named =>
    exact absurd (named.symm.trans (numeral_begins whole)) (by decide)
  | enclosed opening =>
    exact absurd (opening.symm.trans (numeral_begins whole)) (by decide)
  | base _ ih =>
    obtain ⟨none, unpowered⟩ := ih whole
    exact ⟨fun o mem => absurd (none ▸ mem) List.not_mem_nil, unpowered⟩
  | factor _ ih =>
    obtain ⟨powers, unpowered⟩ := ih whole
    exact ⟨fun o mem sum => Level.noConfusion (sum.symm.trans (powers o mem)), unpowered⟩
  | term _ ih => exact ⟨trivial, (ih whole).2⟩
  | chain left operator right ihl ihr =>
    obtain ⟨back, rfl⟩ := right.balanced.suffix
    obtain ⟨front, rfl⟩ := left.balanced.suffix
    rw [← List.cons_append, ← List.append_assoc] at whole
    obtain ⟨before, o, n, after, rfl, rfl, symbol, rfl⟩ :=
      numerals_split (List.append_cancel_right whole).symm operator.ne_number
    rw [symbol] at operator
    obtain ⟨rfl, rfl⟩ := Sign.of_operator operator
    obtain ⟨confines, unpowered⟩ := ihl rfl
    obtain ⟨confines', unpowered'⟩ := ihr rfl
    have alone : o.level ≠ .sum → after.map Prod.fst = [] := fun other => by
      rw [o.operand_eq_value other] at confines'
      exact confines'
    rw [List.map_append]
    exact ⟨confines_append confines alone, unpowered_append unpowered unpowered' confines alone⟩

theorem stands_numerals (unpowered : Unpowered (row.map Prod.fst)) :
    Stands ((numerals first row).map key)
      (.number (byPrecedence Sign.level Sign.apply [.power, .product, .sum] first.value
        (values row))) :=
  (means_iff_stands (closes_finish 0)).mp (.number (computes_numerals unpowered _))

theorem not_stands_numerals (powered : ¬ Unpowered (row.map Prod.fst)) (v : Value) :
    ¬ Stands ((numerals first row).map key) v := by
  intro stands
  cases stands with
  | number part => exact powered ((part _ _ rfl (closes_finish 0)).confined rfl).2
  | boolean part =>
    obtain ⟨k, mem, one⟩ := Stands.has_truthy (.boolean part)
    have others : ∀ w ∈ flat Sign.symbol Literal.text first row, nameOf w ∉ truthy := by
      refine forall_mem_flat _ (fun o => ?_) fun n => ?_
      · rw [nameOf_word o.symbol_mem]
        cases o <;> decide
      · rw [nameOf_numeral n.numeral]
        decide
    rw [numerals, List.map_map] at mem
    obtain ⟨w, hw, rfl⟩ := List.mem_map.mp mem
    exact others w hw one

theorem spelled_numerals : ∀ k ∈ (numerals first row).map key, Spelled k := by
  have each : ∀ w ∈ flat Sign.symbol Literal.text first row, Spelled (key (tokenOf w)) := by
    refine forall_mem_flat _ (fun o => ?_) fun n _ => ⟨_, n.read_text⟩
    exact spelled_of_name (nameOf_word o.symbol_mem) (by cases o <;> decide)
  rw [numerals, List.map_map]
  exact List.forall_mem_map.mpr each

/-- The value of numbers with operators between them has powers taken first, then products and
quotients, then sums and differences, all from the left. But a factor or a divisor is never a power:
with `^` right behind the operand of `*` or `/` there is no value. -/
theorem eval_arithmetic {audience : Audience} {f : Formula} (made : (new audience).answer = .ok f)
    (log : Log.Filter) (first : Literal) (row : List (Sign × Literal)) {source : String}
    (text : Spaced (flat Sign.symbol Literal.text first row) source.toList) :
    (Unpowered (row.map Prod.fst) → (f.eval log source).answer =
      .ok (.number (byPrecedence Sign.level Sign.apply [.power, .product, .sum] first.value
        (values row)))) ∧
    (¬ Unpowered (row.map Prod.fst) → ∃ name value position expected,
      (f.eval log source).answer =
        .error (.parse (.unexpectedToken name value position expected))) := by
  have scans := scans_flat Sign.symbol_mem (fun n => Or.inr n.numeral) text
  refine ⟨fun unpowered => ?_, fun powered => ?_⟩
  · exact eval_of_stands made scans (stands_numerals unpowered) log
  · exact eval_unexpected made scans spelled_numerals (not_stands_numerals powered) log

end Flat

def Literal.two : Literal := ⟨"2", .digit rfl⟩

def Literal.three : Literal := ⟨"3", .digit rfl⟩

open Literal (two three)

theorem spaced_polynomial :
    Spaced (flat Sign.symbol Literal.text two [(.power, three), (.times, two), (.plus, three)])
      "2^3*2+3".toList :=
  spaced_flatMap ["2", "^", "3", "*", "2", "+", "3"]

theorem spaced_product :
    Spaced (flat Sign.symbol Literal.text two [(.times, three), (.power, two)]) "2*3^2".toList :=
  spaced_flatMap ["2", "*", "3", "^", "2"]

theorem unpowered_polynomial : Unpowered [.power, .times, .plus] := by
  unfold Unpowered
  decide

theorem powered_product : ¬ Unpowered [.times, .power] := by
  unfold Unpowered
  decide

theorem eval_arithmetic_polynomial :
    (new {}).answer = .ok shared ∧
      (shared.eval .off "2^3*2+3").answer =
        .ok (.number (.add (.mul (.pow two.value three.value) two.value) three.value)) ∧
      ∃ name value position expected, (shared.eval .off "2*3^2").answer =
        .error (.parse (.unexpectedToken name value position expected)) :=
  ⟨shared_new, (eval_arithmetic shared_new .off _ _ spaced_polynomial).1 unpowered_polynomial,
    (eval_arithmetic shared_new .off _ _ spaced_product).2 powered_product⟩

/-- The value of `2*3^2` would be the one of `2*(3^2)`, but there is none. -/
theorem factor_not_power :
    byPrecedence Sign.level Sign.apply [.power, .product, .sum] two.value
        (values [(.times, three), (.power, two)]) =
      .mul two.value (.pow three.value two.value) ∧
    ∃ name value position expected, (shared.eval .off "2*3^2").answer =
      .error (.parse (.unexpectedToken name value position expected)) := by
  have scans := scans_flat Sign.symbol_mem (fun n => Or.inr n.numeral) spaced_product
  exact ⟨rfl, eval_unexpected shared_new scans spelled_numerals
    (not_stands_numerals powered_product) .off⟩

end ShiftFirst.Formula
