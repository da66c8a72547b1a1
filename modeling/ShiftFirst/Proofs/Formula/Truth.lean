import ShiftFirst.Proofs.Formula.Evaluation
import ShiftFirst.Proofs.Formula.Precedence

namespace ShiftFirst.Formula

/-- The operators between two truth values. -/
inductive Connective where
  | equal
  | and
  | or
  deriving DecidableEq, Repr

namespace Connective

def symbol : Connective → Symbol
  | equal => "="
  | and => "and"
  | or => "or"

def apply : Connective → Bool → Bool → Bool
  | equal => (· == ·)
  | and => (· && ·)
  | or => (· || ·)

theorem symbol_mem (o : Connective) : o.symbol ∈ words := by cases o <;> decide

end Connective

def spell (b : Bool) : String := if b then "true" else "false"

theorem spell_mem (b : Bool) : spell b ∈ words := by cases b <;> decide

section Values

variable {d c x y : Bool} {o : Connective} {row : List (Connective × Bool)}

/-- The value of truth values with `and` and `or` between them. -/
def joined (x : Bool) (row : List (Connective × Bool)) : Bool :=
  byPrecedence id Connective.apply [.and, .or] x row

/-- Compares the operand before the first `=` with the value of all that stands behind it, in which
the next `=` does the same. -/
def compareRest : Bool → List (Connective × Bool) → Bool × List (Connective × Bool)
  | x, [] => (x, [])
  | x, (.equal, y) :: row => (x == joined (compareRest y row).1 (compareRest y row).2, [])
  | x, (.and, y) :: row => (x, (.and, (compareRest y row).1) :: (compareRest y row).2)
  | x, (.or, y) :: row => (x, (.or, (compareRest y row).1) :: (compareRest y row).2)

/-- The value of truth values with operators between them, where equalities go on up to the end. -/
def reaching (x : Bool) (row : List (Connective × Bool)) : Bool :=
  joined (compareRest x row).1 (compareRest x row).2

/-- The value of truth values with operators between them, where equalities bind tightest. -/
def binding (x : Bool) (row : List (Connective × Bool)) : Bool :=
  byPrecedence id Connective.apply [.equal, .and, .or] x row

/-- The same behind a disjunction and a conjunction that have been read before. -/
def joinedBehind (d c x : Bool) (row : List (Connective × Bool)) : Bool :=
  let products := contract id Connective.apply .and (c && x) row
  (contract id Connective.apply .or (d || products.1) products.2).1

def reachingBehind (d c x : Bool) (row : List (Connective × Bool)) : Bool :=
  joinedBehind d c (compareRest x row).1 (compareRest x row).2

def bindingBehind (d c x : Bool) (row : List (Connective × Bool)) : Bool :=
  let equalities := contract id Connective.apply .equal x row
  joinedBehind d c equalities.1 equalities.2

theorem reaching_eq : reaching x row = reachingBehind false true x row := rfl

theorem reachingBehind_equal :
    reachingBehind d c x ((.equal, y) :: row) = (d || (c && (x == reaching y row))) :=
  rfl

theorem reachingBehind_and :
    reachingBehind d c x ((.and, y) :: row) = reachingBehind d (c && x) y row :=
  rfl

theorem reachingBehind_or :
    reachingBehind d c x ((.or, y) :: row) = reachingBehind (d || (c && x)) true y row :=
  rfl

theorem binding_eq : binding x row = bindingBehind false true x row := rfl

theorem bindingBehind_nil : bindingBehind d c x [] = (d || (c && x)) := rfl

theorem bindingBehind_equal :
    bindingBehind d c x ((.equal, y) :: row) = bindingBehind d c (x == y) row :=
  rfl

theorem bindingBehind_and :
    bindingBehind d c x ((.and, y) :: row) = bindingBehind d (c && x) y row :=
  rfl

theorem bindingBehind_or :
    bindingBehind d c x ((.or, y) :: row) = bindingBehind (d || (c && x)) true y row :=
  rfl

/-- Nothing but equalities is behind an equality. -/
def Trailing (operators : List Connective) : Prop :=
  operators.IsChain fun o o' => o = .equal → o' = .equal

/-- A row of equalities has the same value from both sides. -/
theorem bindingBehind_equalities (equalities : Trailing (.equal :: row.map Prod.fst)) :
    bindingBehind d c (x == y) row = (d || (c && (x == binding y row))) := by
  induction row generalizing y with
  | nil => rfl
  | cons next row ih =>
    obtain ⟨o, z⟩ := next
    obtain ⟨first, others⟩ := List.isChain_cons.mp equalities
    obtain rfl : o = .equal := first o rfl rfl
    have regroup : ((x == y) == z) = (x == (y == z)) := by cases x <;> cases y <;> cases z <;> rfl
    rw [bindingBehind_equal, regroup, ih others]
    rfl

theorem reachingBehind_eq (trailing : Trailing (row.map Prod.fst)) :
    reachingBehind d c x row = bindingBehind d c x row := by
  induction row generalizing d c x with
  | nil => rfl
  | cons next row ih =>
    obtain ⟨o, y⟩ := next
    have others : Trailing (row.map Prod.fst) := (List.isChain_cons.mp trailing).2
    cases o with
    | equal =>
      rw [reachingBehind_equal, reaching_eq, ih others, bindingBehind_equal]
      exact (bindingBehind_equalities trailing).symm
    | and => rw [reachingBehind_and, bindingBehind_and, ih others]
    | or => rw [reachingBehind_or, bindingBehind_or, ih others]

/-- Some operands take no notice of the conjunction before them. -/
theorem exists_idle (operators : List Connective) :
    ∃ z row, row.map Prod.fst = operators ∧
      ∀ d c, bindingBehind d c z row = bindingBehind d false z row := by
  induction operators with
  | nil => exact ⟨false, [], rfl, fun d c => by simp [bindingBehind_nil]⟩
  | cons o operators ih =>
    obtain ⟨z, row, rfl, idle⟩ := ih
    cases o with
    | equal =>
      refine ⟨true, (.equal, z) :: row, rfl, fun d c => ?_⟩
      rw [bindingBehind_equal, bindingBehind_equal, Bool.true_beq, idle]
    | and =>
      refine ⟨false, (.and, z) :: row, rfl, fun d c => ?_⟩
      rw [bindingBehind_and, bindingBehind_and, Bool.and_false, Bool.and_false]
    | or =>
      refine ⟨false, (.or, z) :: row, rfl, fun d c => ?_⟩
      rw [bindingBehind_or, bindingBehind_or, Bool.and_false, Bool.and_false]

theorem bindingBehind_true (d : Bool) (operators : List Connective) :
    bindingBehind d true true (operators.map (·, true)) = true := by
  induction operators generalizing d with
  | nil => exact Bool.or_true d
  | cons o operators ih =>
    cases o with
    | equal => exact ih d
    | and => exact ih d
    | or => exact ih _

theorem map_fst_true (operators : List Connective) :
    (operators.map (·, true)).map Prod.fst = operators := by
  rw [List.map_map]
  exact List.map_id operators

theorem reaching_ne_and {z : Bool} (trailing : Trailing (row.map Prod.fst))
    (idle : ∀ d c, bindingBehind d c z row = bindingBehind d false z row) :
    reaching false ((.equal, false) :: (.and, z) :: row) ≠
      binding false ((.equal, false) :: (.and, z) :: row) := by
  have left : reaching false ((.equal, false) :: (.and, z) :: row) =
      (false == bindingBehind false false z row) := by
    rw [← reachingBehind_eq trailing]
    rfl
  have right : binding false ((.equal, false) :: (.and, z) :: row) =
      bindingBehind false false z row :=
    idle false true
  rw [left, right]
  cases bindingBehind false false z row <;> decide

theorem reaching_ne_or {operators : List Connective} (trailing : Trailing operators) :
    reaching false ((.equal, false) :: (.or, true) :: operators.map (·, true)) ≠
      binding false ((.equal, false) :: (.or, true) :: operators.map (·, true)) := by
  have left : reaching false ((.equal, false) :: (.or, true) :: operators.map (·, true)) =
      (false == bindingBehind false true true (operators.map (·, true))) := by
    rw [← reachingBehind_eq ((map_fst_true operators).symm ▸ trailing)]
    rfl
  have right : binding false ((.equal, false) :: (.or, true) :: operators.map (·, true)) =
      bindingBehind true true true (operators.map (·, true)) :=
    rfl
  rw [left, right, bindingBehind_true, bindingBehind_true]
  decide

/-- Where another operator is behind an equality, the two values differ for some operands. -/
theorem exists_reaching_ne {operators : List Connective} (h : ¬ Trailing operators) :
    ∃ x row, row.map Prod.fst = operators ∧ reaching x row ≠ binding x row := by
  induction operators with
  | nil => exact absurd .nil h
  | cons o operators ih =>
    by_cases others : Trailing operators
    · cases operators with
      | nil => exact absurd (.singleton o) h
      | cons o' operators =>
        -- The operator that is behind an equality is the second one.
        have second : o = .equal ∧ o' ≠ .equal := by
          by_contra same
          exact h (.cons_cons (fun equal => not_not.mp (not_and.mp same equal)) others)
        obtain ⟨rfl, other⟩ := second
        have trailing : Trailing operators := (List.isChain_cons.mp others).2
        cases o' with
        | equal => exact absurd rfl other
        | and =>
          obtain ⟨z, row, rfl, idle⟩ := exists_idle operators
          exact ⟨false, _, rfl, reaching_ne_and trailing idle⟩
        | or =>
          refine ⟨false, _, ?_, reaching_ne_or trailing⟩
          rw [List.map_cons, List.map_cons, map_fst_true]
    · obtain ⟨y, row, rfl, differ⟩ := ih others
      cases o with
      | equal =>
        refine ⟨true, (.equal, y) :: row, rfl, ?_⟩
        rw [reaching_eq, reachingBehind_equal, binding_eq, bindingBehind_equal, Bool.true_beq,
          Bool.true_beq, Bool.true_and, Bool.false_or]
        exact differ
      | and => exact ⟨true, (.and, y) :: row, rfl, differ⟩
      | or => exact ⟨false, (.or, y) :: row, rfl, differ⟩

/-- The two values are the same for all operands exactly if nothing but equalities is behind an
equality. -/
theorem reaching_eq_binding_iff {operators : List Connective} :
    (∀ x row, row.map Prod.fst = operators → reaching x row = binding x row) ↔
      Trailing operators := by
  refine ⟨fun same => ?_, fun trailing x row ops => ?_⟩
  · by_contra other
    obtain ⟨x, row, ops, differ⟩ := exists_reaching_ne other
    exact differ (same x row ops)
  · subst ops
    rw [reaching_eq, binding_eq, reachingBehind_eq trailing]

end Values

section Flat

variable {text start rest : List Token} {d c x : Bool} {row : List (Connective × Bool)}

/-- The tokens of truth values with operators between them. -/
def truths (x : Bool) (row : List (Connective × Bool)) : List Token :=
  (flat Connective.symbol spell x row).map tokenOf

theorem reads_literal (x : Bool) (rest : List Token) :
    Reads Full .primary (tokenOf (spell x) :: rest) rest x := by
  have named := nameOf_word (spell_mem x)
  cases x with
  | true => exact .truth named
  | false => exact .falsehood named

/-- What is read of a row is a conjunction that goes on and a disjunction before it. -/
theorem reads_truths (closes : Closes rest)
    (conjunction : ∀ rest' b, Reads Full .boolean (truths x row ++ rest) rest' b →
      Reads Full .conjunction start rest' (c && b))
    (disjunction : ∀ rest' b, Reads Full .conjunction start rest' b →
      Reads Full .disjunction text rest' (d || b)) :
    Reads Full .disjunction text rest (reachingBehind d c x row) := by
  induction row generalizing text start d c x with
  | nil =>
    exact disjunction _ _ (conjunction _ _ (.plain (reads_literal x rest)))
  | cons next row ih =>
    obtain ⟨o, y⟩ := next
    have named : (tokenOf o.symbol).name = o.symbol := nameOf_word o.symbol_mem
    have literal := reads_literal x (tokenOf o.symbol :: (truths y row ++ rest))
    cases o with
    | equal =>
      have others : Reads Full .disjunction (truths y row ++ rest) rest
          (reachingBehind false true y row) :=
        ih (fun _ _ part => .one part) fun _ _ part => .only part
      exact disjunction _ _ (conjunction _ _ (.equal literal named others closes))
    | and =>
      have before := conjunction _ _ (.plain literal)
      rw [reachingBehind_and]
      exact ih (fun _ _ part => .both before named part) disjunction
    | or =>
      have before := disjunction _ _ (conjunction _ _ (.plain literal))
      rw [reachingBehind_or]
      exact ih (fun _ _ part => .one part) fun _ _ part => .either before named part

theorem stands_truths (x : Bool) (row : List (Connective × Bool)) :
    Stands ((truths x row).map key) (.boolean (reaching x row)) := by
  have reads : Reads Full .disjunction (truths x row ++ [.finish 0]) [.finish 0]
      (reachingBehind false true x row) :=
    reads_truths (closes_finish 0) (fun _ _ part => .one part) fun _ _ part => .only part
  exact (means_iff_stands (closes_finish 0)).mp (.boolean reads.longest)

theorem scans_truths {source : String}
    (spaced : Spaced (flat Connective.symbol spell x row) source.toList) :
    Scans source.toList ((truths x row).map key) [] :=
  scans_flat Connective.symbol_mem (fun b => Or.inl (spell_mem b)) spaced

/-- In a formula of truth values, an equality compares the operand before it with the value of all
that stands behind it. For all operands, that is the value where equalities bind tightest, then
`and`, then `or`, exactly if nothing but equalities is behind an equality. -/
theorem eval_truths {audience : Audience} {f : Formula} (made : (new audience).answer = .ok f)
    (log : Log.Filter) :
    (∀ x row (source : String), Spaced (flat Connective.symbol spell x row) source.toList →
      (f.eval log source).answer = .ok (.boolean (reaching x row))) ∧
    ∀ operators : List Connective,
      (∀ x row (source : String), row.map Prod.fst = operators →
        Spaced (flat Connective.symbol spell x row) source.toList →
        (f.eval log source).answer = .ok (.boolean (binding x row))) ↔ Trailing operators := by
  have reaches := fun x row (source : String)
      (spaced : Spaced (flat Connective.symbol spell x row) source.toList) =>
    eval_of_stands made (scans_truths spaced) (stands_truths x row) log
  refine ⟨reaches, fun operators => ⟨fun binds => ?_, fun trailing x row source ops spaced => ?_⟩⟩
  · refine reaching_eq_binding_iff.mp fun x row ops => ?_
    let source := String.ofList ((flat Connective.symbol spell x row).flatMap String.toList)
    have spaced : Spaced (flat Connective.symbol spell x row) source.toList := by
      rw [String.toList_ofList]
      exact spaced_flatMap _
    have same := (reaches x row source spaced).symm.trans (binds x row source ops spaced)
    exact Value.boolean.inj (Except.ok.inj same)
  · rw [reaches x row source spaced, reaching_eq_binding_iff.mpr trailing x row ops]

theorem spaced_comparison :
    Spaced (flat Connective.symbol spell false [(.equal, false), (.or, true)])
      "false=false or true".toList := by
  have none : ∀ x ∈ ([] : List Char), Text.isBlank x := List.forall_mem_nil _
  have blank : ∀ x ∈ [' '], Text.isBlank x := List.forall_mem_singleton.mpr rfl
  exact .cons none (.cons none (.cons none (.cons blank (.cons blank (.nil none)))))

theorem eval_truths_comparison :
    (new {}).answer = .ok shared ∧
      (shared.eval .off "false=false or true").answer = .ok (.boolean false) ∧
      ∀ x row (source : String), row.map Prod.fst = [.or, .equal, .equal] →
        Spaced (flat Connective.symbol spell x row) source.toList →
        (shared.eval .off source).answer = .ok (.boolean (binding x row)) := by
  obtain ⟨reaches, exact_for⟩ := eval_truths shared_new .off
  have trailing : Trailing [.or, .equal, .equal] := by
    unfold Trailing
    decide
  exact ⟨shared_new, reaches _ _ _ spaced_comparison, (exact_for _).mpr trailing⟩

/-- The value of `false=false or true` would be the one of `(false=false) or true`, but it is the
one of `false=(false or true)`. -/
theorem equality_reaches :
    binding false [(.equal, false), (.or, true)] = true ∧
      (shared.eval .off "false=false or true").answer = .ok (.boolean false) :=
  ⟨rfl, eval_of_stands shared_new (scans_truths spaced_comparison) (stands_truths _ _) .off⟩

end Flat

end ShiftFirst.Formula
