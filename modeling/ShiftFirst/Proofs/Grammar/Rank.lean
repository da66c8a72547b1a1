import Mathlib.Data.List.Perm.Subperm
import Mathlib.Logic.Relation
import ShiftFirst.Proofs.Grammar.Tree

namespace ShiftFirst

variable {V : Type} {g : Grammar V} {rank : Symbol → Nat} {height : Nat}

/-- Every rule with a predicate of one symbol goes down in rank, so that no symbol can stand for
itself alone. -/
structure Grammar.Ranked (g : Grammar V) (rank : Symbol → Nat) (height : Nat) : Prop where
  le : ∀ symbol, rank symbol ≤ height
  falls : ∀ rule ∈ g.rules, ∀ symbol, rule.predicate = [symbol] → rank symbol < rank rule.subject

mutual

/-- Between a leaf or a node of several children and the next such node above it are no more nodes
than ranks. -/
theorem Tree.nodes_le (h : g.Ranked rank height) {symbol : Symbol} : (tree : Tree g symbol) →
    tree.nodes + (2 * height + 1) ≤ (2 * height + 1) * tree.tokens.length + rank symbol
  | .leaf token => by
    rw [Tree.nodes, Tree.tokens, List.length_singleton]
    omega
  | .node k children => by
    obtain ⟨single, several⟩ := children.nodes_le h
    have mem := List.getElem_mem k.isLt
    have filled := List.length_pos_iff.mpr (Grammar.authored_predicate_ne_nil k)
    rw [Tree.nodes, Tree.tokens]
    -- A single child is of a lower rank, and several children bring room for a whole height each.
    by_cases one : (g.rules.get k).predicate.length = 1
    · obtain ⟨symbol, predicate⟩ := List.length_eq_one_iff.mp one
      have below := single symbol predicate
      have falls := h.falls _ mem symbol predicate
      have subject : rank g.rules[k.val].subject = rank (g.rules.get k).subject := rfl
      omega
    · have two : 2 * (height + 1) ≤ (g.rules.get k).predicate.length * (height + 1) :=
        Nat.mul_le_mul_right _ (by omega)
      omega

theorem Forest.nodes_le (h : g.Ranked rank height) {symbols : List Symbol} :
    (forest : Forest g symbols) →
      (∀ symbol, symbols = [symbol] →
        forest.nodes + (2 * height + 1) ≤
          (2 * height + 1) * forest.tokens.length + rank symbol) ∧
      forest.nodes + symbols.length * (height + 1) ≤ (2 * height + 1) * forest.tokens.length
  | .nil => by simp [Forest.nodes]
  | @Forest.cons _ _ symbol symbols first rest => by
    have hfirst := first.nodes_le h
    have hrest := (rest.nodes_le h).2
    have hle := h.le symbol
    rw [Forest.nodes, Forest.tokens, List.length_append, Nat.mul_add]
    refine ⟨fun only single => ?_, ?_⟩
    · obtain ⟨rfl, rfl⟩ := List.cons.inj single
      omega
    · rw [List.length_cons, Nat.add_mul, Nat.one_mul]
      omega

end

theorem Tree.nodes_le_tokens (h : g.Ranked rank height) {symbol : Symbol} (tree : Tree g symbol) :
    tree.nodes ≤ (2 * height + 1) * tree.tokens.length := by
  have hn := tree.nodes_le h
  have hle := h.le symbol
  omega

namespace Grammar

/-- A symbol by a rule with a predicate of one symbol. -/
def UnitRule (g : Grammar V) (symbol next : Symbol) : Prop :=
  ∃ rule ∈ g.rules, rule.subject = symbol ∧ rule.predicate = [next]

/-- No symbol derives itself through a chain of rules with predicates of one symbol. -/
def Acyclic (g : Grammar V) : Prop := ∀ symbol, ¬ Relation.TransGen g.UnitRule symbol symbol

/-- The symbols that rules are for, each once. -/
def nonterminals (g : Grammar V) : List Symbol := (g.rules.map (·.subject)).eraseDups

theorem Ranked.acyclic (h : g.Ranked rank height) : g.Acyclic := by
  have falls : ∀ {symbol next}, Relation.TransGen g.UnitRule symbol next →
      rank next < rank symbol := fun chain => by
    induction chain with
    | single unit =>
      obtain ⟨rule, mem, rfl, single⟩ := unit
      exact h.falls rule mem _ single
    | tail _ unit ih =>
      obtain ⟨rule, mem, rfl, single⟩ := unit
      exact Nat.lt_trans (h.falls rule mem _ single) ih
  exact fun symbol cycle => Nat.lt_irrefl _ (falls cycle)

open Classical in
/-- The nonterminals that a symbol leads to by chains of such rules, itself included. -/
noncomputable def chained (g : Grammar V) (symbol : Symbol) : List Symbol :=
  g.nonterminals.filter fun next => Relation.ReflTransGen g.UnitRule symbol next

open Classical in
theorem mem_chained {symbol next : Symbol} :
    next ∈ g.chained symbol ↔
      next ∈ g.nonterminals ∧ Relation.ReflTransGen g.UnitRule symbol next := by
  rw [chained, List.mem_filter, decide_eq_true_eq]

/-- A rule with a predicate of one symbol leaves its subject behind, unless there is a cycle. -/
theorem Acyclic.ranked (h : g.Acyclic) :
    g.Ranked (fun symbol => (g.chained symbol).length) g.nonterminals.length where
  le _ := List.length_filter_le _ _
  falls rule mem symbol single := by
    have unit : g.UnitRule rule.subject symbol := ⟨rule, mem, rfl, single⟩
    have known : rule.subject ∈ g.nonterminals :=
      List.mem_eraseDups.mpr (List.mem_map_of_mem mem)
    have nodup : (g.chained symbol).Nodup :=
      (nodup_eraseDups _).sublist List.filter_sublist
    have left : rule.subject ∉ g.chained symbol := fun back =>
      h symbol (.tail' (mem_chained.mp back).2 unit)
    have sub : rule.subject :: g.chained symbol ⊆ g.chained rule.subject := by
      refine List.cons_subset.mpr ⟨mem_chained.mpr ⟨known, .refl⟩, fun next reached => ?_⟩
      obtain ⟨known, chain⟩ := mem_chained.mp reached
      exact mem_chained.mpr ⟨known, .head unit chain⟩
    exact ((List.nodup_cons.mpr ⟨left, nodup⟩).subperm sub).length_le

/-- What symbols on a stack can still pay for: one unit for each rank that they are below twice
the height, and one more. -/
def credit (rank : Symbol → Nat) (height : Nat) : List Symbol → Nat
  | [] => 0
  | symbol :: symbols => 2 * height + 1 - rank symbol + credit rank height symbols

theorem credit_append (symbols symbols' : List Symbol) :
    credit rank height (symbols ++ symbols') =
      credit rank height symbols + credit rank height symbols' := by
  induction symbols with
  | nil => exact (Nat.zero_add _).symm
  | cons symbol symbols ih => rw [List.cons_append, credit, credit, ih, Nat.add_assoc]

theorem credit_reverse (symbols : List Symbol) :
    credit rank height symbols.reverse = credit rank height symbols := by
  induction symbols with
  | nil => rfl
  | cons symbol symbols ih =>
    rw [List.reverse_cons, credit_append, ih, Nat.add_comm]
    rfl

theorem credit_take_drop (n : Nat) (symbols : List Symbol) :
    credit rank height symbols =
      credit rank height (symbols.take n).reverse + credit rank height (symbols.drop n) := by
  rw [credit_reverse, ← credit_append, List.take_append_drop]

theorem Ranked.length_le_credit (h : g.Ranked rank height) (symbols : List Symbol) :
    symbols.length * (height + 1) ≤ credit rank height symbols := by
  induction symbols with
  | nil => simp
  | cons symbol symbols ih =>
    have le := h.le symbol
    rw [List.length_cons, Nat.add_mul, credit]
    omega

/-- The symbols of a predicate pay for a reduction and leave the credit of the subject. -/
theorem Ranked.credit_production (h : g.Ranked rank height) {r : Nat} (hr : r ≤ g.rules.length) :
    2 * height + 1 - rank (g.production r).subject <
      credit rank height (g.production r).predicate := by
  match hp : (g.production r).predicate with
  | [] => exact absurd hp (predicate_ne_nil hr)
  | [symbol] =>
    -- The rule that begins every grammar has two symbols.
    have authored : r ≠ 0 := by
      rintro rfl
      cases hp
    obtain ⟨rule, mem, _, same⟩ := rule_of_authored (Nat.one_le_iff_ne_zero.mpr authored) hr
    rw [same] at hp ⊢
    have falls := h.falls rule mem symbol hp
    have le := h.le rule.subject
    rw [credit]
    omega
  | first :: second :: rest =>
    have several := h.length_le_credit (first :: second :: rest)
    have two : 2 * (height + 1) ≤ (first :: second :: rest).length * (height + 1) :=
      Nat.mul_le_mul_right _ (by simp)
    omega

end Grammar

end ShiftFirst
