import Mathlib.Data.List.Forall2
import ShiftFirst.Proofs.Grammar.Tree

namespace ShiftFirst

variable {V : Type} {g : Grammar V} {P : Symbol → V → Prop}

theorem Tree.value_node_ok_iff [OfToken V] {k : Fin g.rules.length}
    {children : Forest g (g.rules.get k).predicate} {value : V} :
    (Tree.node k children).value = .ok value ↔
      ∃ values, children.values = .ok values ∧ (g.rules.get k).reduce values = .ok value := by
  rw [Tree.value]
  cases children.values with
  | error e => simp [bind, Except.bind]
  | ok values =>
    simp only [bind, Except.bind, Except.ok.injEq, exists_eq_left']
    cases (g.rules.get k).reduce values <;> simp [Except.mapError]

theorem Forest.values_cons_ok_iff [OfToken V] {symbol : Symbol} {symbols : List Symbol}
    {first : Tree g symbol} {rest : Forest g symbols} {values : List V} :
    (Forest.cons first rest).values = .ok values ↔
      ∃ value others, first.value = .ok value ∧ rest.values = .ok others ∧
        values = value :: others := by
  rw [Forest.values]
  cases first.value with
  | error e => simp [bind, Except.bind]
  | ok value =>
    cases rest.values <;> simp [bind, Except.bind, pure, Except.pure, eq_comm]

theorem Forest.of_terminal [OfToken V] {symbol : Symbol} {symbols : List Symbol}
    (terminal : g.isNonterminal symbol = false) (only : symbols = [symbol])
    (forest : Forest g symbols) :
    ∃ t, t.name = symbol ∧ forest.tokens = [t] ∧ forest.values = .ok [ofToken t] := by
  subst only
  match forest with
  | .cons (.leaf t) .nil => exact ⟨t, rfl, rfl, rfl⟩
  | .cons (.node k _) .nil =>
    refine absurd terminal (Bool.not_eq_false _ ▸ ?_)
    exact List.any_eq_true.mpr ⟨g.rules.get k, List.getElem_mem k.isLt, by simp⟩

/-- What holds of the values of a rule's predicate holds of the value that it makes of them. -/
def Grammar.Keeps (g : Grammar V) (P : Symbol → V → Prop) : Prop :=
  ∀ rule ∈ g.rules, ∀ values value, List.Forall₂ P rule.predicate values →
    rule.reduce values = .ok value → P rule.subject value

mutual

theorem Tree.keeps [OfToken V] (h : g.Keeps P) {symbol : Symbol} {value : V} :
    (tree : Tree g symbol) → (∀ t ∈ tree.tokens, P t.name (ofToken t)) →
      tree.value = .ok value → P symbol value
  | .leaf token, leaves, hv => by
    cases hv
    exact leaves token (List.mem_singleton.mpr rfl)
  | .node k children, leaves, hv => by
    obtain ⟨values, hc, hr⟩ := Tree.value_node_ok_iff.mp hv
    exact h _ (List.getElem_mem k.isLt) values value (children.keeps h leaves hc) hr

theorem Forest.keeps [OfToken V] (h : g.Keeps P) {symbols : List Symbol} {values : List V} :
    (forest : Forest g symbols) → (∀ t ∈ forest.tokens, P t.name (ofToken t)) →
      forest.values = .ok values → List.Forall₂ P symbols values
  | .nil, _, hv => by
    cases hv
    exact .nil
  | .cons first rest, leaves, hv => by
    simp only [Forest.tokens, List.mem_append, or_imp, forall_and] at leaves
    obtain ⟨value, others, hf, hr, rfl⟩ := Forest.values_cons_ok_iff.mp hv
    exact .cons (first.keeps h leaves.1 hf) (rest.keeps h leaves.2 hr)

end

theorem Forest.values_length [OfToken V] {symbols : List Symbol} {values : List V}
    (forest : Forest g symbols) (hv : forest.values = .ok values) :
    symbols.length = values.length :=
  have kept : List.Forall₂ (fun _ _ => True) symbols values :=
    forest.keeps (fun _ _ _ _ _ _ => trivial) (fun _ _ => trivial) hv
  kept.length_eq

/-- A rule does not refuse only if this holds of the values of its predicate. -/
def Grammar.Vouches (g : Grammar V) (P : Symbol → V → Prop) : Prop :=
  ∀ rule ∈ g.rules, ∀ values value, rule.predicate.length = values.length →
    rule.reduce values = .ok value → List.Forall₂ P rule.predicate values

mutual

theorem Tree.vouched [OfToken V] (h : g.Vouches P) {symbol : Symbol} {value : V} :
    (tree : Tree g symbol) → tree.value = .ok value → P symbol value →
      ∀ t ∈ tree.tokens, P t.name (ofToken t)
  | .leaf token, hv, here, t, mem => by
    cases hv
    rwa [List.mem_singleton.mp mem]
  | .node k children, hv, _, t, mem => by
    obtain ⟨values, hc, hr⟩ := Tree.value_node_ok_iff.mp hv
    have vouched := h _ (List.getElem_mem k.isLt) values value (children.values_length hc) hr
    exact children.vouched h hc vouched t mem

theorem Forest.vouched [OfToken V] (h : g.Vouches P) {symbols : List Symbol} {values : List V} :
    (forest : Forest g symbols) → forest.values = .ok values → List.Forall₂ P symbols values →
      ∀ t ∈ forest.tokens, P t.name (ofToken t)
  | .nil, _, _, t, mem => absurd mem List.not_mem_nil
  | .cons first rest, hv, each, t, mem => by
    obtain ⟨value, others, hf, hr, rfl⟩ := Forest.values_cons_ok_iff.mp hv
    obtain ⟨here, behind⟩ := List.forall₂_cons.mp each
    rcases List.mem_append.mp mem with mem | mem
    · exact first.vouched h hf here t mem
    · exact rest.vouched h hr behind t mem

end

/-- The property of symbols and tokens holds of the symbols and the pieces of the tokens. -/
inductive Rows (Q : Symbol → List Token → Prop) : List Symbol → List Token → Prop
  | nil : Rows Q [] []
  | cons {symbol : Symbol} {symbols : List Symbol} {tokens tokens' : List Token}
      (first : Q symbol tokens) (others : Rows Q symbols tokens') :
      Rows Q (symbol :: symbols) (tokens ++ tokens')

namespace Rows

variable {Q : Symbol → List Token → Prop} {left mid right : Symbol} {tokens : List Token}

theorem single (h : Rows Q [left] tokens) : Q left tokens := by
  obtain _ | ⟨first, _ | _⟩ := h
  rwa [List.append_nil]

theorem pair (h : Rows Q [left, right] tokens) :
    ∃ front back, tokens = front ++ back ∧ Q left front ∧ Q right back := by
  obtain _ | ⟨first, others⟩ := h
  exact ⟨_, _, rfl, first, others.single⟩

theorem triple (h : Rows Q [left, mid, right] tokens) :
    ∃ front between back, tokens = front ++ (between ++ back) ∧ Q left front ∧ Q mid between ∧
      Q right back := by
  obtain _ | ⟨first, others⟩ := h
  obtain ⟨between, back, rfl, second, third⟩ := others.pair
  exact ⟨_, between, back, rfl, first, second, third⟩

end Rows

/-- What holds of the tokens of a rule's predicate, put together, holds of those of its subject. -/
def Grammar.Passes (g : Grammar V) (Q : Symbol → List Token → Prop) : Prop :=
  ∀ rule ∈ g.rules, ∀ tokens, Rows Q rule.predicate tokens → Q rule.subject tokens

mutual

theorem Tree.passes {Q : Symbol → List Token → Prop} (h : g.Passes Q) {symbol : Symbol} :
    (tree : Tree g symbol) → (∀ t ∈ tree.tokens, Q t.name [t]) → Q symbol tree.tokens
  | .leaf t, leaves => leaves t (List.mem_singleton.mpr rfl)
  | .node k children, leaves => h _ (List.getElem_mem k.isLt) _ (children.passes h leaves)

theorem Forest.passes {Q : Symbol → List Token → Prop} (h : g.Passes Q) {symbols : List Symbol} :
    (forest : Forest g symbols) → (∀ t ∈ forest.tokens, Q t.name [t]) →
      Rows Q symbols forest.tokens
  | .nil, _ => .nil
  | .cons first rest, leaves => by
    simp only [Forest.tokens, List.mem_append, or_imp, forall_and] at leaves
    exact .cons (first.passes h leaves.1) (rest.passes h leaves.2)

end

end ShiftFirst
