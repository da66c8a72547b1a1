import ShiftFirst.Proofs.Automaton.Enlarge
import ShiftFirst.Proofs.Parser.Relocate
import ShiftFirst.Proofs.Parser.Soundness

namespace ShiftFirst

variable {V : Type}

namespace Grammar

variable {g g' : Grammar V} {φ : RuleId ↪ RuleId} {symbol : Symbol}

/-- A rule without a fault, for a symbol that comes up in no row that the start symbol can stand
for. -/
structure Spare (g : Grammar V) (rule : Rule V) : Prop where
  faultless : rule.fault? = none
  inaccessible : ¬ g.Accessible rule.subject

theorem exists_enlarges {first : Rule V} {rest rest' : List (Rule V)}
    (rules : g.rules = first :: rest) (rules' : g'.rules = first :: rest')
    (inserted : Inserts g.Spare rest rest') : ∃ φ, g.Enlarges g' φ := by
  obtain ⟨f, mono, places, others⟩ := (inserted.keep first).exists_places
  have ascends := strictMono_succMap mono
  have start : g'.start = g.start := by
    have head := g'.head?_subject.symm
    rw [rules', List.head?_cons, ← List.head?_cons (a := first) (l := rest), ← rules,
      g.head?_subject] at head
    exact Option.some.inj head
  refine ⟨⟨succMap f, ascends.injective⟩, ⟨start, rfl, fun r => ?_⟩, ascends, fun r out => ?_⟩
  · cases r with
    | zero => rfl
    | succ r =>
      rw [rule?, rules]
      exact (congrArg (·[f r]?) rules').trans (places r)
  · cases r with
    | zero => exact absurd ⟨0, rfl⟩ out
    | succ r =>
      intro rule there
      have outside : r ∉ Set.range f := by
        rintro ⟨j, rfl⟩
        exact out ⟨j + 1, rfl⟩
      rw [rule?, rules'] at there
      exact (others r outside rule there).inaccessible

namespace Enlarges

variable (h : g.Enlarges g' φ)
include h

/-- A further rule may make a nonterminal of a terminal, but not of an accessible one. -/
theorem isNonterminal (accessible : g.Accessible symbol) :
    g'.isNonterminal symbol = g.isNonterminal symbol := by
  rw [Grammar.isNonterminal, Grammar.isNonterminal, Bool.eq_iff_iff, List.any_eq_true,
    List.any_eq_true]
  simp only [mem_rules_iff, decide_eq_true_eq]
  constructor
  · rintro ⟨rule, ⟨r, there⟩, rfl⟩
    by_cases known : r ∈ Set.range φ
    · obtain ⟨r, rfl⟩ := known
      exact ⟨rule, ⟨r, (h.rule r).symm.trans there⟩, rfl⟩
    · exact absurd accessible (h.spare r known rule there)
  · rintro ⟨rule, ⟨r, there⟩, rfl⟩
    exact ⟨rule, ⟨φ r, (h.rule r).trans there⟩, rfl⟩

/-- On the same states the further rules are never used, and no list of what is expected tells that
they are there. -/
theorem mimics {a : Automaton} (canonical : g.Canonical a) :
    (Parser.mk g a).Mimics ⟨g', a.relabel φ⟩ φ where
  begins := h.begins
  production := h.production
  reduceWithin := h.reduceWithin
  transition? := a.transition?_relabel φ
  reduction q := congrArg State.reduction (a.state_relabel φ q)
  expected q := by
    rw [Parser.expected, Parser.expected, Automaton.state_relabel]
    refine List.filter_congr fun symbol mem => congrArg not ?_
    obtain ⟨step, there, rfl⟩ := List.mem_map.mp mem
    have leads : (a.transition? q step.1).isSome :=
      List.lookup_isSome_iff.mpr ⟨step, there, beq_self_eq_true _⟩
    obtain ⟨target, edge⟩ := Option.isSome_iff_exists.mp leads
    rcases canonical.accessible_of_transition edge with final | accessible
    · rw [final, g'.endSymbol_terminal, g.endSymbol_terminal]
    · exact h.isNonterminal accessible

end Enlarges

end Grammar

namespace Parser

/-- Rules for symbols that the start symbol does not lead to do not matter, wherever they stand
behind the first rule: the rules are accepted with them if they are without them, a conflict is the
same one, and all runs end with the same result or the same error. -/
theorem unreachable_irrelevant {first : Rule V} {rest rest' : List (Rule V)} {g : Grammar V}
    (compiled : Grammar.ofRules (first :: rest) = .ok g) (inserted : Inserts g.Spare rest rest') :
    ((∃ p', (Parser.ofRules (first :: rest')).2 = .ok p') ↔
      ∃ p, (Parser.ofRules (first :: rest)).2 = .ok p) ∧
    (∀ e, (Parser.ofRules (first :: rest')).2 = .error e ↔
      (Parser.ofRules (first :: rest)).2 = .error e) ∧
    ∀ p p', (Parser.ofRules (first :: rest)).2 = .ok p →
      (Parser.ofRules (first :: rest')).2 = .ok p' →
      ∀ (ε : Type) [OfToken V] skip budget (stream : List (Except ε Token)),
        (p'.run skip budget stream).outcome = (p.run skip budget stream).outcome := by
  have rules := Grammar.ofRules_eq_ok_iff.mp compiled
  have kept : ∀ rule ∈ first :: rest, rule.fault? = none := rules ▸ g.faultless
  have faultless : ∀ rule ∈ first :: rest', rule.fault? = none :=
    (inserted.keep first).forall_mem (fun _ spare => spare.faultless) kept
  let g' : Grammar V := ⟨first :: rest', List.cons_ne_nil _ _, faultless⟩
  have compiled' : Grammar.ofRules (first :: rest') = .ok g' := Grammar.ofRules_eq_ok_iff.mpr rfl
  obtain ⟨φ, enlarges⟩ : ∃ φ, g.Enlarges g' φ := Grammar.exists_enlarges rules rfl inserted
  have made : (Parser.ofRules (first :: rest)).2 = g.automaton.2.map (Parser.mk g) := by
    rw [ofRules, compiled]
  have made' : (Parser.ofRules (first :: rest')).2 =
      g.automaton.2.map fun a => Parser.mk g' (a.relabel φ) := by
    rw [ofRules, compiled']
    refine (congrArg (Except.map (Parser.mk g')) enlarges.automaton).trans ?_
    cases g.automaton.2 <;> rfl
  rw [made, made']
  cases built : g.automaton.2 with
  | error e => simp [Except.map]
  | ok a =>
    refine ⟨⟨fun _ => ⟨_, rfl⟩, fun _ => ⟨_, rfl⟩⟩, fun e => by simp [Except.map], ?_⟩
    rintro _ _ ⟨⟩ ⟨⟩ ε _ skip budget stream
    have mimics := enlarges.mimics (Grammar.canonical_of_automaton built)
    exact mimics.outcome_eq built skip budget stream

theorem accessible_sums {symbol : Symbol} (h : sums.Accessible symbol) :
    symbol ∈ ["sum", "+", "product", "*", "n"] := by
  have closed : ∀ rule ∈ sums.rules, ∀ symbol ∈ rule.predicate,
      symbol ∈ ["sum", "+", "product", "*", "n"] := by decide
  cases h with
  | start => decide
  | rule _ mem mentioned => exact closed _ mem _ mentioned

/-- The rules for sums, and among them rules for differences, which no sum holds. Two of these are
the same but for the values they make, and one is for a sign. -/
def sumsAndDifferences : List (Rule String) := [
  ⟨⟨"sum", ["sum", "+", "product"]⟩, fun vs => .ok (vs.getD 0 "" ++ vs.getD 2 "" ++ "+")⟩,
  ⟨⟨"-", ["n"]⟩, fun _ => .ok "-"⟩,
  ⟨⟨"sum", ["product"]⟩, fun vs => .ok (vs.getD 0 "")⟩,
  ⟨⟨"difference", ["sum", "-", "sum"]⟩, fun vs => .ok (vs.getD 0 "" ++ vs.getD 2 "" ++ "-")⟩,
  ⟨⟨"product", ["n", "*", "product"]⟩, fun vs => .ok (vs.getD 0 "" ++ vs.getD 2 "" ++ "*")⟩,
  ⟨⟨"product", ["n"]⟩, fun vs => .ok (vs.getD 0 "")⟩,
  ⟨⟨"difference", ["sum"]⟩, fun vs => .ok (vs.getD 0 "")⟩,
  ⟨⟨"difference", ["sum"]⟩, fun _ => .ok "0"⟩]

theorem unreachable_irrelevant_sums :
    ∃ p', (Parser.ofRules sumsAndDifferences).2 = .ok p' ∧
      ∀ (ε : Type) skip budget (stream : List (Except ε Token)),
        (p'.run skip budget stream).outcome = (sumsParser.run skip budget stream).outcome := by
  have sign : ¬ sums.Accessible "-" := fun h => absurd (accessible_sums h) (by decide)
  have difference : ¬ sums.Accessible "difference" :=
    fun h => absurd (accessible_sums h) (by decide)
  have inserted : Inserts sums.Spare sums.rules.tail sumsAndDifferences.tail :=
    .insert ⟨by decide, sign⟩ <| .keep _ <| .insert ⟨by decide, difference⟩ <| .keep _ <|
      .keep _ <| .insert ⟨by decide, difference⟩ <| .insert ⟨by decide, difference⟩ .nil
  have accepted := ofRules_ok_iff.mpr ⟨rfl, built_sums⟩
  obtain ⟨both, _, same⟩ := unreachable_irrelevant (ofRules_rules sums) inserted
  obtain ⟨p', accepted'⟩ := both.mpr ⟨sumsParser, accepted⟩
  exact ⟨p', accepted', fun ε => same sumsParser p' accepted accepted' ε⟩

end Parser

end ShiftFirst
