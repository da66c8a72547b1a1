import Mathlib.Data.Finset.Card
import ShiftFirst.Proofs.Automaton.Ending
import ShiftFirst.Proofs.Grammar.Rank

namespace ShiftFirst.Grammar

open Relation

variable {V : Type} {g : Grammar V} {a : Automaton}

/-- The start symbol stands for itself by one or more rules with one symbol each. -/
def SelfReducing (g : Grammar V) : Prop := TransGen g.UnitRule g.start g.start

/-- Chains of such rules lead from the start symbol to this one and back. -/
def OnLoop (g : Grammar V) (symbol : Symbol) : Prop :=
  ReflTransGen g.UnitRule g.start symbol ∧ ReflTransGen g.UnitRule symbol g.start

/-- A rule with one symbol, from a symbol that the start symbol leads to, to one that leads back. -/
def Loops (g : Grammar V) (r : RuleId) : Prop :=
  ∃ next, (g.production r).predicate = [next] ∧
    ReflTransGen g.UnitRule g.start (g.production r).subject ∧
    ReflTransGen g.UnitRule next g.start

/-- Two rules by which the start symbol stands for itself come to the same symbol. -/
def LoopsMeet (g : Grammar V) : Prop :=
  ∃ r r', r ≠ r' ∧ g.Loops r ∧ g.Loops r' ∧
    (g.production r).predicate = (g.production r').predicate

/-- A set in which two rules can be reduced by, at least one of which has nothing to do with the
start symbol standing for itself. -/
def ConflictsBeside (g : Grammar V) (items : ItemSet) : Prop :=
  ∃ i ∈ g.completeItems items, ∃ j ∈ g.completeItems items,
    i ≠ j ∧ ¬ (g.Loops i.rule ∧ g.Loops j.rule)

theorem authored_of_single {r : Nat} {next : Symbol}
    (single : (g.production r).predicate = [next]) : 1 ≤ r ∧ r ≤ g.rules.length := by
  match r, single with
  | 0, single => simp [production, augmented] at single
  | r + 1, single =>
    refine ⟨Nat.succ_pos r, Nat.succ_le_of_lt ?_⟩
    by_contra outside
    have none : g.rules[r]? = none := List.getElem?_eq_none (Nat.le_of_not_lt outside)
    simp only [production, none, Option.elim_none] at single
    cases single

theorem unitRule_iff {symbol next : Symbol} : g.UnitRule symbol next ↔
    ∃ r, (g.production r).predicate = [next] ∧ (g.production r).subject = symbol := by
  constructor
  · rintro ⟨rule, mem, rfl, single⟩
    obtain ⟨k, hk, rfl⟩ := List.mem_iff_getElem.mp mem
    have hp := production_authored (g := g) ⟨k, hk⟩
    exact ⟨k + 1, hp ▸ single, hp ▸ rfl⟩
  · rintro ⟨r, single, rfl⟩
    obtain ⟨pos, hle⟩ := authored_of_single single
    obtain ⟨rule, mem, _, hp⟩ := rule_of_authored pos hle
    exact ⟨rule, mem, hp ▸ rfl, hp ▸ single⟩

theorem beginsWith_of_units {symbol next : Symbol} (units : ReflTransGen g.UnitRule symbol next) :
    g.BeginsWith symbol next := by
  induction units with
  | refl => exact .refl symbol
  | tail _ unit ih =>
    obtain ⟨rule, mem, rfl, single⟩ := unit
    exact .rule ih mem (by rw [single]; rfl)

theorem Loops.opens {r : Nat} (h : g.Loops r) : (⟨r, 0⟩ : Item) ∈ g.closure [initialItem] := by
  obtain ⟨next, single, before, _⟩ := h
  obtain ⟨pos, hle⟩ := authored_of_single single
  obtain ⟨k, rfl⟩ := exists_authored pos hle
  rw [production_authored] at before
  exact first_mem_initial.mpr (beginsWith_of_units before)

/-- Behind its symbol a rule of a loop is complete. -/
theorem Loops.complete {r : Nat} {next : Symbol} (h : g.Loops r)
    (single : (g.production r).predicate = [next]) :
    (⟨r, 1⟩ : Item) ∈ g.completeItems (g.goto (g.closure [initialItem]) next) := by
  refine mem_completeItems.mpr ⟨(mem_goto closure_sublist.subset).mpr (.seed ?_), ?_⟩
  · refine List.mem_map.mpr ⟨⟨r, 0⟩, List.mem_filter.mpr ⟨h.opens, decide_eq_true ?_⟩, rfl⟩
    rw [next?_first, single]
    rfl
  · rw [next?, single]
    rfl

theorem Loops.reachable {r : RuleId} {next : Symbol} (h : g.Loops r)
    (single : (g.production r).predicate = [next]) :
    g.Reachable (g.goto (g.closure [initialItem]) next) := by
  refine .step .initial h.opens ?_
  rw [next?_first, single]
  rfl

/-- A complete item of a rule with one symbol stands behind that symbol. -/
theorem Reachable.goto_of_single {items : ItemSet} (h : g.Reachable items) :
    ∃ symbol, ∀ r next, (g.production r).predicate = [next] → (⟨r, 1⟩ : Item) ∈ items →
      next = symbol := by
  cases h with
  | initial => exact ⟨"", fun _ _ _ hi => absurd (dot_of_mem_initial hi) Nat.one_ne_zero⟩
  | @step items i symbol origin _ _ =>
    refine ⟨symbol, fun r next single hi => ?_⟩
    obtain ⟨_, hn⟩ := retreat_goto origin.sublist.subset hi
    rw [next?_first, single] at hn
    exact Option.some.inj hn

theorem Reachable.loopsMeet {items : ItemSet} (h : g.Reachable items) {i j : Item}
    (hi : i ∈ g.completeItems items) (hj : j ∈ g.completeItems items) (other : i ≠ j)
    (loops : g.Loops i.rule) (loops' : g.Loops j.rule) : g.LoopsMeet := by
  obtain ⟨r, d⟩ := i
  obtain ⟨r', d'⟩ := j
  obtain ⟨symbol, same⟩ := h.goto_of_single
  obtain ⟨hi, hn⟩ := mem_completeItems.mp hi
  obtain ⟨hj, hn'⟩ := mem_completeItems.mp hj
  obtain ⟨next, single, before, behind⟩ := id loops
  obtain ⟨next', single', before', behind'⟩ := id loops'
  have dot := (next?_eq_none_iff (h.sublist.subset hi)).mp hn
  have dot' := (next?_eq_none_iff (h.sublist.subset hj)).mp hn'
  dsimp only at single single' dot dot'
  rw [single] at dot
  rw [single'] at dot'
  subst dot dot'
  refine ⟨r, r', fun he => other (by rw [he]; rfl), loops, loops', ?_⟩
  rw [single, single', same r next single hi, same r' next' single' hj]

theorem Reachable.many_iff {items : ItemSet} (h : g.Reachable items) :
    2 ≤ (g.completeItems items).length ↔
      ∃ i ∈ g.completeItems items, ∃ j ∈ g.completeItems items, i ≠ j := by
  have nodup : (g.completeItems items).Nodup :=
    items_nodup.sublist (List.filter_sublist.trans h.sublist)
  have card := List.toFinset_card_of_nodup nodup
  rw [← card]
  refine Finset.one_lt_card.trans ?_
  simp only [List.mem_toFinset]

theorem LoopsMeet.conflict (h : g.LoopsMeet) :
    ∃ items, g.Reachable items ∧ 2 ≤ (g.completeItems items).length := by
  obtain ⟨r, r', other, loops, loops', same⟩ := h
  obtain ⟨next, single, _⟩ := id loops
  have reachable := loops.reachable single
  refine ⟨_, reachable, reachable.many_iff.mpr ⟨_, loops.complete single, _,
    loops'.complete (same ▸ single), fun he => other (Item.mk.inj he).1⟩⟩

/-- There is a conflict exactly if rules by which the start symbol stands for itself come to the
same symbol, or other rules are in conflict. -/
theorem conflict_iff : (∃ items, g.Reachable items ∧ 2 ≤ (g.completeItems items).length) ↔
    g.LoopsMeet ∨ ∃ items, g.Reachable items ∧ g.ConflictsBeside items := by
  constructor
  · rintro ⟨items, reachable, many⟩
    obtain ⟨i, hi, j, hj, other⟩ := reachable.many_iff.mp many
    by_cases loops : g.Loops i.rule ∧ g.Loops j.rule
    · exact Or.inl (reachable.loopsMeet hi hj other loops.1 loops.2)
    · exact Or.inr ⟨items, reachable, i, hi, j, hj, other, loops⟩
  · rintro (meet | ⟨items, reachable, i, hi, j, hj, other, _⟩)
    · exact meet.conflict
    · exact ⟨items, reachable, reachable.many_iff.mpr ⟨i, hi, j, hj, other⟩⟩

theorem error_iff : (∃ e, g.automaton.2 = .error e) ↔
    ∃ items, g.Reachable items ∧ 2 ≤ (g.completeItems items).length := by
  constructor
  · rintro ⟨e, h⟩
    obtain ⟨items, reachable, hc⟩ := automaton_error h
    exact ⟨items, reachable, (conflict?_eq_some_iff.mp hc).1⟩
  · rintro ⟨items, reachable, many⟩
    cases h : g.automaton.2 with
    | error e => exact ⟨e, rfl⟩
    | ok a =>
      have := single_of_reachable h reachable
      omega

theorem onLoop_start : g.OnLoop g.start := ⟨.refl, .refl⟩

/-- Every symbol of a loop is what some rule of the loop stands for, whose subject is on it. -/
theorem SelfReducing.previous (h : g.SelfReducing) {symbol : Symbol} (on : g.OnLoop symbol) :
    ∃ r, (g.production r).predicate = [symbol] ∧ g.OnLoop (g.production r).subject := by
  obtain ⟨before, behind⟩ := on
  obtain ⟨previous, reached, unit⟩ := TransGen.tail'_iff.mp (h.trans_left before)
  obtain ⟨r, single, rfl⟩ := unitRule_iff.mp unit
  exact ⟨r, single, reached, .head unit behind⟩

theorem OnLoop.loops {r : RuleId} {symbol : Symbol} (on : g.OnLoop (g.production r).subject)
    (behind : g.OnLoop symbol) (single : (g.production r).predicate = [symbol]) : g.Loops r :=
  ⟨symbol, single, on.1, behind.2⟩

namespace Canonical

variable (h : g.Canonical a)
include h

/-- Behind each symbol of a loop at the beginning of a text, the automaton reduces by a rule of the
loop, and goes on over its subject. -/
theorem loop (self : g.SelfReducing) {symbol : Symbol} (on : g.OnLoop symbol) {q : StateId}
    (edge : a.transition? Automaton.start symbol = some q) :
    ∃ r q', (a.state q).reduction = some r ∧ (g.production r).predicate = [symbol] ∧
      g.OnLoop (g.production r).subject ∧
      a.transition? Automaton.start (g.production r).subject = some q' := by
  obtain ⟨r, single, before⟩ := self.previous on
  have loops := before.loops on single
  have opens : (⟨r, 0⟩ : Item) ∈ (a.state Automaton.start).items := by
    rw [h.items_start]
    exact loops.opens
  obtain ⟨q', edge'⟩ := h.transition_of_opening (authored_of_single single).1 opens
  refine ⟨r, q', h.reduction_of_mem ?_, single, before, edge'⟩
  rw [(h.target _ _ _ edge).2, h.items_start, single]
  exact (mem_completeItems.mp (loops.complete single)).1

/-- The state behind the start symbol at the beginning of a text is behind no other symbol there. -/
theorem eq_start_of_transition {q : StateId} {symbol : Symbol}
    (edge : a.transition? Automaton.start g.start = some q)
    (edge' : a.transition? Automaton.start symbol = some q) : symbol = g.start := by
  have wanted : g.next? ⟨0, 0⟩ = some g.start := rfl
  obtain ⟨q', edge'', started⟩ := h.advance h.initialItem_mem_start wanted
  cases edge.symm.trans edge''
  exact Option.some.inj ((h.retreat edge' started).2.symm.trans wanted)

end Canonical

end ShiftFirst.Grammar
