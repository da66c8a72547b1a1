import ShiftFirst.Proofs.Automaton.Path

namespace ShiftFirst.Grammar

variable {V : Type} {g : Grammar V} {a : Automaton}

/-- A symbol is the first one of some row that another symbol can stand for. -/
inductive BeginsWith (g : Grammar V) : Symbol → Symbol → Prop
  | refl (symbol : Symbol) : BeginsWith g symbol symbol
  | rule {symbol next : Symbol} {rule : Rule V} (subject : BeginsWith g symbol rule.subject)
      (mem : rule ∈ g.rules) (head : rule.predicate.head? = some next) : BeginsWith g symbol next

theorem next?_first (g : Grammar V) (r : RuleId) :
    g.next? ⟨r, 0⟩ = (g.production r).predicate.head? :=
  List.head?_eq_getElem?.symm

/-- The symbols behind the dots of a closure are the first ones of what its seeds want. -/
theorem exists_next_closure {seeds : List Item} (hs : seeds ⊆ g.items) {symbol : Symbol} :
    (∃ i ∈ g.closure seeds, g.next? i = some symbol) ↔
      ∃ i ∈ seeds, ∃ first, g.next? i = some first ∧ g.BeginsWith first symbol := by
  constructor
  · rintro ⟨i, hi, hn⟩
    have spans := (mem_closure hs).mp hi
    clear hi
    induction spans generalizing symbol with
    | seed hm => exact ⟨_, hm, symbol, hn, .refl symbol⟩
    | expand _ wanted hr ih =>
      obtain ⟨pos, hle, subject⟩ := mem_rulesFor.mp hr
      obtain ⟨rule, mem, _, hp⟩ := rule_of_authored pos hle
      obtain ⟨i, hm, first, hf, begins⟩ := ih wanted
      rw [next?_first, hp] at hn
      rw [← subject, hp] at begins
      exact ⟨i, hm, first, hf, .rule begins mem hn⟩
  · rintro ⟨i, hm, first, hf, begins⟩
    induction begins with
    | refl => exact ⟨i, (mem_closure hs).mpr (.seed hm), hf⟩
    | rule _ mem head ih =>
      obtain ⟨j, hj, wanted⟩ := ih
      obtain ⟨k, hk, rfl⟩ := List.mem_iff_getElem.mp mem
      refine ⟨_, closure_expand hs hj wanted (mem_rulesFor_authored ⟨k, hk⟩), ?_⟩
      rw [next?_first, production_authored]
      exact head

theorem initial_subset (g : Grammar V) : [initialItem] ⊆ g.items := by
  simp [initialItem_mem]

theorem first_mem_initial {k : Fin g.rules.length} :
    (⟨k + 1, 0⟩ : Item) ∈ g.closure [initialItem] ↔
      g.BeginsWith g.start (g.rules.get k).subject := by
  constructor
  · intro hm
    have other : (⟨k + 1, 0⟩ : Item) ∉ [initialItem] := fun h =>
      Nat.succ_ne_zero _ (Item.mk.inj (List.mem_singleton.mp h)).1
    obtain ⟨i, hi, wanted⟩ := closure_opens g.initial_subset hm other
    rw [production_authored] at wanted
    obtain ⟨_, hs, first, hf, begins⟩ := (exists_next_closure g.initial_subset).mp ⟨i, hi, wanted⟩
    obtain rfl := List.mem_singleton.mp hs
    cases hf
    exact begins
  · intro begins
    obtain ⟨i, hi, wanted⟩ := (exists_next_closure g.initial_subset).mpr
      ⟨initialItem, List.mem_singleton.mpr rfl, g.start, rfl, begins⟩
    exact closure_expand g.initial_subset hi wanted (mem_rulesFor_authored k)

/-- The items behind the start symbol at the beginning of a text. -/
def started (g : Grammar V) : ItemSet := g.goto (g.closure [initialItem]) g.start

/-- Some rule that a text can begin with has the start symbol first, and then at once what can
begin with the end of the text. -/
def PassesEnd (g : Grammar V) : Prop :=
  ∃ rule ∈ g.rules, g.BeginsWith g.start rule.subject ∧
    ∃ next rest, rule.predicate = g.start :: next :: rest ∧ g.BeginsWith next endSymbol

/-- Whatever wants a symbol behind the start symbol, but for the end of the text itself, is in a
rule that goes on behind the start symbol, or stems from such a rule. -/
theorem source_of_next {seeds : List Item} {i : Item} {symbol : Symbol} (spans : g.Spans seeds i)
    (hn : g.next? i = some symbol) (other : i ≠ ⟨0, 1⟩) :
    ∃ s ∈ seeds, s ≠ ⟨0, 1⟩ ∧ ∃ first, g.next? s = some first ∧ g.BeginsWith first symbol := by
  induction spans generalizing symbol with
  | seed hm => exact ⟨_, hm, other, symbol, hn, .refl symbol⟩
  | @expand i wanted _ _ hw hr ih =>
    obtain ⟨pos, hle, subject⟩ := mem_rulesFor.mp hr
    have inner : i ≠ ⟨0, 1⟩ := by
      rintro rfl
      have ends : endSymbol = wanted := Option.some.inj hw
      exact (subject_ne_reserved pos hle).2 (subject.trans ends.symm)
    obtain ⟨rule, mem, _, hp⟩ := rule_of_authored pos hle
    obtain ⟨s, hm, hs, first, hf, begins⟩ := ih hw inner
    rw [next?_first, hp] at hn
    rw [← subject, hp] at begins
    exact ⟨s, hm, hs, first, hf, .rule begins mem hn⟩

theorem passesEnd_of_mem {i : Item} (hi : i ∈ g.started) (hn : g.next? i = some endSymbol)
    (other : i ≠ ⟨0, 1⟩) : g.PassesEnd := by
  obtain ⟨s, hs, hne, next, hnext, begins⟩ :=
    source_of_next ((mem_goto closure_sublist.subset).mp hi) hn other
  obtain ⟨⟨r, d⟩, hj, rfl⟩ := List.mem_map.mp hs
  obtain ⟨hj, hfirst⟩ := List.mem_filter.mp hj
  obtain rfl : d = 0 := dot_of_mem_initial hj
  have hle : r ≤ g.rules.length := (mem_items.mp (closure_sublist.subset hj)).1
  have pos : 1 ≤ r := Nat.one_le_iff_ne_zero.mpr fun zero => hne (by rw [zero]; rfl)
  obtain ⟨k, rfl⟩ := exists_authored pos hle
  have hp := production_authored k
  have first : (g.rules.get k).predicate[0]? = some g.start := by
    rw [← hp]
    exact of_decide_eq_true hfirst
  have second : (g.rules.get k).predicate[1]? = some next := by
    rw [← hp]
    exact hnext
  refine ⟨g.rules.get k, List.getElem_mem k.isLt, first_mem_initial.mp hj, next, ?_⟩
  match h : (g.rules.get k).predicate, first, second with
  | _ :: _ :: rest, rfl, rfl => exact ⟨rest, rfl, begins⟩

theorem PassesEnd.exists_mem (h : g.PassesEnd) :
    ∃ i ∈ g.started, g.next? i = some endSymbol ∧ i ≠ ⟨0, 1⟩ := by
  obtain ⟨rule, mem, begins, next, rest, predicate, ends⟩ := h
  obtain ⟨k, hk, rfl⟩ := List.mem_iff_getElem.mp mem
  have hp := production_authored (g := g) ⟨k, hk⟩
  have first : g.next? ⟨k + 1, 0⟩ = some g.start := by
    rw [next?_first, hp]
    exact congrArg List.head? predicate
  have second : g.next? ⟨k + 1, 1⟩ = some next := by
    rw [next?, hp]
    exact congrArg (·[1]?) predicate
  have opens : (⟨k + 1, 0⟩ : Item) ∈ g.closure [initialItem] :=
    (first_mem_initial (k := ⟨k, hk⟩)).mpr begins
  have seed : (⟨k + 1, 1⟩ : Item) ∈ ((g.closure [initialItem]).filter fun i =>
      g.next? i = some g.start).map Item.advance :=
    List.mem_map.mpr ⟨_, List.mem_filter.mpr ⟨opens, decide_eq_true first⟩, rfl⟩
  have single := List.cons_subset.mpr ⟨seed, List.nil_subset _⟩
  have sub : ((g.closure [initialItem]).filter fun i =>
      g.next? i = some g.start).map Item.advance ⊆ g.items :=
    goto_seeds_subset closure_sublist.subset
  have sub' := List.Subset.trans single sub
  obtain ⟨i, hi, hn⟩ := (exists_next_closure sub').mpr
    ⟨_, List.mem_singleton.mpr rfl, next, second, ends⟩
  have spans := (mem_closure sub').mp hi
  refine ⟨i, (mem_closure sub).mpr (spans.mono single), hn, ?_⟩
  rintro rfl
  have same := (Item.mk.inj (List.mem_singleton.mp spans.of_dot_pos)).1
  exact Nat.succ_ne_zero k same.symm

/-- Behind the start symbol the end of the text leads to the accepting state, unless a rule goes
on behind it. -/
theorem goto_end_iff : g.goto g.started endSymbol = g.closure [acceptItem] ↔ ¬ g.PassesEnd := by
  have sub : g.started ⊆ g.items := closure_sublist.subset
  have ending : (⟨0, 1⟩ : Item) ∈ g.started := by
    refine (mem_goto closure_sublist.subset).mpr (.seed (List.mem_map.mpr ⟨initialItem, ?_, rfl⟩))
    refine List.mem_filter.mpr ⟨?_, decide_eq_true rfl⟩
    exact (mem_closure g.initial_subset).mpr (.seed (List.mem_singleton.mpr rfl))
  constructor
  · intro same passes
    obtain ⟨⟨r, d⟩, hi, hn, other⟩ := passes.exists_mem
    have beside : (⟨r, d + 1⟩ : Item) ∈ g.goto g.started endSymbol :=
      (mem_goto sub).mpr (.seed (List.mem_map.mpr
        ⟨_, List.mem_filter.mpr ⟨hi, decide_eq_true hn⟩, rfl⟩))
    rw [same, closure_acceptItem] at beside
    obtain ⟨rfl, hd⟩ := Item.mk.inj beside
    exact other (by rw [Nat.succ.inj hd])
  · intro inner
    refine closure_ext fun i => ?_
    rw [closure_acceptItem, mem_closure (goto_seeds_subset sub)]
    constructor
    · intro spans
      induction spans with
      | seed hm =>
        obtain ⟨j, hj, rfl⟩ := List.mem_map.mp hm
        obtain ⟨hj, hn⟩ := List.mem_filter.mp hj
        by_contra other
        refine inner (passesEnd_of_mem hj (of_decide_eq_true hn) fun he => other ?_)
        rw [he]
        rfl
      | expand _ hn _ ih =>
        rw [ih, next?_acceptItem] at hn
        cases hn
    · rintro rfl
      exact .seed (List.mem_map.mpr ⟨⟨0, 1⟩, List.mem_filter.mpr ⟨ending, decide_eq_true rfl⟩, rfl⟩)

theorem BeginsWith.mentioned {symbol next : Symbol} (h : g.BeginsWith symbol next)
    (other : next ≠ symbol) : ∃ rule ∈ g.rules, next ∈ rule.predicate := by
  cases h with
  | refl => exact absurd rfl other
  | rule _ mem head => exact ⟨_, mem, List.mem_of_head? head⟩

theorem PassesEnd.mentioned (h : g.PassesEnd) : ∃ rule ∈ g.rules, endSymbol ∈ rule.predicate := by
  obtain ⟨rule, mem, _, next, rest, predicate, ends⟩ := h
  by_cases same : endSymbol = next
  · exact ⟨rule, mem, by simp [predicate, same]⟩
  · exact ends.mentioned same

theorem not_passesEnd (unmentioned : ∀ rule ∈ g.rules, endSymbol ∉ rule.predicate) :
    ¬ g.PassesEnd := by
  intro passes
  obtain ⟨rule, mem, mentioned⟩ := passes.mentioned
  exact unmentioned rule mem mentioned

/-- Where rules do not mention the end of the text, it is wanted behind the start symbol alone. -/
theorem eq_of_next?_end (unmentioned : ∀ rule ∈ g.rules, endSymbol ∉ rule.predicate) {i : Item}
    (hi : i ∈ g.items) (hn : g.next? i = some endSymbol) : i = ⟨0, 1⟩ := by
  obtain ⟨r, d⟩ := i
  rcases Nat.eq_zero_or_pos r with rfl | pos
  · match d, hn with
    | 0, hn =>
      have start : g.start = endSymbol := Option.some.inj hn
      have fault := g.faultless _ (List.head_mem g.rules_ne_nil)
      exact absurd start (Production.fault?_eq_none_iff.mp fault).2.1
    | 1, _ => rfl
  · obtain ⟨rule, mem, _, hp⟩ := rule_of_authored pos (mem_items.mp hi).1
    rw [next?, hp] at hn
    exact absurd (List.mem_of_getElem? hn) (unmentioned rule mem)

namespace Canonical

variable (h : g.Canonical a)
include h

theorem items_started {q : StateId} (hi : (⟨0, 1⟩ : Item) ∈ (a.state q).items) :
    (a.state q).items = g.started :=
  (h.reachable_of_next hi (show g.next? ⟨0, 1⟩ = some endSymbol from rfl)).eq_of_started_mem hi

theorem transition_accept (inner : ¬ g.PassesEnd) {q : StateId}
    (hi : (⟨0, 1⟩ : Item) ∈ (a.state q).items) :
    a.transition? q endSymbol = some Automaton.accept := by
  obtain ⟨t, ht, accepts⟩ := h.advance hi (show g.next? ⟨0, 1⟩ = some endSymbol from rfl)
  have items : (a.state t).items = (a.state Automaton.accept).items := by
    rw [(h.target _ _ _ ht).2, h.items_started hi, goto_end_iff.mpr inner, h.items_accept]
  rw [ht, h.eq_of_items accepts items]

/-- Unless a rule goes on behind the end of the text, the accepting state is the only one that
reduces by the rule that begins every grammar. -/
theorem eq_accept_of_reduction (inner : ¬ g.PassesEnd) {q : StateId}
    (complete : (a.state q).reduction = some 0) : q = Automaton.accept := by
  have hm : acceptItem ∈ (a.state q).items := h.mem_of_reduction complete
  refine (h.reachable_or_accept hm).elim (fun reachable => ?_) id
  refine h.eq_of_items hm ?_
  rw [reachable.eq_of_acceptItem_mem hm, h.items_accept]
  exact goto_end_iff.mpr inner

theorem authored_of_reduction (inner : ¬ g.PassesEnd) {q : StateId} {r : RuleId}
    (going : q ≠ Automaton.accept) (complete : (a.state q).reduction = some r) : 1 ≤ r := by
  refine Nat.one_le_iff_ne_zero.mpr fun zero => ?_
  rw [zero] at complete
  exact going (h.eq_accept_of_reduction inner complete)

/-- If a rule goes on behind the end of the text, no state leads to the accepting one. -/
theorem transition_ne_accept (passes : g.PassesEnd) (q : StateId) (symbol : Symbol) :
    a.transition? q symbol ≠ some Automaton.accept := by
  intro edge
  obtain ⟨rfl, hi⟩ := h.of_transition_accept edge
  have items := (h.target _ _ _ edge).2
  rw [h.items_started hi, h.items_accept] at items
  exact goto_end_iff.mp items.symm passes

end Canonical

end ShiftFirst.Grammar
