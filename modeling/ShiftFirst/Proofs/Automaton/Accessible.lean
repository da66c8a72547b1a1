import ShiftFirst.Proofs.Automaton.Path

namespace ShiftFirst.Grammar

variable {V : Type} {g : Grammar V} {a : Automaton} {symbol : Symbol}

/-- A symbol comes up in some row that the start symbol can stand for. -/
inductive Accessible (g : Grammar V) : Symbol → Prop
  | start : Accessible g g.start
  | rule {rule : Rule V} {symbol : Symbol} (subject : Accessible g rule.subject)
      (mem : rule ∈ g.rules) (mentioned : symbol ∈ rule.predicate) : Accessible g symbol

/-- An item is of the rule that begins every grammar, or of a rule for an accessible symbol. -/
def Stems (g : Grammar V) (i : Item) : Prop :=
  i.rule = 0 ∨ g.Accessible (g.production i.rule).subject

theorem Stems.next {i : Item} (h : g.Stems i) (known : i ∈ g.items)
    (hn : g.next? i = some symbol) : symbol = endSymbol ∨ g.Accessible symbol := by
  obtain ⟨r, d⟩ := i
  have mentioned : symbol ∈ (g.production r).predicate := List.mem_of_getElem? hn
  rcases Nat.eq_zero_or_pos r with rfl | authored
  · rcases List.mem_pair.mp mentioned with rfl | rfl
    · exact Or.inr .start
    · exact Or.inl rfl
  · obtain ⟨rule, mem, _, same⟩ := rule_of_authored authored (mem_items.mp known).1
    have subject := h.resolve_left (Nat.ne_of_gt authored)
    rw [same] at subject mentioned
    exact Or.inr (.rule subject mem mentioned)

theorem stems_closure {seeds : List Item} (hs : seeds ⊆ g.items) (stems : ∀ s ∈ seeds, g.Stems s)
    {i : Item} (hi : i ∈ g.closure seeds) : g.Stems i := by
  have spans := (mem_closure hs).mp hi
  clear hi
  induction spans with
  | seed mem => exact stems _ mem
  | @expand i symbol r origin hn hr ih =>
    obtain ⟨pos, hle, rfl⟩ := mem_rulesFor.mp hr
    have known := closure_sublist.subset ((mem_closure hs).mpr origin)
    exact Or.inr ((ih.next known hn).resolve_left (subject_ne_reserved pos hle).2)

theorem Reachable.stems {items : ItemSet} (h : g.Reachable items) :
    ∀ i ∈ items, g.Stems i := by
  induction h with
  | initial =>
    refine fun i hi => stems_closure (by simp [initialItem_mem]) (fun s hm => ?_) hi
    rw [List.mem_singleton.mp hm]
    exact Or.inl rfl
  | step origin _ _ ih =>
    refine fun i hi => stems_closure (goto_seeds_subset origin.sublist.subset) (fun s hm => ?_) hi
    obtain ⟨j, hj, rfl⟩ := List.mem_map.mp hm
    exact ih j (List.mem_filter.mp hj).1

namespace Canonical

variable (h : g.Canonical a)
include h

theorem accessible_of_transition {q t : StateId} (edge : a.transition? q symbol = some t) :
    symbol = endSymbol ∨ g.Accessible symbol := by
  obtain ⟨i, hi, hn⟩ := (h.transition_isSome q symbol).mp (by rw [edge]; rfl)
  exact ((h.reachable_of_next hi hn).stems i hi).next (h.items_subset q hi) hn

/-- From where a rule begins a way leads on to each place in its predicate. -/
theorem exists_path_within {states : List StateId} {symbols : List Symbol}
    (path : a.Path states symbols) {r d : Nat}
    (opens : (⟨r, 0⟩ : Item) ∈ (a.state (topState states)).items)
    (within : d ≤ (g.production r).predicate.length) :
    ∃ states symbols, a.Path states symbols ∧
      (⟨r, d⟩ : Item) ∈ (a.state (topState states)).items := by
  induction d with
  | zero => exact ⟨states, symbols, path, opens⟩
  | succ d ih =>
    obtain ⟨states, symbols, path, hi⟩ := ih (Nat.le_of_succ_le within)
    obtain ⟨t, edge, hi⟩ := h.advance hi (List.getElem?_eq_getElem within)
    exact ⟨t :: states, _, .cons path edge, hi⟩

/-- Some way leads to a state that leads over an accessible symbol. -/
theorem exists_path_of_accessible (accessible : g.Accessible symbol) :
    ∃ states symbols, a.Path states symbols ∧
      ∃ i ∈ (a.state (topState states)).items, g.next? i = some symbol := by
  induction accessible with
  | start => exact ⟨[], [], .nil, initialItem, h.initialItem_mem_start, rfl⟩
  | @rule rule symbol _ mem mentioned ih =>
    obtain ⟨states, symbols, path, i, hi, hn⟩ := ih
    obtain ⟨k, hk, rfl⟩ := List.mem_iff_getElem.mp mem
    obtain ⟨d, hd, rfl⟩ := List.mem_iff_getElem.mp mentioned
    have opens := h.expand hi hn (mem_rulesFor_authored ⟨k, hk⟩)
    have same := production_authored (g := g) ⟨k, hk⟩
    obtain ⟨states, symbols, path, hi⟩ :=
      h.exists_path_within path opens (d := d) (by rw [same]; exact Nat.le_of_lt hd)
    refine ⟨states, symbols, path, _, hi, ?_⟩
    rw [next?, same]
    exact List.getElem?_eq_getElem hd

end Canonical

end ShiftFirst.Grammar
