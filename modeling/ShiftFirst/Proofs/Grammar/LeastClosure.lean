import Mathlib.Order.Bounds.Basic
import ShiftFirst.Proofs.Grammar.Closure

namespace ShiftFirst

namespace Grammar

variable {V : Type} {g : Grammar V} {seeds seeds' : List Item}

/-- With each item of the set, the first items of all rules of the symbol behind its dot are in
it. -/
def Expanded (g : Grammar V) (items : Set Item) : Prop :=
  ∀ i ∈ items, ∀ symbol, g.next? i = some symbol → ∀ r ∈ g.rulesFor symbol, ⟨r, 0⟩ ∈ items

theorem Spans.mem_of_expanded {items : Set Item} (expanded : g.Expanded items)
    (seeded : ∀ i ∈ seeds, i ∈ items) {i : Item} (h : g.Spans seeds i) : i ∈ items := by
  induction h with
  | seed mem => exact seeded _ mem
  | expand _ next mem ih => exact expanded _ ih _ next _ mem

theorem Spans.join {i : Item} (h : g.Spans (seeds ++ seeds') i) :
    g.Spans seeds i ∨ g.Spans seeds' i := by
  induction h with
  | seed mem => exact (List.mem_append.mp mem).imp .seed .seed
  | expand _ next mem ih =>
    exact ih.imp (fun origin => .expand origin next mem) fun origin => .expand origin next mem

/-- What the items that seeds bring along bring along, the seeds have brought along already. -/
theorem Spans.bring {middle : List Item} (within : ∀ i ∈ middle, g.Spans seeds i) {i : Item}
    (h : g.Spans middle i) : g.Spans seeds i := by
  induction h with
  | seed mem => exact within _ mem
  | expand _ next mem ih => exact .expand ih next mem

section Known

variable (known : seeds ⊆ g.items)
include known

theorem expanded_closure : g.Expanded {i | i ∈ g.closure seeds} := by
  intro i mem symbol next r hr
  exact (mem_closure known).mpr (.expand ((mem_closure known).mp mem) next hr)

theorem subset_closure : seeds ⊆ g.closure seeds := fun _ mem => (mem_closure known).mpr (.seed mem)

theorem closure_subset {items : Set Item} (expanded : g.Expanded items)
    (seeded : ∀ i ∈ seeds, i ∈ items) : ∀ i ∈ g.closure seeds, i ∈ items := fun _ mem =>
  ((mem_closure known).mp mem).mem_of_expanded expanded seeded

theorem closure_closure : g.closure (g.closure seeds) = g.closure seeds := by
  refine closure_ext fun i => ?_
  rw [mem_closure closure_sublist.subset]
  constructor
  · intro h
    exact (mem_closure known).mpr (h.bring fun _ mem => (mem_closure known).mp mem)
  · exact .seed

theorem closure_mono (known' : seeds' ⊆ g.items) (sub : seeds ⊆ seeds') :
    g.closure seeds ⊆ g.closure seeds' := fun _ mem =>
  (mem_closure known').mpr (((mem_closure known).mp mem).mono sub)

theorem mem_closure_append (known' : seeds' ⊆ g.items) {i : Item} :
    i ∈ g.closure (seeds ++ seeds') ↔ i ∈ g.closure seeds ∨ i ∈ g.closure seeds' := by
  rw [mem_closure (List.append_subset.mpr ⟨known, known'⟩), mem_closure known, mem_closure known']
  constructor
  · exact Spans.join
  · rintro (h | h)
    · exact h.mono (List.subset_append_left _ _)
    · exact h.mono (List.subset_append_right _ _)

end Known

/-- A closure is the least set with the seeds and the first items that they lead to. So it is its
own closure, grows with the seeds, does not depend on their order or number, and that of two lots
of seeds is that of the one with that of the other. -/
theorem closure_least (known : seeds ⊆ g.items) :
    IsLeast {items : Set Item | (∀ i ∈ seeds, i ∈ items) ∧ g.Expanded items}
        {i | i ∈ g.closure seeds} ∧
      (g.closure seeds).Sublist g.items ∧
      g.closure (g.closure seeds) = g.closure seeds ∧
      ∀ seeds' ⊆ g.items,
        (seeds ⊆ seeds' → g.closure seeds ⊆ g.closure seeds') ∧
        ((∀ i, i ∈ seeds ↔ i ∈ seeds') → g.closure seeds = g.closure seeds') ∧
        {i | i ∈ g.closure (seeds ++ seeds')} =
          {i | i ∈ g.closure seeds} ∪ {i | i ∈ g.closure seeds'} := by
  refine ⟨⟨⟨fun _ mem => subset_closure known mem, expanded_closure known⟩, ?_⟩, closure_sublist,
    closure_closure known, fun seeds' known' => ⟨closure_mono known known', ?_, ?_⟩⟩
  · rintro items ⟨seeded, expanded⟩
    exact closure_subset known expanded seeded
  · intro same
    refine closure_ext fun i => ⟨fun mem => ?_, fun mem => ?_⟩
    · exact closure_mono known known' (fun i hi => (same i).mp hi) mem
    · exact closure_mono known' known (fun i hi => (same i).mpr hi) mem
  · exact Set.ext fun _ => mem_closure_append known known'

/-- Two nonterminals that begin with each other and with themselves. -/
def tangled : Grammar String where
  rules := [
    ⟨⟨"S", ["T", "a"]⟩, fun _ => .ok ""⟩,
    ⟨⟨"T", ["S", "b"]⟩, fun _ => .ok ""⟩,
    ⟨⟨"T", ["T", "c"]⟩, fun _ => .ok ""⟩,
    ⟨⟨"S", ["S"]⟩, fun _ => .ok ""⟩,
    ⟨⟨"U", ["S"]⟩, fun _ => .ok ""⟩]
  rules_ne_nil := List.cons_ne_nil _ _
  faultless := by decide

theorem closure_least_tangled :
    [⟨3, 0⟩, ⟨1, 1⟩, ⟨3, 0⟩] ⊆ tangled.items ∧
      tangled.closure [⟨3, 0⟩, ⟨1, 1⟩, ⟨3, 0⟩] = [⟨1, 0⟩, ⟨1, 1⟩, ⟨2, 0⟩, ⟨3, 0⟩, ⟨4, 0⟩] ∧
      IsLeast {items : Set Item | (∀ i ∈ [⟨3, 0⟩, ⟨1, 1⟩, ⟨3, 0⟩], i ∈ items) ∧
          tangled.Expanded items}
        {i | i ∈ tangled.closure [⟨3, 0⟩, ⟨1, 1⟩, ⟨3, 0⟩]} ∧
      tangled.closure [⟨3, 0⟩, ⟨1, 1⟩, ⟨3, 0⟩] = tangled.closure [⟨1, 1⟩, ⟨3, 0⟩] := by
  have known : [⟨3, 0⟩, ⟨1, 1⟩, ⟨3, 0⟩] ⊆ tangled.items := by decide
  have known' : [⟨1, 1⟩, ⟨3, 0⟩] ⊆ tangled.items := by decide
  obtain ⟨least, _, _, others⟩ := closure_least known
  exact ⟨known, by decide, least, (others _ known').2.1 (by simp)⟩

end Grammar

end ShiftFirst
