import ShiftFirst.Proofs.Automaton.Collection

namespace ShiftFirst

theorem lookup_map_pair {α β : Type} [BEq α] [LawfulBEq α] (f : α → β) (xs : List α) (x : α) :
    (xs.map fun a => (a, f a)).lookup x = if xs.elem x then some (f x) else none := by
  induction xs with
  | nil => rfl
  | cons a xs ih =>
    by_cases he : x = a
    · subst he
      simp
    · simp [List.lookup_cons, beq_eq_false_iff_ne.mpr he, he, ih]

namespace Grammar

variable {V : Type} {g : Grammar V}

/-- The states are the item sets reached from the initial item and the accepting one, each once;
a state leads over the symbols behind its dots, and reduces by the rule of its complete item. -/
structure Canonical (g : Grammar V) (a : Automaton) : Prop where
  start : (a.states[Automaton.start]?).map State.items = some (g.closure [initialItem])
  accept : (a.states[Automaton.accept]?).map State.items = some (g.closure [acceptItem])
  nodup : (a.states.map State.items).Nodup
  mem_items : ∀ items, items ∈ a.states.map State.items ↔
    g.Reachable items ∨ items = g.closure [acceptItem]
  transition_isSome : ∀ q symbol, (a.transition? q symbol).isSome ↔
    ∃ i ∈ (a.state q).items, g.next? i = some symbol
  target : ∀ q symbol t, a.transition? q symbol = some t →
    t < a.size ∧ (a.state t).items = g.goto (a.state q).items symbol
  reduction : ∀ q r, (a.state q).reduction = some r ↔
    ∃ i ∈ (a.state q).items, g.next? i = none ∧ i.rule = r
  single : ∀ q, (g.completeItems (a.state q).items).length ≤ 1

theorem transitions_lookup {known : List ItemSet} {items : ItemSet} {symbol : Symbol} :
    (g.stateOf known items).transitions.lookup symbol =
      if (items.filterMap g.next?).eraseDups.elem symbol then
        some (known.idxOf (g.goto items symbol))
      else none := by
  have he : (g.stateOf known items).transitions =
      (items.filterMap g.next?).eraseDups.map fun s => (s, known.idxOf (g.goto items s)) := by
    simp [stateOf, steps, goto]
  rw [he, lookup_map_pair]

theorem mem_leads {items : ItemSet} {symbol : Symbol} :
    (items.filterMap g.next?).eraseDups.elem symbol ↔ ∃ i ∈ items, g.next? i = some symbol := by
  rw [List.elem_iff, List.mem_eraseDups, List.mem_filterMap]

theorem reductionOf_eq_some_iff {items : ItemSet} (single : (g.completeItems items).length ≤ 1)
    {r : RuleId} :
    g.reductionOf items = some r ↔ ∃ i ∈ items, g.next? i = none ∧ i.rule = r := by
  have mem : ∀ i, i ∈ g.completeItems items ↔ i ∈ items ∧ g.next? i = none :=
    fun _ => mem_completeItems
  unfold reductionOf
  match hc : g.completeItems items, single with
  | [], _ =>
    simp only [hc, List.not_mem_nil, false_iff, not_and] at mem
    simp only [List.head?_nil, Option.map_none, reduceCtorEq, false_iff]
    exact fun ⟨i, hi, hn, _⟩ => mem i hi hn
  | [only], _ =>
    simp only [hc, List.mem_singleton] at mem
    simp only [List.head?_cons, Option.map_some, Option.some.injEq]
    constructor
    · rintro rfl
      exact ⟨only, ((mem only).mp rfl).1, ((mem only).mp rfl).2, rfl⟩
    · rintro ⟨i, hi, hn, rfl⟩
      rw [(mem i).mpr ⟨hi, hn⟩]

def assemble (g : Grammar V) (known : List ItemSet) : Automaton := ⟨known.map (g.stateOf known)⟩

theorem items_assemble {known : List ItemSet} :
    (g.assemble known).states.map State.items = known := by
  simp [assemble, Function.comp_def, stateOf]

theorem getElem?_assemble {known : List ItemSet} {q : StateId} :
    ((g.assemble known).states[q]?).map State.items = known[q]? := by
  rw [← List.getElem?_map, items_assemble]

theorem state_assemble {known : List ItemSet} {q : StateId} {items : ItemSet}
    (hq : known[q]? = some items) : (g.assemble known).state q = g.stateOf known items := by
  simp [Automaton.state, assemble, hq]

theorem state_assemble_none {known : List ItemSet} {q : StateId} (hq : known[q]? = none) :
    (g.assemble known).state q = ⟨[], [], none⟩ := by
  simp only [Automaton.state, assemble, List.getElem?_map, hq, Option.map_none, Option.getD_none]
  rfl

theorem transition?_assemble {known : List ItemSet} {q : StateId} {items : ItemSet}
    {symbol : Symbol} (hq : known[q]? = some items) :
    (g.assemble known).transition? q symbol =
      if (items.filterMap g.next?).eraseDups.elem symbol then
        some (known.idxOf (g.goto items symbol))
      else none := by
  rw [Automaton.transition?, state_assemble hq, transitions_lookup]

theorem transition?_assemble_none {known : List ItemSet} {q : StateId} {symbol : Symbol}
    (hq : known[q]? = none) : (g.assemble known).transition? q symbol = none := by
  rw [Automaton.transition?, state_assemble_none hq]
  rfl

theorem Explored.goto_mem {known : List ItemSet} (inv : g.Explored known.length known)
    {items : ItemSet} (hm : items ∈ known) {i : Item} (hi : i ∈ items) {symbol : Symbol}
    (hn : g.next? i = some symbol) : g.goto items symbol ∈ known := by
  obtain ⟨q, hq⟩ := List.mem_iff_getElem?.mp hm
  exact inv.followed q (List.getElem?_eq_some_iff.mp hq).1 items hq i hi symbol hn

theorem Explored.getElem?_initial {next : Nat} {known : List ItemSet}
    (inv : g.Explored next known) {k : Nat} (hk : k < 2) : known[k]? = g.initialSets[k]? := by
  obtain ⟨found, rfl⟩ := inv.begins
  exact List.getElem?_append_left hk

theorem Explored.mem_iff {known : List ItemSet} (inv : g.Explored known.length known)
    {items : ItemSet} :
    items ∈ known ↔ g.Reachable items ∨ items = g.closure [acceptItem] := by
  constructor
  · exact fun hm => (inv.origin items hm).symm
  · rintro (hr | rfl)
    · induction hr with
      | initial => exact List.mem_of_getElem? (inv.getElem?_initial (by decide : 1 < 2))
      | step _ hi hn ih => exact inv.goto_mem ih hi hn
    · exact List.mem_of_getElem? (inv.getElem?_initial (by decide : 0 < 2))

theorem transition_isSome_assemble {known : List ItemSet} {q : StateId} {symbol : Symbol} :
    ((g.assemble known).transition? q symbol).isSome ↔
      ∃ i ∈ ((g.assemble known).state q).items, g.next? i = some symbol := by
  cases hq : known[q]? with
  | none => simp [transition?_assemble_none hq, state_assemble_none hq]
  | some items =>
    rw [transition?_assemble hq, state_assemble hq]
    refine Iff.trans ?_ mem_leads
    split <;> simp_all [stateOf]

theorem Explored.target {known : List ItemSet} (inv : g.Explored known.length known)
    {q t : StateId} {symbol : Symbol} (ht : (g.assemble known).transition? q symbol = some t) :
    t < (g.assemble known).size ∧
      ((g.assemble known).state t).items = g.goto ((g.assemble known).state q).items symbol := by
  cases hq : known[q]? with
  | none => simp [transition?_assemble_none hq] at ht
  | some items =>
    rw [transition?_assemble hq] at ht
    split at ht
    next lead =>
      obtain ⟨i, hi, hn⟩ := mem_leads.mp lead
      have hm := inv.goto_mem (List.mem_of_getElem? hq) hi hn
      cases ht
      rw [state_assemble hq, state_assemble (List.getElem?_idxOf hm)]
      exact ⟨by simpa [Automaton.size, assemble] using List.idxOf_lt_length_of_mem hm, rfl⟩
    next => simp at ht

theorem Explored.single {known : List ItemSet} (inv : g.Explored known.length known)
    (q : StateId) : (g.completeItems ((g.assemble known).state q).items).length ≤ 1 := by
  cases hq : known[q]? with
  | none => simp [state_assemble_none hq, completeItems]
  | some items =>
    rw [state_assemble hq]
    exact conflict?_eq_none_iff.mp (inv.clear items (List.mem_of_getElem? hq))

theorem Explored.reduction {known : List ItemSet} (inv : g.Explored known.length known)
    (q : StateId) (r : RuleId) : ((g.assemble known).state q).reduction = some r ↔
      ∃ i ∈ ((g.assemble known).state q).items, g.next? i = none ∧ i.rule = r := by
  have single := inv.single q
  cases hq : known[q]? with
  | none => simp [state_assemble_none hq]
  | some items =>
    rw [state_assemble hq] at single ⊢
    exact reductionOf_eq_some_iff single

theorem Explored.canonical {known : List ItemSet} (inv : g.Explored known.length known) :
    g.Canonical (g.assemble known) where
  start := getElem?_assemble.trans (inv.getElem?_initial (by decide))
  accept := getElem?_assemble.trans (inv.getElem?_initial (by decide))
  nodup := by
    rw [items_assemble]
    exact inv.nodup
  mem_items items := by
    rw [items_assemble]
    exact inv.mem_iff
  transition_isSome _ _ := transition_isSome_assemble
  target _ _ _ ht := inv.target ht
  reduction := inv.reduction
  single := inv.single

theorem automaton_ok {a : Automaton} (h : g.automaton.2 = .ok a) :
    ∃ known, g.Explored known.length known ∧ a = g.assemble known := by
  simp only [automaton] at h
  split at h
  next => simp at h
  next known he =>
    cases h
    exact ⟨known, explore_ok explored_initialSets (by omega) he, rfl⟩

theorem nodup_transitions {a : Automaton} (h : g.automaton.2 = .ok a) (q : StateId) :
    ((a.state q).transitions.map Prod.fst).Nodup := by
  obtain ⟨known, _, rfl⟩ := automaton_ok h
  cases hq : known[q]? with
  | none => simp [state_assemble_none hq]
  | some items =>
    have symbols : (g.stateOf known items).transitions.map Prod.fst =
        (items.filterMap g.next?).eraseDups := by
      simp [stateOf, steps, Function.comp_def]
    rw [state_assemble hq, symbols]
    exact nodup_eraseDups _

theorem automaton_error {e : GrammarError} (h : g.automaton.2 = .error e) :
    ∃ items, g.Reachable items ∧ g.conflict? items = some e := by
  simp only [automaton] at h
  split at h
  next he =>
    cases h
    exact explore_error explored_initialSets he
  next => simp at h

theorem canonical_of_automaton {a : Automaton} (h : g.automaton.2 = .ok a) : g.Canonical a := by
  obtain ⟨known, inv, rfl⟩ := automaton_ok h
  exact inv.canonical

theorem single_of_reachable {a : Automaton} (h : g.automaton.2 = .ok a) {items : ItemSet}
    (hr : g.Reachable items) : (g.completeItems items).length ≤ 1 := by
  obtain ⟨known, inv, rfl⟩ := automaton_ok h
  exact conflict?_eq_none_iff.mp (inv.clear items (inv.mem_iff.mpr (Or.inl hr)))

/-- The construction refuses a grammar exactly if a reachable set has two complete items, and it
names those of one such set; else it builds the canonical automaton. -/
theorem automaton_canonical_or_conflict (g : Grammar V) :
    ((∃ e, g.automaton.2 = .error e) ↔
      ∃ items, g.Reachable items ∧ 2 ≤ (g.completeItems items).length) ∧
    (∀ e, g.automaton.2 = .error e →
      ∃ items, g.Reachable items ∧ 2 ≤ (g.completeItems items).length ∧
        e = .reduceReduceConflict ((g.completeItems items).map g.itemText)) ∧
    ∀ a, g.automaton.2 = .ok a → g.Canonical a := by
  have refused : ∀ e, g.automaton.2 = .error e →
      ∃ items, g.Reachable items ∧ 2 ≤ (g.completeItems items).length ∧
        e = .reduceReduceConflict ((g.completeItems items).map g.itemText) := fun e h => by
    obtain ⟨items, hr, hc⟩ := automaton_error h
    exact ⟨items, hr, conflict?_eq_some_iff.mp hc⟩
  refine ⟨⟨?_, ?_⟩, refused, fun a h => canonical_of_automaton h⟩
  · rintro ⟨e, h⟩
    obtain ⟨items, hr, many, _⟩ := refused e h
    exact ⟨items, hr, many⟩
  · rintro ⟨items, hr, many⟩
    cases h : g.automaton.2 with
    | error e => exact ⟨e, rfl⟩
    | ok a =>
      have := single_of_reachable h hr
      omega

/-- Two rules that come to the same symbol over the same token. -/
def ambiguous : Grammar String where
  rules := [
    ⟨⟨"S", ["n"]⟩, fun vs => .ok (vs.getD 0 "")⟩,
    ⟨⟨"S", ["n"]⟩, fun _ => .ok ""⟩]
  rules_ne_nil := List.cons_ne_nil _ _
  faultless := by decide

/-- The first of the two rules alone. -/
def unambiguous : Grammar String where
  rules := ambiguous.rules.take 1
  rules_ne_nil := List.cons_ne_nil _ _
  faultless := by decide

theorem automaton_ambiguous :
    ambiguous.automaton.2 = .error (.reduceReduceConflict ["S → n ▲", "S → n ▲"]) := by
  decide +kernel

theorem automaton_canonical_or_conflict_ambiguous :
    (∃ items, ambiguous.Reachable items ∧
      (ambiguous.completeItems items).map ambiguous.itemText = ["S → n ▲", "S → n ▲"]) ∧
    ∃ a, unambiguous.automaton.2 = .ok a ∧ a.size = 4 ∧ unambiguous.Canonical a := by
  have sizes : unambiguous.automaton.2.map Automaton.size = .ok 4 := by decide +kernel
  obtain ⟨_, names, _⟩ := automaton_canonical_or_conflict ambiguous
  obtain ⟨items, reached, _, named⟩ := names _ automaton_ambiguous
  obtain ⟨_, _, canonical⟩ := automaton_canonical_or_conflict unambiguous
  refine ⟨⟨items, reached, (GrammarError.reduceReduceConflict.inj named).symm⟩, ?_⟩
  cases built : unambiguous.automaton.2 with
  | error e =>
    rw [built] at sizes
    cases sizes
  | ok a =>
    rw [built] at sizes
    exact ⟨a, rfl, Except.ok.inj sizes, canonical a built⟩

end Grammar

end ShiftFirst
