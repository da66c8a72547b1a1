import ShiftFirst.Proofs.Automaton.Path
import ShiftFirst.Proofs.Grammar.Reorder

namespace ShiftFirst

theorem filter_mem_of_sublist {α : Type} [DecidableEq α] {xs ys : List α} (h : xs.Sublist ys)
    (nodup : ys.Nodup) : ys.filter (· ∈ xs) = xs := by
  induction h with
  | slnil => rfl
  | @cons xs ys y sub ih =>
    obtain ⟨new, nodup⟩ := List.nodup_cons.mp nodup
    have out : y ∉ xs := fun mem => new (sub.subset mem)
    rw [List.filter_cons_of_neg (by simpa using out), ih nodup]
  | @cons_cons xs ys y sub ih =>
    obtain ⟨new, nodup⟩ := List.nodup_cons.mp nodup
    rw [List.filter_cons_of_pos (by simp)]
    refine congrArg (y :: ·) (Eq.trans (List.filter_congr fun x hx => ?_) (ih nodup))
    have other : x ≠ y := fun same => new (same ▸ hx)
    simp [other]

/-- Two automata are the same, up to the numbers of their rules and of their states. -/
structure Automaton.Corresponds (a a' : Automaton) (σ : Equiv.Perm RuleId)
    (f : Equiv.Perm StateId) : Prop where
  size : ∀ q, f q < a'.size ↔ q < a.size
  start : f Automaton.start = Automaton.start
  accept : f Automaton.accept = Automaton.accept
  items : ∀ q, Renumbered σ (a.state q).items (a'.state (f q)).items
  transition : ∀ q symbol, a'.transition? (f q) symbol = (a.transition? q symbol).map f
  reduction : ∀ q, (a'.state (f q)).reduction = (a.state q).reduction.map σ

namespace Grammar

variable {V : Type} {g g' : Grammar V} {σ : Equiv.Perm RuleId} {items items' : ItemSet}
  {a a' : Automaton}

theorem eq_of_sublist (h : items.Sublist g.items) (h' : items'.Sublist g.items)
    (same : ∀ i, i ∈ items ↔ i ∈ items') : items = items' := by
  rw [← filter_mem_of_sublist h items_nodup, ← filter_mem_of_sublist h' items_nodup]
  simp only [same]

/-- The items that correspond to the ones of another grammar, in the order of their numbers. -/
def counterpart (g : Grammar V) (σ : Equiv.Perm RuleId) (items : List Item) : ItemSet :=
  g.items.filter (· ∈ items.map (Item.renumber σ))

theorem counterpart_eq (h : items'.Sublist g'.items) (same : Renumbered σ items items') :
    g'.counterpart σ items = items' := by
  refine Eq.trans (List.filter_congr fun i _ => ?_) (filter_mem_of_sublist h items_nodup)
  rw [decide_eq_decide]
  refine ⟨fun hi => ?_, fun hi => ?_⟩
  · obtain ⟨j, hj, rfl⟩ := List.mem_map.mp hi
    exact (same j).mpr hj
  · exact List.mem_map.mpr ⟨_, (same.symm i).mpr hi, Item.renumber_symm σ i⟩

theorem Canonical.sublist (canonical : g.Canonical a) (mem : items ∈ a.states.map State.items) :
    items.Sublist g.items := by
  rcases (canonical.mem_items items).mp mem with reached | rfl
  · exact reached.sublist
  · exact closure_sublist

theorem Canonical.items_sublist (canonical : g.Canonical a) (q : StateId) :
    (a.state q).items.Sublist g.items := by
  cases hi : (a.state q).items with
  | nil => exact List.nil_sublist _
  | cons i items =>
    have mem : i ∈ (a.state q).items := hi ▸ List.mem_cons_self
    exact hi ▸ canonical.sublist (List.mem_of_getElem? (getElem?_items mem))

theorem Canonical.eq_of_renumbered (canonical' : g'.Canonical a') {q q' : StateId}
    (same : Renumbered σ items (a'.state q).items)
    (same' : Renumbered σ items (a'.state q').items) {i : Item} (mem : i ∈ items) : q = q' := by
  refine canonical'.eq_of_items ((same i).mpr mem) ?_
  exact eq_of_sublist (canonical'.items_sublist q) (canonical'.items_sublist q') fun j =>
    (same.symm j).symm.trans (same'.symm j)

namespace Reorders

variable (h : g.Reorders g' σ)
include h

theorem mem_moved {symbol : Symbol} (same : Renumbered σ items items') {i : Item}
    (hi : i ∈ (items.filter fun i => g.next? i = some symbol).map Item.advance) :
    i.renumber σ ∈ (items'.filter fun i => g'.next? i = some symbol).map Item.advance := by
  obtain ⟨j, hj, rfl⟩ := List.mem_map.mp hi
  obtain ⟨mem, next⟩ := List.mem_filter.mp hj
  refine List.mem_map.mpr ⟨j.renumber σ, List.mem_filter.mpr ⟨(same j).mpr mem, ?_⟩, rfl⟩
  rwa [h.next?]

theorem goto (same : Renumbered σ items items') (known : items ⊆ g.items) (symbol : Symbol) :
    Renumbered σ (g.goto items symbol) (g'.goto items' symbol) := by
  refine h.closure (fun i => ⟨fun hi => ?_, h.mem_moved same⟩) (goto_seeds_subset known)
  have back := h.symm.mem_moved same.symm hi
  rwa [Item.symm_renumber] at back

theorem closure_initialItem :
    Renumbered σ (g.closure [initialItem]) (g'.closure [initialItem]) :=
  h.closure (.singleton h.renumber_initialItem) (by simp [initialItem_mem])

theorem closure_acceptItem :
    Renumbered σ (g.closure [acceptItem]) (g'.closure [acceptItem]) :=
  h.closure (.singleton h.renumber_acceptItem) (by simp [acceptItem_mem])

theorem reachable (reached : g.Reachable items) :
    ∃ items', g'.Reachable items' ∧ Renumbered σ items items' := by
  induction reached with
  | initial => exact ⟨_, .initial, h.closure_initialItem⟩
  | step origin mem next ih =>
    obtain ⟨items', reached, same⟩ := ih
    exact ⟨_, .step reached ((same _).mpr mem) ((h.next? _).trans next),
      h.goto same origin.sublist.subset _⟩

theorem completeItems (same : Renumbered σ items items') :
    Renumbered σ (g.completeItems items) (g'.completeItems items') := fun i => by
  rw [mem_completeItems, mem_completeItems, same, h.next?]

theorem length_completeItems (reached : g.Reachable items) (reached' : g'.Reachable items')
    (same : Renumbered σ items items') :
    (g'.completeItems items').length = (g.completeItems items).length := by
  have nodup := (items_nodup.sublist reached.sublist).filter g.isComplete
  have nodup' := (items_nodup.sublist reached'.sublist).filter g'.isComplete
  rw [← ((h.completeItems same).perm nodup nodup').length_eq, List.length_map]

/-- Where the states of one grammar have no conflict, those of the other have none. -/
theorem exists_automaton (built : g.automaton.2 = .ok a) : ∃ a', g'.automaton.2 = .ok a' := by
  cases ha : g'.automaton.2 with
  | ok a' => exact ⟨a', rfl⟩
  | error e =>
    obtain ⟨items', reached', many, _⟩ := (automaton_canonical_or_conflict g').2.1 e ha
    obtain ⟨items, reached, same⟩ := h.symm.reachable reached'
    have single := single_of_reachable built reached
    rw [h.symm.length_completeItems reached' reached same] at single
    omega

variable (canonical : g.Canonical a) (canonical' : g'.Canonical a')
include canonical canonical'

theorem exists_set (mem : items ∈ a.states.map State.items) :
    ∃ items' ∈ a'.states.map State.items, Renumbered σ items items' := by
  rcases (canonical.mem_items items).mp mem with reached | rfl
  · obtain ⟨items', reached', same⟩ := h.reachable reached
    exact ⟨items', (canonical'.mem_items items').mpr (.inl reached'), same⟩
  · exact ⟨_, (canonical'.mem_items _).mpr (.inr rfl), h.closure_acceptItem⟩

theorem perm_counterparts :
    ((a.states.map State.items).map (g'.counterpart σ)).Perm (a'.states.map State.items) := by
  have image : ∀ items ∈ a.states.map State.items,
      g'.counterpart σ items ∈ a'.states.map State.items ∧
        Renumbered σ items (g'.counterpart σ items) := fun items mem => by
    obtain ⟨items', mem', same⟩ := h.exists_set canonical canonical' mem
    rw [counterpart_eq (canonical'.sublist mem') same]
    exact ⟨mem', same⟩
  have nodup : ((a.states.map State.items).map (g'.counterpart σ)).Nodup := by
    refine canonical.nodup.map_on fun items mem items' mem' equal => ?_
    refine eq_of_sublist (canonical.sublist mem) (canonical.sublist mem') fun i => ?_
    rw [← (image items mem).2, ← (image items' mem').2, equal]
  refine (List.perm_ext_iff_of_nodup nodup canonical'.nodup).mpr
    fun items' => ⟨fun taken => ?_, fun mem' => ?_⟩
  · obtain ⟨items, mem, rfl⟩ := List.mem_map.mp taken
    exact (image items mem).1
  · obtain ⟨items, mem, same⟩ := h.symm.exists_set canonical' canonical mem'
    exact List.mem_map.mpr ⟨items, mem, counterpart_eq (canonical'.sublist mem') same.symm⟩

theorem exists_states :
    ∃ f : Equiv.Perm StateId, (∀ q, f q < a'.size ↔ q < a.size) ∧
      ∀ q, Renumbered σ (a.state q).items (a'.state (f q)).items := by
  obtain ⟨f, places⟩ := exists_places (h.perm_counterparts canonical canonical')
  simp only [List.getElem?_map, Option.map_map] at places
  refine ⟨f, fun q => ?_, fun q => ?_⟩
  · have outside := congrArg (· = none) (places q)
    simp only [Option.map_eq_none_iff, List.getElem?_eq_none_iff] at outside
    exact lt_iff_lt_of_le_iff_le (iff_of_eq outside)
  · have there := places q
    cases hq : a.states[q]? with
    | none =>
      rw [hq, Option.map_none, Option.map_eq_none_iff] at there
      rw [Automaton.state, Automaton.state, hq, there]
      exact fun i => iff_of_false List.not_mem_nil List.not_mem_nil
    | some s =>
      rw [hq, Option.map_some] at there
      obtain ⟨s', hq', equal⟩ := Option.map_eq_some_iff.mp there
      have mem : s.items ∈ a.states.map State.items :=
        List.mem_map_of_mem (List.mem_of_getElem? hq)
      obtain ⟨items', mem', same⟩ := h.exists_set canonical canonical' mem
      rw [Automaton.state, Automaton.state, hq, hq', Option.getD_some, Option.getD_some, equal,
        Function.comp_apply, counterpart_eq (canonical'.sublist mem') same]
      exact same

theorem isSome_transition {q q' : StateId} {symbol : Symbol}
    (same : Renumbered σ (a.state q).items (a'.state q').items)
    (edge : (a.transition? q symbol).isSome) : (a'.transition? q' symbol).isSome := by
  obtain ⟨i, hi, hn⟩ := (canonical.transition_isSome q symbol).mp edge
  exact (canonical'.transition_isSome q' symbol).mpr
    ⟨_, (same i).mpr hi, (h.next? i).trans hn⟩

theorem reduction {q q' : StateId} {r : RuleId}
    (same : Renumbered σ (a.state q).items (a'.state q').items)
    (complete : (a.state q).reduction = some r) : (a'.state q').reduction = some (σ r) := by
  obtain ⟨i, hi, hn, rfl⟩ := (canonical.reduction q r).mp complete
  exact (canonical'.reduction q' _).mpr ⟨_, (same i).mpr hi, (h.next? i).trans hn, rfl⟩

/-- States with the same items lead to states with the same items. -/
theorem target {q q' t t' : StateId} {symbol : Symbol}
    (same : Renumbered σ (a.state q).items (a'.state q').items)
    (edge : a.transition? q symbol = some t) (edge' : a'.transition? q' symbol = some t') :
    Renumbered σ (a.state t).items (a'.state t').items := by
  rw [(canonical.target q symbol t edge).2, (canonical'.target q' symbol t' edge').2]
  exact h.goto same (canonical.items_subset q) symbol

/-- The states of both grammars correspond, by their items. -/
theorem exists_corresponds : ∃ f, a.Corresponds a' σ f := by
  obtain ⟨f, size, items⟩ := h.exists_states canonical canonical'
  have forward : ∀ {q t symbol}, a.transition? q symbol = some t →
      a'.transition? (f q) symbol = some (f t) := fun {q t symbol} edge => by
    obtain ⟨t', edge'⟩ := Option.isSome_iff_exists.mp
      (h.isSome_transition canonical canonical' (items q) (Option.isSome_of_eq_some edge))
    obtain ⟨i, hi, hn⟩ :=
      (canonical.transition_isSome q symbol).mp (Option.isSome_of_eq_some edge)
    obtain ⟨t₁, edge₁, moved⟩ := canonical.advance hi hn
    cases edge₁.symm.trans edge
    rw [edge', canonical'.eq_of_renumbered (items t)
      (h.target canonical canonical' (items q) edge edge') moved]
  refine ⟨f, size, ?_, ?_, items, fun q symbol => Option.ext fun t' => ⟨fun edge' => ?_, ?_⟩,
    fun q => Option.ext fun r' => ⟨fun complete => ?_, ?_⟩⟩
  · have start := items Automaton.start
    have start' := h.closure_initialItem
    rw [← canonical.items_start, ← canonical'.items_start] at start'
    exact canonical'.eq_of_renumbered start start' canonical.initialItem_mem_start
  · have accept := items Automaton.accept
    have accept' := h.closure_acceptItem
    rw [← canonical.items_accept, ← canonical'.items_accept] at accept'
    exact canonical'.eq_of_renumbered accept accept' (canonical.mem_items_accept.mpr rfl)
  · obtain ⟨t, edge⟩ := Option.isSome_iff_exists.mp
      (h.symm.isSome_transition canonical' canonical (items q).symm
        (Option.isSome_of_eq_some edge'))
    rw [edge, ← edge', forward edge]
    rfl
  · intro moved
    obtain ⟨t, edge, rfl⟩ := Option.map_eq_some_iff.mp moved
    exact forward edge
  · rw [h.symm.reduction canonical' canonical (items q).symm complete, Option.map_some,
      σ.apply_symm_apply]
  · intro moved
    obtain ⟨r, complete, rfl⟩ := Option.map_eq_some_iff.mp moved
    exact h.reduction canonical canonical' (items q) complete

end Reorders

end Grammar

end ShiftFirst
