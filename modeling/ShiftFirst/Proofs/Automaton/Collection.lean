import Mathlib.Data.List.Sublists
import ShiftFirst.Automaton.Build
import ShiftFirst.Proofs.Grammar.Closure

namespace ShiftFirst

namespace Grammar

variable {V : Type} {g : Grammar V}

/-- The items behind a symbol: those with the symbol behind the dot move on, and are closed. -/
def goto (g : Grammar V) (items : ItemSet) (symbol : Symbol) : ItemSet :=
  g.closure ((items.filter fun i => g.next? i = some symbol).map Item.advance)

/-- The item sets that steps over symbols lead to from the initial item. -/
inductive Reachable (g : Grammar V) : ItemSet → Prop
  | initial : Reachable g (g.closure [initialItem])
  | step {items : ItemSet} {i : Item} {symbol : Symbol} (origin : Reachable g items)
      (mem : i ∈ items) (next : g.next? i = some symbol) : Reachable g (g.goto items symbol)

def initialSets (g : Grammar V) : List ItemSet :=
  [g.closure [acceptItem], g.closure [initialItem]]

theorem mem_steps {items target : ItemSet} {symbol : Symbol} :
    (symbol, target) ∈ g.steps items ↔
      (∃ i ∈ items, g.next? i = some symbol) ∧ target = g.goto items symbol := by
  simp only [steps, List.mem_map, List.mem_eraseDups, List.mem_filterMap, Prod.mk.injEq]
  constructor
  · rintro ⟨s, hs, rfl, rfl⟩
    exact ⟨hs, rfl⟩
  · rintro ⟨hs, rfl⟩
    exact ⟨symbol, hs, rfl, rfl⟩

theorem goto_seeds_subset {items : ItemSet} {symbol : Symbol} (hs : items ⊆ g.items) :
    (items.filter fun i => g.next? i = some symbol).map Item.advance ⊆ g.items := by
  intro j hj
  obtain ⟨i, hi, rfl⟩ := List.mem_map.mp hj
  have hh := List.mem_filter.mp hi
  exact advance_mem (hs hh.1) (by simpa using hh.2)

theorem Reachable.sublist {items : ItemSet} (h : g.Reachable items) :
    items.Sublist g.items := by
  cases h with
  | initial => exact closure_sublist
  | step => exact closure_sublist

theorem mem_initial {i : Item} :
    i ∈ g.closure [initialItem] ↔ g.Spans [initialItem] i :=
  mem_closure (by simp [initialItem_mem])

theorem dot_of_mem_initial {i : Item} (h : i ∈ g.closure [initialItem]) : i.dot = 0 := by
  cases mem_initial.mp h with
  | seed hm => simp [List.mem_singleton.mp hm, initialItem]
  | expand => rfl

theorem closure_acceptItem {i : Item} : i ∈ g.closure [acceptItem] ↔ i = acceptItem := by
  rw [mem_closure (by simp [acceptItem_mem])]
  constructor
  · intro h
    induction h with
    | seed hm => exact List.mem_singleton.mp hm
    | expand _ hn _ ih =>
      rw [ih] at hn
      simp [next?, acceptItem, production, augmented] at hn
  · rintro rfl
    exact .seed (by simp)

theorem next?_acceptItem : g.next? acceptItem = none := by
  simp [next?, acceptItem, production, augmented]

theorem mem_completeItems {items : ItemSet} {i : Item} :
    i ∈ g.completeItems items ↔ i ∈ items ∧ g.next? i = none := by
  simp [completeItems, isComplete]

theorem conflict?_eq_none_iff {items : ItemSet} :
    g.conflict? items = none ↔ (g.completeItems items).length ≤ 1 := by
  simp only [conflict?, ite_eq_right_iff, reduceCtorEq, imp_false, Nat.not_lt]

theorem conflict?_eq_some_iff {items : ItemSet} {e : GrammarError} :
    g.conflict? items = some e ↔ 2 ≤ (g.completeItems items).length ∧
      e = .reduceReduceConflict ((g.completeItems items).map g.itemText) := by
  simp only [conflict?, Option.ite_none_right_eq_some, Option.some.injEq, eq_comm (a := e)]
  rfl

theorem items_nodup : g.items.Nodup := by
  unfold items itemsOf
  refine List.nodup_flatMap.mpr ⟨fun r _ => ?_, ?_⟩
  · exact List.nodup_range.map fun _ _ h => (Item.mk.inj h).2
  · refine List.nodup_range.imp fun hne => ?_
    intro i hi hj
    obtain ⟨_, _, rfl⟩ := List.mem_map.mp hi
    obtain ⟨_, _, he⟩ := List.mem_map.mp hj
    exact hne (Item.mk.inj he).1.symm

theorem conflict?_initialSets : ∀ items ∈ g.initialSets, g.conflict? items = none := by
  intro items hm
  rw [conflict?_eq_none_iff]
  simp only [initialSets, List.mem_cons, List.not_mem_nil, or_false] at hm
  rcases hm with rfl | rfl
  · have sub : g.completeItems (g.closure [acceptItem]) ⊆ [acceptItem] := fun i hi =>
      List.mem_singleton.mpr (closure_acceptItem.mp (mem_completeItems.mp hi).1)
    have nodup : (g.completeItems (g.closure [acceptItem])).Nodup :=
      (items_nodup.sublist closure_sublist).sublist List.filter_sublist
    exact (nodup.subperm sub).length_le
  · have none : g.completeItems (g.closure [initialItem]) = [] := by
      refine List.eq_nil_iff_forall_not_mem.mpr fun i hi => ?_
      obtain ⟨hm, hn⟩ := mem_completeItems.mp hi
      obtain ⟨r, d⟩ := i
      have hg := closure_sublist.subset hm
      have hd : d = 0 := dot_of_mem_initial hm
      have hl := (next?_eq_none_iff hg).mp hn
      exact predicate_ne_nil (mem_items.mp hg).1 (List.length_eq_zero_iff.mp (by omega))
    simp [none]

/-- A round keeps the sets it knows and adds the others that are reached, each once and each
without a conflict. -/
theorem discover_ok {known known' reached : List ItemSet}
    (h : (g.discover known reached).2 = .ok known') :
    ∃ fresh, known' = known ++ fresh ∧ (known.Nodup → known'.Nodup) ∧
      (∀ items ∈ fresh, items ∈ reached ∧ g.conflict? items = none) ∧ reached ⊆ known' := by
  induction reached generalizing known with
  | nil =>
    cases h
    exact ⟨[], by simp⟩
  | cons items rest ih =>
    unfold discover at h
    split at h
    next old =>
      obtain ⟨fresh, he, hn, hf, hr⟩ := ih h
      refine ⟨fresh, he, hn, fun I hI => ?_, ?_⟩
      · exact ⟨List.mem_cons_of_mem _ (hf I hI).1, (hf I hI).2⟩
      · exact List.cons_subset.mpr ⟨he ▸ List.mem_append_left _ old, hr⟩
    next new =>
      split at h
      next => simp at h
      next clear =>
        obtain ⟨fresh, he, hn, hf, hr⟩ := ih h
        refine ⟨items :: fresh, by simp [he], fun hk => hn ?_, fun I hI => ?_, ?_⟩
        · refine List.nodup_append.mpr ⟨hk, List.nodup_singleton _, fun I hI J hJ he => new ?_⟩
          rwa [← List.mem_singleton.mp hJ, ← he]
        · rcases List.mem_cons.mp hI with rfl | hI
          · exact ⟨List.mem_cons_self, clear⟩
          · exact ⟨List.mem_cons_of_mem _ (hf I hI).1, (hf I hI).2⟩
        · exact List.cons_subset.mpr ⟨by simp [he], hr⟩

theorem discover_error {known reached : List ItemSet} {e : GrammarError}
    (h : (g.discover known reached).2 = .error e) :
    ∃ items ∈ reached, g.conflict? items = some e := by
  induction reached generalizing known with
  | nil => simp [discover] at h
  | cons items rest ih =>
    unfold discover at h
    split at h
    next =>
      obtain ⟨I, hI, hc⟩ := ih h
      exact ⟨I, List.mem_cons_of_mem _ hI, hc⟩
    next =>
      split at h
      next conflict =>
        cases h
        exact ⟨items, List.mem_cons_self, conflict⟩
      next =>
        obtain ⟨I, hI, hc⟩ := ih h
        exact ⟨I, List.mem_cons_of_mem _ hI, hc⟩

/-- What holds of the known sets while the steps out of those numbered below `next` have been
looked at. -/
structure Explored (g : Grammar V) (next : Nat) (known : List ItemSet) : Prop where
  begins : g.initialSets <+: known
  nodup : known.Nodup
  origin : ∀ items ∈ known, items = g.closure [acceptItem] ∨ g.Reachable items
  clear : ∀ items ∈ known, g.conflict? items = none
  followed : ∀ k < next, ∀ items, known[k]? = some items →
    ∀ i ∈ items, ∀ symbol, g.next? i = some symbol → g.goto items symbol ∈ known

theorem explored_initialSets : g.Explored 0 g.initialSets where
  begins := List.prefix_rfl
  nodup := by
    simp only [initialSets, List.nodup_cons, List.mem_singleton, List.not_mem_nil,
      not_false_eq_true, List.nodup_nil, and_true]
    intro same
    have hm : acceptItem ∈ g.closure [initialItem] := same ▸ closure_acceptItem.mpr rfl
    exact absurd (dot_of_mem_initial hm) (by simp [acceptItem])
  origin items hm := by
    simp only [initialSets, List.mem_cons, List.not_mem_nil, or_false] at hm
    rcases hm with rfl | rfl
    · exact Or.inl rfl
    · exact Or.inr .initial
  clear := conflict?_initialSets
  followed k hk := absurd hk (Nat.not_lt_zero k)

theorem Explored.sublist {next : Nat} {known : List ItemSet} (inv : g.Explored next known)
    {items : ItemSet} (hm : items ∈ known) : items.Sublist g.items := by
  rcases inv.origin items hm with rfl | hr
  · exact closure_sublist
  · exact hr.sublist

theorem Explored.length_le {next : Nat} {known : List ItemSet} (inv : g.Explored next known) :
    known.length ≤ Nat.pow 2 g.items.length := by
  have sub : known ⊆ g.items.sublists := fun _ hm => List.mem_sublists.mpr (inv.sublist hm)
  have := (inv.nodup.subperm sub).length_le
  rwa [List.length_sublists] at this

/-- Steps lead out of reachable sets only: the other set that is known from the beginning has its
dot behind all symbols. -/
theorem Explored.reachable_goto {next : Nat} {known : List ItemSet} (inv : g.Explored next known)
    {items : ItemSet} (hm : items ∈ known) {i : Item} (hi : i ∈ items) {symbol : Symbol}
    (hn : g.next? i = some symbol) : g.Reachable (g.goto items symbol) := by
  rcases inv.origin items hm with rfl | hr
  · rw [closure_acceptItem.mp hi, next?_acceptItem] at hn
    simp at hn
  · exact .step hr hi hn

theorem Explored.reachable_steps {next : Nat} {known : List ItemSet} (inv : g.Explored next known)
    {items target : ItemSet} (hm : items ∈ known)
    (ht : target ∈ (g.steps items).map (·.2)) : g.Reachable target := by
  obtain ⟨⟨symbol, reached⟩, hs, rfl⟩ := List.mem_map.mp ht
  obtain ⟨⟨i, hi, hn⟩, rfl⟩ := mem_steps.mp hs
  exact inv.reachable_goto hm hi hn

theorem Explored.discover {next : Nat} {known known' : List ItemSet} (inv : g.Explored next known)
    {items : ItemSet} (he : known[next]? = some items)
    (h : (g.discover known ((g.steps items).map (·.2))).2 = .ok known') :
    g.Explored (next + 1) known' := by
  have hm := List.mem_of_getElem? he
  obtain ⟨fresh, rfl, hn, hf, hr⟩ := discover_ok h
  refine ⟨inv.begins.trans (List.prefix_append _ _), hn inv.nodup, ?_, ?_, ?_⟩
  · intro I hI
    rcases List.mem_append.mp hI with hI | hI
    · exact inv.origin I hI
    · exact Or.inr (inv.reachable_steps hm (hf I hI).1)
  · intro I hI
    rcases List.mem_append.mp hI with hI | hI
    · exact inv.clear I hI
    · exact (hf I hI).2
  · intro k hk I hI i hi symbol hnext
    rcases Nat.lt_or_eq_of_le (Nat.le_of_lt_succ hk) with hk | rfl
    · have hlt : k < known.length := by
        have := (List.getElem?_eq_some_iff.mp he).1
        omega
      rw [List.getElem?_append_left hlt] at hI
      exact List.mem_append_left _ (inv.followed k hk I hI i hi symbol hnext)
    · rw [List.getElem?_append_left (List.getElem?_eq_some_iff.mp he).1, he] at hI
      cases hI
      exact hr (List.mem_map.mpr ⟨_, mem_steps.mpr ⟨⟨i, hi, hnext⟩, rfl⟩, rfl⟩)

theorem Explored.finish {next : Nat} {known : List ItemSet} (inv : g.Explored next known)
    (none : known[next]? = none) : g.Explored known.length known where
  begins := inv.begins
  nodup := inv.nodup
  origin := inv.origin
  clear := inv.clear
  followed k hk := inv.followed k (Nat.lt_of_lt_of_le hk (List.getElem?_eq_none_iff.mp none))

/-- With as many rounds as there are sublists of the items, the exploration ends because no set
is left. -/
theorem explore_ok {rounds next : Nat} {known final : List ItemSet} (inv : g.Explored next known)
    (enough : Nat.pow 2 g.items.length ≤ next + rounds)
    (h : (g.explore rounds next known).2 = .ok final) : g.Explored final.length final := by
  induction rounds generalizing next known with
  | zero =>
    cases h
    have := inv.length_le
    exact inv.finish (List.getElem?_eq_none_iff.mpr (by omega))
  | succ rounds ih =>
    unfold explore at h
    split at h
    next none =>
      cases h
      exact inv.finish none
    next items he =>
      dsimp only at h
      split at h
      next => simp at h
      next hd => exact ih (inv.discover he hd) (by omega) h

theorem explore_error {rounds next : Nat} {known : List ItemSet} {e : GrammarError}
    (inv : g.Explored next known) (h : (g.explore rounds next known).2 = .error e) :
    ∃ items, g.Reachable items ∧ g.conflict? items = some e := by
  induction rounds generalizing next known with
  | zero => simp [explore] at h
  | succ rounds ih =>
    unfold explore at h
    split at h
    next => simp at h
    next items he =>
      dsimp only at h
      split at h
      next hd =>
        cases h
        obtain ⟨target, ht, hc⟩ := discover_error hd
        exact ⟨target, inv.reachable_steps (List.mem_of_getElem? he) ht, hc⟩
      next hd => exact ih (inv.discover he hd) h

end Grammar

end ShiftFirst
