import Mathlib.Data.List.Sort
import ShiftFirst.Proofs.Automaton.Accessible
import ShiftFirst.Proofs.Automaton.Reorder
import ShiftFirst.Proofs.Automaton.Worklist

namespace ShiftFirst

/-- Members of a list with further ones among them. -/
inductive Inserts {α : Type} (further : α → Prop) : List α → List α → Prop
  | nil : Inserts further [] []
  | keep {xs ys : List α} (x : α) (rest : Inserts further xs ys) :
      Inserts further (x :: xs) (x :: ys)
  | insert {xs ys : List α} {y : α} (new : further y) (rest : Inserts further xs ys) :
      Inserts further xs (y :: ys)

theorem Inserts.forall_mem {α : Type} {further P : α → Prop} {xs ys : List α}
    (h : Inserts further xs ys) (new : ∀ y, further y → P y) (kept : ∀ x ∈ xs, P x) :
    ∀ y ∈ ys, P y := by
  induction h with
  | nil => exact kept
  | keep x _ ih =>
    obtain ⟨own, others⟩ := List.forall_mem_cons.mp kept
    exact List.forall_mem_cons.mpr ⟨own, ih others⟩
  | insert further _ ih => exact List.forall_mem_cons.mpr ⟨new _ further, ih kept⟩

/-- What comes behind zero is moved as the function says, and zero stays. -/
def succMap (f : Nat → Nat) : Nat → Nat
  | 0 => 0
  | k + 1 => f k + 1

theorem strictMono_succMap {f : Nat → Nat} (mono : StrictMono f) : StrictMono (succMap f) := by
  refine strictMono_nat_of_lt_succ fun k => ?_
  cases k with
  | zero => exact Nat.succ_pos _
  | succ k => exact Nat.succ_lt_succ (mono (Nat.lt_succ_self k))

theorem Inserts.exists_places {α : Type} {further : α → Prop} {xs ys : List α}
    (h : Inserts further xs ys) :
    ∃ f : Nat → Nat, StrictMono f ∧ (∀ k, ys[f k]? = xs[k]?) ∧
      ∀ k ∉ Set.range f, ∀ y, ys[k]? = some y → further y := by
  induction h with
  | nil => exact ⟨id, strictMono_id, fun _ => rfl, fun k out => absurd ⟨k, rfl⟩ out⟩
  | keep x _ ih =>
    obtain ⟨f, mono, places, others⟩ := ih
    refine ⟨succMap f, strictMono_succMap mono, fun k => ?_, fun k out y there => ?_⟩
    · cases k with
      | zero => rfl
      | succ k => exact places k
    · cases k with
      | zero => exact absurd ⟨0, rfl⟩ out
      | succ k => exact others k (fun ⟨j, hj⟩ => out ⟨j + 1, congrArg Nat.succ hj⟩) y there
  | insert new _ ih =>
    obtain ⟨f, mono, places, others⟩ := ih
    refine ⟨fun k => f k + 1, fun j k less => Nat.succ_lt_succ (mono less), places,
      fun k out y there => ?_⟩
    cases k with
    | zero =>
      cases there
      exact new
    | succ k => exact others k (fun ⟨j, hj⟩ => out ⟨j, congrArg Nat.succ hj⟩) y there

/-- An item by the number that its rule has among more rules. -/
def Item.relabel (φ : RuleId ↪ RuleId) (i : Item) : Item := ⟨φ i.rule, i.dot⟩

theorem Item.relabel_injective (φ : RuleId ↪ RuleId) : Function.Injective (Item.relabel φ) := by
  rintro ⟨r, d⟩ ⟨r', d'⟩ same
  obtain ⟨rule, dot⟩ := Item.mk.inj same
  exact congrArg₂ Item.mk (φ.injective rule) dot

/-- A set of items by the numbers that their rules have among more rules. -/
def ItemSet.relabel (φ : RuleId ↪ RuleId) (items : ItemSet) : ItemSet := items.map (Item.relabel φ)

theorem ItemSet.relabel_injective (φ : RuleId ↪ RuleId) :
    Function.Injective (ItemSet.relabel φ) :=
  List.map_injective_iff.mpr (Item.relabel_injective φ)

/-- The state with the same items, by the numbers that their rules have among more rules. -/
def State.relabel (φ : RuleId ↪ RuleId) (s : State) : State where
  items := ItemSet.relabel φ s.items
  transitions := s.transitions
  reduction := s.reduction.map φ

namespace Automaton

def relabel (φ : RuleId ↪ RuleId) (a : Automaton) : Automaton := ⟨a.states.map (State.relabel φ)⟩

theorem state_relabel (φ : RuleId ↪ RuleId) (a : Automaton) (q : StateId) :
    (a.relabel φ).state q = (a.state q).relabel φ := by
  rw [state, state, relabel, List.getElem?_map]
  cases a.states[q]? <;> rfl

theorem transition?_relabel (φ : RuleId ↪ RuleId) (a : Automaton) (q : StateId)
    (symbol : Symbol) : (a.relabel φ).transition? q symbol = a.transition? q symbol := by
  rw [transition?, transition?, state_relabel]
  rfl

end Automaton

namespace Grammar

variable {V : Type} {g g' : Grammar V} {φ : RuleId ↪ RuleId} {items : ItemSet} {symbol : Symbol}

/-- Items of the grammar whose rules are for accessible symbols. -/
def Live (g : Grammar V) (items : List Item) : Prop := items ⊆ g.items ∧ ∀ i ∈ items, g.Stems i

namespace Live

theorem begins {i : Item} (mem : i ∈ g.items) (begins : i.rule = 0) : g.Live [i] := by
  refine ⟨List.cons_subset.mpr ⟨mem, List.nil_subset _⟩, fun j seed => ?_⟩
  rw [List.mem_singleton.mp seed]
  exact Or.inl begins

theorem closure {seeds : List Item} (h : g.Live seeds) : g.Live (g.closure seeds) :=
  ⟨closure_sublist.subset, fun _ mem => stems_closure h.1 h.2 mem⟩

theorem advance (h : g.Live items) (symbol : Symbol) :
    g.Live ((items.filter fun i => g.next? i = some symbol).map Item.advance) := by
  refine ⟨goto_seeds_subset h.1, fun i mem => ?_⟩
  obtain ⟨j, hj, rfl⟩ := List.mem_map.mp mem
  exact h.2 j (List.mem_filter.mp hj).1

end Live

theorem Explored.live {next : Nat} {known : List ItemSet} (inv : g.Explored next known)
    (mem : items ∈ known) : g.Live items := by
  rcases inv.origin items mem with rfl | reached
  · exact (Live.begins acceptItem_mem rfl).closure
  · exact ⟨reached.sublist.subset, reached.stems⟩

/-- One grammar has the rules of another, in the same order, and further ones whose subjects are not
accessible. -/
structure Enlarges (g g' : Grammar V) (φ : RuleId ↪ RuleId) : Prop extends g.Embeds g' φ where
  mono : StrictMono φ
  spare : ∀ r ∉ Set.range φ, ∀ rule, g'.rule? r = some rule → ¬ g.Accessible rule.subject

namespace Enlarges

variable (h : g.Enlarges g' φ)
include h

theorem next? (i : Item) : g'.next? (i.relabel φ) = g.next? i := by
  rw [Grammar.next?, Item.relabel, h.production]
  rfl

theorem itemText (i : Item) : g'.itemText (i.relabel φ) = g.itemText i := by
  rw [Grammar.itemText, Item.relabel, h.production]
  rfl

theorem isComplete (i : Item) : g'.isComplete (i.relabel φ) = g.isComplete i := by
  rw [Grammar.isComplete, Grammar.isComplete, h.next?]

theorem rules_sublist : ((List.range g.ruleCount).map φ).Sublist (List.range g'.ruleCount) := by
  have ascending : ((List.range g.ruleCount).map φ).Pairwise (· < ·) :=
    List.pairwise_map.mpr (List.pairwise_lt_range.imp fun less => h.mono less)
  have sub : (List.range g.ruleCount).map φ ⊆ List.range g'.ruleCount := fun r mem => by
    obtain ⟨r, known, rfl⟩ := List.mem_map.mp mem
    rw [List.mem_range, ruleCount, Nat.lt_succ_iff] at known ⊢
    exact h.le_length.mpr known
  exact List.sublist_of_subperm_of_pairwise (ascending.nodup.subperm sub) ascending
    List.pairwise_lt_range

theorem items_sublist : (ItemSet.relabel φ g.items).Sublist g'.items := by
  have itemsOf (r : RuleId) : (g.itemsOf r).map (Item.relabel φ) = g'.itemsOf (φ r) := by
    rw [Grammar.itemsOf, Grammar.itemsOf, h.production, List.map_map]
    rfl
  rw [ItemSet.relabel, Grammar.items, List.map_flatMap]
  simp only [itemsOf]
  rw [← List.flatMap_map]
  exact h.rules_sublist.flatMap g'.itemsOf

/-- The rules for an accessible symbol are the same. -/
theorem exists_rule (accessible : g.Accessible symbol) {r' : RuleId}
    (mem : r' ∈ g'.rulesFor symbol) : ∃ r ∈ g.rulesFor symbol, φ r = r' := by
  by_cases known : r' ∈ Set.range φ
  · obtain ⟨r, rfl⟩ := known
    exact ⟨r, h.mem_rulesFor.mp mem, rfl⟩
  · obtain ⟨pos, le, subject⟩ := Grammar.mem_rulesFor.mp mem
    obtain ⟨rule, _, there, same⟩ := rule_of_authored pos le
    have there : g'.rule? r' = some rule := by
      obtain ⟨k, rfl⟩ := Nat.exists_eq_succ_of_ne_zero (Nat.one_le_iff_ne_zero.mp pos)
      exact there
    rw [same] at subject
    exact absurd (subject ▸ accessible) (h.spare r' known rule there)

theorem spans_iff {seeds : List Item} (live : g.Live seeds) {i' : Item} :
    g'.Spans (seeds.map (Item.relabel φ)) i' ↔ ∃ i, g.Spans seeds i ∧ i.relabel φ = i' := by
  constructor
  · intro spans
    induction spans with
    | seed mem =>
      obtain ⟨i, mem, same⟩ := List.mem_map.mp mem
      exact ⟨i, .seed mem, same⟩
    | @expand i' symbol r' _ next mem ih =>
      obtain ⟨i, spans, rfl⟩ := ih
      rw [h.next?] at next
      have inside := (mem_closure live.1).mpr spans
      have stems := live.closure.2 i inside
      have accessible : g.Accessible symbol := by
        refine (stems.next (closure_sublist.subset inside) next).resolve_left ?_
        obtain ⟨pos, le, rfl⟩ := Grammar.mem_rulesFor.mp mem
        exact (subject_ne_reserved pos le).2
      obtain ⟨r, own, rfl⟩ := h.exists_rule accessible mem
      exact ⟨⟨r, 0⟩, .expand spans next own, rfl⟩
  · rintro ⟨i, spans, rfl⟩
    induction spans with
    | seed mem => exact .seed (List.mem_map_of_mem mem)
    | @expand i symbol r _ next mem ih =>
      have next' : g'.next? (i.relabel φ) = some symbol := (h.next? i).trans next
      exact .expand ih next' (h.mem_rulesFor.mpr mem)

/-- Live items bring along the same items. -/
theorem closure {seeds : List Item} (live : g.Live seeds) :
    g'.closure (seeds.map (Item.relabel φ)) = ItemSet.relabel φ (g.closure seeds) := by
  have known : seeds.map (Item.relabel φ) ⊆ g'.items := fun i mem => by
    obtain ⟨i, seed, rfl⟩ := List.mem_map.mp mem
    exact h.items_sublist.subset (List.mem_map_of_mem (live.1 seed))
  refine eq_of_sublist closure_sublist ((closure_sublist.map _).trans h.items_sublist) fun i' => ?_
  rw [mem_closure known, h.spans_iff live, ItemSet.relabel, List.mem_map]
  exact exists_congr fun i => and_congr_left' (mem_closure live.1).symm

theorem goto (live : g.Live items) (symbol : Symbol) :
    g'.goto (ItemSet.relabel φ items) symbol = ItemSet.relabel φ (g.goto items symbol) := by
  have moved : ((ItemSet.relabel φ items).filter fun i => g'.next? i = some symbol).map
      Item.advance = ((items.filter fun i => g.next? i = some symbol).map Item.advance).map
        (Item.relabel φ) := by
    rw [ItemSet.relabel, List.filter_map, List.map_map, List.map_map]
    simp only [Function.comp_def, h.next?]
    rfl
  rw [Grammar.goto, moved, h.closure (live.advance symbol), Grammar.goto]

theorem steps (live : g.Live items) : g'.steps (ItemSet.relabel φ items) =
    (g.steps items).map (Prod.map id (ItemSet.relabel φ)) := by
  have wanted : (ItemSet.relabel φ items).filterMap g'.next? = items.filterMap g.next? := by
    rw [ItemSet.relabel, List.filterMap_map]
    exact List.filterMap_congr fun i _ => h.next? i
  have steps' : g'.steps (ItemSet.relabel φ items) =
      (items.filterMap g.next?).eraseDups.map fun symbol =>
        (symbol, g'.goto (ItemSet.relabel φ items) symbol) := by
    rw [← wanted]
    rfl
  have steps : g.steps items =
      (items.filterMap g.next?).eraseDups.map fun symbol => (symbol, g.goto items symbol) := rfl
  rw [steps', steps, List.map_map]
  exact List.map_congr_left fun symbol _ => by rw [h.goto live, Function.comp_apply]; rfl

theorem completeItems (items : ItemSet) : g'.completeItems (ItemSet.relabel φ items) =
    ItemSet.relabel φ (g.completeItems items) := by
  rw [Grammar.completeItems, ItemSet.relabel, List.filter_map]
  exact congrArg (List.map _) (List.filter_congr fun i _ => h.isComplete i)

theorem reductionOf (items : ItemSet) : g'.reductionOf (ItemSet.relabel φ items) =
    (g.reductionOf items).map φ := by
  rw [Grammar.reductionOf, h.completeItems, ItemSet.relabel, List.head?_map, Option.map_map,
    Grammar.reductionOf, Option.map_map]
  rfl

theorem conflict? (items : ItemSet) :
    g'.conflict? (ItemSet.relabel φ items) = g.conflict? items := by
  have texts : (ItemSet.relabel φ (g.completeItems items)).map g'.itemText =
      (g.completeItems items).map g.itemText := by
    rw [ItemSet.relabel, List.map_map]
    exact List.map_congr_left fun i _ => h.itemText i
  have length : (ItemSet.relabel φ (g.completeItems items)).length =
      (g.completeItems items).length := List.length_map _
  simp only [Grammar.conflict?, h.completeItems, texts, length]

theorem discover (known reached : List ItemSet) :
    (g'.discover (known.map (ItemSet.relabel φ)) (reached.map (ItemSet.relabel φ))).2 =
      (g.discover known reached).2.map (List.map (ItemSet.relabel φ)) := by
  induction reached generalizing known with
  | nil => rfl
  | cons items rest ih =>
    have old : ItemSet.relabel φ items ∈ known.map (ItemSet.relabel φ) ↔ items ∈ known :=
      List.mem_map_of_injective (ItemSet.relabel_injective φ)
    simp only [List.map_cons, Grammar.discover, old, h.conflict?]
    by_cases known' : items ∈ known
    · simp only [if_pos known']
      exact ih known
    · simp only [if_neg known']
      cases g.conflict? items with
      | some e => rfl
      | none =>
        have more := ih (known ++ [items])
        rw [List.map_append, List.map_singleton] at more
        exact more

theorem explore {next : Nat} {known : List ItemSet} (inv : g.Explored next known) (rounds : Nat) :
    (g'.explore rounds next (known.map (ItemSet.relabel φ))).2 =
      (g.explore rounds next known).2.map (List.map (ItemSet.relabel φ)) := by
  induction rounds generalizing next known with
  | zero => rfl
  | succ rounds ih =>
    simp only [Grammar.explore, List.getElem?_map]
    cases there : known[next]? with
    | none => rfl
    | some items =>
      have live := inv.live (List.mem_of_getElem? there)
      have targets : (g'.steps (ItemSet.relabel φ items)).map (·.2) =
          ((g.steps items).map (·.2)).map (ItemSet.relabel φ) := by
        rw [h.steps live, List.map_map, List.map_map]
        rfl
      simp only [Option.map_some, targets]
      have found := h.discover known ((g.steps items).map (·.2))
      cases result : (g.discover known ((g.steps items).map (·.2))).2 with
      | error e =>
        rw [result] at found
        rw [found]
        rfl
      | ok known' =>
        rw [result] at found
        rw [found]
        exact ih (inv.discover there result)

theorem initialSets : g'.initialSets = g.initialSets.map (ItemSet.relabel φ) := by
  have begins (d : Nat) : (⟨0, d⟩ : Item).relabel φ = ⟨0, d⟩ := congrArg (Item.mk · d) h.begins
  have initial := h.closure (Live.begins initialItem_mem rfl)
  have accept := h.closure (Live.begins acceptItem_mem rfl)
  rw [List.map_singleton, initialItem, begins] at initial
  rw [List.map_singleton, acceptItem, begins] at accept
  exact congrArg₂ (fun accept initial => [accept, initial]) accept initial

theorem stateOf {known : List ItemSet} (live : g.Live items) :
    g'.stateOf (known.map (ItemSet.relabel φ)) (ItemSet.relabel φ items) =
      (g.stateOf known items).relabel φ := by
  have place (target : ItemSet) : (known.map (ItemSet.relabel φ)).idxOf (ItemSet.relabel φ target) =
      known.idxOf target := by
    rw [List.idxOf, List.idxOf, List.findIdx_map]
    refine congrArg (List.findIdx · known) (funext fun items => ?_)
    exact Bool.eq_iff_iff.mpr (by simp [(ItemSet.relabel_injective φ).eq_iff])
  simp only [Grammar.stateOf, State.relabel, h.steps live, h.reductionOf, List.map_map]
  refine congrArg (State.mk _ · _) (List.map_congr_left fun step _ => ?_)
  exact congrArg (Prod.mk _) (place step.2)

/-- A grammar with further rules has the same automaton, but for the numbers of the rules, or the
same conflict. -/
theorem automaton : g'.automaton.2 = g.automaton.2.map (Automaton.relabel φ) := by
  have rounds : Nat.pow 2 g.items.length ≤ Nat.pow 2 g'.items.length := by
    have fewer := h.items_sublist.length_le
    rw [ItemSet.relabel, List.length_map] at fewer
    exact Nat.pow_le_pow_right Nat.two_pos fewer
  have enough := Worklist.explore_of_enough (explored_initialSets (g := g)) (Nat.zero_le _)
    (Nat.le_add_left _ 0) (rounds.trans (Nat.le_add_left _ 0))
  have explored := h.explore (explored_initialSets (g := g)) (Nat.pow 2 g'.items.length)
  rw [← enough, ← h.initialSets] at explored
  rw [g'.automaton_explore.1, g.automaton_explore.1, explored]
  cases result : (g.explore (Nat.pow 2 g.items.length) 0 g.initialSets).2 with
  | error e => rfl
  | ok known =>
    have inv := explore_ok explored_initialSets (Nat.le_add_left _ 0) result
    refine congrArg (fun states => Except.ok (Automaton.mk states)) ?_
    simp only [assemble, List.map_map]
    exact List.map_congr_left fun items mem => h.stateOf (inv.live mem)

end Enlarges

end Grammar

end ShiftFirst
