import ShiftFirst.Proofs.Automaton.Canonical
import ShiftFirst.Proofs.Grammar.Rename

namespace ShiftFirst

theorem lookup_map_key {α β γ : Type} [DecidableEq α] [DecidableEq β] (ρ : α ↪ β) (x : α)
    (xs : List (α × γ)) : (xs.map (Prod.map ρ id)).lookup (ρ x) = xs.lookup x := by
  induction xs with
  | nil => rfl
  | cons entry xs ih =>
    obtain ⟨y, z⟩ := entry
    have same : (ρ x == ρ y) = (x == y) := ρ.injective.beq_eq
    rw [List.map_cons, Prod.map_apply, List.lookup_cons, List.lookup_cons, same, ih, id_eq]

variable {V : Type} {ρ : Symbol ↪ Symbol}

/-- The state with the same items, whose steps are over other names. -/
def State.rename (ρ : Symbol ↪ Symbol) (s : State) : State :=
  { s with transitions := s.transitions.map (Prod.map ρ id) }

namespace Automaton

def rename (ρ : Symbol ↪ Symbol) (a : Automaton) : Automaton := ⟨a.states.map (State.rename ρ)⟩

theorem state_rename (a : Automaton) (q : StateId) :
    (a.rename ρ).state q = (a.state q).rename ρ := by
  rw [state, state, rename, List.getElem?_map]
  cases a.states[q]? <;> rfl

theorem transition?_rename (a : Automaton) (q : StateId) (symbol : Symbol) :
    (a.rename ρ).transition? q (ρ symbol) = a.transition? q symbol := by
  rw [transition?, transition?, state_rename]
  exact lookup_map_key ρ symbol _

end Automaton

namespace Grammar

variable {α β : Type} {g g' : Grammar V}

/-- Two constructions both come to something, or fail alike. -/
inductive Agrees (ρ : Symbol ↪ Symbol) (rules : List (Rule V)) (f : α → β) :
    Except GrammarError α → Except GrammarError β → Prop
  | ok (result : α) : Agrees ρ rules f (.ok result) (.ok (f result))
  | error {e e' : GrammarError} (renamed : e.Renamed ρ rules e') :
      Agrees ρ rules f (.error e) (.error e')

namespace Agrees

variable {rules : List (Rule V)} {f : α → β} {result' : Except GrammarError β}

theorem of_ok {result : α} (h : Agrees ρ rules f (.ok result) result') :
    result' = .ok (f result) := by
  cases h with
  | ok => rfl

theorem of_error {e : GrammarError} (h : Agrees ρ rules f (.error e) result') :
    ∃ e', result' = .error e' ∧ e.Renamed ρ rules e' := by
  cases h with
  | error renamed => exact ⟨_, rfl, renamed⟩

end Agrees

namespace Renames

variable (h : g.Renames g' ρ)
include h

theorem goto (items : ItemSet) (symbol : Symbol) :
    g'.goto items (ρ symbol) = g.goto items symbol := by
  have moving : (items.filter fun i => g'.next? i = some (ρ symbol)) =
      items.filter fun i => g.next? i = some symbol :=
    List.filter_congr fun i _ => decide_eq_decide.mpr h.next?_iff
  rw [Grammar.goto, Grammar.goto, h.closure, moving]

theorem steps (items : ItemSet) : g'.steps items = (g.steps items).map (Prod.map ρ id) := by
  have pairs : ∀ symbol, (ρ symbol, g'.goto items (ρ symbol)) =
      Prod.map ρ id (symbol, g.goto items symbol) := fun symbol => by
    rw [h.goto, Prod.map_apply, id_eq]
  have steps' : g'.steps items =
      (items.filterMap g'.next?).eraseDups.map fun symbol => (symbol, g'.goto items symbol) := rfl
  have steps : g.steps items =
      (items.filterMap g.next?).eraseDups.map fun symbol => (symbol, g.goto items symbol) := rfl
  rw [steps', steps, h.filterMap_next?, eraseDups_map, List.map_map, List.map_map]
  exact List.map_congr_left fun symbol _ => pairs symbol

theorem completeItems (items : ItemSet) : g'.completeItems items = g.completeItems items :=
  List.filter_congr fun i _ => h.isComplete i

theorem reductionOf (items : ItemSet) : g'.reductionOf items = g.reductionOf items := by
  rw [Grammar.reductionOf, Grammar.reductionOf, h.completeItems]

theorem stateOf (known : List ItemSet) (items : ItemSet) :
    g'.stateOf known items = (g.stateOf known items).rename ρ := by
  simp only [Grammar.stateOf, State.rename, h.steps, h.reductionOf, List.map_map]
  rfl

/-- The sets that are reached are looked at alike, as they are the same sets. -/
theorem discover {known reached : List ItemSet} (sub : ∀ items ∈ reached, items ⊆ g.items) :
    Agrees ρ g.rules id (g.discover known reached).2 (g'.discover known reached).2 := by
  induction reached generalizing known with
  | nil => exact .ok known
  | cons items rest ih =>
    have rest := fun known => @ih known fun items mem => sub items (List.mem_cons_of_mem _ mem)
    by_cases known' : items ∈ known
    · simp only [Grammar.discover, if_pos known']
      exact rest known
    · simp only [Grammar.discover, if_neg known']
      by_cases many : 1 < (g.completeItems items).length
      · have inside : g.completeItems items ⊆ g.items := fun i hi =>
          sub items List.mem_cons_self (mem_completeItems.mp hi).1
        simp only [conflict?, h.completeItems, if_pos many]
        exact .error (.conflict rfl h (g.completeItems items) inside)
      · simp only [conflict?, h.completeItems, if_neg many]
        exact rest _

theorem explore (rounds next : Nat) (known : List ItemSet) :
    Agrees ρ g.rules id (g.explore rounds next known).2 (g'.explore rounds next known).2 := by
  induction rounds generalizing next known with
  | zero => exact .ok known
  | succ rounds ih =>
    cases hk : known[next]? with
    | none =>
      simp only [Grammar.explore, hk]
      exact .ok known
    | some items =>
      have targets : (g'.steps items).map Prod.snd = (g.steps items).map Prod.snd := by
        rw [h.steps, List.map_map]
        rfl
      have sub : ∀ target ∈ (g.steps items).map Prod.snd, target ⊆ g.items := fun target mem => by
        obtain ⟨⟨symbol, _⟩, step, rfl⟩ := List.mem_map.mp mem
        rw [(mem_steps.mp step).2]
        exact closure_sublist.subset
      have found : Agrees ρ g.rules id (g.discover known ((g.steps items).map Prod.snd)).2
          (g'.discover known ((g.steps items).map Prod.snd)).2 := h.discover sub
      simp only [Grammar.explore, hk, targets]
      generalize (g.discover known ((g.steps items).map Prod.snd)).2 = result at found ⊢
      generalize (g'.discover known ((g.steps items).map Prod.snd)).2 = result' at found ⊢
      cases found with
      | ok known => exact ih (next + 1) known
      | error renamed => exact .error renamed

/-- The automaton of a grammar by other names is its automaton by those names. -/
theorem automaton : Agrees ρ g.rules (Automaton.rename ρ) g.automaton.2 g'.automaton.2 := by
  have explored := h.explore (Nat.pow 2 g.items.length) 0
    [g.closure [acceptItem], g.closure [initialItem]]
  have states : ∀ known : List ItemSet, known.map (g'.stateOf known) =
      (known.map (g.stateOf known)).map (State.rename ρ) := fun known => by
    rw [List.map_map]
    exact List.map_congr_left fun items _ => h.stateOf known items
  simp only [Grammar.automaton, h.items, h.closure]
  generalize (g.explore (Nat.pow 2 g.items.length) 0
    [g.closure [acceptItem], g.closure [initialItem]]).2 = result at explored ⊢
  generalize (g'.explore (Nat.pow 2 g.items.length) 0
    [g.closure [acceptItem], g.closure [initialItem]]).2 = result' at explored ⊢
  cases explored with
  | ok known =>
    simp only [id_eq, states]
    exact .ok _
  | error renamed => exact .error renamed

end Renames

end Grammar

end ShiftFirst
