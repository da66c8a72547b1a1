import Mathlib.Data.Finset.Powerset
import Mathlib.Logic.Relation
import ShiftFirst.Proofs.Automaton.Canonical

namespace ShiftFirst

/-- The construction of an automaton under way. -/
structure Worklist where
  /-- The sets discovered so far, which make the states of these numbers. -/
  known : List ItemSet
  /-- The states that have not been taken up, in the order of their discovery. -/
  queue : List StateId
  /-- What the steps out of the state in hand lead to, as far as it has not been looked at. -/
  pending : List ItemSet
  /-- The states that have been taken up, in order. -/
  taken : List StateId

/-- The sets whose steps a construction says it looks at. -/
def BuildEvent.added? : BuildEvent → Option ItemSet
  | .adding items => some items
  | _ => none

variable {V : Type} {g : Grammar V}

namespace Worklist

open Grammar (closure_sublist explored_initialSets items_nodup mem_steps)

def initial (g : Grammar V) : Worklist :=
  ⟨g.initialSets, [Automaton.accept, Automaton.start], [], []⟩

/-- One turn of the construction. A set that a step leads to becomes a state at the end of the
queue if it is new, and a conflict in it ends the construction. When there is none left, the first
state of the queue is taken up, and an empty queue ends the construction. -/
def turn (g : Grammar V) (w : Worklist) : Except GrammarError (List ItemSet) ⊕ Worklist :=
  match w.pending with
  | items :: rest =>
    if w.known.contains items then .inr { w with pending := rest }
    else
      match g.conflict? items with
      | some e => .inl (.error e)
      | none => .inr ⟨w.known ++ [items], w.queue ++ [w.known.length], rest, w.taken⟩
  | [] =>
    match w.queue with
    | [] => .inl (.ok w.known)
    | q :: queue =>
      .inr ⟨w.known, queue, (g.steps (w.known[q]?.getD [])).map (·.2), w.taken ++ [q]⟩

/-- Turns lead from one point of the construction to another. -/
def Reaches (g : Grammar V) : Worklist → Worklist → Prop :=
  Relation.ReflTransGen fun w w' => turn g w = .inr w'

/-- The point at which the states below `next` have been taken up and all others wait. -/
def upTo (known : List ItemSet) (next : Nat) (pending : List ItemSet) : Worklist :=
  ⟨known, List.range' next (known.length - next), pending, List.range next⟩

variable {known known' pending : List ItemSet} {items : ItemSet} {next rounds : Nat}
  {w w' last : Worklist} {e : GrammarError}

theorem turn_known (old : items ∈ known) :
    turn g (upTo known next (items :: pending)) = .inr (upTo known next pending) :=
  if_pos (List.contains_iff_mem.mpr old)

theorem turn_new (within : next ≤ known.length) (new : items ∉ known)
    (clear : g.conflict? items = none) :
    turn g (upTo known next (items :: pending)) =
      .inr (upTo (known ++ [items]) next pending) := by
  have queued : List.range' next (known.length - next) ++ [known.length] =
      List.range' next ((known ++ [items]).length - next) := by
    have last : known.length = next + 1 * (known.length - next) := by omega
    rw [List.length_append, List.length_singleton, Nat.sub_add_comm within, List.range'_concat,
      ← last]
  have fresh := mt List.contains_iff_mem.mp new
  simp only [turn, upTo, if_neg fresh, clear, queued]

theorem turn_conflict (new : items ∉ known) (conflict : g.conflict? items = some e) :
    turn g (upTo known next (items :: pending)) = .inl (.error e) := by
  have fresh := mt List.contains_iff_mem.mp new
  simp only [turn, upTo, if_neg fresh, conflict]

theorem turn_take (h : known[next]? = some items) :
    turn g (upTo known next []) = .inr (upTo known (next + 1) ((g.steps items).map (·.2))) := by
  have within := (List.getElem?_eq_some_iff.mp h).1
  have queue : List.range' next (known.length - next) =
      next :: List.range' (next + 1) (known.length - (next + 1)) := by
    rw [show known.length - next = known.length - (next + 1) + 1 by omega, List.range'_succ]
  simp only [turn, upTo, queue, h, Option.getD_some, List.range_succ]

theorem turn_done (h : known[next]? = none) : turn g (upTo known next []) = .inl (.ok known) := by
  have beyond := List.getElem?_eq_none_iff.mp h
  have queue : List.range' next (known.length - next) = [] := by
    rw [Nat.sub_eq_zero_of_le beyond, List.range'_zero]
  simp only [turn, upTo, queue]

/-- What a state in hand leads to is looked at to the end, or up to a conflict. -/
theorem reaches_discover (pending : List ItemSet) (within : next ≤ known.length) :
    ∃ known' pending', known <+: known' ∧
      Reaches g (upTo known next pending) (upTo known' next pending') ∧
      ((g.discover known pending).2 = .ok known' ∧ pending' = [] ∨
        ∃ e, (g.discover known pending).2 = .error e ∧
          turn g (upTo known' next pending') = .inl (.error e)) := by
  induction pending generalizing known with
  | nil => exact ⟨known, [], List.prefix_rfl, .refl, Or.inl ⟨rfl, rfl⟩⟩
  | cons items rest ih =>
    rw [Grammar.discover]
    by_cases old : items ∈ known
    · obtain ⟨known', pending', more, reaches, ends⟩ := ih within
      rw [if_pos old]
      exact ⟨known', pending', more, .head (turn_known old) reaches, ends⟩
    · rw [if_neg old]
      cases conflict : g.conflict? items with
      | some e =>
        exact ⟨known, _, List.prefix_rfl, .refl, Or.inr ⟨e, rfl, turn_conflict old conflict⟩⟩
      | none =>
        have within' : next ≤ (known ++ [items]).length := by
          rw [List.length_append]
          omega
        obtain ⟨known', pending', more, reaches, ends⟩ := ih within'
        exact ⟨known', pending', (List.prefix_append _ _).trans more,
          .head (turn_new within old conflict) reaches, ends⟩

theorem added_discover (known pending : List ItemSet) :
    (g.discover known pending).1.filterMap BuildEvent.added? = [] := by
  induction pending generalizing known with
  | nil => rfl
  | cons items rest ih =>
    unfold Grammar.discover
    split
    next => exact ih known
    next =>
      split
      next => rfl
      next => exact ih _

theorem sets_untaken (known : List ItemSet) (next : Nat) :
    (List.range' next (next - next)).filterMap (known[·]?) = [] := by
  rw [Nat.sub_self, List.range'_zero, List.filterMap_nil]

theorem sets_taken (h : known[next]? = some items) (kept : known <+: known') {next' : Nat}
    (later : next < next') :
    (List.range' next (next' - next)).filterMap (known'[·]?) =
      items :: (List.range' (next + 1) (next' - (next + 1))).filterMap (known'[·]?) := by
  have there : known'[next]? = some items := by
    obtain ⟨found, rfl⟩ := kept
    rwa [List.getElem?_append_left (List.getElem?_eq_some_iff.mp h).1]
  rw [show next' - next = next' - (next + 1) + 1 by omega, List.range'_succ,
    List.filterMap_cons_some there]

/-- The exploration takes up one state after another until none is left or there is a conflict, and
says so of each: it has a round for every set that there can be. -/
theorem reaches_explore (inv : g.Explored next known) (within : next ≤ known.length)
    (enough : Nat.pow 2 g.items.length ≤ next + rounds) :
    ∃ known' next' pending', known <+: known' ∧ next ≤ next' ∧
      Reaches g (upTo known next []) (upTo known' next' pending') ∧
      turn g (upTo known' next' pending') = .inl (g.explore rounds next known).2 ∧
      (g.explore rounds next known).1.filterMap BuildEvent.added? =
        (List.range' next (next' - next)).filterMap (known'[·]?) := by
  induction rounds generalizing next known with
  | zero =>
    have := inv.length_le
    have none : known[next]? = none := List.getElem?_eq_none_iff.mpr (by omega)
    exact ⟨known, next, [], List.prefix_rfl, le_rfl, .refl, turn_done none,
      (sets_untaken known next).symm⟩
  | succ rounds ih =>
    unfold Grammar.explore
    cases he : known[next]? with
    | none =>
      exact ⟨known, next, [], List.prefix_rfl, le_rfl, .refl, turn_done he,
        (sets_untaken known next).symm⟩
    | some items =>
      have below := (List.getElem?_eq_some_iff.mp he).1
      have silent := added_discover (g := g) known ((g.steps items).map (·.2))
      obtain ⟨middle, pending, more, reaches, ⟨hd, rfl⟩ | ⟨e, hd, stops⟩⟩ :=
        reaches_discover (g := g) ((g.steps items).map (·.2)) below
      · obtain ⟨final, next', pending', more', later, reaches', stops, said⟩ :=
          ih (inv.discover he hd) (below.trans_le more.length_le) (by omega)
        refine ⟨final, next', pending', more.trans more', by omega,
          .head (turn_take he) (reaches.trans reaches'), ?_, ?_⟩
        · simpa only [hd] using stops
        · rw [sets_taken he (more.trans more') later]
          simp only [hd, List.filterMap_append, silent, said]
          rfl
      · refine ⟨middle, next + 1, pending, more, Nat.le_succ next,
          .head (turn_take he) reaches, ?_, ?_⟩
        · simpa only [hd] using stops
        · rw [sets_taken he more (Nat.lt_succ_self next), sets_untaken]
          simp only [hd, List.filterMap_append, silent]
          rfl

/-- What holds at every point of the construction. -/
structure Steady (g : Grammar V) (w : Worklist) : Prop where
  numbered : w.taken ++ w.queue = List.range w.known.length
  nodup : w.known.Nodup
  known_sublist : ∀ items ∈ w.known, items.Sublist g.items
  pending_sublist : ∀ items ∈ w.pending, items.Sublist g.items

theorem steady_initial : Steady g (initial g) where
  numbered := rfl
  nodup := explored_initialSets.nodup
  known_sublist _ mem := explored_initialSets.sublist mem
  pending_sublist _ mem := absurd mem List.not_mem_nil

namespace Steady

theorem turn (h : Steady g w) (turns : turn g w = .inr w') : Steady g w' := by
  obtain ⟨known, queue, pending, taken⟩ := w
  unfold Worklist.turn at turns
  dsimp only at turns
  cases pending with
  | cons items rest =>
    have ahead := List.forall_mem_cons.mp h.pending_sublist
    dsimp only at turns
    split at turns
    next old =>
      cases turns
      exact ⟨h.numbered, h.nodup, h.known_sublist, ahead.2⟩
    next new =>
      split at turns
      next => cases turns
      next =>
        cases turns
        refine ⟨?_, ?_, ?_, ahead.2⟩
        · have numbered : taken ++ queue = List.range known.length := h.numbered
          dsimp only
          rw [← List.append_assoc, numbered, List.length_append, List.length_singleton,
            List.range_succ]
        · dsimp only
          rw [← List.concat_eq_append]
          exact h.nodup.concat (mt List.contains_iff_mem.mpr new)
        · intro i mem
          rcases List.mem_append.mp mem with mem | mem
          · exact h.known_sublist i mem
          · rw [List.mem_singleton.mp mem]
            exact ahead.1
  | nil =>
    cases queue with
    | nil => cases turns
    | cons q queue =>
      cases turns
      refine ⟨?_, h.nodup, h.known_sublist, fun items mem => ?_⟩
      · exact (List.append_assoc taken [q] queue).trans h.numbered
      · obtain ⟨⟨symbol, target⟩, step, rfl⟩ := List.mem_map.mp mem
        rw [(mem_steps.mp step).2]
        exact closure_sublist

theorem reaches (h : Steady g w) (reaches : Reaches g w w') : Steady g w' := by
  induction reaches with
  | refl => exact h
  | tail _ turns ih => exact ih.turn turns

/-- The sets discovered are different subsets of the items. -/
theorem length_le (h : Steady g w) : w.known.length ≤ g.items.toFinset.powerset.card := by
  have sub : w.known ⊆ g.items.sublists := fun items mem =>
    List.mem_sublists.mpr (h.known_sublist items mem)
  have le := (h.nodup.subperm sub).length_le
  rwa [List.length_sublists, ← List.toFinset_card_of_nodup (items_nodup (g := g)),
    ← Finset.card_powerset] at le

end Steady

theorem turn_ok (turns : turn g w = .inl (.ok known)) : w.queue = [] ∧ w.known = known := by
  unfold turn at turns
  split at turns
  next =>
    split at turns
    next => cases turns
    next => split at turns <;> cases turns
  next =>
    split at turns
    next empty =>
      cases turns
      exact ⟨empty, rfl⟩
    next => cases turns

/-- A turn has one result, so that all points of a construction lie on the way to its end. -/
theorem Reaches.onward {result : Except GrammarError (List ItemSet)} (ends : Reaches g w last)
    (stops : turn g last = .inl result) (reaches : Reaches g w w') : Reaches g w' last := by
  induction reaches with
  | refl => exact ends
  | tail _ turns ih =>
    rcases ih.cases_head with rfl | ⟨next, turns', onward⟩
    · cases stops.symm.trans turns
    · cases turns'.symm.trans turns
      exact onward

/-- More rounds than there can be sets change nothing. -/
theorem explore_of_enough (inv : g.Explored next known) (within : next ≤ known.length)
    {rounds' : Nat} (enough : Nat.pow 2 g.items.length ≤ next + rounds)
    (enough' : Nat.pow 2 g.items.length ≤ next + rounds') :
    (g.explore rounds next known).2 = (g.explore rounds' next known).2 := by
  obtain ⟨_, _, _, _, _, reaches, stops, _⟩ := reaches_explore inv within enough
  obtain ⟨_, _, _, _, _, reaches', stops', _⟩ := reaches_explore inv within enough'
  rcases (reaches.onward stops reaches').cases_head with same | ⟨next, turns, _⟩
  · rw [same] at stops'
    exact Sum.inl.inj (stops.symm.trans stops')
  · cases stops'.symm.trans turns

end Worklist

theorem Grammar.automaton_explore (g : Grammar V) :
    g.automaton.2 =
        (g.explore (Nat.pow 2 g.items.length) 0 g.initialSets).2.map g.assemble ∧
      g.automaton.1.filterMap BuildEvent.added? =
        (g.explore (Nat.pow 2 g.items.length) 0 g.initialSets).1.filterMap BuildEvent.added? := by
  have links : ∀ states : List State, (states.map fun state =>
      BuildEvent.linked state.items state.transitions.length).filterMap BuildEvent.added? = [] :=
    fun states => List.filterMap_eq_nil_iff.mpr fun event mem => by
      obtain ⟨state, _, rfl⟩ := List.mem_map.mp mem
      rfl
  unfold automaton
  dsimp only
  rw [show [g.closure [acceptItem], g.closure [initialItem]] = g.initialSets from rfl]
  cases (g.explore (Nat.pow 2 g.items.length) 0 g.initialSets).2 with
  | error e => exact ⟨rfl, rfl⟩
  | ok known =>
    refine ⟨rfl, ?_⟩
    rw [List.filterMap_append]
    exact (congrArg (_ ++ ·) (links _)).trans (List.append_nil _)

open Worklist in
/-- The construction of an automaton comes to an end for every grammar, with an empty queue or at
a conflict. At every point the states are different sets of items, so that there are no more of
them than sets of items, and each has been taken up once or waits in the queue; so when the queue
is empty, each state of the automaton has been taken up just once. -/
theorem Grammar.construction_terminates (g : Grammar V) :
    ∃ last result, Reaches g (initial g) last ∧ turn g last = .inl result ∧
      (∀ w, Reaches g (initial g) w → Reaches g w last ∧
        w.taken ++ w.queue = List.range w.known.length ∧ w.known.Nodup ∧
        (∀ items ∈ w.known, items ⊆ g.items) ∧
        w.known.length ≤ g.items.toFinset.powerset.card) ∧
      g.automaton.2 = result.map g.assemble ∧
      (∀ a, g.automaton.2 = .ok a → a = g.assemble last.known ∧ last.queue = [] ∧
        last.taken = List.range a.states.length ∧
        a.states.length ≤ g.items.toFinset.powerset.card) ∧
      g.automaton.1.filterMap BuildEvent.added? = last.taken.filterMap (last.known[·]?) := by
  obtain ⟨known, next, pending, _, _, reaches, stops, said⟩ :=
    reaches_explore (g := g) explored_initialSets (Nat.zero_le _) (Nat.le_add_left _ 0)
  have steady := steady_initial.reaches reaches
  refine ⟨_, _, reaches, stops, fun w there => ?_, ?_, ?_, ?_⟩
  · have here := steady_initial.reaches there
    exact ⟨reaches.onward stops there, here.numbered, here.nodup,
      fun items mem => (here.known_sublist items mem).subset, here.length_le⟩
  · exact g.automaton_explore.1
  · intro a built
    rw [g.automaton_explore.1] at built
    cases result : (g.explore (Nat.pow 2 g.items.length) 0 g.initialSets).2 with
    | error e =>
      rw [result] at built
      cases built
    | ok found =>
      rw [result] at built stops
      cases built
      obtain ⟨empty, rfl⟩ := turn_ok stops
      have count : ∀ sets, (g.assemble sets).states.length = sets.length :=
        fun _ => List.length_map _
      have numbered := steady.numbered
      rw [empty, List.append_nil] at numbered
      rw [count]
      exact ⟨rfl, empty, numbered, steady.length_le⟩
  · rw [g.automaton_explore.2, said]
    exact congrArg (List.filterMap _) List.range_eq_range'.symm

end ShiftFirst
