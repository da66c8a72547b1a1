import ShiftFirst.Proofs.Automaton.Canonical

namespace ShiftFirst

namespace BuildEvent

def isAdding : BuildEvent → Bool
  | adding _ => true
  | _ => false

def isReached : BuildEvent → Bool
  | reached _ => true
  | _ => false

def isKnown : BuildEvent → Bool
  | known => true
  | _ => false

/-- Part of the summary of an automaton that has been built. -/
def isClosing : BuildEvent → Bool
  | finished | counted _ | linked _ _ => true
  | _ => false

/-- Events before the summary account for the sets that are taken up, for those that steps lead to
and for the number of known sets, which grows by one for each set that is led to and is new. -/
structure Account (events : List BuildEvent) (taken targets : List ItemSet)
    (count count' : Nat) : Prop where
  adding : events.filter isAdding = taken.map adding
  reached : events.filter isReached = targets.map reached
  balance : (events.filter isKnown).length + count' = targets.length + count
  before : ∀ e ∈ events, e.isClosing = false

namespace Account

variable {events events' : List BuildEvent} {taken taken' targets targets' : List ItemSet}
  {count count' count'' : Nat}

theorem nil (count : Nat) : Account [] [] [] count count :=
  ⟨rfl, rfl, rfl, fun _ mem => absurd mem List.not_mem_nil⟩

theorem append (h : Account events taken targets count count')
    (h' : Account events' taken' targets' count' count'') :
    Account (events ++ events') (taken ++ taken') (targets ++ targets') count count'' where
  adding := by rw [List.filter_append, h.adding, h'.adding, List.map_append]
  reached := by rw [List.filter_append, h.reached, h'.reached, List.map_append]
  balance := by
    have first := h.balance
    have second := h'.balance
    rw [List.filter_append, List.length_append, List.length_append]
    omega
  before := List.forall_mem_append.mpr ⟨h.before, h'.before⟩

theorem old (items : ItemSet) (count : Nat) :
    Account [.reached items, .known] [] [items] count count :=
  ⟨rfl, rfl, rfl, by simp [isClosing]⟩

theorem new (items : ItemSet) (count : Nat) :
    Account [.reached items] [] [items] count (count + 1) :=
  ⟨rfl, rfl, by simp [isKnown, Nat.add_comm], by simp [isClosing]⟩

theorem opening (items : ItemSet) (symbols : List Symbol) (count : Nat) :
    Account [.adding items, .leads symbols] [items] [] count count :=
  ⟨rfl, rfl, rfl, by simp [isClosing]⟩

theorem rules (count : Nat) : Account [.rules] [] [] count count :=
  ⟨rfl, rfl, rfl, by simp [isClosing]⟩

end Account

end BuildEvent

namespace Grammar

open BuildEvent (Account)

variable {V : Type} {g : Grammar V} {known known' final reached : List ItemSet}
  {next rounds : Nat}

theorem account_discover (h : (g.discover known reached).2 = .ok known') :
    Account (g.discover known reached).1 [] reached known.length known'.length := by
  induction reached generalizing known with
  | nil =>
    cases h
    exact .nil _
  | cons items rest ih =>
    unfold discover at h ⊢
    split at h
    next old =>
      rw [if_pos old]
      exact .append (.old items _) (ih h)
    next new =>
      rw [if_neg new]
      split at h
      next => cases h
      next clear =>
        have later := ih h
        rw [List.length_append, List.length_singleton] at later
        exact .append (.new items _) later

/-- The exploration takes up the sets that are not yet taken, each once and in order. -/
theorem account_explore (inv : g.Explored next known) (within : next ≤ known.length)
    (enough : Nat.pow 2 g.items.length ≤ next + rounds)
    (h : (g.explore rounds next known).2 = .ok final) :
    known <+: final ∧
      Account (g.explore rounds next known).1 (final.drop next)
        ((final.drop next).flatMap fun items => (g.steps items).map (·.2))
        known.length final.length := by
  induction rounds generalizing next known with
  | zero =>
    cases h
    have none : final.drop next = [] := List.drop_eq_nil_of_le (inv.length_le.trans enough)
    rw [none]
    exact ⟨List.prefix_rfl, .nil _⟩
  | succ rounds ih =>
    unfold explore at h ⊢
    cases he : known[next]? with
    | none =>
      rw [he] at h
      cases h
      rw [List.drop_eq_nil_of_le (List.getElem?_eq_none_iff.mp he)]
      exact ⟨List.prefix_rfl, .nil _⟩
    | some items =>
      simp only [he] at h ⊢
      cases hd : (g.discover known ((g.steps items).map (·.2))).2 with
      | error e =>
        rw [hd] at h
        cases h
      | ok known' =>
        simp only [hd] at h ⊢
        obtain ⟨below, first⟩ := List.getElem?_eq_some_iff.mp he
        have more : known <+: known' := by
          obtain ⟨fresh, rfl, _⟩ := discover_ok hd
          exact List.prefix_append known fresh
        obtain ⟨kept, later⟩ :=
          ih (inv.discover he hd) (below.trans_le more.length_le) (by omega) h
        have taken : final.drop next = items :: final.drop (next + 1) := by
          obtain ⟨found, rfl⟩ := more.trans kept
          rw [List.drop_append_of_le_length within, List.drop_append_of_le_length below,
            List.drop_eq_getElem_cons below, first]
          rfl
        rw [taken, List.flatMap_cons]
        have opened := (Account.opening items ((g.steps items).map (·.1)) known.length).append
          (account_discover hd)
        exact ⟨more.trans kept, opened.append later⟩

/-- What the transitions of all states lead to, in order, is what the steps out of the sets lead
to. -/
theorem targets_assemble (inv : g.Explored known.length known) :
    (((g.assemble known).states.flatMap State.transitions).map fun edge =>
        ((g.assemble known).state edge.2).items) =
      known.flatMap fun items => (g.steps items).map (·.2) := by
  rw [assemble, List.flatMap_map, List.map_flatMap]
  refine List.flatMap_congr fun items mem => ?_
  rw [stateOf, List.map_map]
  refine List.map_congr_left fun step mem' => ?_
  obtain ⟨symbol, target⟩ := step
  obtain ⟨⟨i, hi, hn⟩, rfl⟩ := mem_steps.mp mem'
  have there := List.getElem?_idxOf (inv.goto_mem mem hi hn)
  exact congrArg State.items (state_assemble there)

/-- The events of a construction that succeeds account for its states and transitions, and at the
end sum them up. -/
theorem account_automaton {a : Automaton} (built : g.automaton.2 = .ok a) :
    ∃ before, g.automaton.1 = before ++ .finished :: .counted a.size ::
        a.states.map (fun state => .linked state.items state.transitions.length) ∧
      Account before (a.states.map State.items)
        ((a.states.flatMap State.transitions).map fun edge => (a.state edge.2).items)
        2 a.size := by
  unfold automaton at built ⊢
  dsimp only at built ⊢
  cases he : (g.explore (Nat.pow 2 g.items.length) 0
      [g.closure [acceptItem], g.closure [initialItem]]).2 with
  | error e =>
    rw [he] at built
    cases built
  | ok known =>
    simp only [he] at built ⊢
    have explored := explore_ok explored_initialSets (by omega) he
    obtain ⟨_, account⟩ := account_explore explored_initialSets (Nat.zero_le _) (by omega) he
    obtain rfl : g.assemble known = a := Except.ok.inj built
    refine ⟨_, by rw [Automaton.size]; rfl, ?_⟩
    rw [items_assemble, targets_assemble explored, Automaton.size, assemble, List.length_map]
    exact (Account.rules 2).append account

theorem Canonical.two_le_size {a : Automaton} (h : g.Canonical a) : 2 ≤ a.size := by
  have start := h.start
  cases hs : a.states[Automaton.start]? with
  | none =>
    rw [hs] at start
    cases start
  | some state => exact (List.getElem?_eq_some_iff.mp hs).1

end Grammar

end ShiftFirst
