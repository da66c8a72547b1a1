import ShiftFirst.Proofs.Parser.Core
import ShiftFirst.Proofs.Parser.Viable

namespace ShiftFirst

variable {ε V : Type}

/-- What a stream answers each time it is asked for an item: an item, or that it has come to its
end. It may go on for ever, and it may have further items behind its end. -/
abbrev Supply (ε : Type) := Nat → Option (Except ε Token)

namespace Supply

def ofList (stream : List (Except ε Token)) : Supply ε := fun k => stream[k]?

/-- A supply of tokens that come without an error. -/
def ofTokens (tokens : Nat → Option Token) : Supply ε := fun k => (tokens k).map .ok

end Supply

/-- A run has neither a lookahead nor seen the end of its stream, and needs one or the other. -/
def Config.Asks (c : Config ε V) : Prop :=
  c.top ≠ Automaton.accept ∧ c.lookahead = none ∧ c.exhausted = false

instance (c : Config ε V) : Decidable c.Asks := inferInstanceAs (Decidable (_ ∧ _))

namespace Parser

/-- What a run does with the answer that it has asked for. -/
def receive [OfToken V] (p : Parser V) (c : Config ε V) :
    Option (Except ε Token) → Ending ε V ⊕ Config ε V
  | none => p.act { c with exhausted := true }
  | some (.error e) => .inl ⟨.error (.input e), .pulled (.error e) :: c.journal⟩
  | some (.ok token) => p.act { c with
      lookahead := some token
      stats := { c.stats with tokens := c.stats.tokens + 1 }
      journal := .event (.lookahead token) :: .pulled (.ok token) :: c.journal }

/-- One step of a run that has asked a supply for so many items. -/
def stepAsking [OfToken V] (p : Parser V) (supply : Supply ε) (c : Config ε V) (asked : Nat) :
    (Ending ε V ⊕ Config ε V) × Nat :=
  if c.Asks then (p.receive c (supply asked), asked + 1) else (p.step [] c, asked)

/-- A run over a supply comes to an end, and has then asked it for so many items. -/
inductive EndsAsking [OfToken V] (p : Parser V) (supply : Supply ε) :
    Config ε V → Nat → Ending ε V → Nat → Prop
  | stop {c : Config ε V} {asked asked' : Nat} {ending : Ending ε V}
      (last : p.stepAsking supply c asked = (.inl ending, asked')) :
      EndsAsking p supply c asked ending asked'
  | go {c next : Config ε V} {asked asked' final : Nat} {ending : Ending ε V}
      (first : p.stepAsking supply c asked = (.inr next, asked'))
      (rest : EndsAsking p supply next asked' ending final) :
      EndsAsking p supply c asked ending final

/-- The run over a supply has this end, its journal in order, and asks for so many items. -/
def Concludes [OfToken V] (p : Parser V) (supply : Supply ε) (budget : Nat) (ending : Ending ε V)
    (asked : Nat) : Prop :=
  ∃ last, p.EndsAsking supply (.initial budget []) 0 last asked ∧
    ending = ⟨last.outcome, last.journal.reverse⟩

variable [OfToken V] {p : Parser V} {supply supply' : Supply ε} {c next : Config ε V}
  {ending ending' : Ending ε V} {result : Ending ε V ⊕ Config ε V}
  {asked asked' asked'' budget : Nat}

theorem le_stepAsking (h : p.stepAsking supply c asked = (result, asked')) :
    asked ≤ asked' ∧ asked' ≤ asked + 1 := by
  unfold stepAsking at h
  split at h <;> obtain ⟨_, rfl⟩ := Prod.mk.inj h <;> omega

theorem stepAsking_congr (h : p.stepAsking supply c asked = (result, asked'))
    (same : ∀ k, asked ≤ k → k < asked' → supply' k = supply k) :
    p.stepAsking supply' c asked = (result, asked') := by
  unfold stepAsking at h ⊢
  split at h
  next asks =>
    obtain ⟨rfl, rfl⟩ := Prod.mk.inj h
    rw [if_pos asks, same asked (Nat.le_refl _) (Nat.lt_succ_self _)]
  next idle => rw [if_neg idle, h]

namespace EndsAsking

theorem le (h : p.EndsAsking supply c asked ending asked') : asked ≤ asked' := by
  induction h with
  | stop last => exact (le_stepAsking last).1
  | go first _ ih => exact Nat.le_trans (le_stepAsking first).1 ih

theorem unique (h : p.EndsAsking supply c asked ending asked')
    (h' : p.EndsAsking supply c asked ending' asked'') : ending' = ending ∧ asked'' = asked' := by
  induction h with
  | stop last =>
    cases h' with
    | stop last' =>
      cases last.symm.trans last'
      exact ⟨rfl, rfl⟩
    | go first' _ => cases last.symm.trans first'
  | go first _ ih =>
    cases h' with
    | stop last' => cases first.symm.trans last'
    | go first' rest' =>
      cases first.symm.trans first'
      exact ih rest'

/-- A run does not depend on the answers that it does not ask for. -/
theorem congr (h : p.EndsAsking supply c asked ending asked')
    (same : ∀ k, asked ≤ k → k < asked' → supply' k = supply k) :
    p.EndsAsking supply' c asked ending asked' := by
  induction h with
  | stop last => exact .stop (stepAsking_congr last same)
  | go first rest ih =>
    refine .go (stepAsking_congr first fun k low high => ?_) (ih fun k low high => ?_)
    · exact same k low (Nat.lt_of_lt_of_le high rest.le)
    · exact same k (Nat.le_trans (le_stepAsking first).1 low) high

theorem of_error {e : ε} (asks : c.Asks) (failed : supply asked = some (.error e)) :
    ∃ ending, p.EndsAsking supply c asked ending (asked + 1) ∧
      ending.outcome = .error (.input e) := by
  refine ⟨⟨.error (.input e), .pulled (.error e) :: c.journal⟩, .stop ?_, rfl⟩
  rw [stepAsking, if_pos asks, failed]
  rfl

/-- A run that asks for an item beyond the first `n` fails if there is an error instead. -/
theorem input {n : Nat} {e : ε} (h : p.EndsAsking supply c asked ending asked')
    (within : asked ≤ n) (beyond : n < asked') (same : ∀ k < n, supply' k = supply k)
    (failed : supply' n = some (.error e)) :
    ∃ ending', p.EndsAsking supply' c asked ending' (n + 1) ∧
      ending'.outcome = .error (.input e) := by
  induction h with
  | @stop c asked asked' ending last =>
    unfold stepAsking at last
    split at last
    next asks =>
      obtain ⟨_, rfl⟩ := Prod.mk.inj last
      obtain rfl : asked = n := by omega
      exact of_error asks failed
    next =>
      obtain ⟨_, rfl⟩ := Prod.mk.inj last
      omega
  | @go c next asked asked' final ending first rest ih =>
    by_cases here : c.Asks ∧ asked = n
    · obtain ⟨asks, rfl⟩ := here
      exact of_error asks failed
    · have still : asked' ≤ n := by
        unfold stepAsking at first
        split at first
        next asks =>
          obtain ⟨_, rfl⟩ := Prod.mk.inj first
          have : asked ≠ n := fun eq => here ⟨asks, eq⟩
          omega
        next =>
          obtain ⟨_, rfl⟩ := Prod.mk.inj first
          exact within
      obtain ⟨ending', rest', outcome⟩ := ih still beyond
      refine ⟨ending', .go (stepAsking_congr first fun k _ high => ?_) rest', outcome⟩
      exact same k (Nat.lt_of_lt_of_le high still)

end EndsAsking

theorem step_asks (asks : c.Asks) :
    p.step [] c = p.receive { c with stream := c.stream.tail } c.stream.head? := by
  obtain ⟨going, none, unfinished⟩ := asks
  have idle : c.lookahead.isNone ∧ !c.exhausted := by simp [none, unfinished]
  rw [step, if_neg going, look, if_pos idle]
  cases c.stream with
  | nil => rfl
  | cons item rest =>
    cases item with
    | error e => rfl
    | ok token =>
      rw [pull, if_neg List.not_mem_nil]
      rfl

theorem step_idle (idle : ¬ c.Asks) :
    p.step [] c = if c.top = Automaton.accept then .inl (p.finish c) else p.act c := by
  split
  next top => exact step_accept top
  next going =>
    refine step_look going ?_
    rw [look, if_neg]
    rintro ⟨none, unfinished⟩
    exact idle ⟨going, Option.isNone_iff_eq_none.mp none, by simpa using unfinished⟩

theorem keeps_of_act (h : p.act c = .inr next) :
    next.read = c.read ∧ next.exhausted = c.exhausted ∧ next.stream = c.stream := by
  rcases act_cases (p := p) (c := c) with ⟨_, he, turn⟩ | ⟨_, _, he, _⟩
  · cases he.symm.trans h
    cases turn <;> exact ⟨rfl, rfl, rfl⟩
  · cases he.symm.trans h

/-- The items that have been read are the answers of a supply, none of which but the last one said
that it had come to its end. -/
structure Answered (supply : Supply ε) (asked : Nat) (read : List (Except ε Token)) : Prop where
  read : read = (List.range asked).filterMap supply
  before : ∀ k, k + 1 < asked → supply k ≠ none

/-- What has been read in a run, and whether its supply has ended. -/
def Heard (supply : Supply ε) (asked : Nat) : Ending ε V ⊕ Config ε V → Prop
  | .inl ending => Answered supply asked (ending.journal.filterMap Entry.item?).reverse
  | .inr c => Answered supply asked c.read ∧
      (c.exhausted = false → ∀ k < asked, supply k ≠ none)

theorem Heard.act (h : Heard supply asked (.inr c)) : Heard supply asked (p.act c) := by
  cases hs : p.act c with
  | inl ending =>
    rw [Heard, ← List.filterMap_reverse, read_of_act hs]
    exact h.1
  | inr next =>
    obtain ⟨read, exhausted, _⟩ := keeps_of_act hs
    rw [Heard, read, exhausted]
    exact h

omit [OfToken V] in
theorem Answered.further (h : Answered supply asked c.read)
    (going : ∀ k < asked, supply k ≠ none) :
    Answered supply (asked + 1) (c.read ++ (supply asked).toList) where
  read := by
    rw [List.range_succ, List.filterMap_append, h.read]
    cases hs : supply asked <;> simp [hs]
  before k within := going k (Nat.lt_of_succ_lt_succ within)

theorem Heard.receive (h : Answered supply asked c.read) (going : ∀ k < asked, supply k ≠ none) :
    Heard supply (asked + 1) (p.receive c (supply asked)) := by
  have further := h.further going
  have items : ∀ item (entries : List (Entry ε)), entries.filterMap Entry.item? = [item] →
      Answered supply (asked + 1) (c.read ++ [item]) →
        Answered supply (asked + 1) ((entries ++ c.journal).filterMap Entry.item?).reverse := by
    intro item entries one answered
    rwa [List.filterMap_append, one, List.reverse_append]
  cases answer : supply asked with
  | none =>
    rw [answer, Option.toList_none, List.append_nil] at further
    refine Heard.act ⟨further, fun unfinished => ?_⟩
    cases unfinished
  | some item =>
    rw [answer, Option.toList_some] at further
    cases item with
    | error e => exact items (.error e) [.pulled (.error e)] rfl further
    | ok token =>
      refine Heard.act ⟨items _ [.event (.lookahead token), .pulled (.ok token)] rfl further, ?_⟩
      intro _ k within
      rcases Nat.lt_succ_iff_lt_or_eq.mp within with earlier | rfl
      · exact going k earlier
      · exact answer ▸ Option.some_ne_none _

theorem Heard.stepAsking (h : Heard supply asked (.inr c))
    (hs : p.stepAsking supply c asked = (result, asked')) : Heard supply asked' result := by
  unfold Parser.stepAsking at hs
  split at hs
  next asks =>
    obtain ⟨rfl, rfl⟩ := Prod.mk.inj hs
    exact Heard.receive h.1 (h.2 asks.2.2)
  next idle =>
    obtain ⟨rfl, rfl⟩ := Prod.mk.inj hs
    rw [step_idle idle]
    split
    next =>
      have read : (Ending.mk (p.finish c).outcome (p.finish c).journal.reverse).read = c.read :=
        read_finish
      rw [Ending.read, List.filterMap_reverse] at read
      rw [Heard, read]
      exact h.1
    next => exact h.act

theorem EndsAsking.answered (h : p.EndsAsking supply c asked ending asked')
    (heard : Heard supply asked (.inr c)) :
    Answered supply asked' (ending.journal.filterMap Entry.item?).reverse := by
  induction h with
  | stop last => exact heard.stepAsking last
  | go first _ ih => exact ih (heard.stepAsking first)

theorem Concludes.answered (h : p.Concludes supply budget ending asked) :
    Answered supply asked ending.read := by
  obtain ⟨last, ends, rfl⟩ := h
  rw [Ending.read, List.filterMap_reverse]
  refine ends.answered ⟨⟨rfl, ?_⟩, ?_⟩
  · exact fun k within => absurd within (Nat.not_lt_zero _)
  · exact fun _ k within => absurd within (Nat.not_lt_zero _)

theorem Concludes.congr (h : p.Concludes supply budget ending asked)
    (same : ∀ k < asked, supply' k = supply k) :
    p.Concludes supply' budget ending' asked' ↔ ending' = ending ∧ asked' = asked := by
  obtain ⟨last, ends, rfl⟩ := h
  have ends' := ends.congr fun k _ within => same k within
  constructor
  · rintro ⟨last', there, rfl⟩
    obtain ⟨rfl, rfl⟩ := ends'.unique there
    exact ⟨rfl, rfl⟩
  · rintro ⟨rfl, rfl⟩
    exact ⟨last, ends', rfl⟩

end Parser

end ShiftFirst
