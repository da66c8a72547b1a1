import ShiftFirst.Proofs.Parser.Soundness
import ShiftFirst.Session

namespace ShiftFirst

variable {ε V : Type}

theorem Ending.outcome_of_value {ending : Ending ε V} {v : V} (h : ending.value = .ok v) :
    ∃ stats, ending.outcome = .ok (v, stats) := by
  cases he : ending.outcome with
  | error e =>
    rw [Ending.value, he] at h
    cases h
  | ok result =>
    rw [Ending.value, he] at h
    cases h
    exact ⟨result.2, rfl⟩

namespace Parser

variable {p : Parser V} {skip : List Symbol} {c looked next : Config ε V}

/-- The items that a run has read are tokens, of which the lookahead is the last, and nothing is
left to read once the end of the stream has been seen. -/
structure Abreast (c : Config ε V) : Prop where
  tokens : ∃ tokens : List Token, c.read = tokens.map .ok
  ahead : ∀ token, c.lookahead = some token → ∃ before, c.read = before ++ [.ok token]
  exhausted : c.exhausted = true → c.lookahead = none ∧ c.stream = []

theorem pull_abreast {stream : List (Except ε Token)} {journal : List (Entry ε)}
    {tokens : List Token} (idle : c.lookahead = none) (going : c.exhausted = false)
    (read : ({ c with journal := journal } : Config ε V).read = tokens.map .ok)
    (h : pull skip c stream journal = .ok looked) :
    Abreast looked ∧ (looked.lookahead = none → looked.exhausted = true) := by
  induction stream generalizing journal tokens with
  | nil =>
    cases h
    refine ⟨⟨⟨tokens, read⟩, ?_, fun _ => ⟨idle, rfl⟩⟩, fun _ => rfl⟩
    intro token he
    cases idle.symm.trans he
  | cons item rest ih =>
    cases item with
    | error e => simp [pull] at h
    | ok token =>
      have further : ∀ entries : List (Entry ε), entries.filterMap Entry.item? = [] →
          ({ c with journal := entries ++ .pulled (.ok token) :: journal } : Config ε V).read =
            (tokens ++ [token]).map .ok := by
        intro entries silent
        rw [List.map_append, ← read]
        simp [Config.read, silent, Entry.item?]
      simp only [pull] at h
      split at h
      next => exact ih (further [] rfl) h
      next =>
        cases h
        have taken := further [.event (.lookahead token)] rfl
        refine ⟨⟨⟨_, taken⟩, ?_, ?_⟩, by simp⟩
        · intro held he
          cases he
          exact ⟨tokens.map .ok, taken.trans List.map_append⟩
        · intro ended
          cases going.symm.trans ended

theorem Abreast.look (h : Abreast c) (hl : Parser.look skip c = .ok looked) :
    Abreast looked ∧ (looked.lookahead = none → looked.exhausted = true) := by
  unfold Parser.look at hl
  split at hl
  next idle =>
    obtain ⟨tokens, read⟩ := h.tokens
    have going : c.exhausted = false := by simpa using idle.2
    exact pull_abreast (Option.isNone_iff_eq_none.mp idle.1) going read hl
  next busy =>
    cases hl
    refine ⟨h, fun none => ?_⟩
    by_contra going
    exact busy ⟨by simp [none], by simpa using going⟩

theorem Abreast.turn [OfToken V] (h : Abreast c) (turn : p.Turn c next) : Abreast next := by
  cases turn with
  | shift ahead =>
    refine ⟨h.tokens, fun token he => ?_, fun ended => ?_⟩
    · cases he
    · exact ⟨rfl, (h.exhausted ended).2⟩
  | reduce => exact ⟨h.tokens, h.ahead, h.exhausted⟩

theorem abreast_initial [OfToken V] {budget : Nat} {stream : List (Except ε Token)} :
    Abreast (.initial budget stream : Config ε V) := by
  refine ⟨⟨[], rfl⟩, ?_, ?_⟩
  · intro token he
    cases he
  · intro ended
    cases ended

theorem Abreast.step [OfToken V] (h : Abreast c) (hs : p.step skip c = .inr next) :
    Abreast next := by
  obtain ⟨_, looked, hl, turn⟩ := turn_of_step hs
  exact (h.look hl).1.turn turn

theorem abreast_of_reaches [OfToken V] {budget : Nat} {stream : List (Except ε Token)}
    (h : p.Reaches skip (.initial budget stream) c) : Abreast c :=
  h.keeps Abreast.step abreast_initial

/-- Only the shift of an end token leads to the accepting state. -/
theorem Turn.of_accept [OfToken V] (turn : p.Turn c next) (built : p.Built)
    (top : next.top = Automaton.accept) :
    ∃ token, c.lookahead = some token ∧ token.name = endSymbol ∧ next.read = c.read := by
  cases turn with
  | @shift token target ahead edge =>
    obtain rfl : target = Automaton.accept := top
    exact ⟨token, ahead, (built.canonical.of_transition_accept edge).1, rfl⟩
  | @reduce r reduced target _ complete popped edge =>
    obtain rfl : target = Automaton.accept := top
    have subject := (built.canonical.of_transition_accept edge).1
    rcases Nat.eq_zero_or_pos r with rfl | authored
    · exact absurd subject (show startSymbol ≠ endSymbol by decide)
    · have reserved :=
        Grammar.subject_ne_reserved authored (built.canonical.le_of_reduction complete)
      exact absurd subject reserved.2

/-- A run that accepts has read tokens, of which the last is an end token. -/
theorem run_ok_read [OfToken V] (built : p.Built) {budget : Nat} {stream : List (Except ε Token)}
    {v : V} {stats : Stats} (h : (p.run skip budget stream).outcome = .ok (v, stats)) :
    ∃ (before : List Token) (last : Token),
      (p.run skip budget stream).read = (before ++ [last]).map .ok ∧ last.name = endSymbol := by
  obtain ⟨ending, ⟨c, reaches, hs⟩, run⟩ := p.run_ends skip budget stream
  rw [run] at h ⊢
  rcases end_of_step hs with ⟨top, rfl⟩ | ⟨_, ⟨e, failed⟩ | ⟨_, failure, _, _, failed⟩⟩
  · rw [read_finish]
    rcases reaches.cases_tail with rfl | ⟨before, reaches, hs⟩
    · cases top
    · obtain ⟨_, looked, hl, turn⟩ := turn_of_step hs
      obtain ⟨token, ahead, named, read⟩ := turn.of_accept built top
      have abreast := ((abreast_of_reaches reaches).look hl).1
      obtain ⟨tokens, all⟩ := abreast.tokens
      obtain ⟨items, last⟩ := abreast.ahead token ahead
      obtain ⟨before, ending, rfl, _, one⟩ := List.map_eq_append_iff.mp (all.symm.trans last)
      obtain ⟨final, rfl, same⟩ := List.map_eq_singleton_iff.mp one
      obtain rfl := Except.ok.inj same
      exact ⟨before, final, read.trans all, named⟩
  · cases failed.symm.trans h
  · cases failed.symm.trans h

theorem Accounts.top_accept [OfToken V] {stream : List (Except ε Token)}
    {stack : List (Sigma (Tree p.grammar))} (h : p.Accounts skip stream c stack) (built : p.Built)
    (unmentioned : ∀ rule ∈ p.grammar.rules, endSymbol ∉ rule.predicate) {before : List Token}
    {last : Token} (shifted : leaves stack = before ++ [last]) (named : last.name = endSymbol) :
    c.top = Automaton.accept := by
  obtain ⟨path, carried, _⟩ := h
  cases stack with
  | nil => exact absurd shifted.symm (by simp [leaves])
  | cons t stack =>
    obtain ⟨symbol, tree⟩ := t
    have mem : last ∈ tree.tokens := by
      rw [leaves_cons] at shifted
      rcases List.eq_nil_or_concat tree.tokens with none | ⟨front, back, he⟩
      · exact absurd none tree.tokens_ne_nil
      · rw [List.concat_eq_append] at he
        rw [he, ← List.append_assoc] at shifted
        obtain ⟨_, same⟩ := List.append_inj' shifted rfl
        rw [he, same]
        exact List.mem_append_right front List.mem_cons_self
    -- No rule has the end of the text in its predicate, so the token is a derivation of its own.
    have same : endSymbol = symbol := by
      rw [← named]
      refine (tree.mentioned last mem).resolve_right fun within => ?_
      obtain ⟨rule, hr, mentioned⟩ := within
      exact unmentioned rule hr (named ▸ mentioned)
    subst same
    rw [Config.top_eq]
    generalize c.states = states at path ⊢
    cases path with
    | @cons states symbols symbol q below edge =>
      have inner := Grammar.not_passesEnd unmentioned
      obtain ⟨i, hi, hn⟩ :=
        (built.canonical.transition_isSome _ _).mp (Option.isSome_of_eq_some edge)
      obtain rfl := Grammar.eq_of_next?_end unmentioned (built.canonical.items_subset _ hi) hn
      exact Option.some.inj (edge.symm.trans (built.canonical.transition_accept inner hi))

theorem Halt.of_unexpectedEnd {expected : List Symbol}
    (halt : p.Halt c (.parse (.unexpectedEnd expected) : Failure ε)) : c.lookahead = none := by
  generalize he : ParseError.unexpectedEnd expected = e at halt
  cases halt with
  | reduction complete popped =>
    rcases popFrames_error popped with ⟨rfl, _⟩ | ⟨_, rfl, _⟩ <;> cases he
  | missingGoto => cases he
  | reject =>
    unfold Parser.reject at he
    split at he
    next => cases he
    next none => exact none

/-- Where rules do not mention the end of the text, a run over a stream that ends with an end token
or with an error never ends for lack of a token. -/
theorem run_ne_unexpectedEnd [OfToken V] (built : p.Built)
    (unmentioned : ∀ rule ∈ p.grammar.rules, endSymbol ∉ rule.predicate)
    (unskipped : endSymbol ∉ skip) {items : List (Except ε Token)} {final : Except ε Token}
    (ended : ∀ token, final = .ok token → token.name = endSymbol) {budget : Nat}
    (expected : List Symbol) :
    (p.run skip budget (items ++ [final])).outcome ≠
      .error (.parse (.unexpectedEnd expected)) := by
  intro h
  obtain ⟨c, looked, reaches, going, hl, halt⟩ := run_halts built h
  obtain ⟨stack, sound⟩ := sound_of_reaches built (Grammar.not_passesEnd unmentioned) reaches
  obtain ⟨seen, looks⟩ := look_ok hl
  have accounts := sound.accounts.looks looks
  obtain ⟨abreast, dry⟩ := (abreast_of_reaches reaches).look hl
  have idle := halt.of_unexpectedEnd
  -- The whole stream has been read without an error, up to its end token.
  obtain ⟨_, dried⟩ := abreast.exhausted (dry idle)
  have read := accounts.read
  rw [dried, List.append_nil] at read
  obtain ⟨tokens, all⟩ := abreast.tokens
  obtain ⟨before, ending, rfl, rfl, one⟩ := List.map_eq_append_iff.mp (all.symm.trans read)
  obtain ⟨last, rfl, rfl⟩ := List.map_eq_singleton_iff.mp one
  have named := ended last rfl
  have shifted := accounts.shifted
  rw [idle, Option.toList_none, List.append_nil, read, kept_append] at shifted
  have held : kept skip [(.ok last : Except ε Token)] = [last] := by
    simp [kept, named, unskipped]
  rw [held] at shifted
  exact going (looks.top ▸ accounts.top_accept built unmentioned shifted.symm named)

end Parser

end ShiftFirst
