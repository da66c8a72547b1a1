import ShiftFirst.Proofs.Parser.Supply

namespace ShiftFirst

variable {ε ε' V : Type}

namespace Parser

section Errors

variable {f : ε → ε'} {c : Config ε V} {c' : Config ε' V}

/-- Two runs over streams that differ in their errors alone have done the same. -/
structure Mirrors (f : ε → ε') (c : Config ε V) (c' : Config ε' V) : Prop where
  core : c'.core = c.core
  journal : c'.journal = c.journal.map (Entry.mapError f)

/-- Both go on, one mirroring the other, or both end with the same up to errors of the stream. -/
inductive Mirrored (f : ε → ε') : Ending ε V ⊕ Config ε V → Ending ε' V ⊕ Config ε' V → Prop
  | ends (ending : Ending ε V) : Mirrored f (.inl ending) (.inl (ending.mapError f))
  | goes {c : Config ε V} {c' : Config ε' V} (mirrors : Mirrors f c c') :
      Mirrored f (.inr c) (.inr c')

namespace Mirrors

theorem asks_iff (h : Mirrors f c c') : c'.Asks ↔ c.Asks := by
  have same : c'.core.Asks ↔ c.core.Asks := by rw [h.core]
  exact same

theorem act [OfToken V] {p : Parser V} (h : Mirrors f c c') :
    Mirrored f (p.act c) (p.act c') := by
  rw [act_core, act_core (c := c'), h.core]
  cases p.act c.core with
  | inl ending =>
    rw [Sum.map_inl, Sum.map_inl, ← Config.mapError_conclude h.journal]
    exact .ends _
  | inr next => exact .goes ⟨rfl, Config.journal_resume h.journal next⟩

theorem finish {p : Parser V} (h : Mirrors f c c') : p.finish c' = (p.finish c).mapError f := by
  rw [finish_core, finish_core (c := c), h.core, Config.mapError_conclude h.journal]

theorem step [OfToken V] {p : Parser V} (h : Mirrors f c c') (idle : ¬ c.Asks) :
    Mirrored f (p.step [] c) (p.step [] c') := by
  have top : c'.core.top = c.core.top := by rw [h.core]
  have same : (c'.top = Automaton.accept) = (c.top = Automaton.accept) :=
    congrArg (· = Automaton.accept) top
  rw [step_idle idle, step_idle (fun asks => idle (h.asks_iff.mp asks))]
  simp only [same]
  split
  next => exact h.finish ▸ .ends _
  next => exact h.act

theorem receive [OfToken V] {p : Parser V} (h : Mirrors f c c')
    (answer : Option (Except ε Token)) :
    Mirrored f (p.receive c answer) (p.receive c' (answer.map (Except.mapError f))) := by
  cases answer with
  | none =>
    refine Mirrors.act ⟨?_, h.journal⟩
    exact congrArg (fun core => { core with exhausted := true }) h.core
  | some item =>
    cases item with
    | error e =>
      have journal : .pulled (.error (f e)) :: c'.journal =
          (.pulled (.error e) :: c.journal).map (Entry.mapError f) := congrArg (_ :: ·) h.journal
      change Mirrored f _ (.inl ⟨.error (.input (f e)), .pulled (.error (f e)) :: c'.journal⟩)
      rw [journal]
      exact .ends ⟨.error (.input e), .pulled (.error e) :: c.journal⟩
    | ok token =>
      refine Mirrors.act ⟨?_, congrArg (_ :: _ :: ·) h.journal⟩
      exact congrArg (fun core => { core with
        lookahead := some token
        stats := { core.stats with tokens := core.stats.tokens + 1 } }) h.core

variable [OfToken V] {p : Parser V} {supply : Supply ε} {supply' : Supply ε'} {asked asked' : Nat}

theorem stepAsking (h : Mirrors f c c') (p : Parser V) (asked : Nat)
    (same : ∀ k, supply' k = (supply k).map (Except.mapError f)) :
    Mirrored f (p.stepAsking supply c asked).1 (p.stepAsking supply' c' asked).1 ∧
      (p.stepAsking supply' c' asked).2 = (p.stepAsking supply c asked).2 := by
  unfold Parser.stepAsking
  simp only [h.asks_iff]
  split
  next => exact ⟨same asked ▸ h.receive _, rfl⟩
  next idle => exact ⟨h.step idle, rfl⟩

theorem ends {ending : Ending ε V} (h : Mirrors f c c')
    (same : ∀ k, supply' k = (supply k).map (Except.mapError f))
    (ends : p.EndsAsking supply c asked ending asked') :
    p.EndsAsking supply' c' asked (ending.mapError f) asked' := by
  induction ends generalizing c' with
  | @stop c asked asked' ending last =>
    obtain ⟨mirrored, count⟩ := h.stepAsking p asked same
    rw [last] at mirrored count
    refine .stop (Prod.ext ?_ count)
    generalize (p.stepAsking supply' c' asked).1 = result at mirrored
    cases mirrored
    rfl
  | @go c next asked asked' final ending first rest ih =>
    obtain ⟨mirrored, count⟩ := h.stepAsking p asked same
    rw [first] at mirrored count
    generalize hr : (p.stepAsking supply' c' asked).1 = result at mirrored
    cases mirrored with
    | goes there => exact .go (Prod.ext hr count) (ih there)

theorem ends_back {ending' : Ending ε' V} (h : Mirrors f c c')
    (same : ∀ k, supply' k = (supply k).map (Except.mapError f))
    (ends : p.EndsAsking supply' c' asked ending' asked') :
    ∃ ending, p.EndsAsking supply c asked ending asked' ∧ ending' = ending.mapError f := by
  induction ends generalizing c with
  | @stop c' asked asked' ending' last =>
    obtain ⟨mirrored, count⟩ := h.stepAsking p asked same
    rw [last] at mirrored count
    generalize hr : (p.stepAsking supply c asked).1 = result at mirrored
    cases mirrored with
    | ends ending => exact ⟨ending, .stop (Prod.ext hr count.symm), rfl⟩
  | @go c' next asked asked' final ending' first rest ih =>
    obtain ⟨mirrored, count⟩ := h.stepAsking p asked same
    rw [first] at mirrored count
    generalize hr : (p.stepAsking supply c asked).1 = result at mirrored
    cases mirrored with
    | goes there =>
      obtain ⟨ending, ends, eq⟩ := ih there
      exact ⟨ending, .go (Prod.ext hr count.symm) ends, eq⟩

end Mirrors

end Errors

section Lists

variable [OfToken V] {p : Parser V} {stream : List (Except ε Token)} {c c' next : Config ε V}
  {asked budget : Nat}

theorem stream_of_receive {answer : Option (Except ε Token)} (h : p.receive c answer = .inr next) :
    next.stream = c.stream := by
  rcases answer with _ | ⟨_ | _⟩
  · exact (keeps_of_act h).2.2
  · cases h
  · exact (keeps_of_act h).2.2

/-- A run over a list does with its head and its tail what a run over the supply does with the
answer that it asks for. -/
theorem Mirrors.step_list (h : Mirrors id c c') (here : c.stream = stream.drop asked) :
    Mirrored id (p.step [] c) (p.stepAsking (.ofList stream) c' asked).1 ∧
      ∀ next, p.step [] c = .inr next →
        next.stream = stream.drop (p.stepAsking (.ofList stream) c' asked).2 := by
  by_cases asks : c.Asks
  · have answer : c.stream.head?.map (Except.mapError id) = Supply.ofList stream asked := by
      rw [here, List.head?_drop, Supply.ofList]
      rcases stream[asked]? with _ | ⟨_ | _⟩ <;> rfl
    have bare : Mirrors id { c with stream := c.stream.tail } c' := ⟨h.core, h.journal⟩
    rw [Parser.stepAsking, if_pos (h.asks_iff.mpr asks), step_asks asks]
    refine ⟨answer ▸ bare.receive c.stream.head?, fun next hs => ?_⟩
    rw [stream_of_receive hs, here]
    exact List.tail_drop
  · rw [Parser.stepAsking, if_neg fun asks' => asks (h.asks_iff.mp asks')]
    refine ⟨h.step asks, fun next hs => ?_⟩
    rw [step_idle asks] at hs
    split at hs
    next => cases hs
    next => exact (keeps_of_act hs).2.2.trans here

theorem Mirrors.ends_list {ending : Ending ε V} (h : Mirrors id c c')
    (here : c.stream = stream.drop asked) (ends : p.Ends [] c ending) :
    ∃ asked', p.EndsAsking (.ofList stream) c' asked ending asked' := by
  obtain ⟨last, reaches, stops⟩ := ends
  induction reaches using Relation.ReflTransGen.head_induction_on generalizing c' asked with
  | refl =>
    obtain ⟨mirrored, _⟩ := h.step_list (p := p) here
    rw [stops] at mirrored
    generalize hr : (p.stepAsking (.ofList stream) c' asked).1 = result at mirrored
    cases mirrored
    rw [Ending.mapError_id] at hr
    exact ⟨_, .stop (Prod.ext hr rfl)⟩
  | head hstep _ ih =>
    obtain ⟨mirrored, stream'⟩ := h.step_list (p := p) here
    have there := stream' _ hstep
    rw [hstep] at mirrored
    generalize hr : (p.stepAsking (.ofList stream) c' asked).1 = result at mirrored
    cases mirrored with
    | goes mirrors =>
      obtain ⟨asked', ends⟩ := ih mirrors there
      exact ⟨asked', .go (Prod.ext hr rfl) ends⟩

theorem concludes_run (p : Parser V) (budget : Nat) (stream : List (Except ε Token)) :
    ∃ asked, p.Concludes (.ofList stream) budget (p.run [] budget stream) asked := by
  obtain ⟨ending, ends, run⟩ := p.run_ends [] budget stream
  have mirrors : Mirrors id (.initial budget stream : Config ε V) (.initial budget []) := ⟨rfl, rfl⟩
  obtain ⟨asked, ends⟩ := mirrors.ends_list (show _ = stream.drop 0 from rfl) ends
  exact ⟨asked, ending, ends, run⟩

theorem concludes_ofTokens {tokens : Nat → Option Token} {ending : Ending ε V} :
    p.Concludes (.ofTokens tokens) budget ending asked ↔
      ∃ ending' : Ending Empty V, p.Concludes (.ofTokens tokens) budget ending' asked ∧
        ending = ending'.mapError Empty.elim := by
  have same : ∀ k, (Supply.ofTokens tokens : Supply ε) k =
      ((Supply.ofTokens tokens : Supply Empty) k).map (Except.mapError Empty.elim) := fun k => by
    rw [Supply.ofTokens, Supply.ofTokens]
    cases tokens k <;> rfl
  have mirrors : Mirrors Empty.elim (.initial budget [] : Config Empty V)
      (.initial budget [] : Config ε V) := ⟨rfl, rfl⟩
  have ordered : ∀ last : Ending Empty V,
      (⟨(last.mapError (Empty.elim : Empty → ε)).outcome,
        (last.mapError Empty.elim).journal.reverse⟩ : Ending ε V) =
          Ending.mapError Empty.elim ⟨last.outcome, last.journal.reverse⟩ := fun last => by
    rw [Ending.mapError, Ending.mapError, List.map_reverse]
  constructor
  · rintro ⟨last, ends, rfl⟩
    obtain ⟨last', ends', rfl⟩ := mirrors.ends_back same ends
    exact ⟨_, ⟨last', ends', rfl⟩, ordered last'⟩
  · rintro ⟨_, ⟨last, ends, rfl⟩, rfl⟩
    exact ⟨_, mirrors.ends same ends, (ordered last).symm⟩

theorem ofList_ok (tokens : List Token) :
    Supply.ofList (tokens.map (Except.ok (ε := ε))) = .ofTokens fun k => tokens[k]? :=
  funext fun _ => List.getElem?_map

/-- A run over tokens asks at most once more when they have all been read. -/
theorem Concludes.le_length {tokens : List Token} {ending : Ending ε V}
    (h : p.Concludes (.ofList (tokens.map .ok)) budget ending asked) :
    asked ≤ tokens.length + 1 := by
  by_contra more
  refine h.answered.before tokens.length (by omega) ?_
  rw [ofList_ok, Supply.ofTokens, List.getElem?_eq_none (Nat.le_refl _)]
  rfl

theorem Concludes.ne_input {tokens : List Token} {ending : Ending ε V} {e : ε}
    (h : p.Concludes (.ofList (tokens.map .ok)) budget ending asked) :
    ending.outcome ≠ .error (.input e) := by
  rw [ofList_ok] at h
  obtain ⟨⟨outcome, _⟩, _, rfl⟩ := concludes_ofTokens.mp h
  intro failed
  rcases outcome with ⟨e | _⟩ | _
  · exact e.elim
  · cases failed
  · cases failed

theorem run_ok_tokens (tokens : List Token) :
    p.run [] budget (tokens.map (Except.ok (ε := ε))) =
      (p.parse budget tokens).mapError Empty.elim := by
  obtain ⟨asked, h⟩ := p.concludes_run budget (tokens.map (Except.ok (ε := Empty)))
  obtain ⟨asked', h'⟩ := p.concludes_run budget (tokens.map (Except.ok (ε := ε)))
  rw [ofList_ok] at h h'
  obtain ⟨ending, there, same⟩ := concludes_ofTokens.mp h'
  rw [same, ((h.congr fun _ _ => rfl).mp there).1]
  rfl

/-- An error of the stream is met exactly if the tokens before it leave the run asking for more. -/
theorem run_error_behind (tokens : List Token) (e : ε) (rest : List (Except ε Token)) :
    ((p.run [] budget (tokens.map .ok ++ .error e :: rest)).outcome = .error (.input e) ↔
      ∃ ending, p.Concludes (.ofList (tokens.map (Except.ok (ε := ε)))) budget ending
        (tokens.length + 1)) ∧
    ((p.run [] budget (tokens.map .ok ++ .error e :: rest)).outcome ≠ .error (.input e) →
      p.run [] budget (tokens.map .ok ++ .error e :: rest) = p.run [] budget (tokens.map .ok)) := by
  obtain ⟨asked, alone⟩ := p.concludes_run budget (tokens.map (Except.ok (ε := ε)))
  obtain ⟨asked', failing⟩ := p.concludes_run budget (tokens.map .ok ++ .error e :: rest)
  have before : ∀ k < tokens.length,
      Supply.ofList (tokens.map .ok ++ .error e :: rest) k = Supply.ofList (tokens.map .ok) k :=
    fun k within => List.getElem?_append_left (by rwa [List.length_map])
  have failed : Supply.ofList (tokens.map .ok ++ .error e :: rest) tokens.length =
      some (.error e) := by
    rw [Supply.ofList, List.getElem?_append_right (by rw [List.length_map]), List.length_map,
      Nat.sub_self]
    rfl
  rcases Nat.lt_or_ge tokens.length asked with beyond | within
  · obtain rfl : asked = tokens.length + 1 := Nat.le_antisymm alone.le_length beyond
    obtain ⟨last, ends, _⟩ := id alone
    obtain ⟨ending, ends', outcome⟩ := ends.input (Nat.zero_le _) beyond before failed
    obtain ⟨same, _⟩ := (failing.congr fun _ _ => rfl).mp ⟨ending, ends', rfl⟩
    rw [← same]
    exact ⟨⟨fun _ => ⟨_, alone⟩, fun _ => outcome⟩, fun other => absurd outcome other⟩
  · have same := (alone.congr fun k low => before k (Nat.lt_of_lt_of_le low within)).mp failing
    rw [same.1]
    refine ⟨⟨fun input => absurd input alone.ne_input, ?_⟩, fun _ => rfl⟩
    rintro ⟨ending, more⟩
    have := ((alone.congr fun _ _ => rfl).mp more).2
    omega

/-- What a run gives depends on the answers that it asks its stream for and on no others. They are
the items that it takes, of which only the last can be that there are none. A run over a list is
one over its items, and tokens that come without an error are parsed as such. An error behind
tokens comes to light exactly if the run over the tokens alone asks for more, and else changes
nothing. -/
theorem run_determined (p : Parser V) (budget : Nat) :
    (∀ (ε : Type) (supply supply' : Supply ε) (ending : Ending ε V) asked,
      p.Concludes supply budget ending asked → (∀ k < asked, supply' k = supply k) →
        ∀ ending' asked', p.Concludes supply' budget ending' asked' ↔
          ending' = ending ∧ asked' = asked) ∧
    (∀ (ε : Type) (supply : Supply ε) (ending : Ending ε V) asked,
      p.Concludes supply budget ending asked →
        ending.read = (List.range asked).filterMap supply ∧
          ∀ k, k + 1 < asked → supply k ≠ none) ∧
    (∀ (ε : Type) (stream : List (Except ε Token)),
      ∃ asked, p.Concludes (.ofList stream) budget (p.run [] budget stream) asked) ∧
    (∀ (ε : Type) (tokens : Nat → Option Token) (ending : Ending ε V) asked,
      p.Concludes (.ofTokens tokens) budget ending asked ↔
        ∃ ending' : Ending Empty V, p.Concludes (.ofTokens tokens) budget ending' asked ∧
          ending = ending'.mapError Empty.elim) ∧
    (∀ (ε : Type) (tokens : List Token),
      p.run [] budget (tokens.map (Except.ok (ε := ε))) =
        (p.parse budget tokens).mapError Empty.elim) ∧
    ∀ (ε : Type) (tokens : List Token) (e : ε) (rest : List (Except ε Token)),
      ((p.run [] budget (tokens.map .ok ++ .error e :: rest)).outcome = .error (.input e) ↔
        ∃ ending, p.Concludes (.ofList (tokens.map (Except.ok (ε := ε)))) budget ending
          (tokens.length + 1)) ∧
      ((p.run [] budget (tokens.map .ok ++ .error e :: rest)).outcome ≠ .error (.input e) →
        p.run [] budget (tokens.map .ok ++ .error e :: rest) =
          p.run [] budget (tokens.map .ok)) :=
  ⟨fun _ _ _ _ _ h same _ _ => h.congr same, fun _ _ _ _ h => ⟨h.answered.read, h.answered.before⟩,
    fun _ => p.concludes_run budget, fun _ _ _ _ => concludes_ofTokens, fun _ => run_ok_tokens,
    fun _ => run_error_behind⟩

set_option maxRecDepth 100000 in
theorem run_determined_sums :
    (sumsParser.run [] 5 [.ok ⟨"n", "1", 0⟩, .error 7, .ok (.finish 1)]).outcome =
        .error (.input 7) ∧
      (∃ ending, sumsParser.Concludes (.ofList [.ok (ε := Nat) ⟨"n", "1", 0⟩]) 5 ending 2) ∧
      (sumsParser.run [] 5 [.ok ⟨"n", "1", 0⟩, .ok ⟨"n", "2", 1⟩, .error 7]).outcome ≠
        .error (.input 7) ∧
      sumsParser.run [] 5 [.ok ⟨"n", "1", 0⟩, .ok ⟨"n", "2", 1⟩, .error 7] =
        sumsParser.run [] 5 [.ok ⟨"n", "1", 0⟩, .ok ⟨"n", "2", 1⟩] := by
  obtain ⟨_, _, _, _, _, errors⟩ := run_determined sumsParser 5
  have met : (sumsParser.run [] 5 [.ok ⟨"n", "1", 0⟩, .error 7, .ok (.finish 1)]).outcome =
      .error (.input 7) := by decide +kernel
  have unmet : (sumsParser.run [] 5 [.ok ⟨"n", "1", 0⟩, .ok ⟨"n", "2", 1⟩, .error 7]).outcome ≠
      .error (.input 7) := by decide +kernel
  refine ⟨met, ?_, unmet, ?_⟩
  · exact (errors Nat [⟨"n", "1", 0⟩] 7 [.ok (.finish 1)]).1.mp met
  · exact (errors Nat [⟨"n", "1", 0⟩, ⟨"n", "2", 1⟩] 7 []).2 unmet

end Lists

end Parser

end ShiftFirst
