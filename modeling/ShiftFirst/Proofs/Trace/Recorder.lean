import ShiftFirst.Proofs.Automaton.Balance
import ShiftFirst.Proofs.Parser.Emissions
import ShiftFirst.Session

namespace ShiftFirst

/-- What one listener has heard, in order. -/
def Observed.heardBy {α : Type} (o : Observed α) (listener : Nat) : List String :=
  (o.heard.filter (·.1 = listener)).map (·.2)

/-- A listener records a channel that it is subscribed to once. -/
def Registry.Recorder (r : Registry Nat) (channel : Channel) (listener : Nat) : Prop :=
  (r.audience channel).count listener = 1

theorem startsWith_eq {front text : String} {kind : Bool}
    (h : front.toList <+: text.toList ↔ kind = true) : text.startsWith front = kind :=
  Bool.eq_iff_iff.mpr (String.startsWith_string_iff.trans h)

/-- Where the texts of events tell a kind of them by how they begin, they can be looked for in the
texts. -/
theorem filter_startsWith {E : Type} {text : E → String} {kind : E → Bool} {front : String}
    {events : List E} (tells : ∀ e ∈ events, (text e).startsWith front = kind e) :
    (events.map text).filter (·.startsWith front) = (events.filter kind).map text := by
  rw [List.filter_map]
  exact congrArg (List.map text) (List.filter_congr tells)

/-- A listener that is new to a registry records the channel it subscribes to. -/
theorem Registry.recorder_subscribe {r : Registry Nat} {listener : Nat} (channel : Channel)
    (new : listener ∉ r.audience channel) :
    (r.subscribe channel listener).2.Recorder channel listener := by
  have audience : (r.subscribe channel listener).2.audience channel =
      r.audience channel ++ [listener] := by
    simp [Registry.subscribe, Registry.audience]
  rw [Registry.Recorder, audience, List.count_append, List.count_eq_zero.mpr new]
  simp

namespace Audience

variable {a : Audience} {channel : Channel} {listener : Nat}

theorem hear_recorder (recording : a.trace.Recorder channel listener) (text : Unit → String) :
    (a.hear channel text).filter (·.1 = listener) = [(listener, text ())] := by
  have copies : (a.trace.audience channel).filter (· = listener) = [listener] := by
    rw [List.filter_eq, recording]
    rfl
  rw [hear, List.filter_map]
  exact congrArg (List.map fun k => (k, text ())) copies

/-- A recorder hears the text of each event once, in order. -/
theorem heardBy_recorder {α E : Type} {o : Observed α} {events : List E} {text : E → String}
    (recording : a.trace.Recorder channel listener)
    (heard : o.heard = events.flatMap fun e => a.hear channel fun _ => text e) :
    o.heardBy listener = events.map text := by
  rw [Observed.heardBy, heard, List.filter_flatMap, List.map_flatMap, List.map_eq_flatMap]
  simp only [hear_recorder recording, List.map_singleton]

end Audience

variable {ε V : Type}

namespace Grammar

theorem summary_front (g : Grammar V) : "Rules for ".toList <+: g.summary.toList := by
  obtain ⟨rule, rest, rules⟩ := List.exists_cons_of_ne_nil g.rules_ne_nil
  unfold summary
  dsimp only
  rw [rules, List.map_cons, List.eraseDups_cons, List.map_cons]
  generalize List.map _ _ = others
  cases others with
  | nil => simp
  | cons other others => simp

/-- The text of an event before the summary tells its kind by how it begins. -/
theorem startsWith_eventText (g : Grammar V) {e : BuildEvent} (before : e.isClosing = false) :
    (g.eventText e).startsWith "Adding new state:" = e.isAdding ∧
      (g.eventText e).startsWith "Creating state from rules:" = e.isReached ∧
      (g.eventText e).startsWith "... Already had state" = e.isKnown ∧
      g.eventText e ≠ "=== summary ===" := by
  obtain ⟨rest, summary⟩ := g.summary_front
  unfold eventText
  refine ⟨startsWith_eq ?_, startsWith_eq ?_, startsWith_eq ?_, ?_⟩
  · cases e with
    | rules => simp [BuildEvent.isAdding, ← summary]
    | finished | counted | linked => cases before
    | leads => simp [BuildEvent.isAdding, toString]
    | _ => simp [BuildEvent.isAdding]
  · cases e with
    | rules => simp [BuildEvent.isReached, ← summary]
    | finished | counted | linked => cases before
    | leads => simp [BuildEvent.isReached, toString]
    | _ => simp [BuildEvent.isReached]
  · cases e with
    | rules => simp [BuildEvent.isKnown, ← summary]
    | finished | counted | linked => cases before
    | leads => simp [BuildEvent.isKnown, toString]
    | _ => simp [BuildEvent.isKnown]
  · rw [Ne, ← String.toList_inj]
    cases e with
    | rules => simp [← summary]
    | finished | counted | linked => cases before
    | leads => simp [toString]
    | _ => simp

end Grammar

namespace Parser

variable {p : Parser V}

/-- The text of an event tells its kind by how it begins. -/
theorem startsWith_eventText (p : Parser V) (e : ParseEvent) :
    (p.eventText e).startsWith "Lookahead: " = e.isLookahead ∧
      (p.eventText e).startsWith "Shifting forward to state:" = e.isShifting ∧
      (p.eventText e).startsWith "Reducing using rule " = e.isReducing ∧
      (p.eventText e = "Accepted" ↔ e = .accepted) := by
  unfold eventText
  refine ⟨startsWith_eq ?_, startsWith_eq ?_, startsWith_eq ?_, ?_⟩
  · cases e <;> simp [ParseEvent.isLookahead]
  · cases e <;> simp [ParseEvent.isShifting]
  · cases e <;> simp [ParseEvent.isReducing]
  · rw [← String.toList_inj]
    cases e <;> simp

theorem accepted_not_mem_eventText {events : List ParseEvent} (absent : .accepted ∉ events) :
    "Accepted" ∉ events.map p.eventText := by
  intro heard
  obtain ⟨e, mem, text⟩ := List.mem_map.mp heard
  exact absent ((p.startsWith_eventText e).2.2.2.mp text ▸ mem)

end Parser

namespace Session

variable {s : Session V} {rules : List (Rule V)} {p : Parser V} {listener : Nat}

theorem build_eq (built : (Parser.ofRules rules).2 = .ok p) (audience : Audience) :
    (build rules audience).answer = .ok p ∧
      (build rules audience).heard = p.grammar.automaton.1.flatMap fun e =>
        audience.hear .grammar fun _ => p.grammar.eventText e := by
  obtain ⟨rfl, automaton⟩ := Parser.ofRules_ok_iff.mp built
  unfold build
  rw [Parser.ofRules_rules]
  exact ⟨congrArg (Except.map (Parser.mk p.grammar)) automaton, rfl⟩

/-- What is heard of a construction accounts for its result. Each state is taken up once, in order,
and each transition is announced with the items of the state it leads to; it leads to a state that
is there already in all cases but one for each state, the first two apart. The summary lists the
states with the numbers of their links. -/
theorem recording_accounts_for_automaton (built : (Parser.ofRules rules).2 = .ok p)
    (audience : Audience) (recording : audience.trace.Recorder .grammar listener) :
    (build rules audience).answer = .ok p ∧ ∃ before,
      (build rules audience).heardBy listener =
        before ++ "=== summary ===" :: s!"Identified {p.automaton.size} states:" ::
          p.automaton.states.map (fun state => p.grammar.itemsText state.items ++
            s!"\n  ({state.transitions.length} links)") ∧
      "=== summary ===" ∉ before ∧
      before.filter (·.startsWith "Adding new state:") =
        p.automaton.states.map (fun state =>
          "Adding new state:\n" ++ Text.indented (p.grammar.itemsText state.items)) ∧
      before.filter (·.startsWith "Creating state from rules:") =
        (p.automaton.states.flatMap State.transitions).map (fun edge =>
          "Creating state from rules:\n\t" ++
            "\n\t".intercalate ((p.automaton.state edge.2).items.map p.grammar.itemText)) ∧
      2 ≤ p.automaton.size ∧
      (before.filter (·.startsWith "... Already had state")).length + (p.automaton.size - 2) =
        (p.automaton.states.flatMap State.transitions).length := by
  obtain ⟨answer, heard⟩ := build_eq built audience
  obtain ⟨_, automaton⟩ := Parser.ofRules_ok_iff.mp built
  obtain ⟨before, events, account⟩ := Grammar.account_automaton automaton
  have enough := automaton.canonical.two_le_size
  have texts := fun e mem => p.grammar.startsWith_eventText (account.before e mem)
  rw [Audience.heardBy_recorder recording heard, events, List.map_append]
  refine ⟨answer, before.map p.grammar.eventText, ?_, ?_, ?_, ?_, enough, ?_⟩
  · rw [List.map_cons, List.map_cons, List.map_map]
    rfl
  · intro mem
    obtain ⟨e, mem, summary⟩ := List.mem_map.mp mem
    exact (texts e mem).2.2.2 summary
  · rw [filter_startsWith fun e mem => (texts e mem).1, account.adding, List.map_map, List.map_map]
    rfl
  · rw [filter_startsWith fun e mem => (texts e mem).2.1, account.reached, List.map_map,
      List.map_map]
    rfl
  · have balance := account.balance
    rw [List.length_map] at balance
    rw [filter_startsWith fun e mem => (texts e mem).2.2.1, List.length_map]
    omega

set_option maxRecDepth 100000 in
theorem recording_accounts_for_sums :
    (Parser.ofRules Parser.sums.rules).2 = .ok Parser.sumsParser ∧
    (({} : Registry Nat).subscribe .grammar 4).2.Recorder .grammar 4 ∧
    Parser.sumsParser.automaton.size = 9 ∧
    ∃ before summary,
      (build Parser.sums.rules ⟨(({} : Registry Nat).subscribe .grammar 4).2, .off⟩).heardBy 4 =
        before ++ "=== summary ===" :: summary ∧
      (before.filter (·.startsWith "Adding new state:")).length = 9 ∧
      (before.filter (·.startsWith "Creating state from rules:")).length = 10 ∧
      (before.filter (·.startsWith "... Already had state")).length = 3 := by
  have built := Parser.ofRules_ok_iff.mpr ⟨rfl, Parser.built_sums⟩
  have recording : (({} : Registry Nat).subscribe .grammar 4).2.Recorder .grammar 4 :=
    Registry.recorder_subscribe .grammar List.not_mem_nil
  have size : Parser.sumsParser.automaton.size = 9 := by decide +kernel
  have links : (Parser.sumsParser.automaton.states.flatMap State.transitions).length = 10 := by
    decide +kernel
  obtain ⟨_, before, heard, _, adding, creating, _, balance⟩ :=
    recording_accounts_for_automaton built ⟨_, .off⟩ recording
  refine ⟨built, recording, size, before, _, heard, ?_, ?_, ?_⟩
  · rw [adding, List.length_map]
    exact size
  · rw [creating, List.length_map, links]
  · omega

theorem heard_run [OfToken V] (log : Log.Filter) (manner : Manner ε)
    (stream : List (Except ε Token)) :
    (s.run log manner stream).heard = (s.run log manner stream).answer.events.flatMap fun e =>
      (⟨s.trace, log⟩ : Audience).hear .parse fun _ => s.parser.eventText e := by
  unfold run Ending.events
  dsimp only
  generalize (s.parser.run manner.skip manner.budget stream).journal = journal
  induction journal with
  | nil => rfl
  | cons entry journal ih =>
    cases entry with
    | pulled item => exact ih
    | event e => exact congrArg (_ ++ ·) ih

/-- What is heard of a run replays it. If it accepts, its lookaheads are the tokens that it has
kept, its shifts are counted, the rules of its reductions are those of the nodes of the derivation
whose value it gives, children before parents, and acceptance comes once and last. If it fails,
acceptance is not heard. -/
theorem recording_replays_run [OfToken V]
    (built : (Parser.ofRules rules).2 = .ok s.parser)
    (recording : s.trace.Recorder .parse listener) (log : Log.Filter) (manner : Manner ε)
    (stream : List (Except ε Token)) :
    (∀ v stats, (s.run log manner stream).answer.outcome = .ok (v, stats) →
      ∃ (tree : Tree s.parser.grammar s.parser.grammar.start) (last : Token)
        (before : List String) (rest : List (Except ε Token)),
        tree.value = .ok v ∧
        stream = (s.run log manner stream).answer.read ++ rest ∧
        kept manner.skip (s.run log manner stream).answer.read = tree.tokens ++ [last] ∧
        last.name = endSymbol ∧
        (s.run log manner stream).heardBy listener = before ++ ["Accepted"] ∧
        "Accepted" ∉ before ∧
        before.filter (·.startsWith "Lookahead: ") =
          (tree.tokens ++ [last]).map (fun token => s.parser.eventText (.lookahead token)) ∧
        (tree.tokens ++ [last]).length = stats.tokens ∧
        (before.filter (·.startsWith "Shifting forward to state:")).length = stats.shifts ∧
        before.filter (·.startsWith "Reducing using rule ") =
          tree.postorder.map (fun r => "Reducing using rule " ++ s.parser.grammar.ruleText r) ∧
        tree.postorder.length = stats.reductions) ∧
    ∀ failure, (s.run log manner stream).answer.outcome = .error failure →
      "Accepted" ∉ (s.run log manner stream).heardBy listener := by
  rw [Audience.heardBy_recorder (a := ⟨s.trace, log⟩) recording (heard_run log manner stream)]
  refine ⟨fun v stats outcome => ?_, fun failure failed =>
    Parser.accepted_not_mem_eventText (Parser.run_fails_events failed)⟩
  obtain ⟨_, built⟩ := Parser.ofRules_ok_iff.mp built
  obtain ⟨tree, last, rest, text, named, read, value, counts, moves⟩ := Parser.run_ok built outcome
  obtain ⟨before, events, absent, lookaheads, shifts, reductions⟩ := Parser.run_ok_events outcome
  have texts := s.parser.startsWith_eventText
  refine ⟨tree, last, before.map s.parser.eventText, rest, value, text, read, named, ?_,
    Parser.accepted_not_mem_eventText absent, ?_, ?_, ?_, ?_, ?_⟩
  · exact (congrArg (List.map s.parser.eventText) events).trans List.map_append
  · rw [filter_startsWith (fun e _ => (texts e).1), lookaheads, read, List.map_map]
    rfl
  · rw [List.length_append, counts]
    rfl
  · rw [filter_startsWith (fun e _ => (texts e).2.1), List.length_map, shifts]
  · rw [filter_startsWith (fun e _ => (texts e).2.2.1), reductions, moves,
      Move.rules_append, tree.rules_moves, List.map_map]
    exact congrArg (List.map _) (List.append_nil _)
  · rw [tree.length_postorder, counts]

/-- The parser of the sums with a listener to its runs. -/
def sumsHeard : Session String := ⟨Parser.sumsParser, (({} : Registry Nat).subscribe .parse 4).2⟩

set_option maxRecDepth 100000 in
theorem recording_replays_sums :
    (Parser.ofRules Parser.sums.rules).2 = .ok sumsHeard.parser ∧
    sumsHeard.trace.Recorder .parse 4 ∧
    (∃ (tree : Tree Parser.sums Parser.sums.start) (before : List String),
      tree.value = .ok "123*+" ∧
      (sumsHeard.run (ε := Nat) .off { budget := 6 } (Parser.sumsText.map .ok)).heardBy 4 =
        before ++ ["Accepted"] ∧
      (before.filter (·.startsWith "Shifting forward to state:")).length = 6 ∧
      before.filter (·.startsWith "Reducing using rule ") =
        tree.postorder.map (fun r => "Reducing using rule " ++ Parser.sums.ruleText r) ∧
      tree.postorder.length = 5) ∧
    "Accepted" ∉ (sumsHeard.run .off { budget := 6 } [.error 7]).heardBy 4 := by
  have built := Parser.ofRules_ok_iff.mpr ⟨rfl, Parser.built_sums⟩
  have recording : sumsHeard.trace.Recorder .parse 4 :=
    Registry.recorder_subscribe .parse List.not_mem_nil
  have outcome : (sumsHeard.run (ε := Nat) .off { budget := 6 }
      (Parser.sumsText.map .ok)).answer.outcome = .ok ("123*+", ⟨6, 6, 5⟩) := by
    decide +kernel
  obtain ⟨accepts, _⟩ := recording_replays_run built recording .off { budget := 6 }
    (Parser.sumsText.map (.ok (ε := Nat)))
  obtain ⟨tree, _, before, _, value, _, _, _, heard, _, _, _, shifts, reductions, nodes⟩ :=
    accepts _ _ outcome
  obtain ⟨_, fails⟩ := recording_replays_run built recording .off { budget := 6 } [.error 7]
  exact ⟨built, recording, ⟨tree, before, value, heard, shifts, reductions, nodes⟩,
    fails (.input 7) (by decide +kernel)⟩

end Session

end ShiftFirst
