import ShiftFirst.Proofs.Automaton.Ending
import ShiftFirst.Proofs.Automaton.Rename
import ShiftFirst.Proofs.Parser.Stack

namespace ShiftFirst

variable {ε V : Type} {ρ : Symbol ↪ Symbol}

def Token.rename (ρ : Symbol ↪ Symbol) (token : Token) : Token :=
  { token with name := ρ token.name }

/-- Errors are the same up to the names in them; rules are displayed as each grammar has them. -/
inductive ParseError.Renamed (ρ : Symbol ↪ Symbol) (g g' : Grammar V) :
    ParseError → ParseError → Prop
  | unexpectedToken (name : Symbol) (value : String) (position : Nat) (expected : List Symbol) :
      Renamed ρ g g' (.unexpectedToken name value position expected)
        (.unexpectedToken (ρ name) value position (expected.map ρ))
  | unexpectedEnd (expected : List Symbol) :
      Renamed ρ g g' (.unexpectedEnd expected) (.unexpectedEnd (expected.map ρ))
  | reduction (r : RuleId) (position : Nat) (source : ReduceError) :
      Renamed ρ g g' (.reduction (g.ruleText r) position source)
        (.reduction (g'.ruleText r) position source)
  | missingGoto (q : StateId) (symbol : Symbol) :
      Renamed ρ g g' (.missingGoto q symbol) (.missingGoto q (ρ symbol))
  | emptyStack : Renamed ρ g g' .emptyStack .emptyStack

/-- Outcomes are the same value and counts, or the same error up to names. -/
inductive Outcome.Renamed (ρ : Symbol ↪ Symbol) (g g' : Grammar V) :
    Except (Failure ε) (V × Stats) → Except (Failure ε) (V × Stats) → Prop
  | ok (result : V × Stats) : Renamed ρ g g' (.ok result) (.ok result)
  | input (e : ε) : Renamed ρ g g' (.error (.input e)) (.error (.input e))
  | parse {e e' : ParseError} (renamed : e.Renamed ρ g g' e') :
      Renamed ρ g g' (.error (.parse e)) (.error (.parse e'))

/-- The only names in the events of a run are those of tokens. -/
def ParseEvent.rename (ρ : Symbol ↪ Symbol) : ParseEvent → ParseEvent
  | .lookahead token => .lookahead (token.rename ρ)
  | e => e

def Entry.rename (ρ : Symbol ↪ Symbol) : Entry ε → Entry ε
  | .pulled item => .pulled (item.map (Token.rename ρ))
  | .event e => .event (e.rename ρ)

/-- A configuration of a run over tokens with other names. -/
def Config.rename (ρ : Symbol ↪ Symbol) (c : Config ε V) : Config ε V :=
  { c with
    lookahead := c.lookahead.map (Token.rename ρ)
    stream := c.stream.map (Except.map (Token.rename ρ))
    journal := c.journal.map (Entry.rename ρ) }

@[simp] theorem Config.top_rename (c : Config ε V) : (c.rename ρ).top = c.top := rfl

@[simp] theorem Config.lookahead_rename (c : Config ε V) :
    (c.rename ρ).lookahead = c.lookahead.map (Token.rename ρ) := rfl

/-- An ending, with what has happened told by other names. -/
def Ending.retell (ρ : Symbol ↪ Symbol) (ending : Ending ε V) : Ending ε V :=
  { ending with journal := ending.journal.map (Entry.rename ρ) }

/-- Two runs end with outcomes that are the same up to names, and have told the same. -/
structure Ending.Renamed (ρ : Symbol ↪ Symbol) (g g' : Grammar V) (ending ending' : Ending ε V) :
    Prop where
  outcome : Outcome.Renamed ρ g g' ending.outcome ending'.outcome
  journal : ending'.journal = ending.journal.map (Entry.rename ρ)

namespace Parser

variable {p p' : Parser V} {skip : List Symbol} {c c' : Config ε V} {ending : Ending ε V}

/-- Two parsers are the same, up to the names of their symbols. -/
structure Renames (p p' : Parser V) (ρ : Symbol ↪ Symbol) : Prop where
  grammar : p.grammar.Renames p'.grammar ρ
  automaton : p'.automaton = p.automaton.rename ρ

theorem pull_rename (stream : List (Except ε Token)) (journal : List (Entry ε)) :
    pull (skip.map ρ) (c.rename ρ) (stream.map (Except.map (Token.rename ρ)))
        (journal.map (Entry.rename ρ)) =
      ((pull skip c stream journal).map (Config.rename ρ)).mapError (Ending.retell ρ) := by
  induction stream generalizing journal with
  | nil => rfl
  | cons item rest ih =>
    cases item with
    | error e => rfl
    | ok token =>
      have skipped : (token.rename ρ).name ∈ skip.map ρ ↔ token.name ∈ skip :=
        List.mem_map_of_injective ρ.injective
      by_cases skips : token.name ∈ skip
      · simp only [List.map_cons, Except.map, pull, if_pos skips, if_pos (skipped.mpr skips)]
        exact ih (.pulled (.ok token) :: journal)
      · simp only [List.map_cons, Except.map, pull, if_neg skips, if_neg (mt skipped.mp skips)]
        rfl

theorem look_rename (ρ : Symbol ↪ Symbol) (skip : List Symbol) (c : Config ε V) :
    look (skip.map ρ) (c.rename ρ) =
      ((look skip c).map (Config.rename ρ)).mapError (Ending.retell ρ) := by
  have ahead : (c.rename ρ).lookahead.isNone = c.lookahead.isNone := by
    rw [Config.lookahead_rename, Option.isNone_map]
  by_cases idle : c.lookahead.isNone ∧ !c.exhausted
  · have idle' : (c.rename ρ).lookahead.isNone ∧ !(c.rename ρ).exhausted := by rwa [ahead]
    rw [look, look, if_pos idle, if_pos idle']
    exact pull_rename c.stream c.journal
  · have busy : ¬ ((c.rename ρ).lookahead.isNone ∧ !(c.rename ρ).exhausted) := by rwa [ahead]
    rw [look, look, if_neg idle, if_neg busy]
    rfl

namespace Renames

variable (h : p.Renames p' ρ)
include h

theorem transition? (q : StateId) (symbol : Symbol) :
    p'.automaton.transition? q (ρ symbol) = p.automaton.transition? q symbol := by
  rw [h.automaton, Automaton.transition?_rename]

theorem reduction (q : StateId) :
    (p'.automaton.state q).reduction = (p.automaton.state q).reduction := by
  rw [h.automaton, Automaton.state_rename]
  rfl

theorem expected (q : StateId) : p'.expected q = (p.expected q).map ρ := by
  rw [Parser.expected, Parser.expected, h.automaton, Automaton.state_rename, State.rename,
    List.map_map, List.filter_map, List.filter_map, List.map_map]
  refine congrArg₂ List.map rfl (List.filter_congr fun t _ => ?_)
  exact congrArg (!·) (h.grammar.isNonterminal t.1)

/-- The same frames are taken from the stack, and the values on them make the same value. -/
theorem popFrames (c : Config ε V) (r : RuleId) :
    (∃ reduced, p.popFrames c r = .ok reduced ∧ p'.popFrames (c.rename ρ) r = .ok reduced) ∨
      ∃ e e', p.popFrames c r = .error e ∧ p'.popFrames (c.rename ρ) r = .error e' ∧
        e.Renamed ρ p.grammar p'.grammar e' := by
  have frames : (c.rename ρ).frames = c.frames := rfl
  have budget : (c.rename ρ).budget = c.budget := rfl
  simp only [Parser.popFrames, h.grammar.length_predicate, h.grammar.reduceWithin, frames, budget]
  by_cases few : c.frames.length < (p.grammar.production r).predicate.length
  · exact Or.inr ⟨_, _, if_pos few, if_pos few, .emptyStack⟩
  · simp only [if_neg few]
    generalize p.grammar.reduceWithin c.budget r _ = made
    obtain ⟨value | value, left⟩ := made
    · exact Or.inr ⟨_, _, rfl, rfl, .reduction r _ value⟩
    · exact Or.inl ⟨_, rfl, rfl⟩

theorem shift? (c : Config ε V) :
    p'.shift? (c.rename ρ) = (p.shift? c).map (Prod.map (Token.rename ρ) id) := by
  rw [Parser.shift?, Parser.shift?, Config.lookahead_rename, Config.top_rename]
  cases c.lookahead with
  | none => rfl
  | some token =>
    have edge := h.transition? c.top token.name
    simp only [Option.map_some, Token.rename, Option.bind_eq_bind, Option.bind_some, edge]
    cases p.automaton.transition? c.top token.name <;> rfl

theorem reject (c : Config ε V) :
    (p.reject c).Renamed ρ p.grammar p'.grammar (p'.reject (c.rename ρ)) := by
  rw [Parser.reject, Parser.reject, Config.lookahead_rename, Config.top_rename, h.expected]
  cases c.lookahead with
  | none => exact .unexpectedEnd _
  | some token => exact .unexpectedToken _ _ _ _

theorem finish (c : Config ε V) :
    (p.finish c).Renamed ρ p.grammar p'.grammar (p'.finish (c.rename ρ)) := by
  rcases h.popFrames c 0 with ⟨reduced, popped, popped'⟩ | ⟨e, e', popped, popped', renamed⟩
  · rw [Parser.finish, Parser.finish, popped, popped']
    exact ⟨.ok _, rfl⟩
  · rw [Parser.finish, Parser.finish, popped, popped']
    exact ⟨.parse renamed, rfl⟩

/-- The states below a predicate go on alike by the name of its subject; that of the rule that
begins every grammar is left out, as it keeps its name. -/
theorem reduceStep (c : Config ε V) {r : RuleId} (pos : 1 ≤ r)
    (hr : r ≤ p.grammar.rules.length) :
    Sum.LiftRel (Ending.Renamed ρ p.grammar p'.grammar) (fun next next' => next' = next.rename ρ)
      (p.reduceStep c r) (p'.reduceStep (c.rename ρ) r) := by
  have subject : (p'.grammar.production r).subject = ρ (p.grammar.production r).subject := by
    rw [h.grammar.production_of_authored pos hr]
    rfl
  rcases h.popFrames c r with ⟨reduced, popped, popped'⟩ | ⟨e, e', popped, popped', renamed⟩
  · rw [reduceStep_of_popFrames popped, reduceStep_of_popFrames popped', subject, h.transition?]
    cases p.automaton.transition? (topState (reduced.below.map Frame.state))
        (p.grammar.production r).subject with
    | none => exact .inl ⟨.parse (.missingGoto _ _), rfl⟩
    | some target => exact .inr rfl
  · rw [reduceStep_of_error popped, reduceStep_of_error popped']
    exact .inl ⟨.parse renamed, rfl⟩

variable {read read' : OfToken V}
  (alike : ∀ token, read'.ofToken (token.rename ρ) = read.ofToken token) (built : p.Built)
  (inner : ¬ p.grammar.PassesEnd)
include alike built inner

theorem act (going : c.top ≠ Automaton.accept) :
    Sum.LiftRel (Ending.Renamed ρ p.grammar p'.grammar) (fun next next' => next' = next.rename ρ)
      (@Parser.act ε V read p c) (@Parser.act ε V read' p' (c.rename ρ)) := by
  have noted : (c.rename ρ).note (.current (c.rename ρ).top) =
      (c.note (.current c.top)).rename ρ := rfl
  unfold Parser.act
  dsimp only
  rw [noted, h.shift?]
  cases p.shift? (c.note (.current c.top)) with
  | some shift =>
    obtain ⟨token, target⟩ := shift
    simp only [Option.map_some, Prod.map_apply, id_eq, Parser.shiftStep, alike]
    exact .inr rfl
  | none =>
    simp only [Option.map_none, Config.top_rename, Config.top_note, h.reduction]
    cases complete : (p.automaton.state c.top).reduction with
    | none => exact .inl ⟨.parse (h.reject _), rfl⟩
    | some r =>
      have authored : 1 ≤ r := built.canonical.authored_of_reduction inner going complete
      have known := built.canonical.le_of_reduction complete
      exact h.reduceStep (c.note (.current c.top)) authored known

/-- A step of the one run is a step of the other, up to names. -/
theorem step (skip : List Symbol) (c : Config ε V) :
    Sum.LiftRel (Ending.Renamed ρ p.grammar p'.grammar) (fun next next' => next' = next.rename ρ)
      (@Parser.step ε V read p skip c) (@Parser.step ε V read' p' (skip.map ρ) (c.rename ρ)) := by
  have top := c.top_rename (ρ := ρ)
  by_cases accepts : c.top = Automaton.accept
  · rw [@step_accept _ _ _ _ _ read accepts, @step_accept _ _ _ _ _ read' (top.trans accepts)]
    exact .inl (h.finish c)
  · have look := look_rename ρ skip c
    cases hl : Parser.look skip c with
    | error ending =>
      rw [hl] at look
      rw [@step_look_error _ _ _ _ _ _ read accepts hl,
        @step_look_error _ _ _ _ _ _ read' (top.trans_ne accepts) look]
      obtain ⟨e, failed⟩ := look_error hl
      refine .inl ⟨?_, rfl⟩
      rw [Ending.retell, failed]
      exact .input e
    | ok looked =>
      rw [hl] at look
      obtain ⟨_, looks⟩ := look_ok hl
      rw [@step_look _ _ _ _ _ _ read accepts hl,
        @step_look _ _ _ _ _ _ read' (top.trans_ne accepts) look]
      exact h.act alike built inner (looks.top.trans_ne accepts)

theorem run (skip : List Symbol) (budget : Nat) (stream : List (Except ε Token)) :
    (@Parser.run ε V read p skip budget stream).Renamed ρ p.grammar p'.grammar
      (@Parser.run ε V read' p' (skip.map ρ) budget
        (stream.map (Except.map (Token.rename ρ)))) := by
  obtain ⟨ending, ends, run⟩ := @run_ends ε V read p skip budget stream
  have renamed : Config.initial budget (stream.map (Except.map (Token.rename ρ))) =
      (Config.initial budget stream : Config ε V).rename ρ := rfl
  obtain ⟨ending', ends', same⟩ := ends.simulated (R := fun c c' => c' = c.rename ρ)
    (fun {c c'} related => related ▸ h.step alike built inner skip c) renamed
  rw [run, run_eq ends']
  exact ⟨same.outcome, by rw [same.journal, List.map_reverse]⟩

end Renames

/-- The names of symbols mean nothing to a parser, and that of the rule that begins every grammar
nothing as a terminal: rules by other names are refused for the same reason, unless it is that a
subject has the reserved name, or make the same states, over which every run ends with the same
value and counts or the same error. -/
theorem names_irrelevant {rules : List (Rule V)} (fixes : ρ endSymbol = endSymbol)
    (unmentioned : ∀ rule ∈ rules, endSymbol ∉ rule.predicate)
    (moved : ∀ rule ∈ rules, ρ rule.subject ≠ startSymbol)
    (allowed : ∀ text, (Parser.ofRules rules).2 ≠ .error (.reservedSymbol text startSymbol)) :
    (∀ e, (Parser.ofRules rules).2 = .error e →
      ∃ e', (Parser.ofRules (rules.map (Rule.rename ρ))).2 = .error e' ∧ e.Renamed ρ rules e') ∧
    ∀ p, (Parser.ofRules rules).2 = .ok p →
      ∃ p', (Parser.ofRules (rules.map (Rule.rename ρ))).2 = .ok p' ∧ p.Renames p' ρ ∧
        ∀ (ε : Type) (read read' : OfToken V),
          (∀ token, read'.ofToken (token.rename ρ) = read.ofToken token) →
          ∀ skip budget (stream : List (Except ε Token)),
            (@Parser.run ε V read p skip budget stream).Renamed ρ p.grammar p'.grammar
              (@Parser.run ε V read' p' (skip.map ρ) budget
                (stream.map (Except.map (Token.rename ρ)))) := by
  constructor
  · intro e failed
    rcases ofRules_eq_error_iff.mp failed with compiled | ⟨g, compiled, conflict⟩
    · have allowed' : ∀ text, e ≠ .reservedSymbol text startSymbol := fun text same =>
        allowed text (same ▸ failed)
      obtain ⟨e', compiled', renamed⟩ := Grammar.exists_renamed fixes moved compiled allowed'
      exact ⟨e', ofRules_eq_error_iff.mpr (.inl compiled'), renamed⟩
    · obtain ⟨g', compiled', renames⟩ := Grammar.exists_renames fixes moved compiled
      obtain rfl := Grammar.ofRules_eq_ok_iff.mp compiled
      have agrees := renames.automaton
      rw [conflict] at agrees
      obtain ⟨e', conflict', renamed⟩ := agrees.of_error
      exact ⟨e', ofRules_eq_error_iff.mpr (.inr ⟨g', compiled', conflict'⟩), renamed⟩
  · intro p accepted
    obtain ⟨rfl, built⟩ := ofRules_ok_iff.mp accepted
    obtain ⟨g', compiled', renames⟩ :=
      Grammar.exists_renames fixes moved (ofRules_rules p.grammar)
    have agrees := renames.automaton
    rw [built] at agrees
    let p' : Parser V := ⟨g', p.automaton.rename ρ⟩
    have accepted' : (Parser.ofRules (p.grammar.rules.map (Rule.rename ρ))).2 = .ok p' :=
      ofRules_ok_iff.mpr ⟨Grammar.ofRules_eq_ok_iff.mp compiled', agrees.of_ok⟩
    have names : p.Renames p' ρ := ⟨renames, rfl⟩
    refine ⟨p', accepted', names, fun ε read read' alike skip budget stream => ?_⟩
    exact names.run alike built (Grammar.not_passesEnd unmentioned) skip budget stream

/-- The exchange of a name with that of the rule that begins every grammar. -/
def exchange (name : Symbol) : Symbol ↪ Symbol := (Equiv.swap startSymbol name).toEmbedding

/-- Powers, whose operator has the name of the rule that begins every grammar. -/
def powers : Grammar String where
  rules := [
    ⟨⟨"P", ["P", "^", "n"]⟩, fun vs => .ok ("(" ++ vs.getD 0 "" ++ " ^ " ++ vs.getD 2 "" ++ ")")⟩,
    ⟨⟨"P", ["n"]⟩, fun vs => .ok (vs.getD 0 "")⟩]
  rules_ne_nil := List.cons_ne_nil _ _
  faultless := by decide

def powersParser : Parser String := ⟨powers, powers.automaton.2.toOption.getD ⟨[]⟩⟩

set_option maxRecDepth 100000 in
theorem built_powers : powersParser.Built := by
  rw [Built]
  decide +kernel

theorem names_irrelevant_powers :
    exchange "n" endSymbol = endSymbol ∧
      (∀ rule ∈ powers.rules, endSymbol ∉ rule.predicate) ∧
      (∀ rule ∈ powers.rules, exchange "n" rule.subject ≠ startSymbol) ∧
      (∀ text, (Parser.ofRules powers.rules).2 ≠ .error (.reservedSymbol text startSymbol)) ∧
      ∃ p', (Parser.ofRules (powers.rules.map (Rule.rename (exchange "n")))).2 = .ok p' ∧
        powersParser.Renames p' (exchange "n") ∧
        ∀ (ε : Type) skip budget (stream : List (Except ε Token)),
          (powersParser.run skip budget stream).Renamed (exchange "n") powers p'.grammar
            (p'.run (skip.map (exchange "n")) budget
              (stream.map (Except.map (Token.rename (exchange "n"))))) := by
  have accepted : (Parser.ofRules powers.rules).2 = .ok powersParser :=
    ofRules_ok_iff.mpr ⟨rfl, built_powers⟩
  have fixes : exchange "n" endSymbol = endSymbol := by decide
  have unmentioned : ∀ rule ∈ powers.rules, endSymbol ∉ rule.predicate := by decide
  have moved : ∀ rule ∈ powers.rules, exchange "n" rule.subject ≠ startSymbol := by decide
  have allowed : ∀ text, (Parser.ofRules powers.rules).2 ≠
      .error (.reservedSymbol text startSymbol) := fun text failed => by
    cases accepted.symm.trans failed
  obtain ⟨_, same⟩ := names_irrelevant fixes unmentioned moved allowed
  obtain ⟨p', accepted', renames, runs⟩ := same powersParser accepted
  exact ⟨fixes, unmentioned, moved, allowed, p', accepted', renames, fun ε skip budget stream =>
    runs ε inferInstance inferInstance (fun _ => rfl) skip budget stream⟩

/-- A rule whose subject has the reserved name. -/
def reserved : List (Rule String) := [⟨⟨"^", ["a"]⟩, fun vs => .ok (vs.getD 0 "")⟩]

set_option maxRecDepth 100000 in
theorem reserved_subject_refused :
    exchange "x" endSymbol = endSymbol ∧ (∀ rule ∈ reserved, endSymbol ∉ rule.predicate) ∧
      (∀ rule ∈ reserved, exchange "x" rule.subject ≠ startSymbol) ∧
      (Parser.ofRules reserved).2 = .error (.reservedSymbol "^ → a" "^") ∧
      ∃ p', (Parser.ofRules (reserved.map (Rule.rename (exchange "x")))).2 = .ok p' := by
  have refused : (reserved.findSome? fun rule => rule.fault?) =
      some (.reservedSymbol "^ → a" "^") := by decide +kernel
  refine ⟨by decide, by decide, by decide, ?_, ?_⟩
  · refine ofRules_eq_error_iff.mpr (.inl (Grammar.ofRules_eq_error_iff.mpr (.inr ⟨?_, refused⟩)))
    exact List.cons_ne_nil _ _
  · let g : Grammar String :=
      ⟨reserved.map (Rule.rename (exchange "x")), List.cons_ne_nil _ _, by decide⟩
    let p' : Parser String := ⟨g, g.automaton.2.toOption.getD ⟨[]⟩⟩
    have built : p'.Built := by
      rw [Built]
      decide +kernel
    exact ⟨p', ofRules_ok_iff.mpr ⟨rfl, built⟩⟩

end Parser

end ShiftFirst
