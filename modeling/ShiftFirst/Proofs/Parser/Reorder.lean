import ShiftFirst.Proofs.Automaton.Reorder
import ShiftFirst.Proofs.Parser.Viable

namespace ShiftFirst

variable {ε V : Type}

/-- Errors are the same, up to the order of the names they list and the number of a state. -/
inductive ParseError.Alike (f : Equiv.Perm StateId) : ParseError → ParseError → Prop
  | unexpectedToken (name : Symbol) (value : String) (position : Nat)
      {expected expected' : List Symbol} (perm : expected.Perm expected') :
      Alike f (.unexpectedToken name value position expected)
        (.unexpectedToken name value position expected')
  | unexpectedEnd {expected expected' : List Symbol} (perm : expected.Perm expected') :
      Alike f (.unexpectedEnd expected) (.unexpectedEnd expected')
  | reduction (rule : String) (position : Nat) (source : ReduceError) :
      Alike f (.reduction rule position source) (.reduction rule position source)
  | missingGoto (q : StateId) (symbol : Symbol) :
      Alike f (.missingGoto q symbol) (.missingGoto (f q) symbol)
  | emptyStack : Alike f .emptyStack .emptyStack

/-- Outcomes are the same value and counts, or alike errors. -/
inductive Outcome.Alike (f : Equiv.Perm StateId) :
    Except (Failure ε) (V × Stats) → Except (Failure ε) (V × Stats) → Prop
  | ok (result : V × Stats) : Alike f (.ok result) (.ok result)
  | input (e : ε) : Alike f (.error (.input e)) (.error (.input e))
  | parse {e e' : ParseError} (alike : e.Alike f e') :
      Alike f (.error (.parse e)) (.error (.parse e'))

def ParseEvent.renumber (σ : Equiv.Perm RuleId) (f : Equiv.Perm StateId) : ParseEvent → ParseEvent
  | .begun => .begun
  | .lookahead token => .lookahead token
  | .current q => .current (f q)
  | .shifting target => .shifting (f target)
  | .reducing r => .reducing (σ r)
  | .back q => .back (f q)
  | .accepted => .accepted

def Entry.renumber (σ : Equiv.Perm RuleId) (f : Equiv.Perm StateId) : Entry ε → Entry ε
  | .pulled item => .pulled item
  | .event e => .event (e.renumber σ f)

def Frame.renumber (f : Equiv.Perm StateId) (frame : Frame V) : Frame V :=
  { frame with state := f frame.state }

/-- What a reduction leaves in a run on states with other numbers. -/
def Reduced.renumber (f : Equiv.Perm StateId) (reduced : Reduced V) : Reduced V :=
  { reduced with below := reduced.below.map (Frame.renumber f) }

/-- A configuration of a run on rules and states with other numbers. -/
def Config.renumber (σ : Equiv.Perm RuleId) (f : Equiv.Perm StateId) (c : Config ε V) :
    Config ε V :=
  { c with
    frames := c.frames.map (Frame.renumber f)
    journal := c.journal.map (Entry.renumber σ f) }

def Ending.renumber (σ : Equiv.Perm RuleId) (f : Equiv.Perm StateId) (ending : Ending ε V) :
    Ending ε V :=
  { ending with journal := ending.journal.map (Entry.renumber σ f) }

/-- Two runs end with alike outcomes and have told the same, up to numbers. -/
structure Ending.Alike (σ : Equiv.Perm RuleId) (f : Equiv.Perm StateId)
    (ending ending' : Ending ε V) : Prop where
  outcome : Outcome.Alike f ending.outcome ending'.outcome
  journal : ending'.journal = ending.journal.map (Entry.renumber σ f)

namespace Parser

variable {p p' : Parser V} {σ : Equiv.Perm RuleId} {f : Equiv.Perm StateId} {skip : List Symbol}
  {c c' : Config ε V} {ending : Ending ε V}

/-- Two parsers are the same, up to the numbers of their rules and states. -/
structure Corresponds (p p' : Parser V) (σ : Equiv.Perm RuleId) (f : Equiv.Perm StateId) :
    Prop where
  grammar : p.grammar.Reorders p'.grammar σ
  automaton : p.automaton.Corresponds p'.automaton σ f

theorem pull_renumber (stream : List (Except ε Token)) (journal : List (Entry ε)) :
    pull skip (c.renumber σ f) stream (journal.map (Entry.renumber σ f)) =
      ((pull skip c stream journal).map (Config.renumber σ f)).mapError
        (Ending.renumber σ f) := by
  induction stream generalizing journal with
  | nil => rfl
  | cons item rest ih =>
    cases item with
    | error e => rfl
    | ok token =>
      simp only [pull]
      split
      next => exact ih (.pulled (.ok token) :: journal)
      next => rfl

theorem look_renumber (σ : Equiv.Perm RuleId) (f : Equiv.Perm StateId) (skip : List Symbol)
    (c : Config ε V) :
    look skip (c.renumber σ f) =
      ((look skip c).map (Config.renumber σ f)).mapError (Ending.renumber σ f) := by
  by_cases idle : c.lookahead.isNone ∧ !c.exhausted
  · rw [look, look, if_pos idle]
    exact (if_pos idle).trans (pull_renumber c.stream c.journal)
  · rw [look, look, if_neg idle]
    exact if_neg idle

theorem alike_of_popFrames {r : RuleId} {e : ParseError} (h : p.popFrames c r = .error e) :
    e.Alike f e := by
  rcases popFrames_error h with ⟨rfl, _⟩ | ⟨source, rfl, _⟩
  · exact .emptyStack
  · exact .reduction _ _ source

namespace Corresponds

variable (h : p.Corresponds p' σ f)
include h

theorem topState (frames : List (Frame V)) :
    ShiftFirst.topState ((frames.map (Frame.renumber f)).map Frame.state) =
      f (ShiftFirst.topState (frames.map Frame.state)) := by
  cases frames with
  | nil => exact h.automaton.start.symm
  | cons frame frames => rfl

theorem top (c : Config ε V) : (c.renumber σ f).top = f c.top := by
  rw [Config.top_eq, Config.top_eq]
  exact h.topState c.frames

theorem popFrames (c : Config ε V) (r : RuleId) :
    p'.popFrames (c.renumber σ f) (σ r) = (p.popFrames c r).map (Reduced.renumber f) := by
  have values : ∀ frames : List (Frame V),
      (frames.map (Frame.renumber f)).map Frame.value = frames.map Frame.value := fun frames => by
    rw [List.map_map]
    rfl
  have position : ∀ frames : List (Frame V),
      (((frames.map (Frame.renumber f)).head?).elim 0 Frame.position) =
        ((frames.head?).elim 0 Frame.position) := fun frames => by
    cases frames <;> rfl
  unfold Parser.popFrames
  simp only [h.grammar.production, h.grammar.ruleText, h.grammar.reduceWithin, Config.renumber,
    List.length_map, ← List.map_take, ← List.map_drop, ← List.map_reverse, values, position]
  split
  next => rfl
  next => split <;> rfl

theorem reducedTo (c : Config ε V) (r : RuleId) (reduced : Reduced V) (target : StateId) :
    Parser.reducedTo (c.renumber σ f) (σ r) (reduced.renumber f) (f target) =
      (Parser.reducedTo c r reduced target).renumber σ f := by
  have top := h.top { c.note (.reducing r) with
    frames := reduced.below, budget := reduced.budget }
  unfold Parser.reducedTo
  refine congrArg (fun q => Config.mk _ _ _ _ _ _ (.event (.back q) :: _)) ?_
  exact top

theorem shift? (c : Config ε V) :
    p'.shift? (c.renumber σ f) = (p.shift? c).map fun shift => (shift.1, f shift.2) := by
  refine Option.ext fun ⟨token, target'⟩ => ?_
  rw [shift?_eq_some_iff, h.top, h.automaton.transition, Option.map_eq_some_iff,
    Option.map_eq_some_iff]
  constructor
  · rintro ⟨ahead, target, edge, rfl⟩
    exact ⟨(token, target), shift?_eq_some_iff.mpr ⟨ahead, edge⟩, rfl⟩
  · rintro ⟨⟨token, target⟩, shift, same⟩
    obtain ⟨rfl, rfl⟩ := Prod.mk.inj same
    obtain ⟨ahead, edge⟩ := shift?_eq_some_iff.mp shift
    exact ⟨ahead, target, edge, rfl⟩

theorem expected (built : p.Built) (built' : p'.Built) (q : StateId) :
    (p.expected q).Perm (p'.expected (f q)) := by
  refine (List.perm_ext_iff_of_nodup (nodup_expected built q) (nodup_expected built' (f q))).mpr
    fun symbol => ?_
  rw [mem_expected, mem_expected, h.automaton.transition, h.grammar.isNonterminal,
    Option.isSome_map]

theorem reject (built : p.Built) (built' : p'.Built) (c : Config ε V) :
    (p.reject c).Alike f (p'.reject (c.renumber σ f)) := by
  have expected := h.expected built built' c.top
  rw [← h.top] at expected
  cases ahead : c.lookahead with
  | none =>
    rw [Parser.reject, Parser.reject, ahead, show (c.renumber σ f).lookahead = none from ahead]
    exact .unexpectedEnd expected
  | some token =>
    rw [Parser.reject, Parser.reject, ahead,
      show (c.renumber σ f).lookahead = some token from ahead]
    exact .unexpectedToken _ _ _ expected

theorem finish (c : Config ε V) : (p.finish c).Alike σ f (p'.finish (c.renumber σ f)) := by
  have popped := h.popFrames c 0
  rw [h.grammar.begins] at popped
  rw [Parser.finish, Parser.finish, popped]
  cases hp : p.popFrames c 0 with
  | error e => exact ⟨.parse (alike_of_popFrames hp), rfl⟩
  | ok reduced => exact ⟨.ok _, rfl⟩

theorem reduceStep (c : Config ε V) (r : RuleId) :
    Sum.LiftRel (Ending.Alike σ f) (fun next next' => next' = next.renumber σ f)
      (p.reduceStep c r) (p'.reduceStep (c.renumber σ f) (σ r)) := by
  have popped := h.popFrames c r
  cases hp : p.popFrames c r with
  | error e =>
    rw [hp] at popped
    rw [reduceStep_of_error hp, reduceStep_of_error popped]
    exact .inl ⟨.parse (alike_of_popFrames hp), rfl⟩
  | ok reduced =>
    rw [hp] at popped
    rw [reduceStep_of_popFrames hp, reduceStep_of_popFrames popped, Reduced.renumber, h.topState,
      h.grammar.production, h.automaton.transition]
    cases p.automaton.transition? (ShiftFirst.topState (reduced.below.map Frame.state))
        (p.grammar.production r).subject with
    | none => exact .inl ⟨.parse (.missingGoto _ _), rfl⟩
    | some target =>
      exact .inr (h.reducedTo c r reduced target)

variable [OfToken V] (built : p.Built) (built' : p'.Built)
include built built'

theorem act (c : Config ε V) :
    Sum.LiftRel (Ending.Alike σ f) (fun next next' => next' = next.renumber σ f)
      (p.act c) (p'.act (c.renumber σ f)) := by
  have noted : (c.renumber σ f).note (.current (f c.top)) =
      (c.note (.current c.top)).renumber σ f := rfl
  have shift := h.shift? (c.note (.current c.top))
  rw [Parser.act, Parser.act, h.top, noted, shift]
  cases p.shift? (c.note (.current c.top)) with
  | some shift => exact .inr rfl
  | none =>
    simp only [Option.map_none, h.top, h.automaton.reduction]
    cases (p.automaton.state (c.note (.current c.top)).top).reduction with
    | none => exact .inl ⟨.parse (h.reject built built' _), rfl⟩
    | some r => exact h.reduceStep (c.note (.current c.top)) r

/-- A step of the one run is a step of the other, up to numbers. -/
theorem step (skip : List Symbol) (c : Config ε V) :
    Sum.LiftRel (Ending.Alike σ f) (fun next next' => next' = next.renumber σ f)
      (p.step skip c) (p'.step skip (c.renumber σ f)) := by
  have accepts : (c.renumber σ f).top = Automaton.accept ↔ c.top = Automaton.accept := by
    rw [h.top]
    exact f.injective.eq_iff' h.automaton.accept
  by_cases top : c.top = Automaton.accept
  · rw [step_accept top, step_accept (accepts.mpr top)]
    exact .inl (h.finish c)
  · have top' := mt accepts.mp top
    have look := look_renumber σ f skip c
    cases hl : Parser.look skip c with
    | error ending =>
      rw [hl] at look
      rw [step_look_error top hl, step_look_error top' look]
      obtain ⟨e, failed⟩ := look_error hl
      refine .inl ⟨?_, rfl⟩
      rw [Ending.renumber, failed]
      exact .input e
    | ok looked =>
      rw [hl] at look
      rw [step_look top hl, step_look top' look]
      exact h.act built built' looked

theorem run (skip : List Symbol) (budget : Nat) (stream : List (Except ε Token)) :
    (p.run skip budget stream).Alike σ f (p'.run skip budget stream) := by
  obtain ⟨ending, ends, run⟩ := p.run_ends skip budget stream
  have renumbered : (Config.initial budget stream : Config ε V) =
      (Config.initial budget stream).renumber σ f := rfl
  obtain ⟨ending', ends', alike⟩ := ends.simulated (R := fun c c' => c' = c.renumber σ f)
    (fun {c c'} related => related ▸ h.step built built' skip c) renumbered
  rw [run, run_eq ends']
  exact ⟨alike.outcome, by rw [alike.journal, List.map_reverse]⟩

end Corresponds

theorem exists_ofRules_of_perm {rules rules' : List (Rule V)} (perm : rules.Perm rules')
    (first : (rules.head?).map (·.subject) = (rules'.head?).map (·.subject))
    (accepted : ∃ p, (Parser.ofRules rules).2 = .ok p) :
    ∃ p', (Parser.ofRules rules').2 = .ok p' := by
  obtain ⟨p, accepted⟩ := accepted
  obtain ⟨rfl, built⟩ := ofRules_ok_iff.mp accepted
  let g' : Grammar V :=
    ⟨rules', fun none => p.grammar.rules_ne_nil (List.perm_nil.mp (none ▸ perm)),
      fun rule mem => p.grammar.faultless rule (perm.mem_iff.mpr mem)⟩
  obtain ⟨σ, reorders⟩ : ∃ σ, p.grammar.Reorders g' σ := Grammar.exists_reorders perm first
  obtain ⟨a', built'⟩ := reorders.exists_automaton built
  exact ⟨⟨g', a'⟩, ofRules_ok_iff.mpr ⟨rfl, built'⟩⟩

/-- The order of the rules does not matter, but for the subject of the first one: the rules are
accepted in the one order if they are in the other, their states correspond, and their runs over
any stream end alike. -/
theorem order_irrelevant [OfToken V] {rules rules' : List (Rule V)} (perm : rules.Perm rules')
    (first : (rules.head?).map (·.subject) = (rules'.head?).map (·.subject)) :
    ((∃ p, (Parser.ofRules rules).2 = .ok p) ↔ ∃ p', (Parser.ofRules rules').2 = .ok p') ∧
    ∀ p p', (Parser.ofRules rules).2 = .ok p → (Parser.ofRules rules').2 = .ok p' →
      ∃ σ f, p.Corresponds p' σ f ∧ ∀ (ε : Type) skip budget (stream : List (Except ε Token)),
        (p.run skip budget stream).Alike σ f (p'.run skip budget stream) := by
  refine ⟨⟨exists_ofRules_of_perm perm first, exists_ofRules_of_perm perm.symm first.symm⟩,
    fun p p' accepted accepted' => ?_⟩
  obtain ⟨rfl, built⟩ := ofRules_ok_iff.mp accepted
  obtain ⟨rfl, built'⟩ := ofRules_ok_iff.mp accepted'
  obtain ⟨σ, reorders⟩ := Grammar.exists_reorders perm first
  obtain ⟨f, corresponds⟩ := reorders.exists_corresponds built.canonical built'.canonical
  have same : p.Corresponds p' σ f := ⟨reorders, corresponds⟩
  exact ⟨σ, f, same, fun ε skip budget stream => same.run built built' skip budget stream⟩

theorem order_irrelevant_sums :
    ∃ p', (Parser.ofRules [sums.rules[1], sums.rules[0], sums.rules[2], sums.rules[3]]).2 = .ok p' ∧
      ∃ σ f, sumsParser.Corresponds p' σ f ∧
        ∀ (ε : Type) skip budget (stream : List (Except ε Token)),
          (sumsParser.run skip budget stream).Alike σ f (p'.run skip budget stream) := by
  have perm : sums.rules.Perm [sums.rules[1], sums.rules[0], sums.rules[2], sums.rules[3]] :=
    .swap _ _ _
  have accepted := ofRules_ok_iff.mpr ⟨rfl, built_sums⟩
  obtain ⟨both, same⟩ := order_irrelevant perm rfl
  obtain ⟨p', accepted'⟩ := both.mp ⟨sumsParser, accepted⟩
  exact ⟨p', accepted', same sumsParser p' accepted accepted'⟩

end Parser

end ShiftFirst
