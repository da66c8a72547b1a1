import ShiftFirst.Proofs.Formula.Safety
import ShiftFirst.Proofs.Trace.History
import ShiftFirst.Proofs.Trace.Telling

namespace ShiftFirst

/-- Where work is done: the registries, whose listeners may take part in what goes on, the number
of the one that the work emits on, and the log. -/
structure World where
  exchange : Exchange
  trace : Nat
  log : Log.Filter
  records : List Log.Record := []

namespace World

/-- Emits a message, unless nobody would take notice of it. What listeners emit at it is logged
like the message itself. -/
def emit (channel : Channel) (text : Unit → String) (w : World) : World :=
  let x := (w.exchange.emit w.trace w.log channel [] (text ())).2
  let emitted := x.emitted.drop w.exchange.emitted.length
  { w with
    exchange := x
    records := w.records ++ emitted.flatMap fun (c, message) => w.log.message c fun _ => message }

def write (records : List Log.Record) (w : World) : World :=
  { w with records := w.records ++ records }

end World

variable {ε V : Type}

def Grammar.tellWorld (g : Grammar V) (e : BuildEvent) : World → World :=
  World.emit .grammar fun _ => g.eventText e

def Parser.tellWorld (p : Parser V) (pulled : Log.Filter → Except ε Token → List Log.Record) :
    Entry ε → World → World
  | .pulled item => fun w => w.write (pulled w.log item)
  | .event e => World.emit .parse fun _ => p.eventText e

namespace Parser

/-- The parser of the given rules, made in a world. -/
def ofRulesIn (rules : List (Rule V)) : StateM World (Except GrammarError (Parser V)) :=
  match Grammar.ofRules rules with
  | .error e => return .error e
  | .ok g => do return (← g.automatonTelling g.tellWorld).map (Parser.mk g)

def newIn (rules : List (Rule V)) : StateM World (Except GrammarError (Parser V)) := do
  match ← ofRulesIn rules with
  | .error e => return .error e
  | .ok p =>
    modify fun w => w.write (w.log.built p.automaton.size p.grammar.ruleCount)
    return .ok p

/-- Replaces the rules of a parser. If they make no parser, it stays as it is. -/
def setRulesIn (p : Parser V) (rules : List (Rule V)) :
    StateM World (Except GrammarError Unit × Parser V) := do
  match ← ofRulesIn rules with
  | .error e => return (.error e, p)
  | .ok p => return (.ok (), p)

def runIn [OfToken V] (p : Parser V) (skip : List Symbol) (budget : Nat)
    (pulled : Log.Filter → Except ε Token → List Log.Record) (stream : List (Except ε Token)) :
    StateM World (Option (Ending ε V)) :=
  p.runTelling (p.tellWorld pulled) skip budget stream

end Parser

/-- The value of a formula, if its run ends. -/
def Formula.evalIn (f : Formula) (source : String) :
    StateM World (Option (Except FormulaError Value)) := do
  let stream := f.lexer.tokens source
  match ← f.session.parser.runIn [whitespace] (f.budget stream) Log.Filter.matched stream with
  | none => return none
  | some ending =>
    match ending.value with
    | .error e => return some (.error (.ofFailure e))
    | .ok value =>
      modify fun w => w.write (w.log.evaluated source value.display)
      return some (.ok value)

namespace Parser

theorem ofRulesIn_eq (rules : List (Rule V)) (w : World) :
    (ofRulesIn rules w).1 = (Parser.ofRules rules).2 := by
  unfold ofRulesIn Parser.ofRules
  cases Grammar.ofRules rules with
  | error e => rfl
  | ok g =>
    have built := congrArg Prod.fst (g.automatonTelling_eq g.tellWorld w)
    exact congrArg (Except.map (Parser.mk g)) built

theorem newIn_eq (rules : List (Rule V)) (w : World) :
    (newIn rules w).1 = (Parser.ofRules rules).2 := by
  rw [newIn, StateM.bind_apply, ofRulesIn_eq]
  cases (Parser.ofRules rules).2 <;> rfl

theorem setRulesIn_eq (p : Parser V) (rules : List (Rule V)) (w : World) :
    (p.setRulesIn rules w).1 =
      match (Parser.ofRules rules).2 with
      | .error e => (.error e, p)
      | .ok p => (.ok (), p) := by
  rw [setRulesIn, StateM.bind_apply, ofRulesIn_eq]
  cases (Parser.ofRules rules).2 <;> rfl

theorem runIn_eq [OfToken V] (p : Parser V) (skip : List Symbol) (budget : Nat)
    (pulled : Log.Filter → Except ε Token → List Log.Record) (stream : List (Except ε Token))
    (w : World) :
    (p.runIn skip budget pulled stream w).1 = some (p.run skip budget stream) := by
  rw [runIn, runTelling_eq]

end Parser

theorem Formula.evalIn_eq (f : Formula) (source : String) (w : World) :
    (f.evalIn source w).1 = some (f.eval? source) := by
  rw [evalIn, eval?, answer_eval, StateM.bind_apply, Parser.runIn_eq]
  dsimp only
  cases Ending.value (f.session.parser.run [whitespace] (f.budget (f.lexer.tokens source))
    (f.lexer.tokens source)) <;> rfl

section Passive

/-- The listeners of a world do nothing but hear, and they are those of an audience. -/
structure World.Hosts (w : World) (a : Audience) : Prop where
  passive : ∀ script ∈ w.exchange.scripts, script = []
  trace : w.exchange.registry w.trace = a.trace
  log : w.log = a.log

/-- A world has come to hear some messages, and to keep some records. -/
structure World.Reports (a : Audience) (w w' : World) (heard : List (Nat × String))
    (records : List Log.Record) : Prop where
  hosts : w'.Hosts a
  heard : w'.exchange.heard = w.exchange.heard ++ heard
  records : w'.records = w.records ++ records

variable {a : Audience} {w w' w'' : World}

/-- The listeners of a channel of a registry do nothing but hear. -/
def Exchange.Idle (x : Exchange) (t : Nat) (channel : Channel) : Prop :=
  ∀ listener ∈ (x.registry t).audience channel, x.scripts[listener]?.getD [] = []

theorem Exchange.idle_of_passive {x : Exchange} (passive : ∀ script ∈ x.scripts, script = [])
    (t : Nat) (channel : Channel) : x.Idle t channel := by
  intro listener _
  cases hs : x.scripts[listener]? with
  | none => rfl
  | some script => exact passive script (List.mem_of_getElem? hs)

theorem Exchange.hand_idle {x : Exchange} {listener : Nat}
    (idle : x.scripts[listener]?.getD [] = []) (message : String) :
    x.hand listener message = ([], { x with heard := x.heard ++ [(listener, message)] }) := by
  unfold hand
  split
  next acts rest hs => simp [hs] at idle
  next => rfl

theorem Exchange.settle_deliver {x : Exchange} {listeners : List Nat}
    (idle : ∀ listener ∈ listeners, x.scripts[listener]?.getD [] = []) (log : Log.Filter)
    (t : Nat) (message : String) :
    settle log t x (listeners.map (.deliver · message)) =
      { x with heard := x.heard ++ listeners.map (·, message) } := by
  induction listeners generalizing x with
  | nil => simp [settle_nil]
  | cons listener listeners ih =>
    obtain ⟨here, there⟩ := List.forall_mem_cons.mp idle
    rw [List.map_cons, settle_cons, perform, hand_idle here]
    have later := ih (x := { x with heard := x.heard ++ [(listener, message)] }) there
    simpa using later

theorem Exchange.emit_idle {x : Exchange} {t : Nat} {channel : Channel}
    (idle : x.Idle t channel) (log : Log.Filter) (message : String) :
    (x.emit t log channel [] message).2 =
      if Audience.listens ⟨x.registry t, log⟩ channel then
        { x with
          heard := x.heard ++ ((x.registry t).audience channel).map (·, message)
          emitted := x.emitted ++ [(channel, message)] }
      else x := by
  rw [emit_eq, apply_ite Prod.snd]
  refine if_congr Iff.rfl ?_ rfl
  rw [List.foldl_nil, settle_cons, perform, summon, List.append_nil]
  exact settle_deliver (x := { x with emitted := x.emitted ++ [(channel, message)] })
    idle log t message

namespace World

theorem Hosts.emit (h : w.Hosts a) (channel : Channel) (text : Unit → String) :
    Reports a w (w.emit channel text) (a.hear channel text) (a.log.message channel text) := by
  obtain ⟨passive, trace, log⟩ := h
  have done := Exchange.emit_idle (Exchange.idle_of_passive passive w.trace channel)
    w.log (text ())
  rw [trace] at done
  unfold World.emit Audience.hear
  rw [done]
  split
  next =>
    refine ⟨⟨passive, trace, log⟩, rfl, ?_⟩
    simp [log]
  next nobody =>
    obtain ⟨unlogged, silent⟩ := Bool.or_eq_false_iff.mp (Bool.not_eq_true _ ▸ nobody)
    rw [log] at unlogged
    rw [Bool.eq_false_iff, ne_eq, Registry.hears_iff, not_not] at silent
    refine ⟨⟨passive, trace, log⟩, ?_, ?_⟩
    · rw [silent]
      exact (List.append_nil _).symm
    · simp [Log.Filter.message, Log.Filter.keep, unlogged]

theorem Reports.trans {heard heard' : List (Nat × String)} {records records' : List Log.Record}
    (h : Reports a w w' heard records) (h' : Reports a w' w'' heard' records') :
    Reports a w w'' (heard ++ heard') (records ++ records') where
  hosts := h'.hosts
  heard := by rw [h'.heard, h.heard, List.append_assoc]
  records := by rw [h'.records, h.records, List.append_assoc]

theorem Hosts.write (h : w.Hosts a) (records : List Log.Record) :
    Reports a w (w.write records) [] records :=
  ⟨⟨h.passive, h.trace, h.log⟩, (List.append_nil _).symm, rfl⟩

theorem Hosts.foldl {E : Type} {tell : E → World → World} {heard : E → List (Nat × String)}
    {records : E → List Log.Record}
    (each : ∀ e {w : World}, w.Hosts a → Reports a w (tell e w) (heard e) (records e))
    (h : w.Hosts a) (events : List E) :
    Reports a w (events.foldl (fun w e => tell e w) w) (events.flatMap heard)
      (events.flatMap records) := by
  induction events generalizing w with
  | nil => exact ⟨h, (List.append_nil _).symm, (List.append_nil _).symm⟩
  | cons e events ih => exact (each e h).trans (ih (each e h).hosts)

end World

/-- Where listeners do nothing but hear, those of a world hear of the work in it what a session
reports of it, and the log keeps the same records. -/
theorem World.Hosts.reports [OfToken V] (h : w.Hosts a) (rules : List (Rule V)) (p : Parser V)
    (skip : List Symbol) (budget : Nat)
    (pulled : Log.Filter → Except ε Token → List Log.Record) (stream : List (Except ε Token)) :
    Reports a w (Parser.ofRulesIn rules w).2 (Session.build rules a).heard
        (Session.build rules a).records ∧
      Reports a w (p.runIn skip budget pulled stream w).2
        (Session.run ⟨p, a.trace⟩ a.log ⟨skip, budget, pulled a.log⟩ stream).heard
        (Session.run ⟨p, a.trace⟩ a.log ⟨skip, budget, pulled a.log⟩ stream).records := by
  constructor
  · unfold Parser.ofRulesIn Session.build
    cases Grammar.ofRules rules with
    | error e => exact ⟨h, (List.append_nil _).symm, (List.append_nil _).symm⟩
    | ok g =>
      have done : (g.automatonTelling g.tellWorld w).2 =
          g.automaton.1.foldl (fun w e => g.tellWorld e w) w :=
        congrArg Prod.snd (g.automatonTelling_eq g.tellWorld w)
      change Reports a w (g.automatonTelling g.tellWorld w).2 _ _
      rw [done]
      exact Hosts.foldl (fun e _ h => h.emit .grammar fun _ => g.eventText e) h g.automaton.1
  · rw [Parser.runIn, Parser.runTelling_eq]
    refine Hosts.foldl (fun e w h => ?_) h _
    cases e with
    | pulled item =>
      rw [← h.log]
      exact h.write _
    | event e => exact h.emit .parse fun _ => p.eventText e

end Passive

end ShiftFirst
