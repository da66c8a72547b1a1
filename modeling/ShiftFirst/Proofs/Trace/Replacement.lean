import ShiftFirst.Proofs.Parser.Soundness
import ShiftFirst.Proofs.Trace.World

namespace ShiftFirst

section Turns

variable {σ C R : Type} (reply : C → StateM σ R)

/-- Makes one call after another, and notes each with the reply to it. -/
def inTurn (calls : List C) : StateM σ (List (C × R)) :=
  calls.mapM fun call => do return (call, ← reply call)

theorem inTurn_nil (s : σ) : inTurn reply [] s = ([], s) := by
  rw [inTurn, List.mapM_nil]
  rfl

theorem inTurn_cons (call : C) (calls : List C) (s : σ) :
    inTurn reply (call :: calls) s =
      ((call, (reply call s).1) :: (inTurn reply calls (reply call s).2).1,
        (inTurn reply calls (reply call s).2).2) := by
  rw [inTurn, List.mapM_cons]
  rfl

variable {reply} {P : List (C × R) → σ → Prop}

/-- What each call preserves, of a state and of what has been noted, holds after all of them. -/
theorem inTurn_induction
    (step : ∀ past s call, P past s → P (past ++ [(call, (reply call s).1)]) (reply call s).2)
    (calls : List C) {s : σ} (h : P [] s) :
    P (inTurn reply calls s).1 (inTurn reply calls s).2 := by
  suffices later : ∀ past s, P past s →
      P (past ++ (inTurn reply calls s).1) (inTurn reply calls s).2 from later [] s h
  clear h
  induction calls with
  | nil =>
    intro past s h
    rwa [inTurn_nil, List.append_nil]
  | cons call calls ih =>
    intro past s h
    have later := ih _ _ (step past s call h)
    rw [List.append_assoc] at later
    rwa [inTurn_cons]

/-- Each reply was given in a state that what had been noted by then tells of. -/
theorem exists_replied
    (step : ∀ past s call, P past s → P (past ++ [(call, (reply call s).1)]) (reply call s).2)
    {calls : List C} {s : σ} (h : P [] s) {before after : List (C × R)} {call : C} {r : R}
    (noted : (inTurn reply calls s).1 = before ++ (call, r) :: after) :
    ∃ s', P before s' ∧ (reply call s').1 = r := by
  suffices later : ∀ past s, P past s → ∀ before,
      (inTurn reply calls s).1 = before ++ (call, r) :: after →
        ∃ s', P (past ++ before) s' ∧ (reply call s').1 = r from later [] s h before noted
  clear noted h
  induction calls with
  | nil =>
    intro past s _ before noted
    rw [inTurn_nil] at noted
    simp at noted
  | cons first calls ih =>
    intro past s h before noted
    rw [inTurn_cons] at noted
    cases before with
    | nil =>
      cases (List.cons.inj noted).1
      exact ⟨s, by rwa [List.append_nil], rfl⟩
    | cons _ before =>
      obtain ⟨rfl, behind⟩ := List.cons.inj noted
      obtain ⟨s', holds, replied⟩ := ih _ _ (step past s first h) before behind
      rw [List.append_assoc] at holds
      exact ⟨s', holds, replied⟩

end Turns

variable {Listener Handle ε V : Type}

namespace Parser

/-- What is asked of a parser in the course of time. -/
inductive Call (Listener Handle ε V : Type) where
  | setRules (rules : List (Rule V))
  | run (skip : List Symbol) (budget : Nat) (stream : List (Except ε Token))
  | subscribe (channel : Channel) (listener : Listener)
  | cancel (handle : Handle)

inductive Reply (Handle ε V : Type) where
  | replaced (result : Except GrammarError Unit)
  | ended (ending : Option (Ending ε V))
  | subscribed (handle : Handle)
  | cancelled (found : Option Bool)

/-- What the accepted rules are after a call. -/
def accept (rules : List (Rule V)) : Call Listener Handle ε V × Reply Handle ε V → List (Rule V)
  | (.setRules new, .replaced (.ok ())) => new
  | _ => rules

/-- The rules that were accepted last, where those at the beginning are given. -/
def lastAccepted (rules : List (Rule V))
    (past : List (Call Listener Handle ε V × Reply Handle ε V)) : List (Rule V) :=
  past.foldl accept rules

theorem lastAccepted_concat (rules : List (Rule V))
    (past : List (Call Listener Handle ε V × Reply Handle ε V))
    (noted : Call Listener Handle ε V × Reply Handle ε V) :
    lastAccepted rules (past ++ [noted]) = accept (lastAccepted rules past) noted :=
  List.foldl_concat accept rules noted past

section World

variable [OfToken V] (pulled : Log.Filter → Except ε Token → List Log.Record)

/-- What is asked of a parser in a world, whose listeners act by scripts. -/
def replyIn : Call Script Nat ε V → StateM (Parser V × World) (Reply Nat ε V)
  | .setRules rules => fun (p, w) =>
    let done := p.setRulesIn rules w
    (.replaced done.1.1, (done.1.2, done.2))
  | .run skip budget stream => fun (p, w) =>
    let done := p.runIn skip budget pulled stream w
    (.ended done.1, (p, done.2))
  | .subscribe channel script => fun (p, w) =>
    let (handle, x) := w.exchange.subscribe w.trace channel script
    (.subscribed handle, (p, { w with exchange := x }))
  | .cancel handle => fun (p, w) =>
    let (found, x) := w.exchange.cancel w.trace handle
    (.cancelled found, (p, { w with exchange := x }))

/-- No call parts a parser from the rules that were accepted last. -/
theorem ofRules_replyIn (rules : List (Rule V))
    (past : List (Call Script Nat ε V × Reply Nat ε V)) (s : Parser V × World)
    (call : Call Script Nat ε V) (made : (ofRules (lastAccepted rules past)).2 = .ok s.1) :
    (ofRules (lastAccepted rules (past ++ [(call, (replyIn pulled call s).1)]))).2 =
      .ok (replyIn pulled call s).2.1 := by
  obtain ⟨p, w⟩ := s
  rw [lastAccepted_concat]
  cases call with
  | setRules new =>
    dsimp only [replyIn]
    rw [p.setRulesIn_eq new w]
    cases built : (ofRules new).2 with
    | error e => exact made
    | ok q => exact built
  | run skip budget stream => exact made
  | subscribe channel script => exact made
  | cancel handle => exact made

end World

section Failure

/-- What a replacement of the rules does to the world is to tell it of the construction. -/
theorem world_setRulesIn (p : Parser V) (rules : List (Rule V)) (w : World) :
    (p.setRulesIn rules w).2 =
      match Grammar.ofRules rules with
      | .error _ => w
      | .ok g => g.automaton.1.foldl (fun w e => g.tellWorld e w) w := by
  have same : (p.setRulesIn rules w).2 = (ofRulesIn rules w).2 := by
    rw [setRulesIn, StateM.bind_apply]
    cases (ofRulesIn rules w).1 <;> rfl
  rw [same]
  unfold ofRulesIn
  cases Grammar.ofRules rules with
  | error e => rfl
  | ok g => exact congrArg Prod.snd (g.automatonTelling_eq g.tellWorld w)

theorem setRulesIn_error {p : Parser V} {rules : List (Rule V)} {w : World} {e : GrammarError}
    (failed : (p.setRulesIn rules w).1.1 = .error e) :
    (ofRules rules).2 = .error e ∧ (p.setRulesIn rules w).1.2 = p := by
  have result := p.setRulesIn_eq rules w
  rw [result] at failed ⊢
  cases built : (ofRules rules).2 with
  | error e' =>
    rw [built] at failed
    exact ⟨congrArg Except.error (Except.error.inj failed), rfl⟩
  | ok q =>
    rw [built] at failed
    cases failed

end Failure

end Parser

namespace Session

theorem answer_build (rules : List (Rule V)) (audience : Audience) :
    (build rules audience).answer = (Parser.ofRules rules).2 := by
  unfold build Parser.ofRules
  cases Grammar.ofRules rules <;> rfl

theorem answer_setRules (s : Session V) (rules : List (Rule V)) (log : Log.Filter) :
    (s.setRules rules log).answer =
      match (Parser.ofRules rules).2 with
      | .error e => (.error e, s)
      | .ok p => (.ok (), { s with parser := p }) := by
  have built := answer_build rules ⟨s.trace, log⟩
  unfold setRules
  dsimp only
  rw [built]
  cases (Parser.ofRules rules).2 <;> rfl

/-- A session takes over what a new session of the rules has, or the error, and in a world the
same is done. -/
theorem answer_setRules_eq_world (s : Session V) (rules : List (Rule V)) (log : Log.Filter)
    (w : World) :
    (s.setRules rules log).answer =
      ((s.parser.setRulesIn rules w).1.1, ⟨(s.parser.setRulesIn rules w).1.2, s.trace⟩) := by
  rw [answer_setRules, Parser.setRulesIn_eq]
  cases (Parser.ofRules rules).2 <;> rfl

theorem answer_setRules_eq_new (s : Session V) (rules : List (Rule V)) (log : Log.Filter) :
    (s.setRules rules log).answer =
      match (Session.new rules ⟨s.trace, log⟩).answer with
      | .error e => (.error e, s)
      | .ok anew => (.ok (), anew) := by
  rw [answer_setRules, answer_new]
  cases (Parser.ofRules rules).2 <;> rfl

section Calls

variable [OfToken V] (log : Log.Filter) (pulled : Except ε Token → List Log.Record)

/-- What is asked of a session, whose listeners are known by numbers. -/
def reply : Parser.Call Nat Subscription ε V → StateM (Session V) (Parser.Reply Subscription ε V)
  | .setRules rules => fun s =>
    let done := (s.setRules rules log).answer
    (.replaced done.1, done.2)
  | .run skip budget stream => fun s =>
    (.ended (some (s.run log ⟨skip, budget, pulled⟩ stream).answer), s)
  | .subscribe channel listener => fun s =>
    let (subscription, s) := s.subscribe channel listener
    (.subscribed subscription, s)
  | .cancel subscription => fun s =>
    let (found, s) := s.cancel subscription
    (.cancelled (some found), s)

/-- No call parts a session from the rules that were accepted last. -/
theorem ofRules_reply (rules : List (Rule V))
    (past : List (Parser.Call Nat Subscription ε V × Parser.Reply Subscription ε V))
    (s : Session V) (call : Parser.Call Nat Subscription ε V)
    (made : (Parser.ofRules (Parser.lastAccepted rules past)).2 = .ok s.parser) :
    (Parser.ofRules (Parser.lastAccepted rules (past ++ [(call, (reply log pulled call s).1)]))).2 =
      .ok (reply log pulled call s).2.parser := by
  rw [Parser.lastAccepted_concat]
  cases call with
  | setRules new =>
    change (Parser.ofRules (Parser.accept _ (.setRules new,
        .replaced (s.setRules new log).answer.1))).2 = .ok (s.setRules new log).answer.2.parser
    rw [answer_setRules]
    cases built : (Parser.ofRules new).2 with
    | error e => exact made
    | ok p => exact built
  | run skip budget stream => exact made
  | subscribe channel listener => exact made
  | cancel subscription => exact made

end Calls

end Session

namespace World

/-- In a world nothing but what has been heard, emitted and logged has changed. -/
def Hushed (w w' : World) : Prop :=
  ∃ heard emitted records,
    w' = { w with exchange := { w.exchange with heard := heard, emitted := emitted }
                  records := records }

theorem Hushed.idle {w w' : World} (h : w.Hushed w') {channel : Channel}
    (idle : w.exchange.Idle w.trace channel) : w'.exchange.Idle w'.trace channel := by
  obtain ⟨heard, emitted, records, rfl⟩ := h
  exact idle

theorem hushed_emit {w : World} {channel : Channel} (idle : w.exchange.Idle w.trace channel)
    (text : Unit → String) : w.Hushed (w.emit channel text) := by
  unfold emit
  rw [Exchange.emit_idle idle]
  split
  next => exact ⟨_, _, _, rfl⟩
  next => exact ⟨_, _, _, rfl⟩

theorem hushed_foldl {E : Type} {tell : E → World → World} {channel : Channel}
    (each : ∀ e {w : World}, w.exchange.Idle w.trace channel → w.Hushed (tell e w))
    {w : World} (idle : w.exchange.Idle w.trace channel) (events : List E) :
    w.Hushed (events.foldl (fun w e => tell e w) w) := by
  induction events generalizing w with
  | nil => exact ⟨_, _, _, rfl⟩
  | cons e events ih =>
    have first := each e idle
    obtain ⟨heard, emitted, records, rest⟩ := ih (first.idle idle)
    obtain ⟨_, _, _, first⟩ := first
    rw [first] at rest
    rw [List.foldl_cons, first, rest]
    exact ⟨heard, emitted, records, rfl⟩

end World

theorem Parser.hushed_setRulesIn (p : Parser V) (rules : List (Rule V)) {w : World}
    (idle : w.exchange.Idle w.trace .grammar) : w.Hushed (p.setRulesIn rules w).2 := by
  rw [p.world_setRulesIn rules w]
  cases Grammar.ofRules rules with
  | error e => exact ⟨_, _, _, rfl⟩
  | ok g => exact World.hushed_foldl (fun e _ idle => World.hushed_emit idle _) idle _

namespace Parser

section Past

variable [OfToken V] {rules : List (Rule V)} {p : Parser V}

/-- A run in the past went as runs of the parser do that the rules accepted by then make. -/
theorem run_replied (made : (ofRules rules).2 = .ok p)
    {pulled : Log.Filter → Except ε Token → List Log.Record} {calls : List (Call Script Nat ε V)}
    {w : World} {before after : List (Call Script Nat ε V × Reply Nat ε V)} {skip : List Symbol}
    {budget : Nat} {stream : List (Except ε Token)} {reply : Reply Nat ε V}
    (noted : (inTurn (replyIn pulled) calls (p, w)).1 =
      before ++ (.run skip budget stream, reply) :: after) :
    ∃ fresh : Parser V, (ofRules (lastAccepted rules before)).2 = .ok fresh ∧
      reply = .ended (some (fresh.run skip budget stream)) := by
  have each := ofRules_replyIn (ε := ε) pulled rules
  obtain ⟨⟨fresh, v⟩, anew, replied⟩ := exists_replied (s := (p, w)) each made noted
  refine ⟨fresh, anew, ?_⟩
  rw [← replied, ← fresh.runIn_eq skip budget pulled stream v]
  rfl

theorem session_run_replied (made : (ofRules rules).2 = .ok p)
    {audience : Audience} {pulled : Except ε Token → List Log.Record}
    {asked : List (Call Nat Subscription ε V)}
    {before after : List (Call Nat Subscription ε V × Reply Subscription ε V)}
    {skip : List Symbol} {budget : Nat} {stream : List (Except ε Token)}
    {reply : Reply Subscription ε V}
    (noted : (inTurn (Session.reply audience.log pulled) asked ⟨p, audience.trace⟩).1 =
      before ++ (.run skip budget stream, reply) :: after) :
    ∃ fresh : Parser V, (ofRules (lastAccepted rules before)).2 = .ok fresh ∧
      reply = .ended (some (fresh.run skip budget stream)) := by
  have each := Session.ofRules_reply audience.log pulled rules
  obtain ⟨s, anew, replied⟩ := exists_replied (s := ⟨p, audience.trace⟩) each made noted
  exact ⟨s.parser, anew, replied.symm⟩

end Past

/-- Whatever calls have been made, and whatever the listeners do when they hear of them, a parser
is the one made anew of the rules that were accepted last, and each run in the past went as runs of
such a parser do. Rules that make no parser leave the parser as it is. All they do to the world is
to tell it of the construction as far as it went, so that subscriptions stay where no listener of
the construction does more than hear. The same holds of a session, which takes over all that a new
session of accepted rules has, and stays as it is when rules are refused. -/
theorem replacement_atomic [OfToken V] {rules : List (Rule V)} {w₀ : World} {p : Parser V}
    (made : (newIn rules w₀).1 = .ok p)
    (pulled : Log.Filter → Except ε Token → List Log.Record) (calls : List (Call Script Nat ε V))
    (w : World) {past : List (Call Script Nat ε V × Reply Nat ε V)} {q : Parser V} {w' : World}
    (replied : inTurn (replyIn pulled) calls (p, w) = (past, (q, w'))) :
    ((∀ before skip budget stream reply after,
        past = before ++ (.run skip budget stream, reply) :: after →
          ∃ fresh : Parser V, (∀ v, (newIn (lastAccepted rules before) v).1 = .ok fresh) ∧
            ∀ v, reply = .ended (fresh.runIn skip budget pulled stream v).1) ∧
      (∀ v, (newIn (lastAccepted rules past) v).1 = .ok q) ∧
      (∀ audience, (Session.new (lastAccepted rules past) audience).answer =
        .ok ⟨q, audience.trace⟩) ∧
      (∀ new v trace log, (Session.setRules ⟨q, trace⟩ new log).answer =
        ((q.setRulesIn new v).1.1, ⟨(q.setRulesIn new v).1.2, trace⟩)) ∧
      ∀ new e, (q.setRulesIn new w').1.1 = .error e →
        (q.setRulesIn new w').1.2 = q ∧
        (Grammar.ofRules new = .error e ∧ (q.setRulesIn new w').2 = w' ∨
          ∃ g, Grammar.ofRules new = .ok g ∧ g.automaton.2 = .error e ∧
            (q.setRulesIn new w').2 = g.automaton.1.foldl (fun w e => g.tellWorld e w) w') ∧
        (w'.exchange.Idle w'.trace .grammar → w'.Hushed (q.setRulesIn new w').2) ∧
        ∀ trace log, (Session.setRules ⟨q, trace⟩ new log).answer = (.error e, ⟨q, trace⟩)) ∧
    ∀ (audience : Audience) (asked : List (Call Nat Subscription ε V))
      (seen : List (Call Nat Subscription ε V × Reply Subscription ε V)) (s : Session V),
      inTurn (Session.reply audience.log (pulled audience.log)) asked ⟨p, audience.trace⟩ =
        (seen, s) →
      (∀ before skip budget stream reply after,
        seen = before ++ (.run skip budget stream, reply) :: after →
          ∃ fresh : Parser V,
            (∀ a, (Session.new (lastAccepted rules before) a).answer = .ok ⟨fresh, a.trace⟩) ∧
            ∀ a : Audience, reply = .ended (some (Session.run ⟨fresh, a.trace⟩ a.log
              ⟨skip, budget, pulled a.log⟩ stream).answer)) ∧
      (∀ a, (Session.new (lastAccepted rules seen) a).answer = .ok ⟨s.parser, a.trace⟩) ∧
      ∀ new log, (s.setRules new log).answer =
        match (Session.new new ⟨s.trace, log⟩).answer with
        | .error e => (.error e, s)
        | .ok anew => (.ok (), anew) := by
  have built : (ofRules rules).2 = .ok p := (newIn_eq rules w₀).symm.trans made
  have anew {rs : List (Rule V)} {r : Parser V} (made : (ofRules rs).2 = .ok r)
      (audience : Audience) : (Session.new rs audience).answer = .ok ⟨r, audience.trace⟩ := by
    rw [Session.answer_new, made]
    rfl
  have now : (ofRules (lastAccepted rules past)).2 = .ok q := by
    have last := inTurn_induction (ofRules_replyIn pulled rules) calls (s := (p, w)) built
    rwa [replied] at last
  refine ⟨⟨?_, fun v => (newIn_eq _ v).trans now, anew now, fun new v trace log =>
    Session.answer_setRules_eq_world ⟨q, trace⟩ new log v, fun new e failed => ?_⟩,
    fun audience asked seen s answered => ⟨?_, ?_, fun new log =>
      s.answer_setRules_eq_new new log⟩⟩
  · intro before skip budget stream reply after split
    have noted : (inTurn (replyIn pulled) calls (p, w)).1 =
        before ++ (.run skip budget stream, reply) :: after := by rw [replied, split]
    obtain ⟨fresh, made, rfl⟩ := run_replied built noted
    exact ⟨fresh, fun v => (newIn_eq _ v).trans made, fun v => by rw [runIn_eq]⟩
  · obtain ⟨refused, kept⟩ := setRulesIn_error failed
    refine ⟨kept, ?_, q.hushed_setRulesIn new, fun trace log => ?_⟩
    · have told := q.world_setRulesIn new w'
      rcases ofRules_eq_error_iff.mp refused with compiled | ⟨g, compiled, conflict⟩
      · rw [compiled] at told
        exact .inl ⟨compiled, told⟩
      · rw [compiled] at told
        exact .inr ⟨g, compiled, conflict, told⟩
    · rw [Session.answer_setRules, refused]
  · intro before skip budget stream reply after split
    have noted : (inTurn (Session.reply audience.log (pulled audience.log)) asked
        ⟨p, audience.trace⟩).1 = before ++ (.run skip budget stream, reply) :: after := by
      rw [answered, split]
    obtain ⟨fresh, made, rfl⟩ := session_run_replied built noted
    exact ⟨fresh, anew made, fun a => rfl⟩
  · have each := Session.ofRules_reply audience.log (pulled audience.log) rules
    have last := inTurn_induction each asked (s := ⟨p, audience.trace⟩) built
    rw [answered] at last
    exact anew last

/-- One listener hears of constructions, and another cancels its subscription when it hears of a
run. -/
def leaving : World where
  exchange := ((({} : Exchange).subscribe 0 .grammar []).2.subscribe 0 .parse [[.cancel 1]]).2
  trace := 0
  log := .off

theorem ofRules_ambiguous : (ofRules Grammar.ambiguous.rules).2 =
    .error (.reduceReduceConflict ["S → n ▲", "S → n ▲"]) :=
  ofRules_eq_error_iff.mpr
    (.inr ⟨_, ofRules_rules Grammar.ambiguous, Grammar.automaton_ambiguous⟩)

/-- A replacement that fails at the automaton, a run, and a replacement that fails at the grammar,
with the replies to them. -/
def failures (Listener Handle : Type) :
    List (Call Listener Handle Nat String × Reply Handle Nat String) := [
  (.setRules Grammar.ambiguous.rules,
    .replaced (.error (.reduceReduceConflict ["S → n ▲", "S → n ▲"]))),
  (.run [] 1 [.ok ⟨"n", "1", 0⟩], .ended (some (sumsParser.run [] 1 [.ok ⟨"n", "1", 0⟩]))),
  (.setRules [], .replaced (.error .emptyGrammar))]

theorem replacement_atomic_sums :
    (newIn sums.rules leaving).1 = .ok sumsParser ∧
      (∃ w', inTurn (replyIn fun _ _ => []) ((failures Script Nat).map Prod.fst)
          (sumsParser, leaving) = (failures Script Nat, (sumsParser, w')) ∧
        (∃ fresh : Parser String, (newIn sums.rules w').1 = .ok fresh ∧
          sumsParser.run [] 1 [.ok ⟨"n", "1", 0⟩] =
            (fresh.run [] 1 [.ok ⟨"n", "1", 0⟩] : Ending Nat String)) ∧
        (sumsParser.setRulesIn Grammar.ambiguous.rules w').1.2 = sumsParser) ∧
      inTurn (Session.reply .off fun _ => []) ((failures Nat Subscription).map Prod.fst)
          ⟨sumsParser, {}⟩ = (failures Nat Subscription, ⟨sumsParser, {}⟩) ∧
      (Session.setRules ⟨sumsParser, {}⟩ sums.rules .off).answer = (.ok (), ⟨sumsParser, {}⟩) := by
  have built : (ofRules sums.rules).2 = .ok sumsParser := ofRules_ok_iff.mpr ⟨rfl, built_sums⟩
  have made : (newIn sums.rules leaving).1 = .ok sumsParser := (newIn_eq _ _).trans built
  have conflict (w : World) : (sumsParser.setRulesIn Grammar.ambiguous.rules w).1 =
      (.error (.reduceReduceConflict ["S → n ▲", "S → n ▲"]), sumsParser) := by
    rw [setRulesIn_eq, ofRules_ambiguous]
  have empty (w : World) : (sumsParser.setRulesIn [] w).1 = (.error .emptyGrammar, sumsParser) :=
    sumsParser.setRulesIn_eq [] w
  obtain ⟨w', whole⟩ : ∃ w', inTurn (replyIn fun _ _ => []) ((failures Script Nat).map Prod.fst)
      (sumsParser, leaving) = (failures Script Nat, (sumsParser, w')) := by
    simp only [failures, List.map_cons, List.map_nil, inTurn_cons, inTurn_nil, replyIn, conflict,
      empty, runIn_eq]
    exact ⟨_, rfl⟩
  have session : inTurn (Session.reply .off fun _ => [])
      ((failures Nat Subscription).map Prod.fst) ⟨sumsParser, {}⟩ =
        (failures Nat Subscription, ⟨sumsParser, {}⟩) := by
    simp only [failures, List.map_cons, List.map_nil, inTurn_cons, inTurn_nil, Session.reply,
      Session.answer_setRules, ofRules_ambiguous]
    rfl
  obtain ⟨⟨runs, _, _, _, failing⟩, sessions⟩ := replacement_atomic made (fun _ _ => []) _ leaving
    whole
  obtain ⟨fresh, anew, same⟩ := runs ((failures Script Nat).take 1) [] 1 _ _
    ((failures Script Nat).drop 2) rfl
  have equal := same leaving
  rw [runIn_eq] at equal
  injection equal with equal
  obtain ⟨_, _, replaced⟩ := sessions {} _ _ _ session
  have replaced := replaced sums.rules .off
  rw [Session.answer_new, built] at replaced
  exact ⟨made, ⟨w', whole, ⟨fresh, anew w', Option.some.inj equal⟩,
    (failing _ _ (congrArg Prod.fst (conflict w'))).1⟩, session, replaced⟩

end Parser

end ShiftFirst
