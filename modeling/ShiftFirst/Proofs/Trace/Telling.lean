import ShiftFirst.Parser.Run

namespace ShiftFirst

theorem StateM.bind_apply {W α β : Type} (work : StateM W α) (next : α → StateM W β) (w : W) :
    (work >>= next) w = next (work w).1 (work w).2 := rfl

/-- Work that finds a world as it is after some events, latest first, and leaves it as it is after
others. -/
def Recounts {W E α : Type} (tell : E → W → W) (past : List E) (work : StateM W α) (result : α)
    (journal : List E) : Prop :=
  ∀ w, work (past.foldr tell w) = (result, journal.foldr tell w)

namespace Recounts

variable {W E α β : Type} {tell : E → W → W} {past journal later : List E}

theorem pure (result : α) : Recounts tell past (Pure.pure result) result past := fun _ => rfl

theorem told (e : E) : Recounts tell past (modify (tell e)) PUnit.unit (e :: past) := fun _ => rfl

theorem bind {work : StateM W α} {next : α → StateM W β} {result : α} {result' : β}
    (first : Recounts tell past work result journal)
    (second : Recounts tell journal (next result) result' later) :
    Recounts tell past (work >>= next) result' later := by
  intro w
  rw [StateM.bind_apply, first w]
  exact second w

theorem tell_each (events : List E) :
    Recounts tell past (events.forM fun e => modify (tell e)) PUnit.unit
      (events.reverse ++ past) := by
  induction events generalizing past with
  | nil => exact .pure _
  | cons e events ih =>
    rw [List.reverse_cons, List.append_assoc]
    exact .bind (.told e) ih

end Recounts

namespace Grammar

variable {W V : Type}

/-- Adds to `known` the sets among `reached` that are new, and tells of each event at once. -/
def discoverTelling (g : Grammar V) (tell : BuildEvent → W → W) (known : List ItemSet) :
    (reached : List ItemSet) → StateM W (Except GrammarError (List ItemSet))
  | [] => return .ok known
  | items :: rest => do
    modify (tell (.reached items))
    if items ∈ known then
      modify (tell .known)
      g.discoverTelling tell known rest
    else
      match g.conflict? items with
      | some e => return .error e
      | none => g.discoverTelling tell (known ++ [items]) rest

def exploreTelling (g : Grammar V) (tell : BuildEvent → W → W) :
    (rounds next : Nat) → (known : List ItemSet) →
      StateM W (Except GrammarError (List ItemSet))
  | 0, _, known => return .ok known
  | rounds + 1, next, known =>
    match known[next]? with
    | none => return .ok known
    | some items => do
      modify (tell (.adding items))
      let steps := g.steps items
      modify (tell (.leads (steps.map (·.1))))
      match ← g.discoverTelling tell known (steps.map (·.2)) with
      | .error e => return .error e
      | .ok known => g.exploreTelling tell rounds (next + 1) known

/-- The automaton of a grammar, or a conflict; each event is told of before the work goes on. -/
def automatonTelling (g : Grammar V) (tell : BuildEvent → W → W) :
    StateM W (Except GrammarError Automaton) := do
  modify (tell .rules)
  let initial := [g.closure [acceptItem], g.closure [initialItem]]
  match ← g.exploreTelling tell (Nat.pow 2 g.items.length) 0 initial with
  | .error e => return .error e
  | .ok known =>
    let states := known.map (g.stateOf known)
    modify (tell .finished)
    modify (tell (.counted states.length))
    let links := states.map fun state => BuildEvent.linked state.items state.transitions.length
    links.forM fun e => modify (tell e)
    return .ok ⟨states⟩

variable (g : Grammar V) (tell : BuildEvent → W → W)

theorem recounts_discover (past : List BuildEvent) (known reached : List ItemSet) :
    Recounts tell past (g.discoverTelling tell known reached) (g.discover known reached).2
      ((g.discover known reached).1.reverse ++ past) := by
  induction reached generalizing known past with
  | nil => exact .pure _
  | cons items rest ih =>
    rw [discover]
    change Recounts tell past
      (modify (tell (.reached items)) >>= fun _ => ite (items ∈ known) _ _) _ _
    refine .bind (.told _) ?_
    by_cases old : items ∈ known
    · rw [if_pos old, if_pos old]
      refine .bind (.told _) ?_
      simpa using ih (.known :: .reached items :: past) known
    · rw [if_neg old, if_neg old]
      cases g.conflict? items with
      | some e => exact .pure _
      | none => simpa using ih (.reached items :: past) (known ++ [items])

theorem recounts_explore (past : List BuildEvent) (rounds next : Nat) (known : List ItemSet) :
    Recounts tell past (g.exploreTelling tell rounds next known) (g.explore rounds next known).2
      ((g.explore rounds next known).1.reverse ++ past) := by
  induction rounds generalizing next known past with
  | zero => exact .pure _
  | succ rounds ih =>
    unfold exploreTelling explore
    cases known[next]? with
    | none => exact .pure _
    | some items =>
      dsimp only
      have found := fun past => recounts_discover g tell past known ((g.steps items).map (·.2))
      generalize g.discover known ((g.steps items).map (·.2)) = discovered at found ⊢
      obtain ⟨events, result⟩ := discovered
      refine .bind (.told _) (.bind (.told _) (.bind (found _) ?_))
      cases result with
      | error e => simpa using .pure _
      | ok known' =>
        simpa using ih (events.reverse ++ .leads ((g.steps items).map (·.1)) :: .adding items :: past)
          (next + 1) known'

theorem recounts_automaton (past : List BuildEvent) :
    Recounts tell past (g.automatonTelling tell) g.automaton.2
      (g.automaton.1.reverse ++ past) := by
  unfold automatonTelling automaton
  dsimp only
  have explored := fun past => recounts_explore g tell past (Nat.pow 2 g.items.length) 0
    [g.closure [acceptItem], g.closure [initialItem]]
  generalize g.explore (Nat.pow 2 g.items.length) 0
    [g.closure [acceptItem], g.closure [initialItem]] = found at explored ⊢
  obtain ⟨events, result⟩ := found
  refine .bind (.told _) (.bind (explored _) ?_)
  cases result with
  | error e => simpa using .pure _
  | ok known =>
    refine .bind (.told _) (.bind (.told _) (.bind (.tell_each _) ?_))
    simpa using .pure _

/-- The construction is the same whatever the world makes of the events. -/
theorem automatonTelling_eq (w : W) :
    g.automatonTelling tell w =
      (g.automaton.2, g.automaton.1.foldl (fun w e => tell e w) w) := by
  have whole := recounts_automaton g tell [] w
  rwa [List.append_nil, List.foldr_reverse] at whole

end Grammar

namespace Parser

variable {W ε V : Type}

def noteTelling (tell : Entry ε → W → W) (c : Config ε V) (e : ParseEvent) :
    StateM W (Config ε V) := do
  modify (tell (.event e))
  return c.note e

def pullTelling (tell : Entry ε → W → W) (skip : List Symbol) (c : Config ε V) :
    (stream : List (Except ε Token)) → List (Entry ε) →
      StateM W (Except (Ending ε V) (Config ε V))
  | [], journal => return .ok { c with exhausted := true, stream := [], journal := journal }
  | .error e :: _, journal => do
    modify (tell (.pulled (.error e)))
    return .error ⟨.error (.input e), .pulled (.error e) :: journal⟩
  | .ok token :: rest, journal => do
    modify (tell (.pulled (.ok token)))
    let journal := .pulled (.ok token) :: journal
    if token.name ∈ skip then pullTelling tell skip c rest journal
    else
      modify (tell (.event (.lookahead token)))
      return .ok { c with
        lookahead := some token
        stream := rest
        stats := { c.stats with tokens := c.stats.tokens + 1 }
        journal := .event (.lookahead token) :: journal }

def lookTelling (tell : Entry ε → W → W) (skip : List Symbol) (c : Config ε V) :
    StateM W (Except (Ending ε V) (Config ε V)) :=
  if c.lookahead.isNone ∧ !c.exhausted then pullTelling tell skip c c.stream c.journal
  else return .ok c

def finishTelling (p : Parser V) (tell : Entry ε → W → W) (c : Config ε V) :
    StateM W (Ending ε V) :=
  match p.popFrames c 0 with
  | .error e => return c.fail (.parse e)
  | .ok reduced => do
    modify (tell (.event .accepted))
    return ⟨.ok (reduced.value, c.stats), .event .accepted :: c.journal⟩

def reduceStepTelling (p : Parser V) (tell : Entry ε → W → W) (c : Config ε V) (r : RuleId) :
    StateM W (Ending ε V ⊕ Config ε V) := do
  let c ← noteTelling tell c (.reducing r)
  match p.popFrames c r with
  | .error e => return .inl (c.fail (.parse e))
  | .ok ⟨position, value, budget, below⟩ =>
    let c := { c with frames := below, budget := budget }
    let subject := (p.grammar.production r).subject
    match p.automaton.transition? c.top subject with
    | none => return .inl (c.fail (.parse (.missingGoto c.top subject)))
    | some target =>
      let c ← noteTelling tell c (.back c.top)
      return .inr { c with
        frames := ⟨target, position, value⟩ :: below
        stats := { c.stats with reductions := c.stats.reductions + 1 } }

def shiftStepTelling [OfToken V] (tell : Entry ε → W → W) (c : Config ε V) (token : Token)
    (target : StateId) : StateM W (Config ε V) := do
  let c ← noteTelling tell c (.shifting target)
  return { c with
    frames := ⟨target, token.position, ofToken token⟩ :: c.frames
    lookahead := none
    stats := { c.stats with shifts := c.stats.shifts + 1 } }

def actTelling [OfToken V] (p : Parser V) (tell : Entry ε → W → W) (c : Config ε V) :
    StateM W (Ending ε V ⊕ Config ε V) := do
  let c ← noteTelling tell c (.current c.top)
  match p.shift? c with
  | some (token, target) => return .inr (← shiftStepTelling tell c token target)
  | none =>
    match (p.automaton.state c.top).reduction with
    | some r => p.reduceStepTelling tell c r
    | none => return .inl (c.fail (.parse (p.reject c)))

def stepTelling [OfToken V] (p : Parser V) (tell : Entry ε → W → W) (skip : List Symbol)
    (c : Config ε V) : StateM W (Ending ε V ⊕ Config ε V) :=
  if c.top = Automaton.accept then return .inl (← p.finishTelling tell c)
  else do
    match ← lookTelling tell skip c with
    | .error ending => return .inl ending
    | .ok c => p.actTelling tell c

def advanceTelling [OfToken V] (p : Parser V) (tell : Entry ε → W → W) (skip : List Symbol) :
    (n : Nat) → Config ε V → StateM W (Ending ε V ⊕ Config ε V)
  | 0, c => return .inr c
  | n + 1, c => do
    match ← p.stepTelling tell skip c with
    | .inl ending => return .inl ending
    | .inr next => p.advanceTelling tell skip n next

/-- The end of the run over a stream, if it comes to one. Each event, and each item that is taken
from the stream, is told of before the run goes on. -/
def runTelling [OfToken V] (p : Parser V) (tell : Entry ε → W → W) (skip : List Symbol)
    (budget : Nat) (stream : List (Except ε Token)) : StateM W (Option (Ending ε V)) := do
  modify (tell (.event .begun))
  let c : Config ε V := ⟨[], none, false, stream, budget, {}, [.event .begun]⟩
  match ← p.advanceTelling tell skip (c.weight + 1) c with
  | .inl ending => return some ⟨ending.outcome, ending.journal.reverse⟩
  | .inr _ => return none

/-- What has happened when a step has been made. -/
def journalOf : Ending ε V ⊕ Config ε V → List (Entry ε)
  | .inl ending => ending.journal
  | .inr c => c.journal

def journalOfLook : Except (Ending ε V) (Config ε V) → List (Entry ε)
  | .error ending => ending.journal
  | .ok c => c.journal

variable (p : Parser V) (tell : Entry ε → W → W) (skip : List Symbol)

theorem recounts_note (c : Config ε V) (e : ParseEvent) :
    Recounts tell c.journal (noteTelling tell c e) (c.note e) (c.note e).journal :=
  .bind (.told _) (.pure _)

theorem recounts_pull (c : Config ε V) (stream : List (Except ε Token))
    (journal : List (Entry ε)) :
    Recounts tell journal (pullTelling tell skip c stream journal) (pull skip c stream journal)
      (journalOfLook (pull skip c stream journal)) := by
  induction stream generalizing journal with
  | nil => exact .pure _
  | cons item rest ih =>
    cases item with
    | error e => exact .bind (.told _) (.pure _)
    | ok token =>
      unfold pullTelling pull
      refine .bind (.told _) ?_
      by_cases passed : token.name ∈ skip
      · rw [if_pos passed, if_pos passed]
        exact ih _
      · rw [if_neg passed, if_neg passed]
        exact .bind (.told _) (.pure _)

theorem recounts_look (c : Config ε V) :
    Recounts tell c.journal (lookTelling tell skip c) (look skip c)
      (journalOfLook (look skip c)) := by
  unfold lookTelling look
  split
  next => exact recounts_pull tell skip c c.stream c.journal
  next => exact .pure _

theorem recounts_finish (c : Config ε V) :
    Recounts tell c.journal (p.finishTelling tell c) (p.finish c) (p.finish c).journal := by
  unfold finishTelling finish
  cases p.popFrames c 0 with
  | error e => exact .pure _
  | ok reduced => exact .bind (.told _) (.pure _)

theorem recounts_reduceStep (c : Config ε V) (r : RuleId) :
    Recounts tell c.journal (p.reduceStepTelling tell c r) (p.reduceStep c r)
      (journalOf (p.reduceStep c r)) := by
  unfold reduceStepTelling reduceStep
  refine .bind (recounts_note tell c _) ?_
  dsimp only
  cases p.popFrames (c.note (.reducing r)) r with
  | error e => exact .pure _
  | ok reduced =>
    dsimp only
    cases p.automaton.transition? ({ c.note (.reducing r) with
        frames := reduced.below, budget := reduced.budget } : Config ε V).top
          (p.grammar.production r).subject with
    | none => exact .pure _
    | some target => exact .bind (recounts_note tell _ _) (.pure _)

theorem recounts_act [OfToken V] (c : Config ε V) :
    Recounts tell c.journal (p.actTelling tell c) (p.act c) (journalOf (p.act c)) := by
  unfold actTelling act
  refine .bind (recounts_note tell c _) ?_
  dsimp only
  cases p.shift? (c.note (.current c.top)) with
  | some shift => exact .bind (.bind (recounts_note tell _ _) (.pure _)) (.pure _)
  | none =>
    dsimp only
    cases (p.automaton.state (c.note (.current c.top)).top).reduction with
    | some r => exact recounts_reduceStep p tell _ r
    | none => exact .pure _

theorem recounts_step [OfToken V] (c : Config ε V) :
    Recounts tell c.journal (p.stepTelling tell skip c) (p.step skip c)
      (journalOf (p.step skip c)) := by
  unfold stepTelling step
  split
  next => exact .bind (recounts_finish p tell c) (.pure _)
  next =>
    refine .bind (recounts_look tell skip c) ?_
    cases look skip c with
    | error ending => exact .pure _
    | ok looked => exact recounts_act p tell looked

theorem recounts_advance [OfToken V] (n : Nat) (c : Config ε V) :
    Recounts tell c.journal (p.advanceTelling tell skip n c) (p.advance skip n c)
      (journalOf (p.advance skip n c)) := by
  induction n generalizing c with
  | zero => exact .pure _
  | succ n ih =>
    unfold advanceTelling advance
    refine .bind (recounts_step p tell skip c) ?_
    cases p.step skip c with
    | inl ending => exact .pure _
    | inr next => exact ih next

/-- The run is the same whatever the world makes of the events, and it ends. -/
theorem runTelling_eq [OfToken V] (budget : Nat) (stream : List (Except ε Token)) (w : W) :
    p.runTelling tell skip budget stream w =
      (some (p.run skip budget stream),
        (p.run skip budget stream).journal.foldl (fun w e => tell e w) w) := by
  let c : Config ε V := ⟨[], none, false, stream, budget, {}, [.event .begun]⟩
  let last := (p.advance skip (c.weight + 1) c).getLeft
    (p.advance_isLeft skip (Nat.lt_succ_self _))
  have run : p.run skip budget stream = ⟨last.outcome, last.journal.reverse⟩ := rfl
  have ends : p.advance skip (c.weight + 1) c = .inl last := (Sum.inl_getLeft _ _).symm
  have advanced := recounts_advance p tell skip (c.weight + 1) c
  rw [ends] at advanced
  have whole : Recounts tell [] (p.runTelling tell skip budget stream)
      (some ⟨last.outcome, last.journal.reverse⟩) last.journal :=
    .bind (.told _) (.bind advanced (.pure _))
  rw [run, List.foldl_reverse]
  exact whole w

end Parser

end ShiftFirst
