import ShiftFirst.Parser.Basic

namespace ShiftFirst

/-- A state on the stack of a run, with the value that led to it and the position of the first
token of that value. -/
structure Frame (V : Type) where
  state : StateId
  position : Nat
  value : V
  deriving Repr

/-- One thing that happens in a run: an item is taken from the stream, or an event. -/
inductive Entry (ε : Type) where
  | pulled (item : Except ε Token)
  | event (e : ParseEvent)

/-- A run that has not ended. -/
structure Config (ε V : Type) where
  /-- The stack, its top first. -/
  frames : List (Frame V)
  lookahead : Option Token
  /-- The end of the stream has been seen. -/
  exhausted : Bool
  /-- What is left of the stream. -/
  stream : List (Except ε Token)
  /-- How many reductions are left. -/
  budget : Nat
  stats : Stats
  /-- What has happened, latest first. -/
  journal : List (Entry ε)

/-- What a reduction leaves: the position of the first token it covers, the value of its subject,
the budget and the frames below. -/
structure Reduced (V : Type) where
  position : Nat
  value : V
  budget : Nat
  below : List (Frame V)

/-- The end of a run: its outcome, and what has happened. -/
structure Ending (ε V : Type) where
  outcome : Except (Failure ε) (V × Stats)
  journal : List (Entry ε)

namespace Config

variable {ε V : Type}

def top (c : Config ε V) : StateId := (c.frames.head?).elim Automaton.start Frame.state

def note (c : Config ε V) (e : ParseEvent) : Config ε V :=
  { c with journal := .event e :: c.journal }

def fail (c : Config ε V) (e : Failure ε) : Ending ε V := ⟨.error e, c.journal⟩

/-- How many tokens can still be shifted at most. -/
def remaining (c : Config ε V) : Nat := c.stream.length + c.lookahead.toList.length

/-- The run takes fewer steps than this. -/
def weight (c : Config ε V) : Nat := 2 * c.remaining + c.budget + c.frames.length

end Config

namespace Parser

variable {ε V : Type}

/-- Takes items from the stream up to the first token whose name is not in `skip`. -/
def pull (skip : List Symbol) (c : Config ε V) :
    (stream : List (Except ε Token)) → List (Entry ε) → Except (Ending ε V) (Config ε V)
  | [], journal => .ok { c with exhausted := true, stream := [], journal := journal }
  | .error e :: _, journal => .error ⟨.error (.input e), .pulled (.error e) :: journal⟩
  | .ok token :: rest, journal =>
    let journal := .pulled (.ok token) :: journal
    if token.name ∈ skip then pull skip c rest journal
    else .ok { c with
      lookahead := some token
      stream := rest
      stats := { c.stats with tokens := c.stats.tokens + 1 }
      journal := .event (.lookahead token) :: journal }

/-- Sees to it that there is a lookahead, unless the stream has ended. -/
def look (skip : List Symbol) (c : Config ε V) : Except (Ending ε V) (Config ε V) :=
  if c.lookahead.isNone ∧ !c.exhausted then pull skip c c.stream c.journal else .ok c

/-- Takes the frames of a rule's predicate from the stack, and makes the value of its subject. -/
def popFrames (p : Parser V) (c : Config ε V) (r : RuleId) : Except ParseError (Reduced V) :=
  let n := (p.grammar.production r).predicate.length
  if c.frames.length < n then .error .emptyStack
  else
    let popped := (c.frames.take n).reverse
    let position := (popped.head?).elim 0 Frame.position
    match p.grammar.reduceWithin c.budget r (popped.map Frame.value) with
    | (.error source, _) => .error (.reduction (p.grammar.ruleText r) position source)
    | (.ok value, budget) => .ok ⟨position, value, budget, c.frames.drop n⟩

/-- Ends a run in the accepting state with the value of the start symbol. -/
def finish (p : Parser V) (c : Config ε V) : Ending ε V :=
  match p.popFrames c 0 with
  | .error e => c.fail (.parse e)
  | .ok reduced => ⟨.ok (reduced.value, c.stats), .event .accepted :: c.journal⟩

/-- Reduces by a rule and goes on from the state below its predicate. -/
def reduceStep (p : Parser V) (c : Config ε V) (r : RuleId) : Ending ε V ⊕ Config ε V :=
  let c := c.note (.reducing r)
  match p.popFrames c r with
  | .error e => .inl (c.fail (.parse e))
  | .ok ⟨position, value, budget, below⟩ =>
    let c := { c with frames := below, budget := budget }
    let subject := (p.grammar.production r).subject
    match p.automaton.transition? c.top subject with
    | none => .inl (c.fail (.parse (.missingGoto c.top subject)))
    | some target =>
      .inr { c.note (.back c.top) with
        frames := ⟨target, position, value⟩ :: below
        stats := { c.stats with reductions := c.stats.reductions + 1 } }

/-- Shifts a token and goes on from the state that it leads to. -/
def shiftStep [OfToken V] (c : Config ε V) (token : Token) (target : StateId) : Config ε V :=
  { c.note (.shifting target) with
    frames := ⟨target, token.position, ofToken token⟩ :: c.frames
    lookahead := none
    stats := { c.stats with shifts := c.stats.shifts + 1 } }

/-- The error of a state that can neither shift the lookahead nor reduce. -/
def reject (p : Parser V) (c : Config ε V) : ParseError :=
  match c.lookahead with
  | some token =>
    .unexpectedToken token.name token.value token.position (p.expected c.top)
  | none => .unexpectedEnd (p.expected c.top)

/-- The lookahead and the state behind it, if the top state has a transition on its name. -/
def shift? (p : Parser V) (c : Config ε V) : Option (Token × StateId) := do
  let token ← c.lookahead
  return (token, ← p.automaton.transition? c.top token.name)

/-- What a run does once it has looked at the next token: it shifts if it can, else reduces if it
can, else ends. -/
def act [OfToken V] (p : Parser V) (c : Config ε V) : Ending ε V ⊕ Config ε V :=
  let c := c.note (.current c.top)
  match p.shift? c with
  | some (token, target) => .inr (shiftStep c token target)
  | none =>
    match (p.automaton.state c.top).reduction with
    | some r => p.reduceStep c r
    | none => .inl (c.fail (.parse (p.reject c)))

/-- One step of a run: its end, or how it goes on. -/
def step [OfToken V] (p : Parser V) (skip : List Symbol) (c : Config ε V) :
    Ending ε V ⊕ Config ε V :=
  if c.top = Automaton.accept then .inl (p.finish c)
  else
    match look skip c with
    | .error ending => .inl ending
    | .ok c => p.act c

theorem pull_weight {skip : List Symbol} {c next : Config ε V} (hl : c.lookahead = none) :
    ∀ {stream : List (Except ε Token)} {journal : List (Entry ε)},
      pull skip c stream journal = .ok next →
        next.remaining ≤ stream.length ∧ next.budget = c.budget ∧ next.frames = c.frames := by
  intro stream
  induction stream with
  | nil =>
    intro journal h
    cases h
    simp [Config.remaining, hl]
  | cons item rest ih =>
    intro journal h
    cases item with
    | error e => simp [pull] at h
    | ok token =>
      simp only [pull] at h
      split at h
      · obtain ⟨hr, hb, hf⟩ := ih h
        exact ⟨Nat.le_succ_of_le hr, hb, hf⟩
      · cases h
        simp [Config.remaining]

theorem look_weight {skip : List Symbol} {c next : Config ε V} (h : look skip c = .ok next) :
    next.weight ≤ c.weight := by
  unfold look at h
  split at h
  · next idle =>
    have hl : c.lookahead = none := Option.isNone_iff_eq_none.mp idle.1
    obtain ⟨hr, hb, hf⟩ := pull_weight hl h
    have : c.stream.length ≤ c.remaining := by simp [Config.remaining]
    simp only [Config.weight, hb, hf]
    omega
  · cases h
    exact Nat.le_refl _

/-- A reduction either uses up a unit of the budget and leaves a stack that is no higher, or it is
one by the rule that begins every grammar and leaves a lower one. -/
theorem popFrames_weight {p : Parser V} {c : Config ε V} {r : RuleId} {reduced : Reduced V}
    (h : p.popFrames c r = .ok reduced) :
    reduced.budget + (reduced.below.length + 1) < c.budget + c.frames.length := by
  unfold popFrames at h
  dsimp only at h
  split at h
  · simp at h
  · next enough =>
    split at h
    · simp at h
    · next value budget made =>
      cases h
      simp only [List.length_drop]
      match r, hb : c.budget with
      | 0, b =>
        rw [hb] at made
        have : budget = b := by
          unfold Grammar.reduceWithin at made
          exact (Prod.mk.inj made).2.symm
        simp only [Grammar.production, Grammar.augmented, List.length_cons, List.length_nil]
          at enough ⊢
        omega
      | r + 1, 0 => rw [hb] at made; simp [Grammar.reduceWithin] at made
      | r + 1, b + 1 =>
        rw [hb] at made
        simp only [Grammar.reduceWithin, Grammar.reduce] at made
        cases hr : p.grammar.rules[r]? with
        | none => simp [hr] at made
        | some rule =>
          have budget_eq : budget = b := (Prod.mk.inj made).2.symm
          have faultless := p.grammar.faultless rule (List.mem_of_getElem? hr)
          have nonempty : 0 < rule.predicate.length := by
            refine List.length_pos_iff.mpr fun none => ?_
            simp only [Production.fault?, none] at faultless
            split at faultless <;> simp at faultless
          simp only [Grammar.production, hr, Option.elim_some] at enough ⊢
          omega

theorem step_weight [OfToken V] {p : Parser V} {skip : List Symbol} {c next : Config ε V}
    (h : p.step skip c = .inr next) : next.weight < c.weight := by
  unfold step at h
  split at h
  · simp at h
  · split at h
    · simp at h
    · next looked hl =>
      refine Nat.lt_of_lt_of_le ?_ (look_weight hl)
      unfold act at h
      dsimp only at h
      split at h
      · next token target hs =>
        cases h
        have held : looked.lookahead.isSome := by
          unfold shift? at hs
          cases hk : looked.lookahead with
          | none => simp [Config.note, hk] at hs
          | some _ => rfl
        obtain ⟨seen, hk⟩ := Option.isSome_iff_exists.mp held
        simp only [Config.weight, Config.remaining, shiftStep, Config.note, hk,
          Option.toList_some, Option.toList_none, List.length_cons, List.length_nil]
        omega
      · split at h
        · unfold reduceStep at h
          dsimp only at h
          split at h
          · simp at h
          · next position value budget below hp =>
            split at h
            · simp at h
            · cases h
              have := popFrames_weight hp
              simp only [Config.note] at this
              simp only [Config.weight, Config.remaining, Config.note, List.length_cons]
              omega
        · simp at h

/-- At most `n` steps of a run. -/
def advance [OfToken V] (p : Parser V) (skip : List Symbol) :
    (n : Nat) → Config ε V → Ending ε V ⊕ Config ε V
  | 0, c => .inr c
  | n + 1, c =>
    match p.step skip c with
    | .inl ending => .inl ending
    | .inr next => p.advance skip n next

theorem advance_isLeft [OfToken V] (p : Parser V) (skip : List Symbol) :
    ∀ {n : Nat} {c : Config ε V}, c.weight < n → (p.advance skip n c).isLeft
  | 0, _, h => absurd h (Nat.not_lt_zero _)
  | n + 1, c, h => by
    unfold advance
    split
    · rfl
    · next next hs => exact advance_isLeft p skip (by have := step_weight hs; omega)

/-- The end of the run over a stream, with its journal in order. Tokens whose names are in `skip`
are passed over, and no more than `budget` reductions are made. -/
def run [OfToken V] (p : Parser V) (skip : List Symbol) (budget : Nat)
    (stream : List (Except ε Token)) : Ending ε V :=
  let c : Config ε V := ⟨[], none, false, stream, budget, {}, [.event .begun]⟩
  let ending := (p.advance skip (c.weight + 1) c).getLeft (p.advance_isLeft skip (by omega))
  ⟨ending.outcome, ending.journal.reverse⟩

end Parser

end ShiftFirst
