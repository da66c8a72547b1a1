import ShiftFirst.Proofs.Automaton.Path
import ShiftFirst.Proofs.Parser.Steps

namespace ShiftFirst

variable {ε V : Type}

def Entry.item? : Entry ε → Option (Except ε Token)
  | .pulled item => some item
  | .event _ => none

/-- The tokens among items that are not passed over. -/
def kept (skip : List Symbol) (items : List (Except ε Token)) : List Token :=
  items.filterMap fun
    | .error _ => none
    | .ok token => if token.name ∈ skip then none else some token

theorem kept_cons (skip : List Symbol) (token : Token) (items : List (Except ε Token)) :
    kept skip (.ok token :: items) =
      if token.name ∈ skip then kept skip items else token :: kept skip items := by
  by_cases passed : token.name ∈ skip <;> simp [kept, passed]

theorem kept_append (skip : List Symbol) (items items' : List (Except ε Token)) :
    kept skip (items ++ items') = kept skip items ++ kept skip items' :=
  List.filterMap_append

theorem kept_all (tokens : List Token) :
    kept [] (tokens.map (Except.ok : Token → Except ε Token)) = tokens := by
  induction tokens with
  | nil => rfl
  | cons token tokens ih => exact congrArg (token :: ·) ih

namespace Config

/-- The items that a run has taken from its stream so far. -/
def read (c : Config ε V) : List (Except ε Token) := (c.journal.filterMap Entry.item?).reverse

def states (c : Config ε V) : List StateId := c.frames.map Frame.state

theorem top_eq (c : Config ε V) : c.top = topState c.states := by
  unfold top states topState
  cases c.frames <;> rfl

@[simp] theorem top_note (c : Config ε V) (e : ParseEvent) : (c.note e).top = c.top := rfl

end Config

namespace Parser

variable {p : Parser V} {skip : List Symbol} {c looked next : Config ε V} {ending : Ending ε V}

theorem mem_of_mem_kept {items : List (Except ε Token)} {t : Token} (h : t ∈ kept skip items) :
    .ok t ∈ items := by
  obtain ⟨item, mem, he⟩ := List.mem_filterMap.mp h
  cases item with
  | error e => cases he
  | ok token =>
    dsimp only at he
    split at he
    next => cases he
    next =>
      cases he
      exact mem

/-- What looking at the next token does: it takes items from the stream up to the first one that
is kept. -/
structure Looks (skip : List Symbol) (c looked : Config ε V) (items : List (Except ε Token)) :
    Prop where
  stream : c.stream = items ++ looked.stream
  read : looked.read = c.read ++ items
  ahead : looked.lookahead.toList = c.lookahead.toList ++ kept skip items
  frames : looked.frames = c.frames
  budget : looked.budget = c.budget
  tokens : looked.stats.tokens = c.stats.tokens + (kept skip items).length
  shifts : looked.stats.shifts = c.stats.shifts
  reductions : looked.stats.reductions = c.stats.reductions

theorem pull_ok {stream : List (Except ε Token)} {journal : List (Entry ε)}
    (none : c.lookahead = none) (h : pull skip c stream journal = .ok looked) :
    ∃ items, Looks skip { c with stream := stream, journal := journal } looked items := by
  induction stream generalizing journal with
  | nil =>
    cases h
    refine ⟨[], rfl, ?_, ?_, rfl, rfl, rfl, rfl, rfl⟩
    · simp [Config.read]
    · simp [kept]
  | cons item rest ih =>
    cases item with
    | error e => simp [pull] at h
    | ok token =>
      simp only [pull] at h
      split at h
      next passed =>
        obtain ⟨items, hl⟩ := ih h
        have skipped := (kept_cons skip token items).trans (if_pos passed)
        refine ⟨.ok token :: items, ?_, ?_, ?_, hl.frames, hl.budget, ?_, hl.shifts,
          hl.reductions⟩
        · exact congrArg (Except.ok token :: ·) hl.stream
        · rw [hl.read]
          simp [Config.read, Entry.item?]
        · rw [hl.ahead, skipped]
        · rw [hl.tokens, skipped]
      next held =>
        cases h
        have taken : kept skip [(.ok token : Except ε Token)] = [token] := by simp [kept, held]
        refine ⟨[.ok token], rfl, ?_, ?_, rfl, rfl, ?_, rfl, rfl⟩
        · simp [Config.read, List.filterMap_cons, Entry.item?]
        · simp [taken, none]
        · simp [taken]

theorem look_ok (h : look skip c = .ok looked) : ∃ items, Looks skip c looked items := by
  unfold look at h
  split at h
  next idle => exact pull_ok (Option.isNone_iff_eq_none.mp idle.1) h
  next =>
    cases h
    exact ⟨[], rfl, by simp, by simp [kept], rfl, rfl, rfl, rfl, rfl⟩

theorem pull_error {stream : List (Except ε Token)} {journal : List (Entry ε)}
    (h : pull skip c stream journal = .error ending) : ∃ e, ending.outcome = .error (.input e) := by
  induction stream generalizing journal with
  | nil => simp [pull] at h
  | cons item rest ih =>
    cases item with
    | error e =>
      cases h
      exact ⟨e, rfl⟩
    | ok token =>
      simp only [pull] at h
      split at h
      next => exact ih h
      next => simp at h

theorem look_error (h : look skip c = .error ending) : ∃ e, ending.outcome = .error (.input e) := by
  unfold look at h
  split at h
  next => exact pull_error h
  next => simp at h

theorem popFrames_ok {r : RuleId} {reduced : Reduced V} (h : p.popFrames c r = .ok reduced) :
    (p.grammar.production r).predicate.length ≤ c.frames.length ∧
      reduced.below = c.frames.drop (p.grammar.production r).predicate.length ∧
      reduced.position =
        (((c.frames.take (p.grammar.production r).predicate.length).reverse.head?).elim 0
          Frame.position) ∧
      p.grammar.reduceWithin c.budget r
        ((c.frames.take (p.grammar.production r).predicate.length).reverse.map Frame.value) =
          (.ok reduced.value, reduced.budget) := by
  unfold popFrames at h
  dsimp only at h
  split at h
  next => simp at h
  next enough =>
    split at h
    next => simp at h
    next made =>
      cases h
      exact ⟨Nat.le_of_not_lt enough, rfl, rfl, made⟩

theorem popFrames_error {r : RuleId} {e : ParseError} (h : p.popFrames c r = .error e) :
    (e = .emptyStack ∧ c.frames.length < (p.grammar.production r).predicate.length) ∨
      ∃ source, e = .reduction (p.grammar.ruleText r)
          (((c.frames.take (p.grammar.production r).predicate.length).reverse.head?).elim 0
            Frame.position) source ∧
        (p.grammar.reduceWithin c.budget r
          ((c.frames.take (p.grammar.production r).predicate.length).reverse.map
            Frame.value)).1 = .error source := by
  unfold popFrames at h
  dsimp only at h
  split at h
  next few =>
    cases h
    exact Or.inl ⟨rfl, few⟩
  next =>
    split at h
    next made =>
      cases h
      exact Or.inr ⟨_, rfl, by rw [made]⟩
    next => simp at h

theorem popFrames_begin {last first : Frame V} {below : List (Frame V)}
    (frames : c.frames = last :: first :: below) :
    p.popFrames c 0 = .ok ⟨first.position, first.value, c.budget, below⟩ := by
  have enough : ¬ (last :: first :: below).length < (p.grammar.production 0).predicate.length :=
    Nat.not_lt.mpr (Nat.le_add_left 2 below.length)
  rw [popFrames, frames, if_neg enough]
  rfl

theorem finish_outcome {last first : Frame V} {below : List (Frame V)}
    (frames : c.frames = last :: first :: below) :
    (p.finish c).outcome = .ok (first.value, c.stats) := by
  rw [finish, popFrames_begin frames]

def reducedTo (c : Config ε V) (r : RuleId) (reduced : Reduced V) (target : StateId) :
    Config ε V :=
  let c := { c.note (.reducing r) with frames := reduced.below, budget := reduced.budget }
  { c.note (.back c.top) with
    frames := ⟨target, reduced.position, reduced.value⟩ :: reduced.below
    stats := { c.stats with reductions := c.stats.reductions + 1 } }

theorem states_reducedTo (c : Config ε V) (r : RuleId) (reduced : Reduced V) (target : StateId) :
    (reducedTo c r reduced target).states = target :: reduced.below.map Frame.state := rfl

theorem popFrames_states {r : RuleId} {reduced : Reduced V} (h : p.popFrames c r = .ok reduced) :
    reduced.below.map Frame.state = c.states.drop (p.grammar.production r).predicate.length := by
  rw [(popFrames_ok h).2.1, List.map_drop, Config.states]

/-- What a step does that does not end the run: it looks at the next token and shifts it, or
reduces by the rule of the state. -/
inductive Turn [OfToken V] (p : Parser V) (c : Config ε V) : Config ε V → Prop
  | shift {token : Token} {target : StateId} (ahead : c.lookahead = some token)
      (edge : p.automaton.transition? c.top token.name = some target) :
      Turn p c (shiftStep (c.note (.current c.top)) token target)
  | reduce {r : RuleId} {reduced : Reduced V} {target : StateId}
      (stuck : ∀ token, c.lookahead = some token →
        p.automaton.transition? c.top token.name = none)
      (complete : (p.automaton.state c.top).reduction = some r)
      (popped : p.popFrames c r = .ok reduced)
      (edge : p.automaton.transition? (topState (reduced.below.map Frame.state))
        (p.grammar.production r).subject = some target) :
      Turn p c (reducedTo (c.note (.current c.top)) r reduced target)

/-- How a step ends a run whose top state is not the accepting one. -/
inductive Halt (p : Parser V) (c : Config ε V) : Failure ε → Prop
  | reduction {r : RuleId} {e : ParseError}
      (complete : (p.automaton.state c.top).reduction = some r)
      (popped : p.popFrames c r = .error e) : Halt p c (.parse e)
  | missingGoto {r : RuleId} {reduced : Reduced V}
      (complete : (p.automaton.state c.top).reduction = some r)
      (popped : p.popFrames c r = .ok reduced)
      (edge : p.automaton.transition? (topState (reduced.below.map Frame.state))
        (p.grammar.production r).subject = none) :
      Halt p c (.parse (.missingGoto (topState (reduced.below.map Frame.state))
        (p.grammar.production r).subject))
  | reject (none : (p.automaton.state c.top).reduction = none) :
      Halt p c (.parse (p.reject c))

theorem shift?_eq_some_iff {token : Token} {target : StateId} :
    p.shift? c = some (token, target) ↔
      c.lookahead = some token ∧ p.automaton.transition? c.top token.name = some target := by
  unfold shift?
  cases c.lookahead with
  | none => simp
  | some held =>
    cases he : p.automaton.transition? c.top held.name with
    | none =>
      simp only [bind, Option.bind, he, reduceCtorEq, Option.some.injEq, false_iff, not_and]
      rintro rfl
      simp [he]
    | some q =>
      simp only [bind, Option.bind, he, pure, Option.some.injEq, Prod.mk.injEq]
      constructor
      · rintro ⟨rfl, rfl⟩
        exact ⟨rfl, he⟩
      · rintro ⟨rfl, ht⟩
        exact ⟨rfl, Option.some.inj (he.symm.trans ht)⟩

theorem shift?_eq_none {token : Token} (h : p.shift? c = none) (ahead : c.lookahead = some token) :
    p.automaton.transition? c.top token.name = none := by
  by_contra some
  obtain ⟨target, ht⟩ := Option.ne_none_iff_exists'.mp some
  rw [shift?_eq_some_iff.mpr ⟨ahead, ht⟩] at h
  cases h

theorem reduceStep_of_error {r : RuleId} {e : ParseError} (h : p.popFrames c r = .error e) :
    p.reduceStep c r = .inl ⟨.error (.parse e), .event (.reducing r) :: c.journal⟩ := by
  have popped : p.popFrames (c.note (.reducing r)) r = .error e := h
  rw [reduceStep, popped]
  rfl

theorem reduceStep_of_popFrames {r : RuleId} {reduced : Reduced V}
    (h : p.popFrames c r = .ok reduced) :
    p.reduceStep c r =
      match p.automaton.transition? (topState (reduced.below.map Frame.state))
          (p.grammar.production r).subject with
      | none => .inl ⟨.error (.parse (.missingGoto (topState (reduced.below.map Frame.state))
          (p.grammar.production r).subject)), .event (.reducing r) :: c.journal⟩
      | some target => .inr (reducedTo c r reduced target) := by
  have popped : p.popFrames (c.note (.reducing r)) r = .ok reduced := h
  have top : ({ c.note (.reducing r) with
      frames := reduced.below, budget := reduced.budget } : Config ε V).top =
        topState (reduced.below.map Frame.state) := Config.top_eq _
  rw [reduceStep, popped]
  dsimp only
  rw [top]
  cases p.automaton.transition? (topState (reduced.below.map Frame.state))
      (p.grammar.production r).subject with
  | none => rfl
  | some target =>
    change _ = Sum.inr (reducedTo c r reduced target)
    rw [reducedTo, top]

theorem reduceStep_cases {r : RuleId} :
    (∃ e, p.popFrames c r = .error e ∧ ∃ journal,
      p.reduceStep c r = .inl ⟨.error (.parse e), journal⟩) ∨
    ∃ reduced, p.popFrames c r = .ok reduced ∧
      ((p.automaton.transition? (topState (reduced.below.map Frame.state))
          (p.grammar.production r).subject = none ∧ ∃ journal,
        p.reduceStep c r = .inl ⟨.error (.parse (.missingGoto
          (topState (reduced.below.map Frame.state)) (p.grammar.production r).subject)), journal⟩) ∨
      ∃ target, p.automaton.transition? (topState (reduced.below.map Frame.state))
          (p.grammar.production r).subject = some target ∧
        p.reduceStep c r = .inr (reducedTo c r reduced target)) := by
  cases hp : p.popFrames c r with
  | error e => exact Or.inl ⟨e, rfl, _, reduceStep_of_error hp⟩
  | ok reduced =>
    refine Or.inr ⟨reduced, rfl, ?_⟩
    rw [reduceStep_of_popFrames hp]
    cases p.automaton.transition? (topState (reduced.below.map Frame.state))
        (p.grammar.production r).subject with
    | none => exact Or.inl ⟨rfl, _, rfl⟩
    | some target => exact Or.inr ⟨target, rfl, rfl⟩

theorem act_cases [OfToken V] :
    (∃ next, p.act c = .inr next ∧ p.Turn c next) ∨
      ∃ failure journal, p.act c = .inl ⟨.error failure, journal⟩ ∧ p.Halt c failure := by
  unfold act
  dsimp only
  cases hs : p.shift? (c.note (.current c.top)) with
  | some shift =>
    obtain ⟨token, target⟩ := shift
    obtain ⟨ahead, edge⟩ := shift?_eq_some_iff.mp hs
    exact Or.inl ⟨_, rfl, .shift ahead edge⟩
  | none =>
    have stuck : ∀ token, c.lookahead = some token →
        p.automaton.transition? c.top token.name = none := fun token ahead =>
      shift?_eq_none (c := c.note (.current c.top)) hs ahead
    simp only [Config.top_note]
    cases hr : (p.automaton.state c.top).reduction with
    | none => exact Or.inr ⟨_, _, rfl, .reject hr⟩
    | some r =>
      rcases reduceStep_cases (p := p) (c := c.note (.current c.top)) (r := r) with
        ⟨e, popped, journal, he⟩ | ⟨reduced, popped, ⟨edge, journal, he⟩ | ⟨target, edge, he⟩⟩
      · exact Or.inr ⟨_, journal, he, .reduction hr popped⟩
      · exact Or.inr ⟨_, journal, he, .missingGoto hr popped edge⟩
      · exact Or.inl ⟨_, he, .reduce stuck hr popped edge⟩

theorem step_accept [OfToken V] (top : c.top = Automaton.accept) :
    p.step skip c = .inl (p.finish c) := by
  rw [step, if_pos top]

theorem step_look [OfToken V] (top : c.top ≠ Automaton.accept) (h : look skip c = .ok looked) :
    p.step skip c = p.act looked := by
  rw [step, if_neg top, h]

theorem step_look_error [OfToken V] (top : c.top ≠ Automaton.accept)
    (h : look skip c = .error ending) : p.step skip c = .inl ending := by
  rw [step, if_neg top, h]

/-- A step that goes on looks at the next token, and takes a turn. -/
theorem turn_of_step [OfToken V] (h : p.step skip c = .inr next) :
    c.top ≠ Automaton.accept ∧ ∃ looked, look skip c = .ok looked ∧ p.Turn looked next := by
  by_cases top : c.top = Automaton.accept
  · rw [step_accept top] at h
    cases h
  · refine ⟨top, ?_⟩
    cases hl : look skip c with
    | error ending =>
      rw [step_look_error top hl] at h
      cases h
    | ok looked =>
      rw [step_look top hl] at h
      rcases act_cases (p := p) (c := looked) with ⟨next', he, turn⟩ | ⟨_, _, he, _⟩
      · cases he.symm.trans h
        exact ⟨looked, rfl, turn⟩
      · cases he.symm.trans h

/-- A step that ends the run accepts, or fails with an error of the stream or of the parse. -/
theorem end_of_step [OfToken V] (h : p.step skip c = .inl ending) :
    (c.top = Automaton.accept ∧ ending = p.finish c) ∨
      c.top ≠ Automaton.accept ∧
        ((∃ e, ending.outcome = .error (.input e)) ∨
          ∃ looked failure, look skip c = .ok looked ∧ p.Halt looked failure ∧
            ending.outcome = .error failure) := by
  by_cases top : c.top = Automaton.accept
  · rw [step_accept top] at h
    exact Or.inl ⟨top, (Sum.inl.inj h).symm⟩
  · refine Or.inr ⟨top, ?_⟩
    cases hl : look skip c with
    | error ending' =>
      rw [step_look_error top hl] at h
      cases h
      exact Or.inl (look_error hl)
    | ok looked =>
      rw [step_look top hl] at h
      rcases act_cases (p := p) (c := looked) with ⟨_, he, _⟩ | ⟨failure, journal, he, halt⟩
      · cases he.symm.trans h
      · cases he.symm.trans h
        exact Or.inr ⟨looked, failure, rfl, halt, rfl⟩

end Parser

end ShiftFirst
