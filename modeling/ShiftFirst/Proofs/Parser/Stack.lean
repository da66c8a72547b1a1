import Mathlib.Data.List.Forall2
import ShiftFirst.Proofs.Grammar.Tree
import ShiftFirst.Proofs.Parser.Turn

namespace ShiftFirst

variable {ε V : Type}

/-- The derivations of a stack in a row. -/
def Forest.ofList {g : Grammar V} :
    (trees : List (Sigma (Tree g))) → Forest g (trees.map Sigma.fst)
  | [] => .nil
  | ⟨_, tree⟩ :: trees => .cons tree (ofList trees)

namespace Forest

variable {g : Grammar V}

theorem tokens_ofList (trees : List (Sigma (Tree g))) :
    (ofList trees).tokens = trees.flatMap fun t => t.2.tokens := by
  induction trees with
  | nil => rfl
  | cons t trees ih => simp [ofList, Forest.tokens, ih]

theorem moves_ofList (trees : List (Sigma (Tree g))) :
    (ofList trees).moves = trees.flatMap fun t => t.2.moves := by
  induction trees with
  | nil => rfl
  | cons t trees ih => simp [ofList, Forest.moves, ih]

theorem nodes_append (trees trees' : List (Sigma (Tree g))) :
    (ofList (trees ++ trees')).nodes = (ofList trees).nodes + (ofList trees').nodes := by
  induction trees with
  | nil => exact (Nat.zero_add _).symm
  | cons t trees ih =>
    rw [List.cons_append, ofList, ofList, Forest.nodes, Forest.nodes, ih, Nat.add_assoc]

theorem nodes_reverse (trees : List (Sigma (Tree g))) :
    (ofList trees.reverse).nodes = (ofList trees).nodes := by
  induction trees with
  | nil => rfl
  | cons t trees ih =>
    rw [List.reverse_cons, nodes_append, ih, Nat.add_comm]
    rfl

end Forest

/-- A frame has the value and the position of a derivation. -/
def Frame.Carries [OfToken V] {g : Grammar V} (frame : Frame V) (t : Sigma (Tree g)) : Prop :=
  t.2.value = .ok frame.value ∧ frame.position = t.2.position

theorem Forest.values_ofList [OfToken V] {g : Grammar V} {frames : List (Frame V)}
    {trees : List (Sigma (Tree g))} (h : List.Forall₂ Frame.Carries frames trees) :
    (ofList trees).values = .ok (frames.map Frame.value) ∧
      ((frames.head?).elim 0 Frame.position) = (ofList trees).position := by
  induction h with
  | nil => exact ⟨rfl, rfl⟩
  | cons carries _ ih =>
    refine ⟨?_, ?_⟩
    · simp [ofList, Forest.values, carries.1, ih.1, bind, Except.bind, pure, Except.pure]
    · simp [ofList, Forest.position_cons, carries.2]

theorem Grammar.reduceWithin_ok {g : Grammar V} {budget budget' : Nat} {r : RuleId}
    {values : List V} {value : V} (h : g.reduceWithin budget r values = (.ok value, budget')) :
    g.reduce r values = .ok value := by
  unfold reduceWithin at h
  split at h
  next => exact (Prod.mk.inj h).1
  next => simp at h
  next => exact (Prod.mk.inj h).1

namespace Parser

/-- The automaton of a parser is the one of its grammar. -/
def Built (p : Parser V) : Prop := p.grammar.automaton.2 = .ok p.automaton

theorem ofRules_rules (g : Grammar V) : Grammar.ofRules g.rules = .ok g :=
  Grammar.ofRules_eq_ok_iff.mpr rfl

theorem ofRules_ok_iff {rules : List (Rule V)} {p : Parser V} :
    (Parser.ofRules rules).2 = .ok p ↔ p.grammar.rules = rules ∧ p.Built := by
  constructor
  · intro h
    unfold ofRules at h
    split at h
    next => simp at h
    next g hg =>
      obtain ⟨a, ha, rfl⟩ : ∃ a, g.automaton.2 = .ok a ∧ Parser.mk g a = p := by
        cases ha : g.automaton.2 with
        | error e => simp [ha, Except.map] at h
        | ok a => exact ⟨a, rfl, by simpa [ha, Except.map] using h⟩
      exact ⟨Grammar.ofRules_eq_ok_iff.mp hg, ha⟩
  · rintro ⟨same, built⟩
    rw [ofRules, Grammar.ofRules_eq_ok_iff.mpr same]
    exact congrArg (Except.map (Parser.mk p.grammar)) built

/-- Rules that make no parser fail at one of two places: at the grammar, or at the automaton. -/
theorem ofRules_eq_error_iff {rules : List (Rule V)} {e : GrammarError} :
    (Parser.ofRules rules).2 = .error e ↔
      Grammar.ofRules rules = .error e ∨
        ∃ g, Grammar.ofRules rules = .ok g ∧ g.automaton.2 = .error e := by
  unfold ofRules
  cases Grammar.ofRules rules with
  | error e' => simp
  | ok g =>
    have mapped : g.automaton.2.map (Parser.mk g) = .error e ↔ g.automaton.2 = .error e := by
      cases g.automaton.2 <;> simp [Except.map]
    simpa using mapped

theorem Built.canonical {p : Parser V} (h : p.Built) : p.grammar.Canonical p.automaton :=
  Grammar.canonical_of_automaton h

/-- The states of the stack lie on a way from the starting state. -/
def OnPath (p : Parser V) (c : Config ε V) : Prop :=
  ∃ symbols, p.automaton.Path c.states symbols

variable {p : Parser V} {skip : List Symbol} {c looked next : Config ε V}

theorem Looks.states {items : List (Except ε Token)} (h : Looks skip c looked items) :
    looked.states = c.states := by
  rw [Config.states, h.frames, Config.states]

theorem Looks.top {items : List (Except ε Token)} (h : Looks skip c looked items) :
    looked.top = c.top := by
  rw [Config.top_eq, h.states, Config.top_eq]

theorem OnPath.turn [OfToken V] (h : p.OnPath c) (turn : p.Turn c next) : p.OnPath next := by
  obtain ⟨symbols, path⟩ := h
  cases turn with
  | shift _ edge =>
    rw [Config.top_eq] at edge
    exact ⟨_, .cons path edge⟩
  | reduce _ _ popped edge =>
    rw [OnPath, states_reducedTo]
    rw [popFrames_states popped] at edge ⊢
    exact ⟨_, .cons (path.drop _) edge⟩

theorem OnPath.step [OfToken V] (h : p.OnPath c) (hs : p.step skip c = .inr next) :
    p.OnPath next := by
  obtain ⟨_, looked, hl, turn⟩ := turn_of_step hs
  obtain ⟨items, looks⟩ := look_ok hl
  refine OnPath.turn ?_ turn
  rwa [OnPath, looks.states]

theorem onPath_initial {budget : Nat} {stream : List (Except ε Token)} :
    p.OnPath (.initial budget stream) := ⟨[], .nil⟩

theorem onPath_of_reaches [OfToken V] {budget : Nat} {stream : List (Except ε Token)}
    (h : p.Reaches skip (.initial budget stream) c) : p.OnPath c :=
  h.keeps OnPath.step onPath_initial

/-- Where the top state reduces by a rule, the stack has the symbols of its predicate on top and
begins the rule below them. -/
theorem OnPath.complete (h : p.OnPath c) (built : p.Built) {r : Nat}
    (complete : (p.automaton.state c.top).reduction = some r) :
    (p.grammar.production r).predicate.length ≤ c.frames.length ∧
      (⟨r, 0⟩ : Item) ∈ (p.automaton.state (topState
        (c.states.drop (p.grammar.production r).predicate.length))).items := by
  obtain ⟨symbols, path⟩ := h
  rw [Config.top_eq] at complete
  obtain ⟨hlen, _, first⟩ :=
    built.canonical.retrace path (built.canonical.mem_of_reduction complete)
  rw [Config.states, List.length_map] at hlen
  exact ⟨hlen, first⟩

/-- Where the rule that begins every grammar is complete, its two frames are there, and nothing
but the starting state is below them. -/
theorem OnPath.begin (h : p.OnPath c) (built : p.Built)
    (complete : (p.automaton.state c.top).reduction = some 0) :
    ∃ last first below, c.frames = last :: first :: below ∧
      topState (below.map Frame.state) = Automaton.start := by
  obtain ⟨enough, opens⟩ := h.complete built complete
  match hf : c.frames, enough with
  | last :: first :: below, _ =>
    rw [Config.states, hf] at opens
    exact ⟨last, first, below, rfl, built.canonical.eq_start_of_initialItem_mem opens⟩

/-- A run that fails, but not by an error of its stream, has looked at a token and then ends. -/
theorem run_acts [OfToken V] (built : p.Built) {budget : Nat} {stream : List (Except ε Token)}
    {e : ParseError} (h : (p.run skip budget stream).outcome = .error (.parse e)) :
    ∃ c looked ending, p.Reaches skip (.initial budget stream) c ∧ c.top ≠ Automaton.accept ∧
      look skip c = .ok looked ∧ p.act looked = .inl ending ∧
      p.run skip budget stream = ⟨ending.outcome, ending.journal.reverse⟩ := by
  obtain ⟨ending, ⟨c, reaches, hs⟩, run⟩ := p.run_ends skip budget stream
  rw [run] at h
  by_cases top : c.top = Automaton.accept
  · rw [step_accept top] at hs
    cases hs
    have complete := built.canonical.reduction_of_mem (built.canonical.mem_items_accept.mpr rfl)
    obtain ⟨_, _, _, frames, _⟩ := (onPath_of_reaches reaches).begin built (top ▸ complete)
    cases (finish_outcome frames).symm.trans h
  · cases hl : look skip c with
    | error ending' =>
      rw [step_look_error top hl] at hs
      cases hs
      obtain ⟨e, failed⟩ := look_error hl
      cases failed.symm.trans h
    | ok looked => exact ⟨c, looked, ending, reaches, top, hl, step_look top hl ▸ hs, run⟩

/-- A run that fails, but not by an error of its stream, halts at a token that it looks at. -/
theorem run_halts [OfToken V] (built : p.Built) {budget : Nat} {stream : List (Except ε Token)}
    {e : ParseError} (h : (p.run skip budget stream).outcome = .error (.parse e)) :
    ∃ c looked, p.Reaches skip (.initial budget stream) c ∧ c.top ≠ Automaton.accept ∧
      look skip c = .ok looked ∧ p.Halt looked (.parse e) := by
  obtain ⟨c, looked, ending, reaches, going, hl, ends, run⟩ := run_acts built h
  refine ⟨c, looked, reaches, going, hl, ?_⟩
  rcases act_cases (p := p) (c := looked) with ⟨_, goes, _⟩ | ⟨failure, _, stops, halt⟩
  · cases goes.symm.trans ends
  · cases stops.symm.trans ends
    rw [run] at h
    cases h
    exact halt

end Parser

end ShiftFirst
