import ShiftFirst.Proofs.Automaton.Loop
import ShiftFirst.Proofs.Parser.Follow
import ShiftFirst.Proofs.Parser.Soundness

namespace ShiftFirst

variable {ε V : Type}

namespace Grammar

/-- No text of the grammar goes on with a token of this name. -/
def Foreign (g : Grammar V) (name : Symbol) : Prop :=
  name ≠ endSymbol ∧ ∀ rule ∈ g.rules, name ∉ rule.predicate

/-- The rules by which the start symbol stands for itself accept all values. -/
def LoopsFreely (g : Grammar V) : Prop :=
  ∀ r, g.Loops r → ∀ v, ∃ w, g.reduce r [v] = .ok w

/-- In front of a token that no text goes on with, there is nothing to shift behind a symbol of a
loop. -/
theorem Foreign.stuck {g : Grammar V} {a : Automaton} {name : Symbol} (foreign : g.Foreign name)
    (self : g.SelfReducing) (q : StateId) (h : g.Canonical a) : a.transition? q name = none := by
  by_contra some
  obtain ⟨⟨r, d⟩, hi, hn⟩ :=
    (h.transition_isSome q name).mp (Option.isSome_iff_ne_none.mpr some)
  have start : ∃ rule ∈ g.rules, g.start ∈ rule.predicate := by
    obtain ⟨r, single, _⟩ := self.previous onLoop_start
    obtain ⟨rule, mem, _, hp⟩ := rule_of_authored (authored_of_single single).1
      (authored_of_single single).2
    exact ⟨rule, mem, by rw [← hp, single]; exact List.mem_singleton.mpr rfl⟩
  have mentioned : name ∈ (g.production r).predicate := List.mem_of_getElem? hn
  rcases Nat.eq_zero_or_pos r with rfl | pos
  · rcases List.mem_pair.mp mentioned with rfl | rfl
    · obtain ⟨rule, mem, inside⟩ := start
      exact foreign.2 rule mem inside
    · exact foreign.1 rfl
  · obtain ⟨rule, mem, _, hp⟩ := rule_of_authored pos (mem_items.mp (h.items_subset q hi)).1
    exact foreign.2 rule mem (hp ▸ mentioned)

end Grammar

namespace Parser

variable {p : Parser V} {skip : List Symbol} {c c' next : Config ε V} {token : Token}
  {tokens : List Token}

/-- A run without a budget fails when it comes to reduce by a rule of the authors. -/
theorem At.step_exhausted [OfToken V] {states : List StateId} {stack : List (Nat × V)}
    (h : At c states stack (token :: tokens)) {r : Nat}
    (going : topState states ≠ Automaton.accept)
    (stuck : p.automaton.transition? (topState states) token.name = none)
    (complete : (p.automaton.state (topState states)).reduction = some (r + 1))
    (enough : (p.grammar.production (r + 1)).predicate.length ≤ states.length)
    (empty : c.budget = 0) :
    ∃ ending text position, p.step [] c = .inl ending ∧
      ending.outcome = .error (.parse (.reduction text position .outOfFuel)) := by
  rw [← h.top] at going
  obtain ⟨looked, hl, there, ahead, budget⟩ := h.look
  rw [← there.top] at stuck complete
  have only : ∀ held, looked.lookahead = some held →
      p.automaton.transition? looked.top held.name = none := fun held hheld => by
    cases ahead.symm.trans hheld
    exact stuck
  have filled : ¬ looked.frames.length < (p.grammar.production (r + 1)).predicate.length := by
    rw [← there.states, Config.states, List.length_map] at enough
    exact Nat.not_lt.mpr enough
  have unpaid : (looked.note (.current looked.top)).budget = 0 := budget.trans empty
  have popped : p.popFrames (looked.note (.current looked.top)) (r + 1) =
      .error (.reduction (p.grammar.ruleText (r + 1)) (((looked.frames.take
        (p.grammar.production (r + 1)).predicate.length).reverse.head?).elim 0 Frame.position)
        .outOfFuel) := by
    rw [Parser.popFrames, unpaid]
    exact if_neg filled
  rw [step_look going hl, act_reduce only complete, reduceStep_of_error popped]
  exact ⟨_, _, _, rfl, rfl⟩

/-- The stack is the state behind a symbol of a loop, in front of these tokens. -/
def Circling (p : Parser V) (tokens : List Token) (c : Config ε V) : Prop :=
  ∃ symbol q entry, p.grammar.OnLoop symbol ∧
    p.automaton.transition? Automaton.start symbol = some q ∧ At c [q] [entry] tokens

section Circling

variable (built : p.Built) (self : p.grammar.SelfReducing) (free : p.grammar.LoopsFreely)
  (foreign : p.grammar.Foreign token.name)
include built self free foreign

/-- A run that goes round a loop goes on with it as long as there is a budget, and then fails for
want of it. -/
theorem Circling.step [OfToken V] (h : p.Circling (token :: tokens) c) :
    (∃ next, p.step [] c = .inr next ∧ p.Circling (token :: tokens) next) ∨
      ∃ ending text position, p.step [] c = .inl ending ∧
        ending.outcome = .error (.parse (.reduction text position .outOfFuel)) := by
  obtain ⟨symbol, q, entry, on, edge, there⟩ := h
  obtain ⟨r, q', complete, single, before, edge'⟩ := built.canonical.loop self on edge
  have stuck := foreign.stuck self q built.canonical
  have one : (p.grammar.production r).predicate.length = 1 := by
    rw [single]
    rfl
  have going : topState [q] ≠ Automaton.accept := fun accepted => by
    have last := built.canonical.mem_of_reduction complete
    rw [show q = Automaton.accept from accepted] at last
    have dot := congrArg Item.dot (built.canonical.mem_items_accept.mp last)
    rw [show Item.dot ⟨r, _⟩ = 1 from one] at dot
    cases dot
  by_cases affordable : 0 < c.budget
  · have step := there.step_reduce one affordable going stuck complete (Nat.le_refl 1) edge'
    obtain ⟨w, made⟩ := free r (before.loops on single) entry.2
    have value : p.grammar.reduce r (([entry].take 1).reverse.map Prod.snd) = .ok w := made
    rw [value] at step
    obtain ⟨next, hs, there', _⟩ := step
    exact Or.inl ⟨next, hs, _, q', _, before, edge', there'⟩
  · obtain ⟨r, rfl⟩ := Nat.exists_eq_succ_of_ne_zero
      (Nat.one_le_iff_ne_zero.mp (Grammar.authored_of_single single).1)
    exact Or.inr (there.step_exhausted going stuck complete (Nat.le_of_eq one)
      (Nat.eq_zero_of_not_pos affordable))

theorem Circling.ends [OfToken V] (h : p.Circling (token :: tokens) c) :
    ∃ ending text position, p.Ends [] c ending ∧
      ending.outcome = .error (.parse (.reduction text position .outOfFuel)) := by
  obtain ⟨ending, he⟩ := Sum.isLeft_iff.mp (p.advance_isLeft [] (Nat.lt_succ_self c.weight))
  have ends := ends_of_advance he
  obtain ⟨last, reaches, hs⟩ := ends
  have circling : p.Circling (token :: tokens) last := by
    refine reaches.keeps (fun {c c'} there hs' => ?_) h
    rcases there.step built self free foreign with ⟨next, hs'', there'⟩ | ⟨_, _, _, hs'', _⟩
    · cases hs'.symm.trans hs''
      exact there'
    · cases hs'.symm.trans hs''
  rcases circling.step built self free foreign with ⟨_, hs', _⟩ | ⟨_, text, position, hs', outcome⟩
  · cases hs.symm.trans hs'
  · cases hs.symm.trans hs'
    exact ⟨ending, text, position, ⟨last, reaches, hs⟩, outcome⟩

/-- Behind a text of the grammar, a token that no text goes on with uses up every budget. -/
theorem run_circles [OfToken V] {tree : Tree p.grammar p.grammar.start} {value : V}
    (made : tree.value = .ok value) (settled : tree.Settled p.automaton token.name) {budget : Nat}
    (enough : tree.nodes ≤ budget) :
    ∃ text position,
      (p.run [] budget ((tree.tokens ++ token :: tokens).map (Except.ok (ε := ε)))).outcome =
        .error (.parse (.reduction text position .outOfFuel)) := by
  have wanted : p.grammar.next? Grammar.initialItem = some p.grammar.start := rfl
  have begins : Grammar.initialItem ∈ (p.automaton.state (topState [])).items :=
    built.canonical.initialItem_mem_start
  obtain ⟨q, edge, _, drives⟩ := tree.drives built.canonical tokens begins wanted settled
  have arrives := (at_initial (ε := ε)).follow drives (tree.cost_moves ▸ enough)
  rw [← List.append_nil tree.moves, tree.replay_moves, made] at arrives
  obtain ⟨c, reaches, there⟩ := arrives
  have circling : p.Circling (token :: tokens) c := ⟨_, q, _, Grammar.onLoop_start, edge, there⟩
  obtain ⟨ending, text, position, ends, outcome⟩ := circling.ends built self free foreign
  exact ⟨text, position, by rw [run_eq (reaches.ends ends), outcome]⟩

end Circling

/-- A run is behind the start symbol, and comes back to it without a token shifted. -/
structure Returns [OfToken V] (p : Parser V) (skip : List Symbol) (c c' : Config ε V) : Prop where
  steps : Relation.TransGen (fun c c' => p.step skip c = .inr c') c c'
  shifts : c'.stats.shifts = c.stats.shifts
  begins : ∃ q, p.automaton.transition? Automaton.start p.grammar.start = some q ∧
    c.states = [q] ∧ c'.states = [q]

theorem shifts_le_of_step [OfToken V] (hs : p.step skip c = .inr next) :
    c.stats.shifts ≤ next.stats.shifts := by
  obtain ⟨_, looked, hl, turn⟩ := turn_of_step hs
  obtain ⟨items, looks⟩ := look_ok hl
  rw [← looks.shifts]
  cases turn with
  | shift => exact Nat.le_succ _
  | reduce => exact Nat.le_refl _

/-- With a single state on its stack, a run that shifts nothing replaces a symbol by one that stands
for it. -/
theorem unit_of_step [OfToken V] (built : p.Built) {symbol : Symbol} {q : StateId}
    (states : c.states = [q]) (edge : p.automaton.transition? Automaton.start symbol = some q)
    (hs : p.step skip c = .inr next) (idle : next.stats.shifts = c.stats.shifts) :
    ∃ subject q', next.states = [q'] ∧ p.grammar.UnitRule subject symbol ∧
      p.automaton.transition? Automaton.start subject = some q' := by
  obtain ⟨_, looked, hl, turn⟩ := turn_of_step hs
  obtain ⟨items, looks⟩ := look_ok hl
  rw [← looks.shifts] at idle
  cases turn with
  | shift => exact absurd idle (Nat.succ_ne_self _)
  | @reduce r reduced target _ complete popped goto =>
    have top : topState [q] = looked.top := by rw [looks.top, Config.top_eq, states]
    have path : p.automaton.Path [q] [symbol] := .cons .nil edge
    have last := built.canonical.mem_of_reduction complete
    rw [← top] at last
    obtain ⟨enough, read, _⟩ := built.canonical.retrace path last
    have known := built.canonical.le_of_reduction complete
    have some := List.length_pos_iff.mpr (Grammar.predicate_ne_nil known)
    have one : (p.grammar.production r).predicate.length = 1 :=
      Nat.le_antisymm enough some
    rw [List.take_length, one] at read
    have below := popFrames_states popped
    rw [looks.states, states, one] at below
    rw [below] at goto
    refine ⟨_, target, ?_, Grammar.unitRule_iff.mpr ⟨r, read.symm, rfl⟩, goto⟩
    rw [states_reducedTo, below]
    rfl

theorem Returns.selfReducing [OfToken V] (h : p.Returns skip c c') (built : p.Built) :
    p.grammar.SelfReducing := by
  obtain ⟨steps, shifts, q, edge, states, states'⟩ := h
  -- The symbol behind which the run is has become one that stands for the start symbol.
  have chain : c.stats.shifts ≤ c'.stats.shifts ∧ (c'.stats.shifts = c.stats.shifts →
      ∃ symbol q', c'.states = [q'] ∧ Relation.TransGen p.grammar.UnitRule symbol p.grammar.start ∧
        p.automaton.transition? Automaton.start symbol = some q') := by
    clear shifts states'
    induction steps with
    | single hs =>
      refine ⟨shifts_le_of_step hs, fun idle => ?_⟩
      obtain ⟨subject, q', states', unit, edge'⟩ := unit_of_step built states edge hs idle
      exact ⟨subject, q', states', .single unit, edge'⟩
    | tail _ hs ih =>
      obtain ⟨le, ih⟩ := ih
      have le' := shifts_le_of_step hs
      refine ⟨le.trans le', fun idle => ?_⟩
      obtain ⟨symbol, q', states', chain, edge'⟩ := ih (by omega)
      obtain ⟨subject, q'', states'', unit, edge''⟩ :=
        unit_of_step built states' edge' hs (by omega)
      exact ⟨subject, q'', states'', .head unit chain, edge''⟩
  obtain ⟨symbol, q', states'', chain, edge'⟩ := chain.2 shifts
  obtain rfl : q' = q := List.head_eq_of_cons_eq (states''.symm.trans states')
  rwa [built.canonical.eq_start_of_transition edge edge'] at chain

theorem ofRules_error_iff {rules : List (Rule V)} {g : Grammar V}
    (faultless : Grammar.ofRules rules = .ok g) :
    (∃ e, (Parser.ofRules rules).2 = .error e) ↔ ∃ e, g.automaton.2 = .error e := by
  rw [ofRules, faultless]
  dsimp only
  cases g.automaton.2 <;> simp [Except.map]

/-- A grammar whose start symbol stands for itself by rules with one symbol each is refused for it
only if two of these rules come to the same symbol. Else it may be accepted; then a token that no
text goes on with makes a run reduce the start symbol to itself until its budget is used up,
however large it is. In no other grammar does a run come from the start symbol back to it. -/
theorem self_reduction_refused_iff [OfToken V] {rules : List (Rule V)} {g : Grammar V}
    (faultless : Grammar.ofRules rules = .ok g) :
    ((∃ e, (Parser.ofRules rules).2 = .error e) ↔
      g.LoopsMeet ∨ ∃ items, g.Reachable items ∧ g.ConflictsBeside items) ∧
    ∀ a, (Parser.ofRules rules).2 = .ok ⟨g, a⟩ →
      (g.SelfReducing → g.LoopsFreely → ∀ (tree : Tree g g.start) (value : V) (token : Token)
        (tokens : List Token) (budget : Nat), tree.value = .ok value → g.Foreign token.name →
          tree.Settled a token.name → tree.nodes ≤ budget →
          ∃ text position, ((Parser.mk g a).run [] budget
            ((tree.tokens ++ token :: tokens).map (Except.ok (ε := ε)))).outcome =
              .error (.parse (.reduction text position .outOfFuel))) ∧
      ∀ (skip : List Symbol) (c c' : Config ε V), (Parser.mk g a).Returns skip c c' →
        g.SelfReducing := by
  refine ⟨(ofRules_error_iff faultless).trans (Grammar.error_iff.trans Grammar.conflict_iff), ?_⟩
  intro a accepted
  have built : Built ⟨g, a⟩ := (ofRules_ok_iff.mp accepted).2
  refine ⟨?_, fun skip c c' returns => returns.selfReducing built⟩
  intro self free tree value token tokens budget made foreign settled enough
  exact run_circles built self free foreign made settled enough

/-- A start symbol that stands for itself, and no two rules that come to the same symbol. -/
def restated : Grammar String where
  rules := [
    ⟨⟨"S", ["S"]⟩, fun vs => .ok ("S[" ++ ",".intercalate vs ++ "]")⟩,
    ⟨⟨"S", ["a"]⟩, fun vs => .ok ("S[" ++ ",".intercalate vs ++ "]")⟩]
  rules_ne_nil := List.cons_ne_nil _ _
  faultless := by decide

def restatedParser : Parser String := ⟨restated, restated.automaton.2.toOption.getD ⟨[]⟩⟩

set_option maxRecDepth 100000 in
theorem built_restated : restatedParser.Built := by
  rw [Built]
  decide +kernel

theorem selfReducing_restated : restated.SelfReducing :=
  .single ⟨_, List.mem_cons_self, rfl, rfl⟩

theorem restated_accepted :
    restated.SelfReducing ∧ (Parser.ofRules restated.rules).2 = .ok restatedParser :=
  ⟨selfReducing_restated, ofRules_ok_iff.mpr ⟨rfl, built_restated⟩⟩

theorem loopsFreely_restated : restated.LoopsFreely := by
  rintro (r : Nat) ⟨next, single, _⟩ v
  obtain ⟨pos, hle⟩ := Grammar.authored_of_single single
  have hle : r ≤ 2 := hle
  obtain rfl | rfl : r = 1 ∨ r = 2 := by omega
  · exact ⟨_, rfl⟩
  · exact ⟨_, rfl⟩

theorem self_reduction_restated :
    Grammar.ofRules restated.rules = .ok restated ∧
      (Parser.ofRules restated.rules).2 = .ok restatedParser ∧ ¬ restated.LoopsMeet ∧
      restated.SelfReducing ∧ restated.LoopsFreely ∧ restated.Foreign "b" ∧
      ∀ budget, 1 ≤ budget → ∃ text position,
        (restatedParser.run [] budget
          ([⟨"a", "a", 0⟩, ⟨"b", "b", 1⟩].map (Except.ok (ε := Empty)))).outcome =
            .error (.parse (.reduction text position .outOfFuel)) := by
  have faultless := ofRules_rules restated
  have accepted := ofRules_ok_iff.mpr ⟨rfl, built_restated⟩
  have foreign : restated.Foreign "b" := ⟨by decide, by decide⟩
  have result := self_reduction_refused_iff (ε := Empty) faultless
  refine ⟨faultless, accepted, fun meet => ?_, selfReducing_restated, loopsFreely_restated, foreign,
    fun budget enough => ?_⟩
  · obtain ⟨e, refused⟩ := result.1.mpr (Or.inl meet)
    cases accepted.symm.trans refused
  · let tree : Tree restated restated.start :=
      .node ⟨1, by decide⟩ (.cons (.leaf ⟨"a", "a", 0⟩) .nil)
    have settled : tree.Settled restatedParser.automaton "b" :=
      ⟨⟨trivial, trivial⟩, fun q _ =>
        foreign.stuck selfReducing_restated q built_restated.canonical⟩
    exact (result.2 _ accepted).1 selfReducing_restated loopsFreely_restated tree _ ⟨"b", "b", 1⟩ []
      budget rfl foreign settled enough

end Parser

end ShiftFirst
