import ShiftFirst.Proofs.Automaton.Ending
import ShiftFirst.Proofs.Parser.Follow
import ShiftFirst.Proofs.Parser.Soundness

namespace ShiftFirst

variable {ε V : Type}

/-- A rule goes on behind the end of the text, so that the rule that begins every grammar is
reduced by like any other; and no text begins with the subject of that rule, so that there is no
state to go on from. -/
def Grammar.LosesGoto (g : Grammar V) : Prop :=
  g.PassesEnd ∧ ¬ g.BeginsWith g.start startSymbol

theorem Grammar.Canonical.transition_start_iff {g : Grammar V} {a : Automaton} (h : g.Canonical a)
    {symbol : Symbol} :
    (∃ t, a.transition? Automaton.start symbol = some t) ↔ g.BeginsWith g.start symbol := by
  rw [← Option.isSome_iff_exists, h.transition_isSome, h.items_start,
    exists_next_closure g.initial_subset]
  constructor
  · rintro ⟨i, hi, first, hf, begins⟩
    obtain rfl := List.mem_singleton.mp hi
    cases hf
    exact begins
  · exact fun begins => ⟨initialItem, List.mem_singleton.mpr rfl, g.start, rfl, begins⟩

/-- Every way to a state that reduces by a rule of the authors has the predicate of the rule as its
last symbols, and the state in front of them goes on over the subject. -/
theorem Grammar.reduction_retraces {g : Grammar V} {a : Automaton} (built : g.automaton.2 = .ok a)
    {states : List StateId} {symbols : List Symbol} (path : a.Path states symbols) {q : StateId}
    (ends : topState states = q) {k : Fin g.rules.length}
    (complete : (a.state q).reduction = some (k.val + 1)) :
    (g.rules.get k).predicate.length ≤ symbols.length ∧
      (symbols.take (g.rules.get k).predicate.length).reverse = (g.rules.get k).predicate ∧
      ∃ t, a.transition? (topState (states.drop (g.rules.get k).predicate.length))
        (g.rules.get k).subject = some t := by
  have canonical := canonical_of_automaton built
  rw [← ends] at complete
  have last := canonical.mem_of_reduction complete
  obtain ⟨enough, read, first⟩ := canonical.retrace path last
  obtain ⟨t, edge⟩ := canonical.transition_of_opening (Nat.succ_pos k) first
  rw [production_authored] at enough read edge
  rw [List.take_length] at read
  exact ⟨path.length_eq ▸ enough, read, t, edge⟩

/-- The way of `sum + n * n * product`, on which the last rule but one begins twice. -/
theorem reduction_retraces_sums :
    Parser.sumsParser.automaton.Path [8, 6, 4, 6, 4, 5, 2]
        ["product", "*", "n", "*", "n", "+", "sum"] ∧
      (Parser.sumsParser.automaton.state 8).reduction = some 3 ∧
      (["product", "*", "n", "*", "n", "+", "sum"].take 3).reverse = ["n", "*", "product"] ∧
      ∃ t, Parser.sumsParser.automaton.transition? 6 "product" = some t := by
  have path : Parser.sumsParser.automaton.Path [8, 6, 4, 6, 4, 5, 2]
      ["product", "*", "n", "*", "n", "+", "sum"] := by
    refine .cons (.cons (.cons (.cons (.cons (.cons (.cons .nil ?_) ?_) ?_) ?_) ?_) ?_) ?_ <;>
      decide +kernel
  have complete : (Parser.sumsParser.automaton.state 8).reduction = some 3 := by decide +kernel
  obtain ⟨_, read, edge⟩ := Grammar.reduction_retraces Parser.built_sums path rfl
    (k := ⟨2, by decide⟩) complete
  exact ⟨path, complete, read, edge⟩

namespace Parser

variable {p : Parser V} {skip : List Symbol} {c looked : Config ε V}

/-- A run with a way from the starting state to its top never lacks a frame, and lacks a state to
go on from only where the rule that begins every grammar has been reduced by. -/
theorem Halt.of_onPath {failure : Failure ε} (halt : p.Halt c failure) (built : p.Built)
    (path : p.OnPath c) (going : c.top ≠ Automaton.accept) :
    failure ≠ .parse .emptyStack ∧
      ∀ q symbol, failure = .parse (.missingGoto q symbol) →
        q = Automaton.start ∧ symbol = startSymbol ∧ p.grammar.LosesGoto := by
  cases halt with
  | reduction complete popped =>
    rcases popFrames_error popped with ⟨_, few⟩ | ⟨_, rfl, _⟩
    · exact absurd few (Nat.not_lt.mpr (path.complete built complete).1)
    · exact ⟨by simp, by simp⟩
  | @missingGoto r reduced complete popped edge =>
    refine ⟨by simp, fun q symbol he => ?_⟩
    obtain ⟨rfl, rfl⟩ := ParseError.missingGoto.inj (Failure.parse.inj he)
    have first := (path.complete built complete).2
    rw [← popFrames_states popped] at first
    -- A rule of the authors begins where its subject is wanted, so only rule zero can fail.
    by_cases authored : 1 ≤ r
    · obtain ⟨t, ht⟩ := built.canonical.transition_of_opening authored first
      cases ht.symm.trans edge
    · obtain rfl : r = 0 := Nat.lt_one_iff.mp (Nat.lt_of_not_le authored)
      have below := built.canonical.eq_start_of_initialItem_mem first
      rw [below] at edge ⊢
      refine ⟨rfl, rfl, ?_, fun begins => ?_⟩
      · by_contra inner
        exact going (built.canonical.eq_accept_of_reduction inner complete)
      · obtain ⟨t, ht⟩ := built.canonical.transition_start_iff.mpr begins
        cases ht.symm.trans edge
  | reject none =>
    unfold Parser.reject
    split <;> simp

theorem run_error [OfToken V] (built : p.Built) {budget : Nat} {stream : List (Except ε Token)}
    {e : ParseError} (h : (p.run skip budget stream).outcome = .error (.parse e)) :
    e ≠ .emptyStack ∧ ∀ q symbol, e = .missingGoto q symbol →
      q = Automaton.start ∧ symbol = startSymbol ∧ p.grammar.LosesGoto := by
  obtain ⟨c, looked, reaches, going, hl, halt⟩ := run_halts built h
  obtain ⟨items, looks⟩ := look_ok hl
  have path : p.OnPath looked := by
    rw [OnPath, looks.states]
    exact onPath_of_reaches reaches
  obtain ⟨enough, goto⟩ := halt.of_onPath built path (looks.top ▸ going)
  exact ⟨fun he => enough (congrArg _ he), fun q symbol he => goto q symbol (congrArg _ he)⟩

/-- A run that is to reduce by the rule that begins every grammar, behind all tokens, fails if no
text begins with the subject of that rule. -/
theorem At.loses [OfToken V] {states : List StateId} {stack : List (Nat × V)}
    (h : At c states stack []) (built : p.Built) (path : p.OnPath c)
    (going : topState states ≠ Automaton.accept)
    (complete : (p.automaton.state (topState states)).reduction = some 0)
    (lost : p.automaton.transition? Automaton.start startSymbol = none) :
    ∃ ending, p.step [] c = .inl ending ∧
      ending.outcome = .error (.parse (.missingGoto Automaton.start startSymbol)) := by
  rw [← h.top] at going complete
  obtain ⟨ahead, stream⟩ := List.append_eq_nil_iff.mp h.ahead
  have idle : c.lookahead = none := by
    cases hl : c.lookahead with
    | none => rfl
    | some token => simp [hl] at ahead
  have hl : Parser.look [] c = .ok { c with exhausted := true, stream := [] } := by
    rw [Parser.look, if_pos (by simp [idle, h.open_]), stream]
    rfl
  let looked : Config ε V := { c with exhausted := true, stream := [] }
  have stuck : ∀ token, looked.lookahead = some token →
      p.automaton.transition? looked.top token.name = none := fun token ahead =>
    absurd (idle.symm.trans ahead) (Option.some_ne_none token).symm
  obtain ⟨last, first, below, frames, start⟩ := path.begin built complete
  have popped : p.popFrames (looked.note (.current looked.top)) 0 = _ := popFrames_begin frames
  rw [step_look going hl, act_reduce (c := looked) stuck complete]
  rcases reduceStep_cases (p := p) (c := looked.note (.current looked.top)) (r := 0) with
    ⟨_, he, _⟩ | ⟨reduced, hr, ⟨_, _, hs⟩ | ⟨target, edge, _⟩⟩
  · cases he.symm.trans popped
  · cases hr.symm.trans popped
    refine ⟨_, hs, ?_⟩
    rw [start]
    rfl
  · cases hr.symm.trans popped
    rw [start] at edge
    cases edge.symm.trans lost

/-- Where a grammar loses a state to go on from, the start symbol itself and the end of the text
are tokens that a run fails on. -/
theorem parse_loses [OfToken V] (built : p.Built) (loses : p.grammar.LosesGoto) :
    (p.parse 0 [⟨p.grammar.start, "", 0⟩, .finish 0]).outcome =
      .error (.parse (.missingGoto Automaton.start startSymbol)) := by
  have canonical := built.canonical
  obtain ⟨q, edge, started⟩ := canonical.advance canonical.initialItem_mem_start
    (show p.grammar.next? ⟨0, 0⟩ = some p.grammar.start from rfl)
  have wanted : p.grammar.next? ⟨0, 1⟩ = some endSymbol := rfl
  obtain ⟨t, edge', ended⟩ := canonical.advance started wanted
  have here : At (.initial 0 ([⟨p.grammar.start, "", 0⟩, .finish 0].map .ok) : Config Empty V)
      [] [] [⟨p.grammar.start, "", 0⟩, .finish 0] := at_initial
  obtain ⟨c, hs, here, _⟩ := here.step_shift (by decide) edge
  obtain ⟨c', hs', here, _⟩ := here.step_shift (canonical.ne_accept_of_next started wanted) edge'
  have reaches := (reaches_of_step hs).trans (reaches_of_step hs')
  have going : t ≠ Automaton.accept := fun accepts =>
    canonical.transition_ne_accept loses.1 q endSymbol (accepts ▸ edge')
  have lost : p.automaton.transition? Automaton.start startSymbol = none := by
    by_contra some
    exact loses.2 (canonical.transition_start_iff.mp (Option.ne_none_iff_exists'.mp some))
  obtain ⟨ending, hs, outcome⟩ := here.loses built (onPath_of_reaches reaches) going
    (canonical.reduction_of_mem ended) lost
  rw [parse, run_eq (reaches.ends (ends_of_step hs))]
  exact outcome

/-- A parse never lacks a frame, and it lacks a state to go on from, which is then the starting
one, exactly with the grammars that lose it. -/
theorem goto_succeeds_iff [OfToken V] {rules : List (Rule V)} {p : Parser V}
    (accepted : (Parser.ofRules rules).2 = .ok p) :
    ((∀ (ε : Type) skip budget (stream : List (Except ε Token)) e,
        (p.run skip budget stream).outcome = .error (.parse e) →
          e ≠ .emptyStack ∧ ∀ q symbol, e ≠ .missingGoto q symbol) ↔
      ¬ p.grammar.LosesGoto) ∧
    ∀ (ε : Type) skip budget (stream : List (Except ε Token)) e,
      (p.run skip budget stream).outcome = .error (.parse e) →
        e ≠ .emptyStack ∧ ∀ q symbol, e = .missingGoto q symbol →
          q = Automaton.start ∧ symbol = startSymbol := by
  obtain ⟨_, built⟩ := ofRules_ok_iff.mp accepted
  refine ⟨⟨fun never loses => ?_, fun keeps ε skip budget stream e h => ?_⟩,
    fun ε skip budget stream e h => ?_⟩
  · exact (never _ _ _ _ _ (parse_loses built loses)).2 _ _ rfl
  · obtain ⟨enough, goto⟩ := run_error built h
    exact ⟨enough, fun q symbol he => keeps (goto q symbol he).2.2⟩
  · obtain ⟨enough, goto⟩ := run_error built h
    exact ⟨enough, fun q symbol he => ⟨(goto q symbol he).1, (goto q symbol he).2.1⟩⟩

theorem goto_succeeds_sums :
    (Parser.ofRules sums.rules).2 = .ok sumsParser ∧
      ∀ (ε : Type) skip budget (stream : List (Except ε Token)) e,
        (sumsParser.run skip budget stream).outcome = .error (.parse e) →
          e ≠ .emptyStack ∧ ∀ q symbol, e ≠ .missingGoto q symbol := by
  have accepted := ofRules_ok_iff.mpr ⟨rfl, built_sums⟩
  have keeps : ¬ sums.LosesGoto := fun loses => by
    obtain ⟨rule, mem, mentioned⟩ := loses.1.mentioned
    exact (by decide : ∀ rule ∈ sums.rules, endSymbol ∉ rule.predicate) rule mem mentioned
  exact ⟨accepted, (goto_succeeds_iff accepted).1.mpr keeps⟩

/-- Texts that go on behind their end. -/
def resumed : Grammar String where
  rules := [
    ⟨⟨"S", ["a"]⟩, fun vs => .ok ("S[" ++ ",".intercalate vs ++ "]")⟩,
    ⟨⟨"S", ["S", "$", "c"]⟩, fun vs => .ok ("S[" ++ ",".intercalate vs ++ "]")⟩]
  rules_ne_nil := List.cons_ne_nil _ _
  faultless := by decide

def resumedParser : Parser String := ⟨resumed, resumed.automaton.2.toOption.getD ⟨[]⟩⟩

set_option maxRecDepth 100000 in
theorem resumed_missingGoto :
    (Parser.ofRules resumed.rules).2 = .ok resumedParser ∧
      (resumedParser.parse 100000 [⟨"a", "a", 0⟩, .finish 1]).outcome =
        .error (.parse (.missingGoto 1 "^")) := by
  have built : resumedParser.Built := by
    rw [Built]
    decide +kernel
  exact ⟨ofRules_ok_iff.mpr ⟨rfl, built⟩, by decide +kernel⟩

end Parser

end ShiftFirst
