import ShiftFirst.Proofs.Parser.Credit
import ShiftFirst.Proofs.Parser.Stream

namespace ShiftFirst

variable {ε V : Type}

theorem Grammar.reduceWithin_error {g : Grammar V} {budget : Nat} {r : RuleId} {values : List V}
    {source : ReduceError} (h : (g.reduceWithin budget r values).1 = .error source)
    (pos : 0 < budget) : g.reduce r values = .error source := by
  unfold reduceWithin at h
  split at h
  next => exact h
  next => exact absurd pos (Nat.lt_irrefl 0)
  next => exact h

namespace Parser

variable {p : Parser V} {skip : List Symbol} {stream : List (Except ε Token)}
  {c : Config ε V} {stack : List (Sigma (Tree p.grammar))}
  {rank : Symbol → Nat} {height budget : Nat}

theorem Accounts.kept [OfToken V] (h : p.Accounts skip stream c stack) :
    leaves stack <+: kept skip stream := by
  refine ⟨c.lookahead.toList ++ ShiftFirst.kept skip c.stream, ?_⟩
  rw [← h.read, kept_append, h.shifted, List.append_assoc]

theorem Halt.of_reduction {text : String} {position : Nat} {source : ReduceError}
    (halt : p.Halt c (.parse (.reduction text position source) : Failure ε)) :
    ∃ r, (p.automaton.state c.top).reduction = some r ∧
      p.popFrames c r = .error (.reduction text position source) := by
  generalize he : ParseError.reduction text position source = e at halt
  cases halt with
  | @reduction r _ complete popped => exact ⟨r, complete, popped⟩
  | missingGoto => cases he
  | reject =>
    unfold Parser.reject at he
    split at he <;> cases he

/-- A run that fails to reduce has come to a derivation of some of the tokens that it kept, whose
rule refuses the values of its children: where no symbol can stand for itself alone, a budget in
proportion to the stream is never used up. -/
theorem run_refused [OfToken V] (built : p.Built) (inner : ¬ p.grammar.PassesEnd)
    (ranked : p.grammar.Ranked rank height) (enough : (2 * height + 1) * stream.length ≤ budget)
    {text : String} {position : Nat} {source : ReduceError}
    (h : (p.run skip budget stream).outcome = .error (.parse (.reduction text position source))) :
    ∃ (k : Fin p.grammar.rules.length)
      (children : Forest p.grammar (p.grammar.rules.get k).predicate) (values : List V),
      text = (p.grammar.rules.get k).text ∧ position = children.position ∧
      children.tokens <:+: kept skip stream ∧ children.values = .ok values ∧
      (p.grammar.rules.get k).reduce values = .error source := by
  obtain ⟨c, looked, reaches, going, hl, halt⟩ := run_halts built h
  obtain ⟨stack, sound⟩ := sound_of_reaches built inner reaches
  obtain ⟨items, looks⟩ := look_ok hl
  have accounts := sound.accounts.looks looks
  have frugal : Frugal budget looked :=
    (reaches.keeps Frugal.step (Nat.le_refl budget)).looks looks
  have paid := (paid_of_reaches built ranked reaches).looks looks
  obtain ⟨r, complete, popped⟩ := halt.of_reduction
  -- The rule that begins every grammar is complete in the accepting state alone.
  have authored : 1 ≤ r :=
    built.canonical.authored_of_reduction inner (looks.top.trans_ne going) complete
  have known := built.canonical.le_of_reduction complete
  have path : p.OnPath looked := ⟨_, accounts.path⟩
  -- There are frames to take, so that the budget is not used up and the rule itself refuses.
  have pos := paid.budget_pos ranked frugal enough (path.frames_pos built complete)
  have cut := accounts.popped built complete
  obtain ⟨k, rfl⟩ := Grammar.exists_authored authored known
  rcases popFrames_error popped with ⟨short, _⟩ | ⟨cause, he, made⟩
  · cases short
  · cases he
    have reduce := Grammar.reduceWithin_error made pos
    rw [Grammar.reduce_authored] at reduce
    rw [Grammar.production_authored] at cut reduce
    obtain ⟨children, tokens, _, _, values, place⟩ := cut
    refine ⟨k, children, _, Grammar.ruleText_authored k, ?_, ?_, values, reduce⟩
    · rw [← place, Grammar.production_authored]
    · obtain ⟨rest, kept⟩ := accounts.kept
      rw [tokens] at kept
      exact ⟨_, rest, kept⟩

end Parser

end ShiftFirst
