import ShiftFirst.Proofs.Parser.Credit
import ShiftFirst.Proofs.Parser.Soundness

namespace ShiftFirst

variable {ε V : Type}

def Config.withBudget (budget : Nat) (c : Config ε V) : Config ε V := { c with budget := budget }

namespace Parser

variable {p : Parser V} {skip : List Symbol} {stream : List (Except ε Token)}
  {c next : Config ε V} {ending : Ending ε V} {rank : Symbol → Nat}
  {height limit budget units n : Nat}

/-- At most `n` steps of a run that has a new budget for each of them: only the rules themselves
refuse to reduce. -/
def advanceFreely [OfToken V] (p : Parser V) (skip : List Symbol) :
    (n : Nat) → Config ε V → Ending ε V ⊕ Config ε V
  | 0, c => .inr c
  | n + 1, c =>
    match p.step skip (c.withBudget 1) with
    | .inl ending => .inl ending
    | .inr next => p.advanceFreely skip n next

theorem stats_of_step [OfToken V] (hs : p.step skip c = .inr next) :
    next.stats.shifts + next.stats.reductions = c.stats.shifts + c.stats.reductions + 1 := by
  obtain ⟨_, looked, hl, turn⟩ := turn_of_step hs
  obtain ⟨items, looks⟩ := look_ok hl
  rw [← looks.shifts, ← looks.reductions]
  cases turn with
  | shift => exact Nat.add_right_comm _ 1 _
  | reduce => rfl

/-- A run that never lacks a budget takes no more steps than its stream pays for. -/
theorem Paid.advanceFreely_ends [OfToken V] (h : p.Paid rank height limit c) (built : p.Built)
    (ranked : p.grammar.Ranked rank height) (skip : List Symbol)
    (enough : (2 * height + 2) * limit < c.stats.shifts + c.stats.reductions + n) :
    ∃ ending, p.advanceFreely skip n c = .inl ending := by
  induction n generalizing c with
  | zero =>
    have shifts := h.shifts_le
    have reductions := h.reductions_le.trans (Nat.mul_le_mul_left (2 * height + 1) shifts)
    rw [Nat.succ_mul] at enough
    omega
  | succ n ih =>
    unfold advanceFreely
    cases hs : p.step skip (c.withBudget 1) with
    | inl ending => exact ⟨ending, rfl⟩
    | inr next =>
      have paid : p.Paid rank height limit (c.withBudget 1) := ⟨h.pays, h.room⟩
      have stats : next.stats.shifts + next.stats.reductions =
        c.stats.shifts + c.stats.reductions + 1 := stats_of_step (c := c.withBudget 1) hs
      exact ih (paid.step built ranked hs) (by omega)

theorem pull_withBudget (stream : List (Except ε Token)) (journal : List (Entry ε)) :
    pull skip (c.withBudget units) stream journal =
      (pull skip c stream journal).map (Config.withBudget units) := by
  induction stream generalizing journal with
  | nil => rfl
  | cons item rest ih =>
    cases item with
    | error e => rfl
    | ok token =>
      simp only [pull]
      split
      next => exact ih (.pulled (.ok token) :: journal)
      next => rfl

theorem look_withBudget (skip : List Symbol) (c : Config ε V) (units : Nat) :
    look skip (c.withBudget units) = (look skip c).map (Config.withBudget units) := by
  by_cases idle : c.lookahead.isNone ∧ !c.exhausted
  · rw [look, look, if_pos idle]
    exact (if_pos idle).trans (pull_withBudget c.stream c.journal)
  · rw [look, look, if_neg idle]
    exact if_neg idle

section Affordable

variable (affordable : 0 < c.budget) (affordable' : 0 < units)
include affordable affordable'

theorem popFrames_withBudget (r : RuleId) :
    ∃ left, p.popFrames (c.withBudget units) r =
      (p.popFrames c r).map fun reduced => { reduced with budget := left } := by
  let values := (c.frames.take (p.grammar.production r).predicate.length).reverse.map Frame.value
  obtain ⟨left, _, made⟩ := p.grammar.reduceWithin_of_pos affordable r values
  obtain ⟨left', _, made'⟩ := p.grammar.reduceWithin_of_pos affordable' r values
  refine ⟨left', ?_⟩
  by_cases few : c.frames.length < (p.grammar.production r).predicate.length
  · rw [popFrames, popFrames, if_pos few]
    exact if_pos few
  · rw [popFrames, popFrames, if_neg few]
    refine (if_neg few).trans ?_
    dsimp only [Config.withBudget]
    rw [made, made']
    cases p.grammar.reduce r values <;> rfl

theorem finish_withBudget : p.finish (c.withBudget units) = p.finish c := by
  obtain ⟨left, popped⟩ := popFrames_withBudget (p := p) affordable affordable' 0
  rw [finish, finish, popped]
  cases p.popFrames c 0 <;> rfl

theorem reduceStep_withBudget (r : RuleId) :
    ∃ left, p.reduceStep (c.withBudget units) r =
      (p.reduceStep c r).map id (Config.withBudget left) := by
  obtain ⟨left, popped⟩ := popFrames_withBudget (p := p) affordable affordable' r
  refine ⟨left, ?_⟩
  cases hp : p.popFrames c r with
  | error e =>
    rw [hp] at popped
    rw [reduceStep_of_error hp, reduceStep_of_error popped]
    rfl
  | ok reduced =>
    rw [hp] at popped
    rw [reduceStep_of_popFrames hp, reduceStep_of_popFrames popped]
    cases p.automaton.transition? (topState (reduced.below.map Frame.state))
        (p.grammar.production r).subject <;> rfl

theorem act_withBudget [OfToken V] :
    ∃ left, p.act (c.withBudget units) = (p.act c).map id (Config.withBudget left) := by
  have same : p.shift? ((c.withBudget units).note (.current (c.withBudget units).top)) =
    p.shift? (c.note (.current c.top)) := rfl
  rw [act, act, same]
  cases p.shift? (c.note (.current c.top)) with
  | some shift => exact ⟨units, rfl⟩
  | none =>
    have complete : (p.automaton.state ((c.withBudget units).note
      (.current (c.withBudget units).top)).top).reduction =
        (p.automaton.state (c.note (.current c.top)).top).reduction := rfl
    dsimp only
    rw [complete]
    cases (p.automaton.state (c.note (.current c.top)).top).reduction with
    | none => exact ⟨units, rfl⟩
    | some r => exact reduceStep_withBudget (c := c.note (.current c.top)) affordable affordable' r

/-- As long as there is some budget, a step is the same whatever it is. -/
theorem step_withBudget [OfToken V] (skip : List Symbol) :
    ∃ left, p.step skip (c.withBudget units) = (p.step skip c).map id (Config.withBudget left) := by
  by_cases top : c.top = Automaton.accept
  · have top' : (c.withBudget units).top = Automaton.accept := top
    refine ⟨0, ?_⟩
    rw [step_accept top, step_accept top', finish_withBudget affordable affordable']
    rfl
  · have top' : (c.withBudget units).top ≠ Automaton.accept := top
    have look := look_withBudget skip c units
    cases hl : Parser.look skip c with
    | error ending =>
      rw [hl] at look
      refine ⟨0, ?_⟩
      rw [step_look_error top hl, step_look_error top' look]
      rfl
    | ok looked =>
      rw [hl] at look
      obtain ⟨items, looks⟩ := look_ok hl
      rw [step_look top hl, step_look top' look]
      exact act_withBudget (looks.budget ▸ affordable) affordable'

end Affordable

/-- A run that has been given enough ends as if it had a new budget for each step. -/
theorem Paid.ends [OfToken V] (h : p.Paid rank height limit c) (built : p.Built)
    (ranked : p.grammar.Ranked rank height) (frugal : Frugal budget c)
    (ample : (2 * height + 1) * limit < budget)
    (ends : p.advanceFreely skip n c = .inl ending) : p.Ends skip c ending := by
  induction n generalizing c with
  | zero => cases ends
  | succ n ih =>
    have affordable : 0 < c.budget := by
      have reductions := h.reductions_le.trans (Nat.mul_le_mul_left _ h.shifts_le)
      unfold Frugal at frugal
      omega
    obtain ⟨left, same⟩ := step_withBudget (p := p) affordable Nat.one_pos skip
    unfold advanceFreely at ends
    rw [same] at ends
    cases hs : p.step skip c with
    | inl ending' =>
      rw [hs] at ends
      cases ends
      exact ends_of_step hs
    | inr next =>
      rw [hs] at ends
      change p.advanceFreely skip n (next.withBudget left) = .inl ending at ends
      have ends' : p.advanceFreely skip n next = .inl ending := by
        cases n with
        | zero => cases ends
        | succ n => exact ends
      exact (reaches_of_step hs).ends (ih (h.step built ranked hs) (frugal.step hs) ends')

theorem exists_free_ending [OfToken V] (built : p.Built) (ranked : p.grammar.Ranked rank height)
    (skip : List Symbol) (stream : List (Except ε Token)) :
    ∃ ending : Ending ε V,
      p.advanceFreely skip ((2 * height + 2) * stream.length + 1) (.initial 0 stream) =
        .inl ending ∧
      ∀ budget, (2 * height + 1) * stream.length < budget →
        p.run skip budget stream = ⟨ending.outcome, ending.journal.reverse⟩ := by
  have paid : ∀ budget, p.Paid rank height stream.length (.initial budget stream : Config ε V) :=
    fun _ => paid_initial
  obtain ⟨ending, free⟩ := (paid 0).advanceFreely_ends built ranked skip
    (Nat.lt_of_lt_of_le (Nat.lt_succ_self _) (Nat.le_add_left _ _))
  refine ⟨ending, free, fun budget ample => run_eq ?_⟩
  -- The budget that the run begins with does not matter to its first step.
  have begins : p.advanceFreely skip ((2 * height + 2) * stream.length + 1)
      (.initial budget stream) = .inl ending := free
  exact (paid budget).ends built ranked (Nat.le_refl budget) ample begins

def sumsRank : Symbol → Nat
  | "sum" => 2
  | "product" => 1
  | _ => 0

theorem ranked_sums : sums.Ranked sumsRank 2 where
  le symbol := by
    unfold sumsRank
    split <;> omega
  falls rule mem symbol single := by
    have falls : ∀ rule ∈ sums.rules, ∀ symbol ∈ rule.predicate, rule.predicate.length = 1 →
        sumsRank symbol < sumsRank rule.subject := by
      decide
    exact falls rule mem symbol (by simp [single]) (by simp [single])

/-- A parser whose rules with one symbol lead to no cycle comes to an end over any stream, though
nothing limits its reductions, and makes no more of them than the tokens it shifts pay for. -/
theorem terminates_of_acyclic [OfToken V] {rules : List (Rule V)} {p : Parser V}
    (accepted : (Parser.ofRules rules).2 = .ok p) (acyclic : p.grammar.Acyclic)
    (skip : List Symbol) (stream : List (Except ε Token)) :
    (∃ ending : Ending ε V,
      p.advanceFreely skip ((2 * p.grammar.nonterminals.length + 2) * stream.length + 1)
        (.initial 0 stream) = .inl ending ∧
      ∀ budget, (2 * p.grammar.nonterminals.length + 1) * stream.length < budget →
        p.run skip budget stream = ⟨ending.outcome, ending.journal.reverse⟩) ∧
    ∀ budget,
      Move.cost (p.run skip budget stream).moves ≤
        (2 * p.grammar.nonterminals.length + 1) *
          (Move.tokens (p.run skip budget stream).moves).length ∧
      ∀ v stats, (p.run skip budget stream).outcome = .ok (v, stats) →
        stats.reductions < (2 * p.grammar.nonterminals.length + 1) * stats.shifts := by
  obtain ⟨_, built⟩ := ofRules_ok_iff.mp accepted
  have ranked := acyclic.ranked
  exact ⟨exists_free_ending built ranked skip stream, fun budget =>
    ⟨run_cost_le built ranked skip budget stream, fun v stats => run_ok_lt built ranked⟩⟩

theorem terminates_sums :
    (Parser.ofRules sums.rules).2 = .ok sumsParser ∧ sums.Acyclic ∧
      (∃ ending : Ending Empty String,
        sumsParser.advanceFreely [] 37 (.initial 0 (sumsText.map .ok)) = .inl ending ∧
        ∀ budget, 30 < budget →
          sumsParser.run [] budget (sumsText.map .ok) =
            ⟨ending.outcome, ending.journal.reverse⟩) := by
  have accepted := ofRules_ok_iff.mpr ⟨rfl, built_sums⟩
  exact ⟨accepted, ranked_sums.acyclic,
    (terminates_of_acyclic accepted ranked_sums.acyclic [] (sumsText.map .ok)).1⟩

end Parser

end ShiftFirst
