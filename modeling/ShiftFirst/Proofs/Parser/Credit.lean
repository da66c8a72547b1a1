import ShiftFirst.Proofs.Grammar.Rank
import ShiftFirst.Proofs.Parser.Journal
import ShiftFirst.Proofs.Parser.Stack

namespace ShiftFirst

variable {ε V : Type}

theorem kept_length_le (skip : List Symbol) (items : List (Except ε Token)) :
    (kept skip items).length ≤ items.length :=
  List.length_filterMap_le _ _

theorem Grammar.reduceWithin_budget {g : Grammar V} {budget budget' : Nat} {r : RuleId}
    {values : List V} {value : V} (h : g.reduceWithin budget r values = (.ok value, budget')) :
    budget ≤ budget' + 1 := by
  unfold reduceWithin at h
  split at h
  next =>
    obtain ⟨_, rfl⟩ := Prod.mk.inj h
    exact Nat.le_succ _
  next => simp at h
  next =>
    obtain ⟨_, rfl⟩ := Prod.mk.inj h
    exact Nat.le_refl _

namespace Parser

variable {p : Parser V} {skip : List Symbol} {stream : List (Except ε Token)}
  {c looked next : Config ε V} {rank : Symbol → Nat} {height limit budget : Nat}

/-- The tokens that a run has shifted pay for its reductions and for the credit of its stack, and
there are no more of them than the stream has items. -/
structure Paid (p : Parser V) (rank : Symbol → Nat) (height limit : Nat) (c : Config ε V) :
    Prop where
  pays : ∃ symbols, p.automaton.Path c.states symbols ∧
    c.stats.reductions + Grammar.credit rank height symbols ≤ (2 * height + 1) * c.stats.shifts
  room : c.stats.shifts + c.remaining ≤ limit

theorem paid_initial [OfToken V] :
    p.Paid rank height stream.length (.initial budget stream : Config ε V) where
  pays := ⟨[], .nil, Nat.le_refl _⟩
  room := by simp [Config.initial, Config.remaining]

theorem Paid.looks {items : List (Except ε Token)} (h : p.Paid rank height limit c)
    (looks : Looks skip c looked items) : p.Paid rank height limit looked where
  pays := by
    rw [looks.states, looks.reductions, looks.shifts]
    exact h.pays
  room := by
    have ahead := congrArg List.length looks.ahead
    have stream := congrArg List.length looks.stream
    have fewer := kept_length_le skip items
    have room := h.room
    rw [List.length_append] at ahead stream
    rw [looks.shifts]
    unfold Config.remaining at room ⊢
    omega

theorem Paid.turn [OfToken V] (h : p.Paid rank height limit c) (built : p.Built)
    (ranked : p.grammar.Ranked rank height) (turn : p.Turn c next) :
    p.Paid rank height limit next := by
  obtain ⟨⟨symbols, path, pays⟩, room⟩ := h
  cases turn with
  | @shift token target ahead edge =>
    rw [Config.top_eq] at edge
    refine ⟨⟨token.name :: symbols, .cons path edge, ?_⟩, ?_⟩
    · rw [Grammar.credit]
      change c.stats.reductions + _ ≤ (2 * height + 1) * (c.stats.shifts + 1)
      rw [Nat.mul_succ]
      omega
    · change c.stats.shifts + 1 + (c.stream.length + 0) ≤ limit
      rw [Config.remaining, ahead, Option.toList_some, List.length_singleton] at room
      omega
  | @reduce r reduced target _ complete popped edge =>
    rw [Config.top_eq] at complete
    obtain ⟨_, taken, _⟩ :=
      built.canonical.retrace path (built.canonical.mem_of_reduction complete)
    rw [List.take_length] at taken
    -- The symbols of the predicate leave the stack, and pay for that of the subject.
    have cost := ranked.credit_production (built.canonical.le_of_reduction complete)
    rw [Grammar.credit_take_drop (p.grammar.production r).predicate.length, taken] at pays
    refine ⟨⟨(p.grammar.production r).subject ::
      symbols.drop (p.grammar.production r).predicate.length, ?_, ?_⟩, room⟩
    · rw [states_reducedTo]
      rw [popFrames_states popped] at edge ⊢
      exact .cons (path.drop _) edge
    · rw [Grammar.credit]
      change c.stats.reductions + 1 + _ ≤ (2 * height + 1) * c.stats.shifts
      omega

theorem Paid.step [OfToken V] (h : p.Paid rank height limit c) (built : p.Built)
    (ranked : p.grammar.Ranked rank height) (hs : p.step skip c = .inr next) :
    p.Paid rank height limit next := by
  obtain ⟨_, looked, hl, turn⟩ := turn_of_step hs
  obtain ⟨items, looks⟩ := look_ok hl
  exact (h.looks looks).turn built ranked turn

theorem paid_of_reaches [OfToken V] (built : p.Built) (ranked : p.grammar.Ranked rank height)
    (reaches : p.Reaches skip (.initial budget stream) c) :
    p.Paid rank height stream.length c :=
  reaches.keeps (fun h hs => h.step built ranked hs) paid_initial

theorem Paid.reductions_le (h : p.Paid rank height limit c) :
    c.stats.reductions ≤ (2 * height + 1) * c.stats.shifts := by
  obtain ⟨symbols, _, pays⟩ := h.pays
  omega

theorem Paid.reductions_lt (h : p.Paid rank height limit c) (ranked : p.grammar.Ranked rank height)
    (filled : 0 < c.frames.length) :
    c.stats.reductions < (2 * height + 1) * c.stats.shifts := by
  obtain ⟨symbols, path, pays⟩ := h.pays
  have credit := ranked.length_le_credit symbols
  rw [path.length_eq, Config.states, List.length_map] at credit
  have some : 1 * (height + 1) ≤ c.frames.length * (height + 1) := Nat.mul_le_mul_right _ filled
  omega

theorem Paid.shifts_le (h : p.Paid rank height limit c) : c.stats.shifts ≤ limit :=
  (Nat.le_add_right _ _).trans h.room

theorem OnPath.frames_pos (h : p.OnPath c) (built : p.Built) {r : Nat}
    (complete : (p.automaton.state c.top).reduction = some r) : 0 < c.frames.length := by
  have known := built.canonical.le_of_reduction complete
  have filled := List.length_pos_iff.mpr (Grammar.predicate_ne_nil known)
  exact Nat.lt_of_lt_of_le filled (h.complete built complete).1

/-- What a run has spent of its budget, it has spent on reductions. -/
def Frugal (budget : Nat) (c : Config ε V) : Prop := budget ≤ c.budget + c.stats.reductions

theorem Frugal.looks {items : List (Except ε Token)} (h : Frugal budget c)
    (looks : Looks skip c looked items) : Frugal budget looked := by
  rw [Frugal, looks.budget, looks.reductions]
  exact h

theorem Frugal.turn [OfToken V] (h : Frugal budget c) (turn : p.Turn c next) :
    Frugal budget next := by
  cases turn with
  | shift => exact h
  | @reduce r reduced target _ _ popped _ =>
    obtain ⟨_, _, _, made⟩ := popFrames_ok popped
    have spent : c.budget ≤ reduced.budget + 1 := Grammar.reduceWithin_budget made
    unfold Frugal at h
    show budget ≤ reduced.budget + (c.stats.reductions + 1)
    omega

theorem Frugal.step [OfToken V] (h : Frugal budget c) (hs : p.step skip c = .inr next) :
    Frugal budget next := by
  obtain ⟨_, looked, hl, turn⟩ := turn_of_step hs
  obtain ⟨items, looks⟩ := look_ok hl
  exact (h.looks looks).turn turn

theorem Paid.budget_pos (h : p.Paid rank height limit c) (ranked : p.grammar.Ranked rank height)
    (frugal : Frugal budget c) (enough : (2 * height + 1) * limit ≤ budget)
    (filled : 0 < c.frames.length) : 0 < c.budget := by
  have pays := h.reductions_lt ranked filled
  have limited := Nat.mul_le_mul_left (2 * height + 1) h.shifts_le
  unfold Frugal at frugal
  omega

/-- A run makes no more reductions than its tokens pay for, one that fails included. -/
theorem run_cost_le [OfToken V] (built : p.Built) (ranked : p.grammar.Ranked rank height)
    (skip : List Symbol) (budget : Nat) (stream : List (Except ε Token)) :
    Move.cost (p.run skip budget stream).moves ≤
      (2 * height + 1) * (Move.tokens (p.run skip budget stream).moves).length := by
  obtain ⟨ending, ⟨c, reaches, hs⟩, run⟩ := p.run_ends skip budget stream
  obtain ⟨moves, records⟩ := records_of_reaches reaches
  have paid := paid_of_reaches built ranked reaches
  rw [run, Ending.moves]
  rcases records.ends hs with same | ⟨looked, r, hl, _, complete, same⟩
  · rw [same, ← records.reductions, ← records.shifts]
    exact paid.reductions_le
  · obtain ⟨items, looks⟩ := look_ok hl
    have path : p.OnPath looked := by
      rw [OnPath, looks.states]
      exact onPath_of_reaches reaches
    have pays := (paid.looks looks).reductions_lt ranked (path.frames_pos built complete)
    rw [looks.reductions, looks.shifts, records.reductions, records.shifts] at pays
    rw [same, Move.cost_append, Move.tokens_append, List.length_append]
    exact pays

theorem run_ok_lt [OfToken V] (built : p.Built) (ranked : p.grammar.Ranked rank height) {v : V}
    {stats : Stats} (h : (p.run skip budget stream).outcome = .ok (v, stats)) :
    stats.reductions < (2 * height + 1) * stats.shifts := by
  obtain ⟨ending, ⟨c, reaches, hs⟩, run⟩ := p.run_ends skip budget stream
  rw [run] at h
  rcases end_of_step hs with ⟨top, rfl⟩ | ⟨_, ⟨e, failed⟩ | ⟨_, failure, _, _, failed⟩⟩
  · have complete := built.canonical.reduction_of_mem (built.canonical.mem_items_accept.mpr rfl)
    rw [← top] at complete
    have path := onPath_of_reaches reaches
    obtain ⟨last, first, below, frames, _⟩ := path.begin built complete
    cases (finish_outcome frames).symm.trans h
    exact (paid_of_reaches built ranked reaches).reductions_lt ranked
      (path.frames_pos built complete)
  · cases failed.symm.trans h
  · cases failed.symm.trans h

end Parser

end ShiftFirst
