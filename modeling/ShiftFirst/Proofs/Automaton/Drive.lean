import ShiftFirst.Proofs.Automaton.Path
import ShiftFirst.Proofs.Grammar.Replay
import ShiftFirst.Proofs.Grammar.Sentential

namespace ShiftFirst

variable {V : Type} {g : Grammar V} {a : Automaton}

/-- The moves of an automaton on its way from states and tokens to other states and tokens: it
shifts the next token if it can, and else reduces, up to the accepting state. -/
inductive Automaton.Drives (g : Grammar V) (a : Automaton) :
    List StateId → List Token → List Move → List StateId → List Token → Prop
  | done (states : List StateId) (tokens : List Token) : Drives g a states tokens [] states tokens
  | shift {states states' : List StateId} {token : Token} {tokens tokens' : List Token}
      {moves : List Move} {q : StateId} (going : topState states ≠ Automaton.accept)
      (edge : a.transition? (topState states) token.name = some q)
      (rest : Drives g a (q :: states) tokens moves states' tokens') :
      Drives g a states (token :: tokens) (.shift token :: moves) states' tokens'
  | reduce {states states' : List StateId} {token : Token} {tokens tokens' : List Token}
      {moves : List Move} {q : StateId} {r : RuleId} (going : topState states ≠ Automaton.accept)
      (stuck : a.transition? (topState states) token.name = none)
      (complete : (a.state (topState states)).reduction = some r)
      (enough : (g.production r).predicate.length ≤ states.length)
      (edge : a.transition? (topState (states.drop (g.production r).predicate.length))
        (g.production r).subject = some q)
      (rest : Drives g a (q :: states.drop (g.production r).predicate.length) (token :: tokens)
        moves states' tokens') :
      Drives g a states (token :: tokens) (.reduce r :: moves) states' tokens'

namespace Automaton.Drives

variable {states states' states'' : List StateId} {tokens tokens' tokens'' : List Token}
  {moves moves' : List Move}

theorem trans (h : a.Drives g states tokens moves states' tokens')
    (h' : a.Drives g states' tokens' moves' states'' tokens'') :
    a.Drives g states tokens (moves ++ moves') states'' tokens'' := by
  induction h with
  | done => exact h'
  | shift going edge _ ih => exact .shift going edge (ih h')
  | reduce going stuck complete enough edge _ ih =>
    exact .reduce going stuck complete enough edge (ih h')

/-- The next move is determined, so of two ways from the same place one goes on from the other. -/
theorem continues (h : a.Drives g states tokens moves states' tokens')
    (h' : a.Drives g states tokens moves' states'' tokens'') :
    (∃ more, moves' = moves ++ more ∧ a.Drives g states' tokens' more states'' tokens'') ∨
      ∃ more, moves = moves' ++ more ∧ a.Drives g states'' tokens'' more states' tokens' := by
  induction h generalizing moves' states'' tokens'' with
  | done => exact Or.inl ⟨_, rfl, h'⟩
  | shift going edge rest ih =>
    cases h' with
    | done => exact Or.inr ⟨_, rfl, .shift going edge rest⟩
    | shift _ edge' rest' =>
      cases edge.symm.trans edge'
      rcases ih rest' with ⟨more, rfl, hm⟩ | ⟨more, rfl, hm⟩
      · exact Or.inl ⟨more, rfl, hm⟩
      · exact Or.inr ⟨more, rfl, hm⟩
    | reduce _ stuck' => exact absurd (edge.symm.trans stuck') (Option.some_ne_none _)
  | reduce going stuck complete enough edge rest ih =>
    cases h' with
    | done => exact Or.inr ⟨_, rfl, .reduce going stuck complete enough edge rest⟩
    | shift _ edge' _ => exact absurd (edge'.symm.trans stuck) (Option.some_ne_none _)
    | reduce _ _ complete' _ edge' rest' =>
      cases complete.symm.trans complete'
      cases edge.symm.trans edge'
      rcases ih rest' with ⟨more, rfl, hm⟩ | ⟨more, rfl, hm⟩
      · exact Or.inl ⟨more, rfl, hm⟩
      · exact Or.inr ⟨more, rfl, hm⟩

theorem eq_nil_of_accept (h : a.Drives g states tokens moves states' tokens')
    (accepted : topState states = Automaton.accept) : moves = [] := by
  cases h with
  | done => rfl
  | shift going => exact absurd accepted going
  | reduce going => exact absurd accepted going

theorem moves_unique (h : a.Drives g states tokens moves states' tokens')
    (h' : a.Drives g states tokens moves' states'' tokens'')
    (accepted : topState states' = Automaton.accept)
    (accepted' : topState states'' = Automaton.accept) : moves = moves' := by
  rcases h.continues h' with ⟨more, rfl, hm⟩ | ⟨more, rfl, hm⟩
  · rw [hm.eq_nil_of_accept accepted, List.append_nil]
  · rw [hm.eq_nil_of_accept accepted', List.append_nil]

end Automaton.Drives

/-- No state both reduces by a rule and shifts a terminal that can stand right behind the subject
of the rule. -/
def Automaton.Decided (g : Grammar V) (a : Automaton) : Prop :=
  ∀ q r terminal, (a.state q).reduction = some r → g.isNonterminal terminal = false →
    (a.transition? q terminal).isSome → ¬ g.Precedes (g.production r).subject terminal

/-- Pairs that cover the sentential forms let the states of an automaton be looked at one by one. -/
theorem Automaton.decided_of_covers {pairs : List (Symbol × Symbol)} (h : g.Covers pairs)
    (clear : ∀ s ∈ a.states, ∀ r ∈ s.reduction, ∀ edge ∈ s.transitions,
      g.isNonterminal edge.1 = false → ((g.production r).subject, edge.1) ∉ pairs) :
    a.Decided g := by
  intro q r terminal complete terminal' leads precedes
  obtain ⟨s, hs⟩ : ∃ s, a.states[q]? = some s := by
    cases hq : a.states[q]? with
    | none =>
      rw [Automaton.state, hq] at complete
      cases complete
    | some s => exact ⟨s, rfl⟩
  rw [Automaton.transition?, Automaton.state, hs] at leads
  rw [Automaton.state, hs] at complete
  obtain ⟨edge, he, named⟩ := List.lookup_isSome_iff.mp leads
  rw [eq_of_beq named] at terminal' precedes
  exact clear s (List.mem_of_getElem? hs) r complete edge he terminal' (h.precedes precedes)

/-- In every state that reduces by the rule, the symbol leaves nothing else to do. -/
def Automaton.Settles (a : Automaton) (r : RuleId) (symbol : Symbol) : Prop :=
  ∀ q, (a.state q).reduction = some r → a.transition? q symbol = none

/-- The name of the first leaf, or of what stands behind the leaves. -/
def Forest.front {symbols : List Symbol} (forest : Forest g symbols) (next : Symbol) : Symbol :=
  (forest.tokens.head?).elim next Token.name

mutual

/-- Behind each node comes a symbol that settles the reduction by its rule. -/
def Tree.Settled (a : Automaton) {symbol : Symbol} : Tree g symbol → (next : Symbol) → Prop
  | .leaf _, _ => True
  | .node k children, next => children.Settled a next ∧ a.Settles (k + 1) next

def Forest.Settled (a : Automaton) {symbols : List Symbol} :
    Forest g symbols → (next : Symbol) → Prop
  | .nil, _ => True
  | .cons first rest, next => first.Settled a (rest.front next) ∧ rest.Settled a next

end

theorem Forest.exists_front {symbols : List Symbol} (forest : Forest g symbols) (next : Token)
    (tokens : List Token) :
    ∃ token rest, forest.tokens ++ next :: tokens = token :: rest ∧
      token.name = forest.front next.name := by
  unfold Forest.front
  cases forest.tokens with
  | nil => exact ⟨next, tokens, rfl, rfl⟩
  | cons token rest => exact ⟨token, rest ++ next :: tokens, rfl, rfl⟩

mutual

/-- Where its symbol is wanted, the automaton moves along a settled tree. -/
theorem Tree.drives (h : g.Canonical a) {symbol : Symbol} {states : List StateId} {i : Item}
    {next : Token} (tokens : List Token) :
    (tree : Tree g symbol) → i ∈ (a.state (topState states)).items → g.next? i = some symbol →
      tree.Settled a next.name →
      ∃ q, a.transition? (topState states) symbol = some q ∧ i.advance ∈ (a.state q).items ∧
        a.Drives g states (tree.tokens ++ next :: tokens) tree.moves (q :: states) (next :: tokens)
  | .leaf token, hi, hn, _ => by
    obtain ⟨q, hq, hadv⟩ := h.advance hi hn
    exact ⟨q, hq, hadv, .shift (h.ne_accept_of_next hi hn) hq (.done _ _)⟩
  | .node k children, hi, hn, settled => by
    obtain ⟨q, hq, hadv⟩ := h.advance hi hn
    have hp : g.production (k + 1) = (g.rules.get k).toProduction := Grammar.production_authored k
    have first := h.expand hi hn (Grammar.mem_rulesFor_authored k)
    have whole : (g.production (k + 1)).predicate.drop 0 = (g.rules.get k).predicate := by
      rw [hp, List.drop_zero]
    obtain ⟨entered, hlen, hdrive, last⟩ := children.drives h tokens first whole settled.1
    have hn' : (g.production (k + 1)).predicate.length = entered.length := by rw [hp, hlen]
    rw [← hlen, Nat.zero_add, ← hn'] at last
    have hred := h.reduction_of_mem last
    have going : topState (entered ++ states) ≠ Automaton.accept := fun accepted => by
      rw [accepted] at last
      exact absurd (congrArg Item.rule (h.mem_items_accept.mp last)) (Nat.succ_ne_zero _)
    have back : (entered ++ states).drop (g.production (k + 1)).predicate.length = states := by
      rw [hn', List.drop_left]
    refine ⟨q, hq, hadv, hdrive.trans ?_⟩
    refine .reduce going (settled.2 _ hred) hred (by simp [hn']) (by rw [back, hp]; exact hq) ?_
    rw [back]
    exact .done _ _

theorem Forest.drives (h : g.Canonical a) {symbols : List Symbol} {states : List StateId}
    {r d : Nat} {next : Token} (tokens : List Token) :
    (forest : Forest g symbols) → (⟨r, d⟩ : Item) ∈ (a.state (topState states)).items →
      (g.production r).predicate.drop d = symbols → forest.Settled a next.name →
      ∃ entered : List StateId, entered.length = symbols.length ∧
        a.Drives g states (forest.tokens ++ next :: tokens) forest.moves (entered ++ states)
          (next :: tokens) ∧
        (⟨r, d + symbols.length⟩ : Item) ∈ (a.state (topState (entered ++ states))).items
  | .nil, hi, _, _ => ⟨[], rfl, .done _ _, hi⟩
  | @Forest.cons _ _ symbol symbols first rest, hi, hd, settled => by
    have hn : g.next? ⟨r, d⟩ = some symbol := by
      have := congrArg List.head? hd
      rwa [List.head?_drop] at this
    have hd' : (g.production r).predicate.drop (d + 1) = symbols := by
      rw [← List.drop_drop, hd]
      rfl
    -- Behind the first tree comes the first leaf of the others, or the token behind them all.
    obtain ⟨token, tokens', hlead, named⟩ := rest.exists_front next tokens
    have ahead : first.Settled a token.name := named ▸ settled.1
    obtain ⟨q, hq, hadv, hfirst⟩ := first.drives h tokens' hi hn ahead
    obtain ⟨entered, hlen, hrest, last⟩ :=
      rest.drives h tokens (show _ ∈ (a.state (topState (q :: states))).items from hadv) hd'
        settled.2
    refine ⟨entered ++ [q], by simp [hlen], ?_, ?_⟩
    · rw [Forest.tokens, Forest.moves, List.append_assoc, hlead, List.append_assoc]
      rw [hlead] at hrest
      exact hfirst.trans hrest
    · rw [List.append_assoc, List.length_cons, Nat.add_comm symbols.length, ← Nat.add_assoc]
      exact last

end

theorem Forest.lead {symbols : List Symbol} (forest : Forest g symbols)
    (terminals : ∀ t ∈ forest.tokens, g.isNonterminal t.name = false) {next : Symbol}
    (terminal : g.isNonterminal next = false) (after : List Symbol) :
    g.isNonterminal (forest.front next) = false ∧
      ∃ after', g.Derives (symbols ++ next :: after) (forest.front next :: after') := by
  have hd := forest.derives.context [] (next :: after)
  rw [List.nil_append, List.nil_append] at hd
  unfold Forest.front
  cases hf : forest.tokens with
  | nil =>
    rw [hf] at hd
    exact ⟨terminal, after, hd⟩
  | cons token rest =>
    rw [hf, List.map_cons, List.cons_append] at hd
    exact ⟨terminals token (by simp [hf]), _, hd⟩

mutual

/-- A state that shifted behind a tree would leave open whether to shift: what stands there
follows the symbol of the tree. -/
theorem Tree.settled (decided : a.Decided g) {symbol next : Symbol} {before after : List Symbol} :
    (tree : Tree g symbol) → (∀ t ∈ tree.tokens, g.isNonterminal t.name = false) →
      g.isNonterminal next = false → g.Sentential (before ++ symbol :: next :: after) →
      tree.Settled a next
  | .leaf _, _, _, _ => trivial
  | .node k children, terminals, terminal, sentential => by
    have below := sentential.context (Grammar.derives_predicate k)
    refine ⟨children.settled decided terminals terminal below, fun q hred => ?_⟩
    by_contra some
    refine decided _ _ _ hred terminal (Option.isSome_iff_ne_none.mpr some) ⟨before, after, ?_⟩
    rwa [Grammar.production_authored]

theorem Forest.settled (decided : a.Decided g) {symbols : List Symbol} {next : Symbol}
    {before after : List Symbol} :
    (forest : Forest g symbols) → (∀ t ∈ forest.tokens, g.isNonterminal t.name = false) →
      g.isNonterminal next = false → g.Sentential (before ++ (symbols ++ next :: after)) →
      forest.Settled a next
  | .nil, _, _, _ => trivial
  | @Forest.cons _ _ symbol symbols first rest, terminals, terminal, sentential => by
    simp only [Forest.tokens, List.mem_append, or_imp, forall_and] at terminals
    obtain ⟨hterm, after', hder⟩ := rest.lead terminals.2 terminal after
    have past : g.Sentential ((before ++ [symbol]) ++ (symbols ++ next :: after)) := by
      simpa using sentential
    have ahead : g.Sentential (before ++ symbol :: rest.front next :: after') := by
      rw [← List.append_nil (symbols ++ next :: after)] at past
      simpa using past.context hder
    exact ⟨first.settled decided terminals.1 hterm ahead,
      rest.settled decided terminals.2 terminal past⟩

end

end ShiftFirst
