import ShiftFirst.Proofs.Grammar.Tree

namespace ShiftFirst

variable {V : Type} {g : Grammar V}

/-- The stack of positions and values, its top first, that moves leave of a stack, or the error
of the first rule that refuses. -/
def Grammar.replay [OfToken V] (g : Grammar V) :
    List Move → List (Nat × V) → Except ParseError (List (Nat × V))
  | [], stack => .ok stack
  | .shift token :: moves, stack => g.replay moves ((token.position, ofToken token) :: stack)
  | .reduce r :: moves, stack =>
    let n := (g.production r).predicate.length
    let popped := (stack.take n).reverse
    let position := (popped.head?).elim 0 Prod.fst
    match g.reduce r (popped.map Prod.snd) with
    | .error e => .error (.reduction (g.ruleText r) position e)
    | .ok value => g.replay moves ((position, value) :: stack.drop n)

def Forest.positions : {symbols : List Symbol} → Forest g symbols → List Nat
  | _, .nil => []
  | _, .cons first rest => first.position :: rest.positions

theorem Forest.length_positions {symbols : List Symbol} (forest : Forest g symbols) :
    forest.positions.length = symbols.length := by
  cases forest with
  | nil => rfl
  | cons first rest => exact congrArg Nat.succ rest.length_positions

theorem Forest.position_eq {symbols : List Symbol} (forest : Forest g symbols) :
    forest.position = (forest.positions.head?).elim 0 id := by
  cases forest with
  | nil => rfl
  | cons first rest => exact position_cons first rest

theorem Forest.length_values [OfToken V] {symbols : List Symbol} {values : List V} :
    (forest : Forest g symbols) → forest.values = .ok values → values.length = symbols.length
  | .nil, h => by
    cases h
    rfl
  | .cons first rest, h => by
    simp only [Forest.values, bind, Except.bind] at h
    split at h
    next => simp at h
    next =>
      split at h
      next => simp at h
      next he =>
        cases h
        exact congrArg Nat.succ (rest.length_values he)

mutual

/-- The moves along a tree put its value on the stack. -/
theorem Tree.replay_moves [OfToken V] {symbol : Symbol} (moves : List Move)
    (stack : List (Nat × V)) : (tree : Tree g symbol) →
      g.replay (tree.moves ++ moves) stack =
        tree.value.bind fun value => g.replay moves ((tree.position, value) :: stack)
  | .leaf token => rfl
  | .node k children => by
    rw [Tree.moves, List.append_assoc, children.replay_moves, Tree.value]
    cases hv : children.values with
    | error e => rfl
    | ok values =>
      have hlen : (children.positions.zip values).reverse.length =
          (g.production (k + 1)).predicate.length := by
        rw [List.length_reverse, List.length_zip, children.length_positions,
          children.length_values hv, Grammar.production_authored, Nat.min_self]
      have hsnd : (children.positions.zip values).map Prod.snd = values :=
        List.map_snd_zip (Nat.le_of_eq
          ((children.length_values hv).trans children.length_positions.symm))
      have hfst : (((children.positions.zip values).head?).elim 0 Prod.fst) =
          children.position := by
        rw [children.position_eq]
        have := children.length_positions.trans (children.length_values hv).symm
        revert this
        cases children.positions <;> cases values <;> simp
      simp only [Except.bind, List.cons_append, List.nil_append, Grammar.replay, ← hlen,
        List.take_left, List.drop_left, List.reverse_reverse, hsnd, hfst, bind,
        Grammar.reduce_authored, Grammar.ruleText_authored]
      cases (g.rules.get k).reduce values with
      | error e => rfl
      | ok value => rfl

theorem Forest.replay_moves [OfToken V] {symbols : List Symbol} (moves : List Move)
    (stack : List (Nat × V)) : (forest : Forest g symbols) →
      g.replay (forest.moves ++ moves) stack =
        forest.values.bind fun values =>
          g.replay moves ((forest.positions.zip values).reverse ++ stack)
  | .nil => rfl
  | .cons first rest => by
    rw [Forest.moves, List.append_assoc, first.replay_moves, Forest.values]
    cases first.value with
    | error e => rfl
    | ok value =>
      simp only [Except.bind, bind, rest.replay_moves]
      cases rest.values with
      | error e => rfl
      | ok values => simp [pure, Except.pure, Forest.positions]

end

mutual

/-- The moves along a tree, whatever moves come before, determine the tree. -/
theorem Tree.moves_injective {symbol symbol' : Symbol} {before before' : List Move} :
    (tree : Tree g symbol) → (tree' : Tree g symbol') →
      before ++ tree.moves = before' ++ tree'.moves →
        (⟨symbol, tree⟩ : Sigma (Tree g)) = ⟨symbol', tree'⟩ ∧ before = before'
  | .leaf token, .leaf token', h => by
    obtain ⟨hb, hm⟩ := List.append_inj' h rfl
    cases hm
    exact ⟨rfl, hb⟩
  | .leaf token, .node k children, h => by
    rw [Tree.moves, Tree.moves, ← List.append_assoc] at h
    exact absurd (List.append_inj' h rfl).2 (by simp)
  | .node k children, .leaf token, h => by
    rw [Tree.moves, Tree.moves, ← List.append_assoc] at h
    exact absurd (List.append_inj' h rfl).2 (by simp)
  | .node k children, .node k' children', h => by
    rw [Tree.moves, Tree.moves, ← List.append_assoc, ← List.append_assoc] at h
    obtain ⟨hc, hm⟩ := List.append_inj' h rfl
    have hk : k = k' := Fin.ext (by simpa using hm)
    subst hk
    obtain ⟨rfl, hb⟩ := children.moves_injective children' hc
    exact ⟨rfl, hb⟩

theorem Forest.moves_injective {symbols : List Symbol} {before before' : List Move} :
    (forest forest' : Forest g symbols) →
      before ++ forest.moves = before' ++ forest'.moves → forest = forest' ∧ before = before'
  | .nil, .nil, h => ⟨rfl, by simpa [Forest.moves] using h⟩
  | .cons first rest, .cons first' rest', h => by
    rw [Forest.moves, Forest.moves, ← List.append_assoc, ← List.append_assoc] at h
    obtain ⟨rfl, hr⟩ := rest.moves_injective rest' h
    obtain ⟨hf, hb⟩ := first.moves_injective first' hr
    cases hf
    exact ⟨rfl, hb⟩

end

end ShiftFirst
