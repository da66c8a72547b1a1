import ShiftFirst.Proofs.Lexer.Lossless

namespace ShiftFirst

/-- A token with more characters before it. -/
def Token.moved (more : Nat) (t : Token) : Token := { t with position := t.position + more }

namespace Lexer

variable {lexer : Lexer} {source : String} {position n : Nat} {text middle behind : List Char}
  {pieces pieces' : List Token} {d : TokenDefinition}

/-- At most one of the definitions matches at the start of the text. -/
def Unambiguous (lexer : Lexer) (text : List Char) : Prop :=
  ∀ d ∈ lexer.definitions, ∀ d' ∈ lexer.definitions, ∀ n n',
    d.pattern.matchLength? text = some n → d'.pattern.matchLength? text = some n' →
      0 < n → 0 < n' → d = d'

theorem select_isSome (mem : d ∈ lexer.definitions)
    (matched : d.pattern.matchLength? text = some n) (pos : 0 < n) :
    (lexer.select text).isSome := by
  obtain ⟨before, after, split⟩ := List.append_of_mem mem
  unfold select
  rw [split, List.foldl_append, List.foldl_cons]
  -- Once there is a candidate, another one may replace it, but none goes.
  refine List.foldlRecOn (motive := fun best : Option (TokenDefinition × Nat) => best.isSome = true)
    after _ ?_ ?_
  · split
    next fails => cases matched.symm.trans fails
    next empty =>
      cases matched.symm.trans empty
      cases pos
    next =>
      split
      next kept =>
        split
        next => rfl
        next =>
          rw [kept]
          rfl
      next => rfl
  · intro best found other _
    split
    next => exact found
    next => exact found
    next =>
      split
      next => split <;> rfl
      next => rfl

theorem select_eq_some_iff (unambiguous : lexer.Unambiguous text) :
    lexer.select text = some (d, n) ↔
      d ∈ lexer.definitions ∧ d.pattern.matchLength? text = some n ∧ 0 < n := by
  refine ⟨select_some, fun ⟨mem, matched, pos⟩ => ?_⟩
  obtain ⟨⟨d', n'⟩, selected⟩ := Option.isSome_iff_exists.mp (select_isSome mem matched pos)
  obtain ⟨mem', matched', pos'⟩ := select_some selected
  obtain rfl := unambiguous d mem d' mem' n n' matched matched' pos pos'
  rw [selected, Option.some.inj (matched.symm.trans matched')]

/-- The tokens that the lexer cuts from a text behind `position` characters, and what it has not yet
come to. -/
inductive Pieces (lexer : Lexer) : Nat → List Char → List Token → List Char → Prop
  | nil (position : Nat) (text : List Char) : Pieces lexer position text [] text
  | cons {position n : Nat} {text behind : List Char} {pieces : List Token} {d : TokenDefinition}
      (selected : lexer.select text = some (d, n))
      (tail : Pieces lexer (position + n) (text.drop n) pieces behind) :
      Pieces lexer position text (⟨d.name, String.ofList (text.take n), position⟩ :: pieces) behind

theorem tokensFrom_select (selected : lexer.select text = some (d, n)) {fuel : Nat} :
    lexer.tokensFrom source (fuel + 1) position text =
      .ok ⟨d.name, String.ofList (text.take n), position⟩ ::
        lexer.tokensFrom source fuel (position + n) (text.drop n) := by
  cases text with
  | nil =>
    obtain ⟨pos, within⟩ := le_of_select selected
    exact absurd pos (Nat.not_lt.mpr within)
  | cons c rest => rw [tokensFrom, selected]

theorem length_spelled_cons (selected : lexer.select text = some (d, n)) :
    (spelled (⟨d.name, String.ofList (text.take n), position⟩ :: pieces)).length =
      n + (spelled pieces).length := by
  have within := (le_of_select selected).2
  rw [spelled_cons, List.length_append, String.toList_ofList, List.length_take_of_le within]

namespace Pieces

theorem one (selected : lexer.select text = some (d, n)) :
    lexer.Pieces position text [⟨d.name, String.ofList (text.take n), position⟩] (text.drop n) :=
  .cons selected (.nil _ _)

theorem named (h : lexer.Pieces position text pieces behind) :
    ∀ t ∈ pieces, ∃ d ∈ lexer.definitions, t.name = d.name := by
  induction h with
  | nil => simp
  | cons selected _ ih => exact List.forall_mem_cons.mpr ⟨⟨_, (select_some selected).1, rfl⟩, ih⟩

theorem trans (h : lexer.Pieces position text pieces middle)
    (h' : lexer.Pieces (position + (spelled pieces).length) middle pieces' behind) :
    lexer.Pieces position text (pieces ++ pieces') behind := by
  induction h with
  | nil => exact h'
  | @cons _ n _ _ pieces _ selected _ ih =>
    rw [length_spelled_cons selected, ← Nat.add_assoc] at h'
    exact .cons selected (ih h')

theorem move (h : lexer.Pieces position text pieces behind) (more : Nat) :
    lexer.Pieces (position + more) text (pieces.map (Token.moved more)) behind := by
  induction h with
  | nil => exact .nil _ _
  | cons selected _ ih =>
    rw [Nat.add_right_comm] at ih
    exact .cons selected ih

end Pieces

/-- The stream from a place on. -/
def itemsFrom (lexer : Lexer) (source : String) (position : Nat) (text : List Char) :
    List (Except LexError Token) :=
  lexer.tokensFrom source (text.length + 1) position text

theorem tokens_eq_itemsFrom (lexer : Lexer) (source : String) :
    lexer.tokens source = lexer.itemsFrom source 0 source.toList := by
  rw [tokens, itemsFrom, String.length_toList]

theorem tokensFrom_eq_of_enough {fuel fuel' : Nat} (enough : text.length < fuel)
    (enough' : text.length < fuel') :
    lexer.tokensFrom source fuel position text = lexer.tokensFrom source fuel' position text := by
  induction fuel generalizing fuel' position text with
  | zero => exact absurd enough (Nat.not_lt_zero _)
  | succ fuel ih =>
    obtain ⟨fuel', rfl⟩ := Nat.exists_eq_succ_of_ne_zero (Nat.ne_zero_of_lt enough')
    cases selected : lexer.select text with
    | none =>
      cases text with
      | nil => rfl
      | cons c rest => simp only [Lexer.tokensFrom, selected]
    | some winner =>
      obtain ⟨d, n⟩ := winner
      have shorter := length_drop_lt selected
      have enough : (text.drop n).length < fuel := by omega
      have enough' : (text.drop n).length < fuel' := by omega
      rw [tokensFrom_select selected, tokensFrom_select selected, ih enough enough']

theorem itemsFrom_nil : lexer.itemsFrom source position [] = [.ok (.finish position)] := rfl

theorem itemsFrom_stuck {c : Char} (stuck : lexer.select (c :: text) = none) :
    lexer.itemsFrom source position (c :: text) = [.error ⟨position, c, source⟩] := by
  simp only [itemsFrom, Lexer.tokensFrom, stuck]

theorem itemsFrom_select (selected : lexer.select text = some (d, n)) :
    lexer.itemsFrom source position text =
      .ok ⟨d.name, String.ofList (text.take n), position⟩ ::
        lexer.itemsFrom source (position + n) (text.drop n) := by
  rw [itemsFrom, tokensFrom_select selected, itemsFrom]
  exact congrArg (_ :: ·) (tokensFrom_eq_of_enough (length_drop_lt selected) (Nat.lt_succ_self _))

theorem Pieces.itemsFrom (h : lexer.Pieces position text pieces behind) (source : String) :
    lexer.itemsFrom source position text =
      pieces.map .ok ++ lexer.itemsFrom source (position + (spelled pieces).length) behind := by
  induction h with
  | nil => rfl
  | @cons position n text behind pieces d selected _ ih =>
    rw [itemsFrom_select selected, ih, length_spelled_cons selected, Nat.add_assoc]
    rfl

theorem Pieces.spells (h : lexer.Pieces position text pieces behind) :
    text = spelled pieces ++ behind := by
  induction h with
  | nil => rfl
  | @cons position n text behind pieces d _ _ ih =>
    rw [spelled_cons, String.toList_ofList, List.append_assoc]
    exact (List.take_append_drop n text).symm.trans (congrArg (_ ++ ·) ih)

theorem Pieces.tokens (h : lexer.Pieces 0 source.toList pieces []) :
    lexer.tokens source = pieces.map .ok ++ [.ok (.finish source.length)] := by
  have whole : source.length = (spelled pieces).length := by
    rw [← String.length_toList, h.spells, List.append_nil]
  rw [tokens_eq_itemsFrom, h.itemsFrom, itemsFrom_nil, Nat.zero_add, whole]

/-- Wherever the stream goes on, the items before are pieces of the text up to there. -/
theorem pieces_of_itemsFrom {before : List Token} {item : Except LexError Token}
    {after : List (Except LexError Token)}
    (split : lexer.itemsFrom source position text = before.map .ok ++ item :: after) :
    ∃ behind, lexer.Pieces position text before behind ∧
      lexer.itemsFrom source (position + (spelled before).length) behind = item :: after := by
  induction before generalizing position text with
  | nil => exact ⟨text, .nil _ _, split⟩
  | cons t before ih =>
    cases selected : lexer.select text with
    | none =>
      have one : (lexer.itemsFrom source position text).length = 1 := by
        cases text with
        | nil => rfl
        | cons c text => rw [itemsFrom_stuck selected]; rfl
      rw [split] at one
      simp at one
    | some winner =>
      obtain ⟨d, n⟩ := winner
      rw [itemsFrom_select selected] at split
      obtain ⟨first, others⟩ := List.cons.inj split
      obtain ⟨behind, pieces, rest⟩ := ih others
      cases first
      refine ⟨behind, .cons selected pieces, ?_⟩
      rw [length_spelled_cons selected, ← Nat.add_assoc]
      exact rest

theorem Pieces.split {before after : List Token}
    (h : lexer.Pieces position text (before ++ after) behind) :
    ∃ middle, lexer.Pieces position text before middle ∧
      lexer.Pieces (position + (spelled before).length) middle after behind := by
  induction before generalizing position text with
  | nil => exact ⟨text, .nil _ _, h⟩
  | cons t before ih =>
    cases h with
    | cons selected tail =>
      obtain ⟨middle, front, rest⟩ := ih tail
      refine ⟨middle, .cons selected front, ?_⟩
      rw [length_spelled_cons selected, ← Nat.add_assoc]
      exact rest

/-- Pieces lead up to each of them, and through it. -/
theorem Pieces.around (h : lexer.Pieces position text pieces behind) {t : Token}
    (mem : t ∈ pieces) :
    ∃ before middle middle', lexer.Pieces position text before middle ∧
      lexer.Pieces position text (before ++ [t]) middle' ∧
      t.position = position + (spelled before).length := by
  obtain ⟨before, after, rfl⟩ := List.append_of_mem mem
  obtain ⟨middle, front, rest⟩ := h.split
  cases rest with
  | cons selected _ => exact ⟨before, middle, _, front, front.trans (.one selected), rfl⟩

theorem Pieces.placed (h : lexer.Pieces position text pieces behind) :
    ∀ t ∈ pieces, position ≤ t.position ∧ t.position < position + (spelled pieces).length := by
  induction h with
  | nil => simp
  | @cons position n text _ pieces d selected _ ih =>
    have pos := (le_of_select selected).1
    rw [length_spelled_cons selected]
    refine List.forall_mem_cons.mpr ⟨⟨Nat.le_refl _, by dsimp only; omega⟩, fun t mem => ?_⟩
    obtain ⟨low, high⟩ := ih t mem
    exact ⟨by omega, by omega⟩

/-- Every text is cut into pieces up to a place where none begins. -/
theorem exists_pieces (lexer : Lexer) (position : Nat) (text : List Char) :
    ∃ pieces behind, lexer.Pieces position text pieces behind ∧ lexer.select behind = none := by
  induction length : text.length using Nat.strong_induction_on generalizing position text with
  | _ size ih =>
    cases selected : lexer.select text with
    | none => exact ⟨[], text, .nil _ _, selected⟩
    | some winner =>
      obtain ⟨d, n⟩ := winner
      have shorter : (text.drop n).length < size := length ▸ length_drop_lt selected
      obtain ⟨pieces, behind, cut, stuck⟩ := ih _ shorter (position + n) _ rfl
      exact ⟨_, behind, .cons selected cut, stuck⟩

/-- The tokens of a text are pieces up to its end and the end token, or pieces and an error. -/
theorem pieces_tokens (lexer : Lexer) (source : String) :
    ∃ pieces, lexer.Pieces 0 source.toList pieces [] ∨
      ∃ e, lexer.tokens source = pieces.map .ok ++ [.error e] := by
  obtain ⟨pieces, behind, cut, stuck⟩ := lexer.exists_pieces 0 source.toList
  cases behind with
  | nil => exact ⟨pieces, Or.inl cut⟩
  | cons c rest =>
    refine ⟨pieces, Or.inr ⟨⟨0 + (spelled pieces).length, c, source⟩, ?_⟩⟩
    rw [tokens_eq_itemsFrom, cut.itemsFrom, itemsFrom_stuck stuck]

/-- Behind the last piece stands the end token or an error. -/
theorem mem_itemsFrom_stuck (stuck : lexer.select text = none) {item : Except LexError Token}
    (mem : item ∈ lexer.itemsFrom source position text) :
    (text = [] ∧ item = .ok (.finish position)) ∨
      ∃ c rest, text = c :: rest ∧ item = .error ⟨position, c, source⟩ := by
  cases text with
  | nil => exact Or.inl ⟨rfl, List.mem_singleton.mp mem⟩
  | cons c rest =>
    rw [itemsFrom_stuck stuck] at mem
    exact Or.inr ⟨c, rest, rfl, List.mem_singleton.mp mem⟩

end Lexer

end ShiftFirst
