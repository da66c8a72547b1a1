import ShiftFirst.Proofs.Lexer.Pieces
import ShiftFirst.Proofs.Parser.Relocate

namespace ShiftFirst

/-- A lexical error about another place of another text. -/
def LexError.relocate (μ : Nat → Nat) (source : String) (e : LexError) : LexError :=
  ⟨μ e.position, e.found, source⟩

/-- A text with more characters at a place. -/
def insertAt (source : String) (p : Nat) (more : String) : String :=
  String.ofList (source.toList.take p ++ (more.toList ++ source.toList.drop p))

/-- Where a place is once there are `more` characters at `p`. -/
def makeRoom (p more n : Nat) : Nat := if p ≤ n then n + more else n

namespace Lexer

variable {lexer : Lexer} {source source' : String} {position p : Nat} {text behind : List Char}
  {pieces : List Token} {t : Token}

/-- The places between the tokens of a text: where one begins or ends, where nothing matches, and
the end. -/
inductive Boundary (lexer : Lexer) (source : String) : Nat → Prop
  | before {t : Token} (mem : .ok t ∈ lexer.tokens source) : Boundary lexer source t.position
  | behind {t : Token} (mem : .ok t ∈ lexer.tokens source) :
      Boundary lexer source (t.position + t.value.length)
  | stuck {e : LexError} (mem : .error e ∈ lexer.tokens source) : Boundary lexer source e.position
  | finish : Boundary lexer source source.length

/-- Pieces lead from the beginning of a text up to a place. -/
def Led (lexer : Lexer) (source : String) (p : Nat) : Prop :=
  ∃ pieces behind, lexer.Pieces 0 source.toList pieces behind ∧ p = (spelled pieces).length

theorem Pieces.led (h : lexer.Pieces 0 source.toList pieces behind) (mem : t ∈ pieces) :
    lexer.Led source t.position ∧ lexer.Led source (t.position + t.value.length) := by
  obtain ⟨before, middle, middle', front, through, position⟩ := h.around mem
  rw [Nat.zero_add] at position
  refine ⟨⟨before, middle, front, position⟩, before ++ [t], middle', through, ?_⟩
  rw [position, spelled_append, List.length_append]
  simp [spelled, String.length_toList]

theorem led_of_ok (mem : .ok t ∈ lexer.tokens source) :
    lexer.Led source t.position ∧ lexer.Led source (t.position + t.value.length) := by
  obtain ⟨pieces, behind, cut, stuck⟩ := lexer.exists_pieces 0 source.toList
  rw [tokens_eq_itemsFrom, cut.itemsFrom] at mem
  rcases List.mem_append.mp mem with mem | mem
  · obtain ⟨t', mem, same⟩ := List.mem_map.mp mem
    cases same
    exact cut.led mem
  · obtain ⟨_, same⟩ | ⟨_, _, _, same⟩ := mem_itemsFrom_stuck stuck mem
    · cases same
      have here : lexer.Led source (0 + (spelled pieces).length) :=
        ⟨pieces, behind, cut, Nat.zero_add _⟩
      exact ⟨here, here⟩
    · cases same

theorem led_of_error {e : LexError} (mem : .error e ∈ lexer.tokens source) :
    lexer.Led source e.position := by
  obtain ⟨pieces, behind, cut, stuck⟩ := lexer.exists_pieces 0 source.toList
  rw [tokens_eq_itemsFrom, cut.itemsFrom] at mem
  rcases List.mem_append.mp mem with mem | mem
  · obtain ⟨_, _, same⟩ := List.mem_map.mp mem
    cases same
  · obtain ⟨_, same⟩ | ⟨_, _, _, same⟩ := mem_itemsFrom_stuck stuck mem
    · cases same
    · cases same
      exact ⟨pieces, behind, cut, Nat.zero_add _⟩

/-- Pieces lead to every boundary but the end of a text with an error before it. -/
theorem Boundary.led (h : lexer.Boundary source p) :
    lexer.Led source p ∨ p = source.length ∧ ∃ pieces c rest,
      lexer.Pieces 0 source.toList pieces (c :: rest) ∧ lexer.select (c :: rest) = none := by
  cases h with
  | before mem => exact Or.inl (led_of_ok mem).1
  | behind mem => exact Or.inl (led_of_ok mem).2
  | stuck mem => exact Or.inl (led_of_error mem)
  | finish =>
    obtain ⟨pieces, behind, cut, stuck⟩ := lexer.exists_pieces 0 source.toList
    cases behind with
    | nil =>
      refine Or.inl ⟨pieces, [], cut, ?_⟩
      rw [← String.length_toList, cut.spells, List.append_nil]
    | cons c rest => exact Or.inr ⟨rfl, pieces, c, rest, cut, stuck⟩

/-- The stream of a text that stands further on is the same further on. -/
theorem itemsFrom_relocate {μ : Nat → Nat} {more : Nat}
    (moves : ∀ n, position ≤ n → μ n = n + more) (source source' : String) (text : List Char) :
    (lexer.itemsFrom source position text).map (relocateItem μ (LexError.relocate μ source')) =
      lexer.itemsFrom source' (position + more) text := by
  obtain ⟨pieces, behind, cut, stuck⟩ := lexer.exists_pieces position text
  induction cut with
  | nil position text =>
    have here := moves position (Nat.le_refl _)
    cases text with
    | nil => simp [itemsFrom_nil, relocateItem, Token.relocate, Token.finish, here]
    | cons c rest =>
      simp [itemsFrom_stuck stuck, relocateItem, LexError.relocate, here]
  | @cons position n _ _ _ _ selected _ ih =>
    have here := moves position (Nat.le_refl _)
    rw [itemsFrom_select selected, itemsFrom_select selected, List.map_cons,
      ih (fun m le => moves m (by omega)) stuck, Nat.add_right_comm position n]
    simp only [relocateItem, Token.relocate, here]

end Lexer

end ShiftFirst
