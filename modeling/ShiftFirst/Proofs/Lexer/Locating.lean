import ShiftFirst.Proofs.Lexer.Acceptance
import ShiftFirst.Proofs.Parser.Yield

namespace ShiftFirst

variable {V : Type}

/-- A token is the piece of a text that begins at its position, or the end token behind the text. -/
inductive Token.Marks (source : String) : Token → Prop
  | piece {t : Token} (filled : t.value ≠ "")
      (here : t.value.toList <+: source.toList.drop t.position) : Marks source t
  | finish : Marks source (.finish source.length)

namespace Lexer

variable {lexer : Lexer} {source : String} {position : Nat} {rest : List Char} {skip : List Symbol}
  {pieces : List Token} {final : Except LexError Token} {t : Token}

theorem marks_of_mem (mem : .ok t ∈ lexer.tokens source) : t.Marks source := by
  obtain ⟨pieces, final, tokens, cuts⟩ := lexer.cuts_tokens source
  obtain ⟨behind, whole, last⟩ := cuts.left
  rw [Nat.zero_add] at last
  rw [tokens] at mem
  rcases List.mem_append.mp mem with mem | mem
  · obtain ⟨t', mem, same⟩ := List.mem_map.mp mem
    cases same
    obtain ⟨before, after, rfl⟩ := List.append_of_mem mem
    have placed := cuts.placed rfl
    refine .piece (cuts.filled t mem) ⟨spelled after ++ behind, ?_⟩
    rw [placed, Nat.zero_add, whole, spelled_append, spelled_cons, List.append_assoc,
      List.append_assoc, List.drop_left]
  · rcases last with ⟨rfl, rfl⟩ | ⟨c, more, rfl, rfl⟩
    · cases List.mem_singleton.mp mem
      rw [List.append_nil] at whole
      rw [← whole, String.length_toList]
      exact .finish
    · cases List.mem_singleton.mp mem

theorem found_of_mem {e : LexError} (mem : .error e ∈ lexer.tokens source) :
    source.toList[e.position]? = some e.found ∧ e.input = source := by
  obtain ⟨pieces, final, tokens, cuts⟩ := lexer.cuts_tokens source
  obtain ⟨behind, whole, last⟩ := cuts.left
  rw [Nat.zero_add] at last
  rw [tokens] at mem
  rcases List.mem_append.mp mem with mem | mem
  · obtain ⟨_, _, same⟩ := List.mem_map.mp mem
    cases same
  · rcases last with ⟨rfl, rfl⟩ | ⟨c, more, rfl, rfl⟩
    · cases List.mem_singleton.mp mem
    · cases List.mem_singleton.mp mem
      refine ⟨?_, rfl⟩
      rw [whole]
      simp

/-- The tokens that a run keeps stand in the order of their positions. -/
theorem Cuts.sorted (h : lexer.Cuts source position rest pieces final) (skip : List Symbol) :
    (∀ t ∈ kept skip (pieces.map .ok ++ [final]), position ≤ t.position) ∧
      (kept skip (pieces.map .ok ++ [final])).Pairwise (·.position ≤ ·.position) := by
  induction h with
  | finish position =>
    by_cases passed : endSymbol ∈ skip <;> simp [kept, Token.finish, passed]
  | stuck => exact ⟨fun _ mem => absurd mem List.not_mem_nil, .nil⟩
  | @piece t rest pieces final _ _ _ ih =>
    obtain ⟨behind, sorted⟩ := ih
    have later : ∀ t' ∈ kept skip (pieces.map .ok ++ [final]), t.position ≤ t'.position :=
      fun t' mem => Nat.le_trans (Nat.le_add_right _ _) (behind t' mem)
    rw [List.map_cons, List.cons_append, kept_cons]
    split
    next => exact ⟨later, sorted⟩
    next =>
      exact ⟨List.forall_mem_cons.mpr ⟨Nat.le_refl _, later⟩, List.pairwise_cons.mpr ⟨later, sorted⟩⟩

theorem sorted_tokens (lexer : Lexer) (source : String) (skip : List Symbol) :
    (kept skip (lexer.tokens source)).Pairwise (·.position ≤ ·.position) := by
  obtain ⟨pieces, final, tokens, cuts⟩ := lexer.cuts_tokens source
  rw [tokens]
  exact (cuts.sorted skip).2

/-- The positions of errors point into the text: that of a lexical error to the character found,
that of an unexpected token to where it begins or, if it is the end token, behind the text, and that
of a rule's refusal to where the first of the tokens begins that the reduction covers. -/
theorem errors_located [OfToken V] {rules : List (Rule V)} {p : Parser V}
    (accepted : (Parser.ofRules rules).2 = .ok p) (lexer : Lexer) (skip : List Symbol)
    (source : String) (budget : Nat) :
    (∀ e, (p.run skip budget (lexer.tokens source)).outcome = .error (.input e) →
      source.toList[e.position]? = some e.found ∧ e.input = source) ∧
    (∀ name value position expected, (p.run skip budget (lexer.tokens source)).outcome =
        .error (.parse (.unexpectedToken name value position expected)) →
      Token.Marks source ⟨name, value, position⟩) ∧
    ∀ text position cause, (p.run skip budget (lexer.tokens source)).outcome =
        .error (.parse (.reduction text position cause)) →
      ∃ moves r t rest,
        (p.run skip budget (lexer.tokens source)).moves = moves ++ [.reduce r] ∧
        text = p.grammar.ruleText r ∧ p.grammar.covered moves r = t :: rest ∧
        (∀ t' ∈ rest, t.position ≤ t'.position) ∧ position = t.position ∧ t.Marks source := by
  obtain ⟨_, built⟩ := Parser.ofRules_ok_iff.mp accepted
  refine ⟨fun e h => found_of_mem (Parser.run_input_mem h), fun name value position expected h => ?_,
    fun text position cause h => ?_⟩
  · exact marks_of_mem (Parser.mem_of_mem_kept (Parser.run_unexpected_mem built h))
  · obtain ⟨moves, r, t, rest, moved, text, covers, position, within⟩ :=
      Parser.run_refused_place built h
    have mem := within.subset List.mem_cons_self
    have sorted := (sorted_tokens lexer source skip).sublist within.sublist
    exact ⟨moves, r, t, rest, moved, text, covers, (List.pairwise_cons.mp sorted).1, position,
      marks_of_mem (Parser.mem_of_mem_kept mem)⟩

/-- Sums of products, none of which may have a factor zero. -/
def factors : Grammar String where
  rules := [
    ⟨⟨"sum", ["sum", "+", "product"]⟩, fun vs => .ok ("".intercalate vs)⟩,
    ⟨⟨"sum", ["product"]⟩, fun vs => .ok ("".intercalate vs)⟩,
    ⟨⟨"product", ["product", "*", "n"]⟩, fun vs =>
      if "0" ∈ vs then .error (.refused "zero") else .ok ("".intercalate vs)⟩,
    ⟨⟨"product", ["n"]⟩, fun vs => .ok ("".intercalate vs)⟩]
  rules_ne_nil := List.cons_ne_nil _ _
  faultless := by decide

def factorsParser : Parser String := ⟨factors, factors.automaton.2.toOption.getD ⟨[]⟩⟩

set_option maxRecDepth 100000 in
theorem errors_located_factors :
    (Parser.ofRules factors.rules).2 = .ok factorsParser ∧
      ((factorsParser.run ["blank"] 9 (sumsLexer.tokens "1 +é")).outcome =
          .error (.input ⟨3, 'é', "1 +é"⟩) ∧ "1 +é".toList[3]? = some 'é') ∧
      ((factorsParser.run ["blank"] 9 (sumsLexer.tokens "1 + ")).outcome =
          .error (.parse (.unexpectedToken "$" "" 4 ["n"])) ∧ Token.Marks "1 + " ⟨"$", "", 4⟩) ∧
      (factorsParser.run ["blank"] 9 (sumsLexer.tokens "1 + 23*4*0")).outcome =
        .error (.parse (.reduction "product → product * n" 4 (.refused "zero"))) ∧
      ∃ moves r t rest,
        (factorsParser.run ["blank"] 9 (sumsLexer.tokens "1 + 23*4*0")).moves =
          moves ++ [.reduce r] ∧
        factors.covered moves r = t :: rest ∧ 4 = t.position ∧ t.Marks "1 + 23*4*0" := by
  have built : factorsParser.Built := by
    rw [Parser.Built]
    decide +kernel
  have accepted := Parser.ofRules_ok_iff.mpr ⟨rfl, built⟩
  have located := fun source => errors_located accepted sumsLexer ["blank"] source 9
  have found : (factorsParser.run ["blank"] 9 (sumsLexer.tokens "1 +é")).outcome =
      .error (.input ⟨3, 'é', "1 +é"⟩) := by decide +kernel
  have unexpected : (factorsParser.run ["blank"] 9 (sumsLexer.tokens "1 + ")).outcome =
      .error (.parse (.unexpectedToken "$" "" 4 ["n"])) := by decide +kernel
  have refused : (factorsParser.run ["blank"] 9 (sumsLexer.tokens "1 + 23*4*0")).outcome =
      .error (.parse (.reduction "product → product * n" 4 (.refused "zero"))) := by
    decide +kernel
  obtain ⟨moves, r, t, rest, moved, _, covers, _, position, marks⟩ :=
    (located _).2.2 _ _ _ refused
  exact ⟨accepted, ⟨found, ((located _).1 _ found).1⟩,
    ⟨unexpected, (located _).2.1 _ _ _ _ unexpected⟩, refused,
    moves, r, t, rest, moved, covers, position, marks⟩

end Lexer

end ShiftFirst
