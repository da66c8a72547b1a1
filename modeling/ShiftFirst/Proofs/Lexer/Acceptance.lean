import ShiftFirst.Proofs.Lexer.Lossless
import ShiftFirst.Proofs.Parser.Stream

namespace ShiftFirst

variable {V : Type}

theorem spelled_singleton (t : Token) : spelled [t] = t.value.toList := List.append_nil _

namespace Lexer

variable {lexer : Lexer} {source : String} {before : List Token} {last : Token}
  {rest : List (Except LexError Token)}

/-- Tokens from the beginning of a stream either are pieces that definitions name, or go up to the
end token. -/
theorem beginning_cases (h : lexer.tokens source = (before ++ [last]).map .ok ++ rest) :
    last.position = (spelled before).length ∧ spelled (before ++ [last]) <+: source.toList ∧
      ((∃ d ∈ lexer.definitions, last.name = d.name) ∨
        rest = [] ∧ spelled (before ++ [last]) = source.toList) := by
  obtain ⟨pieces, final, tokens, cuts⟩ := lexer.cuts_tokens source
  obtain ⟨behind, whole, ends⟩ := cuts.left
  rw [Nat.zero_add] at ends
  have split := tokens.symm.trans h
  rcases List.eq_nil_or_concat rest with rfl | ⟨more, item, rfl⟩
  · -- Nothing is left of the stream, so the last token is the end token.
    rw [List.append_nil, List.map_append] at split
    obtain ⟨same, one⟩ := List.append_inj' split rfl
    obtain rfl : pieces = before := List.map_injective_iff.mpr (fun _ _ => Except.ok.inj) same
    cases one
    rcases ends with ⟨rfl, he⟩ | ⟨_, _, _, he⟩
    · obtain rfl := Except.ok.inj he
      rw [List.append_nil] at whole
      have joined : spelled (pieces ++ [Token.finish (spelled pieces).length]) = source.toList := by
        rw [spelled_append, whole]
        exact List.append_nil _
      exact ⟨rfl, ⟨[], (List.append_nil _).trans joined⟩, Or.inr ⟨rfl, joined⟩⟩
    · cases he
  · rw [List.concat_eq_append, ← List.append_assoc] at split
    obtain ⟨same, _⟩ := List.append_inj' split rfl
    obtain ⟨taken, left, rfl, htaken, _⟩ := List.map_eq_append_iff.mp same
    obtain rfl : taken = before ++ [last] :=
      List.map_injective_iff.mpr (fun _ _ => Except.ok.inj) htaken
    have placed := cuts.placed (List.append_assoc before [last] left)
    refine ⟨by simpa using placed, ⟨spelled left ++ behind, ?_⟩, Or.inl ?_⟩
    · exact (whole.trans (by rw [spelled_append, List.append_assoc])).symm
    · exact cuts.named last (by simp)

/-- A run over the tokens of a text that gives a value has read the text up to the end of a token
with the name of the end token. If no definition has that name, the run has read all of the stream,
and so all of the text. -/
theorem accepted_reads_source [OfToken V] {rules : List (Rule V)} {p : Parser V}
    (accepted : (Parser.ofRules rules).2 = .ok p) {skip : List Symbol} {budget : Nat}
    {lexer : Lexer} {source : String} {v : V}
    (h : (p.run skip budget (lexer.tokens source)).value = .ok v) :
    ∃ (before : List Token) (last : Token),
      (p.run skip budget (lexer.tokens source)).read = (before ++ [last]).map .ok ∧
      last.name = endSymbol ∧ spelled (before ++ [last]) <+: source.toList ∧
      (spelled (before ++ [last]) = source.toList ↔
        last.position + last.value.length = source.length) ∧
      ((∀ d ∈ lexer.definitions, d.name ≠ endSymbol) →
        (p.run skip budget (lexer.tokens source)).read = lexer.tokens source ∧
        spelled (before ++ [last]) = source.toList) := by
  obtain ⟨_, built⟩ := Parser.ofRules_ok_iff.mp accepted
  obtain ⟨stats, outcome⟩ := Ending.outcome_of_value h
  obtain ⟨_, _, rest, stream, _⟩ := Parser.run_ok built outcome
  obtain ⟨before, last, read, named⟩ := Parser.run_ok_read built outcome
  have start := stream
  rw [read] at start
  obtain ⟨placed, begins, which⟩ := beginning_cases start
  have length : (spelled (before ++ [last])).length = last.position + last.value.length := by
    rw [spelled_append, spelled_singleton, List.length_append, placed, String.length_toList]
  refine ⟨before, last, read, named, begins, ⟨fun whole => ?_, fun reached => ?_⟩, fun other => ?_⟩
  · rw [← length, whole, String.length_toList]
  · refine begins.eq_of_length ?_
    rw [length, reached, String.length_toList]
  · rcases which with ⟨d, mem, same⟩ | ⟨rfl, whole⟩
    · exact absurd (same.symm.trans named) (other d mem)
    · exact ⟨(stream.trans (List.append_nil _)).symm, whole⟩

/-- Digits, sums and products. -/
def sumsLexer : Lexer where
  definitions := [
    ⟨"n", .plus .greedy (.set [('0'.toNat, '9'.toNat)])⟩,
    ⟨"+", .set [('+'.toNat, '+'.toNat)]⟩,
    ⟨"*", .set [('*'.toNat, '*'.toNat)]⟩,
    ⟨"blank", .set [(' '.toNat, ' '.toNat)]⟩]
  policy := .longest

set_option maxRecDepth 100000 in
theorem accepted_reads_sums :
    (Parser.ofRules Parser.sums.rules).2 = .ok Parser.sumsParser ∧
      (∀ d ∈ sumsLexer.definitions, d.name ≠ endSymbol) ∧
      (Parser.sumsParser.run ["blank"] 5 (sumsLexer.tokens "12 + 3*4")).value = .ok "1234*+" ∧
      (Parser.sumsParser.run ["blank"] 5 (sumsLexer.tokens "12 + 3*4")).read =
        sumsLexer.tokens "12 + 3*4" := by
  have accepted := Parser.ofRules_ok_iff.mpr ⟨rfl, Parser.built_sums⟩
  have other : ∀ d ∈ sumsLexer.definitions, d.name ≠ endSymbol := by decide
  have value : (Parser.sumsParser.run ["blank"] 5 (sumsLexer.tokens "12 + 3*4")).value =
      .ok "1234*+" := by
    decide +kernel
  obtain ⟨_, _, _, _, _, _, reads⟩ := accepted_reads_source accepted value
  exact ⟨accepted, other, value, (reads other).1⟩

/-- A lexer with a definition that has the name of the end token. -/
def endingLexer : Lexer where
  definitions := [⟨"a", .set [('a'.toNat, 'a'.toNat)]⟩, ⟨"$", .set [(';'.toNat, ';'.toNat)]⟩]
  policy := .longest

def singleton : Grammar String where
  rules := [⟨⟨"S", ["a"]⟩, fun vs => .ok ("S[" ++ ",".intercalate vs ++ "]")⟩]
  rules_ne_nil := List.cons_ne_nil _ _
  faultless := by decide

def singletonParser : Parser String := ⟨singleton, singleton.automaton.2.toOption.getD ⟨[]⟩⟩

set_option maxRecDepth 100000 in
theorem accepted_before_end :
    Lexer.ofDefinitions [("a", "a"), ("$", ";")] = .ok endingLexer ∧
      (Parser.ofRules singleton.rules).2 = .ok singletonParser ∧
      (singletonParser.run [] 100000 (endingLexer.tokens "a;@")).value = .ok "S[a]" ∧
      (singletonParser.run [] 100000 (endingLexer.tokens "a;@")).read =
        [.ok ⟨"a", "a", 0⟩, .ok ⟨"$", ";", 1⟩] ∧
      spelled [⟨"a", "a", 0⟩, ⟨"$", ";", 1⟩] ≠ "a;@".toList ∧
      endingLexer.tokens "a;@" =
        [.ok ⟨"a", "a", 0⟩, .ok ⟨"$", ";", 1⟩, .error ⟨2, '@', "a;@"⟩] := by
  have built : singletonParser.Built := by
    rw [Parser.Built]
    decide +kernel
  refine ⟨by decide +kernel, Parser.ofRules_ok_iff.mpr ⟨rfl, built⟩, by decide +kernel,
    by decide +kernel, by decide +kernel, by decide +kernel⟩

end Lexer

end ShiftFirst
