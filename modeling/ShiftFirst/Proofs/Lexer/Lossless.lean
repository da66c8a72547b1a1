import Mathlib.Data.List.Infix
import Mathlib.Data.String.Basic
import ShiftFirst.Lexer
import ShiftFirst.Proofs.Pattern.Search

namespace ShiftFirst

/-- The characters of tokens in a row. -/
def spelled (tokens : List Token) : List Char := tokens.flatMap fun t => t.value.toList

theorem spelled_cons (t : Token) (tokens : List Token) :
    spelled (t :: tokens) = t.value.toList ++ spelled tokens :=
  List.flatMap_cons

theorem spelled_append (tokens tokens' : List Token) :
    spelled (tokens ++ tokens') = spelled tokens ++ spelled tokens' :=
  List.flatMap_append

namespace Lexer

variable {lexer : Lexer} {source : String} {position : Nat} {rest : List Char}
  {pieces : List Token} {final : Except LexError Token}

theorem select_some {d : TokenDefinition} {n : Nat} (h : lexer.select rest = some (d, n)) :
    d ∈ lexer.definitions ∧ d.pattern.matchLength? rest = some n ∧ 0 < n := by
  -- What has been found so far comes from one of the definitions.
  refine List.foldlRecOn (motive := fun best => ∀ d n, best = some (d, n) →
    d ∈ lexer.definitions ∧ d.pattern.matchLength? rest = some n ∧ 0 < n)
    lexer.definitions _ (by simp) ?_ d n h
  intro best sound first mem d n he
  split at he
  next => exact sound d n he
  next => exact sound d n he
  next m filled matched =>
    have here : first ∈ lexer.definitions ∧ first.pattern.matchLength? rest = some m ∧ 0 < m :=
      ⟨mem, matched, Nat.pos_of_ne_zero filled⟩
    split at he
    next =>
      split at he
      next =>
        cases he
        exact here
      next => exact sound d n he
    next =>
      cases he
      exact here

theorem le_of_select {d : TokenDefinition} {n : Nat} (selected : lexer.select rest = some (d, n)) :
    0 < n ∧ n ≤ rest.length := by
  obtain ⟨_, matched, pos⟩ := select_some selected
  exact ⟨pos, Pattern.matchLength?_le matched⟩

/-- A token is not empty, so that less of the text is left behind it. -/
theorem length_drop_lt {d : TokenDefinition} {n : Nat}
    (selected : lexer.select rest = some (d, n)) : (rest.drop n).length < rest.length := by
  obtain ⟨pos, within⟩ := le_of_select selected
  rw [List.length_drop]
  omega

/-- How a text behind `position` characters is cut: a token that a definition names stands for each
piece, and the last item tells whether nothing is left or which character begins no piece. -/
inductive Cuts (lexer : Lexer) (source : String) :
    Nat → List Char → List Token → Except LexError Token → Prop
  | finish (position : Nat) : Cuts lexer source position [] [] (.ok (.finish position))
  | stuck (position : Nat) (c : Char) (rest : List Char) :
      Cuts lexer source position (c :: rest) [] (.error ⟨position, c, source⟩)
  | piece {t : Token} {rest : List Char} {pieces : List Token} {final : Except LexError Token}
      (filled : t.value ≠ "") (named : ∃ d ∈ lexer.definitions, t.name = d.name)
      (tail : Cuts lexer source (t.position + t.value.length) rest pieces final) :
      Cuts lexer source t.position (t.value.toList ++ rest) (t :: pieces) final

theorem cuts_tokensFrom {fuel : Nat} (enough : rest.length < fuel) :
    ∃ pieces final, lexer.tokensFrom source fuel position rest = pieces.map .ok ++ [final] ∧
      lexer.Cuts source position rest pieces final := by
  induction fuel generalizing position rest with
  | zero => exact absurd enough (Nat.not_lt_zero _)
  | succ fuel ih =>
    cases rest with
    | nil => exact ⟨[], _, rfl, .finish position⟩
    | cons c rest =>
      unfold tokensFrom
      dsimp only
      cases selected : lexer.select (c :: rest) with
      | none => exact ⟨[], _, rfl, .stuck position c rest⟩
      | some winner =>
        obtain ⟨d, n⟩ := winner
        obtain ⟨mem, _⟩ := select_some selected
        obtain ⟨pos, within⟩ := le_of_select selected
        have shorter : ((c :: rest).drop n).length < fuel :=
          Nat.lt_of_lt_of_le (length_drop_lt selected) (Nat.le_of_lt_succ enough)
        obtain ⟨pieces, final, tokens, cuts⟩ := @ih (position + n) _ shorter
        let t : Token := ⟨d.name, String.ofList ((c :: rest).take n), position⟩
        have length : t.value.length = n := by
          simp only [t, String.length_ofList, List.length_take]
          exact Nat.min_eq_left within
        have filled : t.value ≠ "" := fun empty => by
          rw [empty] at length
          exact absurd length.symm (Nat.ne_of_gt pos)
        refine ⟨t :: pieces, final, congrArg (Except.ok t :: ·) tokens, ?_⟩
        have tail : lexer.Cuts source (t.position + t.value.length) ((c :: rest).drop n) pieces
            final := by
          rw [length]
          exact cuts
        have whole : c :: rest = t.value.toList ++ (c :: rest).drop n := by
          simp [t]
        rw [whole]
        exact .piece filled ⟨d, mem, rfl⟩ tail

theorem cuts_tokens (lexer : Lexer) (source : String) :
    ∃ pieces final, lexer.tokens source = pieces.map .ok ++ [final] ∧
      lexer.Cuts source 0 source.toList pieces final :=
  cuts_tokensFrom (by rw [String.length_toList]; exact Nat.lt_succ_self _)

namespace Cuts

theorem filled (h : lexer.Cuts source position rest pieces final) :
    ∀ t ∈ pieces, t.value ≠ "" := by
  induction h with
  | finish => simp
  | stuck => simp
  | piece filled _ _ ih => exact List.forall_mem_cons.mpr ⟨filled, ih⟩

theorem named (h : lexer.Cuts source position rest pieces final) :
    ∀ t ∈ pieces, ∃ d ∈ lexer.definitions, t.name = d.name := by
  induction h with
  | finish => simp
  | stuck => simp
  | piece _ named _ ih => exact List.forall_mem_cons.mpr ⟨named, ih⟩

theorem placed (h : lexer.Cuts source position rest pieces final) {before after : List Token}
    {t : Token} (split : pieces = before ++ t :: after) :
    t.position = position + (spelled before).length := by
  induction h generalizing before with
  | finish => simp at split
  | stuck => simp at split
  | @piece first _ _ _ _ _ _ ih =>
    cases before with
    | nil =>
      cases split
      rfl
    | cons _ before =>
      obtain ⟨rfl, behind⟩ := List.cons.inj split
      have there := ih behind
      have length : (spelled (first :: before)).length =
          first.value.length + (spelled before).length := by
        simp [spelled, String.length_toList]
      omega

/-- The pieces and what is left behind them make up the text, and the last item tells what is
left. -/
theorem left (h : lexer.Cuts source position rest pieces final) :
    ∃ behind, rest = spelled pieces ++ behind ∧
      ((behind = [] ∧ final = .ok (.finish (position + (spelled pieces).length))) ∨
        ∃ c more, behind = c :: more ∧
          final = .error ⟨position + (spelled pieces).length, c, source⟩) := by
  induction h with
  | finish => exact ⟨[], rfl, Or.inl ⟨rfl, rfl⟩⟩
  | stuck _ c rest => exact ⟨c :: rest, rfl, Or.inr ⟨c, rest, rfl, rfl⟩⟩
  | @piece t _ pieces _ _ _ _ ih =>
    obtain ⟨behind, rest, last⟩ := ih
    refine ⟨behind, ?_, ?_⟩
    · rw [spelled_cons, List.append_assoc, rest]
    · rw [spelled_cons, List.length_append, String.length_toList, ← Nat.add_assoc]
      exact last

end Cuts

theorem name_of_mem_tokens {t : Token} (h : .ok t ∈ lexer.tokens source) :
    (∃ d ∈ lexer.definitions, t.name = d.name) ∨ t.name = endSymbol := by
  obtain ⟨pieces, final, tokens, cuts⟩ := lexer.cuts_tokens source
  rw [tokens] at h
  rcases List.mem_append.mp h with piece | last
  · obtain ⟨t', mem, same⟩ := List.mem_map.mp piece
    cases same
    exact Or.inl (cuts.named t mem)
  · obtain ⟨_, _, ⟨_, rfl⟩ | ⟨_, _, _, rfl⟩⟩ := cuts.left
    · cases List.mem_singleton.mp last
      exact Or.inr rfl
    · cases List.mem_singleton.mp last

theorem tokens_ended (lexer : Lexer) (source : String) :
    ∃ items final, lexer.tokens source = items ++ [final] ∧
      ∀ token, final = .ok token → token.name = endSymbol := by
  obtain ⟨pieces, final, tokens, cuts⟩ := lexer.cuts_tokens source
  refine ⟨_, final, tokens, fun token he => ?_⟩
  obtain ⟨_, _, ⟨_, rfl⟩ | ⟨_, _, _, rfl⟩⟩ := cuts.left
  · cases he
    rfl
  · cases he

theorem mapM_readDefinition_names {ds : List (Symbol × String)} {read : List TokenDefinition}
    (h : ds.mapM readDefinition = .ok read) :
    read.map TokenDefinition.name = ds.map Prod.fst := by
  induction ds generalizing read with
  | nil =>
    cases h
    rfl
  | cons d ds ih =>
    rw [List.mapM_cons] at h
    cases hd : readDefinition d with
    | error e =>
      rw [hd] at h
      cases h
    | ok first =>
      cases hs : ds.mapM readDefinition with
      | error e =>
        rw [hd, hs] at h
        cases h
      | ok others =>
        rw [hd, hs] at h
        cases h
        have named : first.name = d.1 := by
          unfold readDefinition at hd
          split at hd
          next =>
            cases hd
            rfl
          next => cases hd
        rw [List.map_cons, List.map_cons, named, ih hs]

theorem ofDefinitions_names {ds : List (Symbol × String)} (h : ofDefinitions ds = .ok lexer) :
    lexer.definitions.map TokenDefinition.name = ds.map Prod.fst := by
  unfold ofDefinitions at h
  cases hs : ds.mapM readDefinition with
  | error e =>
    rw [hs] at h
    cases h
  | ok read =>
    rw [hs] at h
    cases h
    exact mapM_readDefinition_names hs

end Lexer

namespace Tokens

variable {s : Tokens}

theorem after_of_done (ended : s.done = true) (n : Nat) : s.after n = s := by
  induction n with
  | zero => rfl
  | succ n ih => rw [after, next, if_pos ended, ih]

theorem next_of_done (ended : s.done = true) (n : Nat) : (s.after n).next.1 = none := by
  rw [after_of_done ended, next, if_pos ended]

theorem rest_of_offset {before rest : List Char} (text : s.source.toList = before ++ rest)
    (offset : s.offset = String.utf8Len before) : s.rest = rest := by
  have source : s.source = String.ofList (before ++ rest ++ []) := by
    rw [List.append_nil, ← text, String.ofList_toList]
  have finish : s.source.rawEndPos = ⟨String.utf8Len before + String.utf8Len rest⟩ := by
    rw [source, String.rawEndPos_ofList, List.append_nil, String.utf8Len_append]
  rw [Tokens.rest, offset, finish, source, String.extract_of_valid, String.toList_ofList]

section Next

variable (more : s.done = false)

include more

theorem next_of_nil (left : s.rest = []) :
    s.next = (some (.ok (.finish s.position)), { s with done := true }) := by
  rw [next, more, left]
  rfl

variable {c : Char} {rest : List Char} (left : s.rest = c :: rest)

include left

theorem next_of_none (selected : s.lexer.select (c :: rest) = none) :
    s.next = (some (.error ⟨s.position, c, s.source⟩), { s with done := true }) := by
  rw [next, more, left]
  dsimp only
  rw [selected]
  rfl

/-- A token moves the reader on by its bytes and by its characters. -/
theorem next_of_some {d : TokenDefinition} {n : Nat}
    (selected : s.lexer.select (c :: rest) = some (d, n)) :
    s.next = (some (.ok ⟨d.name, String.ofList ((c :: rest).take n), s.position⟩),
      { s with
        offset := s.offset + String.utf8Len ((c :: rest).take n)
        position := s.position + n }) := by
  have length : (String.ofList ((c :: rest).take n)).length = n := by
    rw [String.length_ofList, List.length_take]
    exact Nat.min_eq_left (Lexer.le_of_select selected).2
  rw [next, more, left]
  dsimp only
  rw [selected]
  dsimp only
  rw [length, String.utf8ByteSize_ofList]
  rfl

end Next

/-- A reader answers with the tokens of what is left, and then with nothing. -/
theorem next_after_tokensFrom {fuel : Nat} {before rest : List Char} (enough : rest.length < fuel)
    (more : s.done = false) (text : s.source.toList = before ++ rest)
    (offset : s.offset = String.utf8Len before) (n : Nat) :
    (s.after n).next.1 = (s.lexer.tokensFrom s.source fuel s.position rest)[n]? := by
  induction fuel generalizing s before rest n with
  | zero => exact absurd enough (Nat.not_lt_zero _)
  | succ fuel ih =>
    have left := rest_of_offset text offset
    cases rest with
    | nil =>
      have last := next_of_nil more left
      cases n with
      | zero => exact congrArg Prod.fst last
      | succ n =>
        rw [after, last]
        exact next_of_done rfl n
    | cons c rest =>
      unfold Lexer.tokensFrom
      dsimp only
      cases selected : s.lexer.select (c :: rest) with
      | none =>
        have last := next_of_none more left selected
        cases n with
        | zero => exact congrArg Prod.fst last
        | succ n =>
          rw [after, last]
          exact next_of_done rfl n
      | some winner =>
        obtain ⟨d, taken⟩ := winner
        have first := next_of_some more left selected
        cases n with
        | zero => exact congrArg Prod.fst first
        | succ n =>
          have shorter : ((c :: rest).drop taken).length < fuel :=
            Nat.lt_of_lt_of_le (Lexer.length_drop_lt selected) (Nat.le_of_lt_succ enough)
          have whole : s.source.toList =
              (before ++ (c :: rest).take taken) ++ (c :: rest).drop taken := by
            rw [List.append_assoc, List.take_append_drop, text]
          have reached : s.offset + String.utf8Len ((c :: rest).take taken) =
              String.utf8Len (before ++ (c :: rest).take taken) := by
            rw [String.utf8Len_append, offset]
          rw [after, first]
          exact @ih { s with
            offset := s.offset + String.utf8Len ((c :: rest).take taken)
            position := s.position + taken } _ _ shorter more whole reached n

/-- The items that a reader hands out are the tokens of the text. -/
theorem next_after_lex (lexer : Lexer) (source : String) (n : Nat) :
    ((lexer.lex source).after n).next.1 = (lexer.tokens source)[n]? := by
  have enough : source.toList.length < source.length + 1 := by
    rw [String.length_toList]
    exact Nat.lt_succ_self _
  have whole : (lexer.lex source).source.toList = [] ++ source.toList := rfl
  exact next_after_tokensFrom enough rfl whole rfl n

end Tokens

/-- The tokens of a text are pieces of it in a row, each at the number of the characters before it.
The end token stands behind them exactly if they are the whole text, and otherwise the error is
about the first character that they leave. A reader hands these items out one by one, and nothing
however often it is asked after the last of them. -/
theorem Lexer.tokens_lossless (lexer : Lexer) (source : String) :
    ∃ (pieces : List Token) (final : Except LexError Token),
      lexer.tokens source = pieces.map .ok ++ [final] ∧
      (∀ n, ((lexer.lex source).after n).next.1 = (lexer.tokens source)[n]?) ∧
      (∀ n, pieces.length < n → ((lexer.lex source).after n).next.1 = none) ∧
      (∀ t ∈ pieces, t.value ≠ "") ∧
      spelled pieces <+: source.toList ∧
      (∀ before t after, pieces = before ++ t :: after → t.position = (spelled before).length) ∧
      ((∃ t, final = .ok t) ↔ spelled pieces = source.toList) ∧
      (∀ t, final = .ok t → t = ⟨"$", "", source.length⟩) ∧
      ∀ e, final = .error e → e.position = (spelled pieces).length ∧
        source.toList[e.position]? = some e.found ∧ e.input = source := by
  obtain ⟨pieces, final, tokens, cuts⟩ := lexer.cuts_tokens source
  obtain ⟨behind, whole, last⟩ := cuts.left
  rw [Nat.zero_add] at last
  have nothing : ∀ n, pieces.length < n → ((lexer.lex source).after n).next.1 = none := by
    intro n behind
    rw [Tokens.next_after_lex, tokens]
    refine List.getElem?_eq_none ?_
    rw [List.length_append, List.length_map]
    exact behind
  have placed : ∀ before t after, pieces = before ++ t :: after →
      t.position = (spelled before).length := fun before t after split => by
    simpa using cuts.placed split
  refine ⟨pieces, final, tokens, Tokens.next_after_lex lexer source, nothing, cuts.filled,
    ⟨behind, whole.symm⟩, placed, ?_⟩
  rcases last with ⟨rfl, rfl⟩ | ⟨c, more, rfl, rfl⟩
  · rw [List.append_nil] at whole
    refine ⟨⟨fun _ => whole.symm, fun _ => ⟨_, rfl⟩⟩, ?_, by simp⟩
    intro t he
    cases he
    rw [← whole, String.length_toList]
    rfl
  · refine ⟨⟨by simp, fun all => ?_⟩, by simp, ?_⟩
    · rw [all] at whole
      simp at whole
    · intro e he
      cases he
      refine ⟨rfl, ?_, rfl⟩
      rw [whole]
      simp

end ShiftFirst
