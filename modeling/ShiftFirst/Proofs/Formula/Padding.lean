import ShiftFirst.Proofs.Formula.Evaluation
import ShiftFirst.Proofs.Formula.Spacing
import ShiftFirst.Proofs.Lexer.Boundary
import ShiftFirst.Proofs.Parser.Termination

namespace ShiftFirst

/-- An error about another place, or about another text. -/
def FormulaError.relocate (μ : Nat → Nat) (source : String) : FormulaError → FormulaError
  | .lex e => .lex (e.relocate μ source)
  | .parse e => .parse (e.relocate μ)
  | .grammar e => .grammar e
  | .definition e => .definition e

theorem FormulaError.relocate_ofFailure (μ : Nat → Nat) (source : String)
    (failure : Failure LexError) :
    (ofFailure failure).relocate μ source =
      ofFailure (failure.relocate μ (LexError.relocate μ source)) := by
  cases failure <;> rfl

namespace Formula

open Pattern
open Text (CharSet digits blanks)

/-- The items of a stream without the tokens between the others. -/
def solidItems (items : List (Except LexError Token)) : List (Except LexError Token) :=
  items.filter (Parser.counts [whitespace])

theorem solidItems_append (items items' : List (Except LexError Token)) :
    solidItems (items ++ items') = solidItems items ++ solidItems items' :=
  List.filter_append _ _

theorem solidItems_ok (pieces : List Token) :
    solidItems (pieces.map .ok) = (solid pieces).map .ok := by
  rw [solidItems, solid, List.filter_map]
  refine congrArg (List.map _) (List.filter_congr fun t _ => ?_)
  simp [Parser.counts]

theorem solidItems_error (e : LexError) : solidItems [.error e] = [.error e] := rfl

theorem tokens_eq_solidItems (f : Formula) (source : String) :
    f.tokens source = solidItems (f.lexer.tokens source) := by
  refine List.filter_congr fun item _ => ?_
  cases item <;> simp [Parser.counts]

section Gap

variable {source value : String} {position n : Nat} {gap text rest mid : List Char}
  {pieces : List Token} {name : Symbol} {x : Char}

theorem solid_cons (other : name ≠ whitespace) :
    solid (⟨name, value, position⟩ :: pieces) = ⟨name, value, position⟩ :: solid pieces :=
  List.filter_cons_of_pos (decide_eq_true other)

theorem solid_cons_white (white : name = whitespace) :
    solid (⟨name, value, position⟩ :: pieces) = solid pieces :=
  List.filter_cons_of_neg (by simpa using white)

/-- A blank behind a text is nothing to the tokens that are no blanks. -/
theorem stable_taken? (mem : name ∈ scanner.definitions.map TokenDefinition.name)
    (other : name ≠ whitespace) (blank : Text.isBlank x) : Stable x (taken? name) := by
  by_cases number : name = "number"
  · obtain ⟨digit, point⟩ := avoids_of_blank blank
    have same : taken? name = numeralLength? := funext fun _ => if_pos number
    rw [same]
    exact stable_numeral digit point
  · have printed : ∀ name ∈ scanner.definitions.map TokenDefinition.name,
        name.toList.all fun c => !Text.isBlank c := by decide
    have same : taken? name = wordLength? name.toList := funext fun _ =>
      (if_neg number).trans (if_neg other)
    rw [same]
    refine stable_word fun inside => ?_
    have visible := List.all_eq_true.mp (printed name mem) x inside
    rw [blank] at visible
    cases visible

/-- A row of blanks up to its end is cut off as a whole. -/
theorem solidItems_row (blank : ∀ x ∈ gap, Text.isBlank x) (ends : Avoids blanks text) :
    solidItems (scanner.itemsFrom source position (gap ++ text)) =
      solidItems (scanner.itemsFrom source (position + gap.length) text) := by
  obtain ⟨pieces, cut, none⟩ := scans_gap blank ends position
  have spelling : gap = spelled pieces := List.append_cancel_right cut.spells
  rw [cut.itemsFrom source, solidItems_append, solidItems_ok, List.map_eq_nil_iff.mp none,
    spelling]
  rfl

/-- Blanks come to nothing, whatever comes behind them. -/
theorem solidItems_gap (blank : ∀ x ∈ gap, Text.isBlank x) :
    solidItems (scanner.itemsFrom source position (gap ++ text)) =
      solidItems (scanner.itemsFrom source (position + gap.length) text) := by
  -- The blanks make one row with those that the text begins with.
  let lead := text.takeWhile blanks.contains
  let rest := text.dropWhile blanks.contains
  have split : lead ++ rest = text := List.takeWhile_append_dropWhile
  have inside : ∀ x ∈ lead, Text.isBlank x := fun x mem => List.mem_takeWhile_imp mem
  have ends : Avoids blanks rest := by
    intro x first
    have outside := List.head?_dropWhile_not blanks.contains text
    rw [Option.mem_def.mp first] at outside
    exact outside
  have both : ∀ x ∈ gap ++ lead, Text.isBlank x := by
    intro x mem
    exact (List.mem_append.mp mem).elim (blank x) (inside x)
  rw [← split, ← List.append_assoc, solidItems_row both ends, solidItems_row inside ends,
    List.length_append, Nat.add_assoc]

/-- A token that is no blank is the same with a blank anywhere behind it. -/
theorem taken?_gap (named : name ∈ scanner.definitions.map TokenDefinition.name)
    (other : name ≠ whitespace) (taken : taken? name (text ++ (mid ++ rest)) = some text.length)
    (blank : Text.isBlank x) (more : List Char) :
    taken? name (text ++ (mid ++ x :: more)) = some text.length := by
  have short := local_taken? name _ _ (text ++ mid).length taken (by simp)
  rw [← List.append_assoc, List.take_left] at short
  rw [← List.append_assoc, (stable_taken? named other blank).append, short]

theorem solidItems_token (source : String) (position : Nat)
    (named : name ∈ scanner.definitions.map TokenDefinition.name) (other : name ≠ whitespace)
    (taken : taken? name (text ++ rest) = some text.length) (filled : text ≠ []) :
    solidItems (scanner.itemsFrom source position (text ++ rest)) =
      .ok ⟨name, String.ofList text, position⟩ ::
        solidItems (scanner.itemsFrom source (position + text.length) rest) := by
  have piece := piece_of_taken position named text taken filled
  have length : (spelled [(⟨name, String.ofList text, position⟩ : Token)]).length =
      text.length := by
    simp [spelled]
  rw [piece.itemsFrom source, length, solidItems_append, solidItems_ok, solid_cons other]
  rfl

/-- Blanks behind the tokens of a text are nothing to those that are no blanks themselves. -/
theorem solidItems_pieces (source : String)
    (h : scanner.Pieces position text pieces (mid ++ rest)) (blank : ∀ x ∈ gap, Text.isBlank x) :
    solidItems (scanner.itemsFrom source position (spelled pieces ++ (mid ++ (gap ++ rest)))) =
      (solid pieces).map .ok ++ solidItems (scanner.itemsFrom source
        (position + (spelled pieces).length) (mid ++ (gap ++ rest))) := by
  cases gap with
  | nil =>
    have spells := h.spells
    rw [List.nil_append, ← spells, h.itemsFrom source, solidItems_append, solidItems_ok]
  | cons x gap =>
    generalize behind : mid ++ rest = final at h
    induction h with
    | nil => rfl
    | @cons position n text _ pieces d selected tail ih =>
      subst behind
      obtain ⟨named, taken, pos⟩ := taken_of_select selected
      have within := (Lexer.le_of_select selected).2
      -- The text is the token, the other pieces, and what they leave.
      obtain ⟨front, rfl, whole⟩ : ∃ front, n = front.length ∧
          text = front ++ ((spelled pieces ++ mid) ++ rest) := by
        refine ⟨text.take n, (List.length_take_of_le within).symm, ?_⟩
        rw [List.append_assoc, ← tail.spells, List.take_append_drop]
      have token : text.take front.length = front := by rw [whole, List.take_left]
      rw [Lexer.length_spelled_cons selected, token, spelled_cons, String.toList_ofList,
        List.append_assoc, ← Nat.add_assoc]
      by_cases white : d.name = whitespace
      · have all : ∀ y ∈ front, Text.isBlank y := by
          rw [white] at taken
          have inside := all_of_several (s := blanks) taken
          rwa [token] at inside
        rw [solid_cons_white white, solidItems_gap all, ih rfl]
      · have filled : front ≠ [] := List.length_pos_iff.mp pos
        have taken' := taken?_gap named white (whole ▸ taken) (blank x List.mem_cons_self)
          (gap ++ rest)
        rw [List.append_assoc, ← List.cons_append] at taken'
        rw [solid_cons white, solidItems_token source position named white taken' filled,
          ih rfl]
        rfl

/-- Where no token begins, none begins with blanks behind the text. -/
theorem select_gap {c : Char} (stuck : scanner.select (c :: text) = none)
    (blank : ∀ x ∈ gap, Text.isBlank x) : scanner.select (c :: text ++ gap) = none := by
  cases gap with
  | nil => rwa [List.append_nil]
  | cons x gap =>
    refine Option.eq_none_iff_forall_ne_some.mpr fun ⟨d, n⟩ selected => ?_
    obtain ⟨named, taken, pos⟩ := taken_of_select selected
    -- The token would begin without the blanks too.
    have begins : ∃ n, taken? d.name (c :: text) = some n ∧ 0 < n := by
      by_cases white : d.name = whitespace
      · rw [white] at taken ⊢
        obtain ⟨c', rest, same, inside⟩ := contains_of_several (s := blanks) taken
        cases same
        have some : 0 < many blanks (c :: text) := by
          rw [many, List.takeWhile_cons_of_pos inside]
          exact Nat.succ_pos _
        exact ⟨_, if_neg some.ne', some⟩
      · rw [(stable_taken? named white (blank x List.mem_cons_self)).append] at taken
        exact ⟨n, taken, pos⟩
    obtain ⟨n, taken, pos⟩ := begins
    obtain ⟨d', _, selected⟩ := select_of_taken named taken pos
    cases stuck.symm.trans selected

end Gap

section Insertion

variable {source : String} {p more : Nat} {gap : String} {μ : Nat → Nat} {ν : LexError → LexError}

theorem solidItems_relocate (items : List (Except LexError Token)) :
    solidItems (items.map (relocateItem μ ν)) = (solidItems items).map (relocateItem μ ν) := by
  rw [solidItems, List.filter_map]
  refine congrArg (List.map _) (List.filter_congr fun item _ => ?_)
  exact Parser.counts_relocateItem item

/-- The tokens before a place stay where they are. -/
theorem relocate_before {text behind : List Char} {pieces : List Token}
    (cut : scanner.Pieces 0 text pieces behind) (le : (spelled pieces).length ≤ p) :
    ((solid pieces).map Except.ok).map (relocateItem (makeRoom p more) ν) =
      (solid pieces).map .ok := by
  rw [List.map_map]
  refine List.map_congr_left fun t mem => ?_
  have before := (cut.placed t (List.mem_of_mem_filter mem)).2
  have stays : makeRoom p more t.position = t.position := if_neg (by omega)
  simp only [Function.comp_apply, relocateItem, Token.relocate, stays]

theorem solidItems_insertAt_led (led : scanner.Led source p)
    (blank : ∀ x ∈ gap.toList, Text.isBlank x) (source' : String)
    (inserted : insertAt source p gap = source') :
    solidItems (scanner.tokens source') =
      (solidItems (scanner.tokens source)).map (relocateItem (makeRoom p gap.length)
        (LexError.relocate (makeRoom p gap.length) source')) := by
  obtain ⟨pieces, behind, cut, rfl⟩ := led
  have text : source'.toList = spelled pieces ++ ([] ++ (gap.toList ++ behind)) := by
    rw [← inserted, insertAt, String.toList_ofList, cut.spells, List.take_left, List.drop_left,
      List.nil_append]
  have moves : ∀ n, 0 + (spelled pieces).length ≤ n →
      makeRoom (spelled pieces).length gap.length n = n + gap.toList.length := by
    intro n le
    rw [String.length_toList]
    exact if_pos (by omega)
  have cut' : scanner.Pieces 0 source.toList pieces ([] ++ behind) := cut
  rw [Lexer.tokens_eq_itemsFrom, Lexer.tokens_eq_itemsFrom, text,
    solidItems_pieces source' cut' blank, List.nil_append, solidItems_gap blank,
    cut.itemsFrom source, solidItems_append, solidItems_ok, List.map_append,
    relocate_before cut (Nat.le_refl _), ← solidItems_relocate, Lexer.itemsFrom_relocate moves]

/-- Behind a place where no token begins, there are no more tokens with blanks than without. -/
theorem solidItems_insertAt_end {pieces : List Token} {c : Char} {rest : List Char}
    (cut : scanner.Pieces 0 source.toList pieces (c :: rest))
    (stuck : scanner.select (c :: rest) = none) (blank : ∀ x ∈ gap.toList, Text.isBlank x)
    (source' : String) (inserted : insertAt source source.length gap = source') :
    solidItems (scanner.tokens source') =
      (solidItems (scanner.tokens source)).map (relocateItem (makeRoom source.length gap.length)
        (LexError.relocate (makeRoom source.length gap.length) source')) := by
  have whole : source.toList = spelled pieces ++ (c :: rest) := cut.spells
  have before : (spelled pieces).length < source.length := by
    rw [← String.length_toList, whole, List.length_append, List.length_cons]
    omega
  have stays : makeRoom source.length gap.length (0 + (spelled pieces).length) =
      0 + (spelled pieces).length := if_neg (by omega)
  have text : source'.toList = spelled pieces ++ ((c :: rest) ++ (gap.toList ++ [])) := by
    rw [← inserted, insertAt, String.toList_ofList, ← String.length_toList, List.take_length,
      List.drop_length, whole, List.append_assoc]
  have cut' : scanner.Pieces 0 source.toList pieces ((c :: rest) ++ []) := by
    rwa [List.append_nil]
  have padded := solidItems_pieces source' cut' blank
  have stuck' : scanner.select (c :: (rest ++ gap.toList)) = none := select_gap stuck blank
  rw [List.append_nil] at padded text
  rw [Lexer.tokens_eq_itemsFrom, Lexer.tokens_eq_itemsFrom, text, padded, cut.itemsFrom source,
    solidItems_append, solidItems_ok, List.map_append, relocate_before cut before.le,
    List.cons_append, Lexer.itemsFrom_stuck stuck, Lexer.itemsFrom_stuck stuck', solidItems_error,
    solidItems_error, List.map_singleton, relocateItem, LexError.relocate, stays]

theorem solidItems_insertAt (boundary : scanner.Boundary source p)
    (blank : ∀ x ∈ gap.toList, Text.isBlank x) :
    solidItems (scanner.tokens (insertAt source p gap)) =
      (solidItems (scanner.tokens source)).map (relocateItem (makeRoom p gap.length)
        (LexError.relocate (makeRoom p gap.length) (insertAt source p gap))) := by
  rcases boundary.led with led | ⟨rfl, pieces, c, rest, cut, stuck⟩
  · exact solidItems_insertAt_led led blank _ rfl
  · exact solidItems_insertAt_end cut stuck blank _ rfl

end Insertion

variable {audience : Audience} {f : Formula}

/-- Whatever budget there is beyond that of a stream, the run over it is the same. -/
theorem run_budget (made : (new audience).answer = .ok f) {stream : List (Except LexError Token)}
    (filled : stream ≠ []) {budget : Nat} (enough : f.budget stream ≤ budget) :
    f.session.parser.run [whitespace] budget stream =
      f.session.parser.run [whitespace] (f.budget stream) stream := by
  obtain ⟨same, built⟩ := Parser.ofRules_ok_iff.mp (new_answer audience made).2
  have ranked := ranked_rules same
  obtain ⟨ending, _, free⟩ := Parser.exists_free_ending built ranked [whitespace] stream
  have some := List.length_pos_iff.mpr filled
  have ample : (2 * 5 + 1) * stream.length < f.budget stream := by
    rw [Formula.budget, same]
    exact Nat.mul_lt_mul_of_pos_right (by decide) some
  rw [free _ ample, free _ (Nat.lt_of_lt_of_le ample enough)]

/-- Where the items that count are the same but for their places, so is the value of a formula, or
its error. -/
theorem eval_relocate (made : (new audience).answer = .ok f) {source source' : String}
    {μ : Nat → Nat} (same : solidItems (scanner.tokens source') =
      (solidItems (scanner.tokens source)).map (relocateItem μ (LexError.relocate μ source')))
    (log : Log.Filter) :
    (f.eval log source').answer = (f.eval log source).answer.mapError (.relocate μ source') := by
  obtain ⟨_, built⟩ := Parser.ofRules_ok_iff.mp (new_answer audience made).2
  have filled : ∀ source, scanner.tokens source ≠ [] := by
    intro source
    obtain ⟨items, final, tokens, _⟩ := scanner.tokens_ended source
    rw [tokens]
    exact List.append_ne_nil_of_right_ne_nil _ (List.cons_ne_nil _ _)
  let budget := max (f.budget (scanner.tokens source)) (f.budget (scanner.tokens source'))
  have outcome := (Parser.Mimics.refl f.session.parser).run built (fun _ => rfl) [whitespace]
    [whitespace] budget same
  rw [run_budget made (filled source) (Nat.le_max_left _ _),
    run_budget made (filled source') (Nat.le_max_right _ _)] at outcome
  rw [answer_eval, answer_eval, lexer_eq_scanner made, Ending.value, Ending.value, outcome]
  cases (f.session.parser.run [whitespace] (f.budget (scanner.tokens source))
    (scanner.tokens source)).outcome with
  | ok result => rfl
  | error failure =>
    exact congrArg Except.error (FormulaError.relocate_ofFailure μ source' failure).symm

/-- Blanks between the tokens of a formula mean nothing: with some at a boundary there are the same
tokens, those behind it further on, and the same error at the end; and the formula has the same
value, or the same error, further on too if it is about something behind them. -/
theorem whitespace_irrelevant (made : (new audience).answer = .ok f) {source : String} {p : Nat}
    (boundary : f.lexer.Boundary source p) {gap : String}
    (blank : ∀ x ∈ gap.toList, Text.isBlank x) :
    f.tokens (insertAt source p gap) =
        (f.tokens source).map (relocateItem (makeRoom p gap.length)
          (LexError.relocate (makeRoom p gap.length) (insertAt source p gap))) ∧
      ∀ log, (f.eval log (insertAt source p gap)).answer =
        (f.eval log source).answer.mapError
          (.relocate (makeRoom p gap.length) (insertAt source p gap)) := by
  rw [lexer_eq_scanner made] at boundary
  have same := solidItems_insertAt boundary blank
  rw [tokens_eq_solidItems, tokens_eq_solidItems, lexer_eq_scanner made]
  exact ⟨same, eval_relocate made same⟩

set_option maxRecDepth 100000 in
theorem whitespace_irrelevant_behind_point :
    shared.lexer.Boundary "1. 2 #" 2 ∧ (∀ x ∈ "\t\u00a0".toList, Text.isBlank x) ∧
      shared.tokens "1.\t\u00a0 2 #" =
        [.ok ⟨"number", "1.", 0⟩, .ok ⟨"number", "2", 5⟩, .error ⟨7, '#', "1.\t\u00a0 2 #"⟩] ∧
      ∀ log, (shared.eval log "1.\t\u00a0 2 #").answer =
        (shared.eval log "1. 2 #").answer.mapError (.relocate (makeRoom 2 2) "1.\t\u00a0 2 #") := by
  have all : "\t\u00a0".toList.all Text.isBlank := by decide
  have blank : ∀ x ∈ "\t\u00a0".toList, Text.isBlank x := List.all_eq_true.mp all
  have boundary : shared.lexer.Boundary "1. 2 #" 2 := by
    rw [lexer_eq_scanner shared_new]
    have mem : .ok ⟨"number", "1.", 0⟩ ∈ scanner.tokens "1. 2 #" := by decide +kernel
    exact .behind mem
  have inserted : insertAt "1. 2 #" 2 "\t\u00a0" = "1.\t\u00a0 2 #" := by decide +kernel
  obtain ⟨tokens, eval⟩ := whitespace_irrelevant shared_new boundary blank
  rw [inserted] at tokens eval
  refine ⟨boundary, blank, tokens.trans ?_, eval⟩
  rw [tokens_eq_solidItems, lexer_eq_scanner shared_new]
  decide +kernel

end Formula

end ShiftFirst
