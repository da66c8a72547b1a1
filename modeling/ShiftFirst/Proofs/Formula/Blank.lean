import ShiftFirst.Proofs.Formula.Padding

namespace ShiftFirst.Formula

open Pattern
open Text (blanks)

variable {position : Nat} {text behind : List Char} {pieces : List Token} {source : String}

theorem isBlank_iff : isBlank source ↔ ∀ x ∈ source.toList, Text.isBlank x :=
  List.all_eq_true

/-- Where no piece counts, the pieces spell blanks alone. -/
theorem blank_of_pieces (cut : scanner.Pieces position text pieces behind)
    (none : solid pieces = []) : ∀ x ∈ spelled pieces, Text.isBlank x := by
  induction cut with
  | nil => simp [spelled]
  | @cons position n text behind pieces d selected tail ih =>
    have white : d.name = whitespace := by
      by_contra other
      simp [solid_cons other] at none
    have taken := (taken_of_select selected).2.1
    rw [white] at taken
    have here : ∀ x ∈ text.take n, Text.isBlank x := all_of_several (s := blanks) taken
    have later := ih (by simpa [solid_cons_white white] using none)
    intro x mem
    rw [spelled_cons, String.toList_ofList] at mem
    rcases List.mem_append.mp mem with mem | mem
    · exact here x mem
    · exact later x mem

theorem cell_eq_empty_iff {f : Formula} {log : Log.Filter} :
    (f.cell log source).answer = .empty ↔ isBlank source := by
  rw [answer_cell]
  split
  next blank => simp [blank]
  next filled => cases (f.eval log source).answer <;> simp [filled]

section Evaluator

variable {audience : Audience} {f : Formula} (made : (new audience).answer = .ok f)
include made

/-- Blanks leave the end token alone. -/
theorem tokens_of_blank (blank : isBlank source) :
    f.tokens source = [.ok (.finish source.length)] := by
  have row : solidItems (scanner.itemsFrom source 0 (source.toList ++ [])) =
      solidItems (scanner.itemsFrom source (0 + source.toList.length) []) :=
    solidItems_gap (isBlank_iff.mp blank)
  rw [List.append_nil, Lexer.itemsFrom_nil, Nat.zero_add, String.length_toList] at row
  rw [tokens_eq_solidItems, lexer_eq_scanner made, Lexer.tokens_eq_itemsFrom, row]
  rfl

/-- A text with no item but end tokens is one of blanks: a piece that counts has another name, and
where no piece begins there is an error. -/
theorem blank_of_tokens (ended : ∀ item ∈ f.tokens source, ∃ p, item = .ok (.finish p)) :
    isBlank source := by
  have names : ∀ d ∈ scanner.definitions, d.name ≠ endSymbol := by decide
  rw [tokens_eq_solidItems, lexer_eq_scanner made] at ended
  obtain ⟨pieces, cut | ⟨e, stuck⟩⟩ := scanner.pieces_tokens source
  · rw [cut.tokens, solidItems_append, solidItems_ok] at ended
    have none : solid pieces = [] := by
      refine List.eq_nil_iff_forall_not_mem.mpr fun t mem => ?_
      obtain ⟨p, same⟩ := ended _ (List.mem_append_left _ (List.mem_map_of_mem mem))
      obtain ⟨d, hd, named⟩ := cut.named t (List.mem_of_mem_filter mem)
      have named' : t.name = endSymbol := congrArg Token.name (Except.ok.inj same)
      exact names d hd (named.symm.trans named')
    have spelling := cut.spells
    rw [List.append_nil] at spelling
    rw [isBlank_iff, spelling]
    exact blank_of_pieces cut none
  · rw [stuck, solidItems_append, solidItems_error] at ended
    obtain ⟨p, same⟩ := ended _ (List.mem_append_right _ List.mem_cons_self)
    cases same

/-- A cell is empty exactly if its formula comes to the end token alone. It shows a value or an
error exactly if there is something before the end token, or an error in its place. -/
theorem cell_empty_iff_tokens (log : Log.Filter) (source : String) :
    ((f.cell log source).answer = .empty ↔ f.tokens source = [.ok (.finish source.length)]) ∧
      (((∃ v, (f.cell log source).answer = .value v) ∨
          ∃ display message, (f.cell log source).answer = .invalid display message) ↔
        ∃ item ∈ f.tokens source, ∀ p, item ≠ .ok (.finish p)) := by
  have whole : (f.cell log source).answer = .empty ↔
      ∀ item ∈ f.tokens source, ∃ p, item = .ok (.finish p) := by
    rw [cell_eq_empty_iff]
    constructor
    · intro blank item mem
      rw [tokens_of_blank made blank] at mem
      exact ⟨_, List.mem_singleton.mp mem⟩
    · exact blank_of_tokens made
  constructor
  · constructor
    · intro empty
      exact tokens_of_blank made (cell_eq_empty_iff.mp empty)
    · intro alone
      rw [whole, alone]
      exact fun item mem => ⟨_, List.mem_singleton.mp mem⟩
  · have shown : ((∃ v, (f.cell log source).answer = .value v) ∨
        ∃ display message, (f.cell log source).answer = .invalid display message) ↔
          (f.cell log source).answer ≠ .empty := by
      cases (f.cell log source).answer <;> simp
    rw [shown, ne_eq, whole]
    simp only [not_forall, not_exists, exists_prop]

end Evaluator

set_option maxRecDepth 100000 in
/-- Spaces of all widths are blanks, but a byte order mark is none. -/
theorem cell_empty_iff_tokens_spaces :
    (new {}).answer = .ok shared ∧
      shared.tokens "\t\u2003\u00a0" = [.ok (.finish 3)] ∧
      (shared.cell .off "\t\u2003\u00a0").answer = .empty ∧
      shared.tokens " \ufeff" = [.error ⟨1, '\ufeff', " \ufeff"⟩] ∧
      ((∃ v, (shared.cell .off " \ufeff").answer = .value v) ∨
        ∃ display message, (shared.cell .off " \ufeff").answer = .invalid display message) := by
  have spaces : shared.tokens "\t\u2003\u00a0" = [.ok (.finish 3)] := by
    rw [tokens, lexer_eq_scanner shared_new]
    decide +kernel
  have mark : shared.tokens " \ufeff" = [.error ⟨1, '\ufeff', " \ufeff"⟩] := by
    rw [tokens, lexer_eq_scanner shared_new]
    decide +kernel
  obtain ⟨empty, _⟩ := cell_empty_iff_tokens shared_new .off "\t\u2003\u00a0"
  obtain ⟨_, shows⟩ := cell_empty_iff_tokens shared_new .off " \ufeff"
  refine ⟨shared_new, spaces, empty.mpr spaces, mark, shows.mpr ?_⟩
  exact ⟨_, mark ▸ List.mem_cons_self, fun p same => by cases same⟩

end ShiftFirst.Formula
