import ShiftFirst.Proofs.CommandLine.Rows
import ShiftFirst.Proofs.Formula.Messages

namespace ShiftFirst.CommandLine

open Text (Visible isHidden)

section Row

variable {text shown : String}

/-- A row is a value, or the text itself in front of a message, and nothing but this text has
characters that are hidden, apart from the tab before the message. -/
theorem row_cases (h : row text = some shown) :
    (∃ v, Formula.shared.eval? text = .ok v ∧ shown = v.display ∧ Visible v.display) ∨
      ∃ e, Formula.shared.eval? text = .error e ∧
        shown = "=" ++ text ++ ("\t# " ++ e.message) ∧ Visible e.message := by
  have filled : Formula.isBlank text = false := by
    refine Bool.eq_false_iff.mpr fun blank => ?_
    rw [row_of_blank blank] at h
    cases h
  cases answer : Formula.shared.eval? text with
  | ok v =>
    rw [row_of_ok filled answer] at h
    cases h
    rw [Formula.eval?] at answer
    exact Or.inl ⟨v, rfl, rfl, Formula.visible_value Formula.shared_new answer⟩
  | error e =>
    rw [row_of_error filled answer, String.append_assoc] at h
    cases h
    rw [Formula.eval?] at answer
    exact Or.inr ⟨e, rfl, rfl, Formula.visible_error Formula.shared_new answer⟩

/-- A row has line feeds only where its text has them, and no carriage return at its end. -/
theorem row_whole (h : row text = some shown) (whole : '\n' ∉ text.toList) :
    '\n' ∉ shown.toList ∧ shown.toList.getLast? ≠ some '\r' := by
  have feed : isHidden '\n' = true := by decide
  have ret : isHidden '\r' = true := by decide
  rcases row_cases h with ⟨v, _, rfl, seen⟩ | ⟨e, _, rfl, seen⟩
  · constructor
    · intro mem
      exact absurd (seen '\n' mem) (by simp [feed])
    · intro last
      exact absurd (seen '\r' (List.mem_of_getLast? last)) (by simp [ret])
  · constructor
    · have apart : '\n' ∉ e.message.toList := by
        intro mem
        exact absurd (seen '\n' mem) (by simp [feed])
      simp [whole, apart]
    · -- The text may end in a carriage return, but there is always something behind it.
      have behind : ("\t# " ++ e.message).toList ≠ [] := by simp
      intro last
      rw [String.toList_append, List.getLast?_append_of_ne_nil _ behind] at last
      have mem := List.mem_of_getLast? last
      rw [String.toList_append] at mem
      rcases List.mem_append.mp mem with mem | mem
      · exact absurd mem (by decide)
      · exact absurd (seen '\r' mem) (by simp [ret])

end Row

theorem count_printed {texts : List String} (whole : ∀ text ∈ texts, '\n' ∉ text.toList) :
    (printed texts).toList.count '\n' = texts.length := by
  induction texts with
  | nil => simp [printed]
  | cons text texts ih =>
    obtain ⟨here, there⟩ := List.forall_mem_cons.mp whole
    rw [toList_printed_cons, List.count_append, List.count_cons_self, ih there,
      List.count_eq_zero.mpr here, List.length_cons]
    omega

theorem length_rows (texts : List String) :
    (texts.filterMap row).length = texts.countP fun text => !Formula.isBlank text := by
  rw [List.length_filterMap_eq_countP]
  refine List.countP_congr fun text _ => ?_
  rw [Option.isSome_iff_ne_none, ne_eq, row_eq_none_iff, Bool.not_eq_true, Bool.not_eq_true']

/-- A run over the lines of the standard input that is not strict ends well. It prints a line for
each one that is not blank, in order, and none for the others: the value, which has no hidden
character, or else the line itself and, behind a tab, a message without hidden characters. -/
theorem lenient_line_for_line {arguments : List String} {options : Options}
    (asked : request {} arguments = .ok (.evaluate options)) (none : options.formulas = [])
    (lenient : options.strict = false) {input : List UInt8} {text : String}
    (valid : decode input = some text) :
    run arguments input =
        { code := 0
          output := printed ((textLines text).filterMap row)
          errors := options.traces (textLines text) } ∧
      textLines (run arguments input).output = (textLines text).filterMap row ∧
      (run arguments input).output.toList.count '\n' =
        (textLines text).countP (fun line => !Formula.isBlank line) ∧
      ∀ line ∈ textLines text,
        (row line = .none ↔ Formula.isBlank line) ∧
        ∀ shown, row line = some shown → '\n' ∉ shown.toList ∧
          ((∃ v, Formula.shared.eval? line = .ok v ∧ shown = v.display ∧ Visible v.display) ∨
            ∃ e, Formula.shared.eval? line = .error e ∧
              shown = "=" ++ line ++ ("\t# " ++ e.message) ∧ Visible e.message) := by
  have goes : run arguments input =
      { output := printed ((textLines text).filterMap row)
        errors := options.traces (textLines text) } := by
    rw [run, asked]
    refine (Gives.lines none valid).goes fun line _ => ?_
    rw [lenient]
    exact evaluate_lenient options.same_evaluator line
  have rows : ∀ shown ∈ (textLines text).filterMap row,
      '\n' ∉ shown.toList ∧ shown.toList.getLast? ≠ some '\r' := by
    intro shown mem
    obtain ⟨line, inside, shows⟩ := List.mem_filterMap.mp mem
    exact row_whole shows (not_mem_of_mem_textLines inside)
  refine ⟨goes, ?_, ?_, fun line mem => ⟨row_eq_none_iff, fun shown shows => ?_⟩⟩
  · rw [goes]
    exact textLines_printed rows
  · rw [goes, count_printed fun shown mem => (rows shown mem).1, length_rows]
  · exact ⟨(row_whole shows (not_mem_of_mem_textLines mem)).1, row_cases shows⟩

/-- A character that no token begins with, blanks, a number too many and a digit that numbers do not
have: three lines of output for four lines of input. -/
theorem lenient_line_for_line_refused :
    request {} [] = .ok (.evaluate {}) ∧
      decode (encode "1 @\n \n1 1\r\n\uff13") = some "1 @\n \n1 1\r\n\uff13" ∧
      textLines "1 @\n \n1 1\r\n\uff13" = ["1 @", " ", "1 1", "\uff13"] ∧
      (run [] (encode "1 @\n \n1 1\r\n\uff13")).code = 0 ∧
      (run [] (encode "1 @\n \n1 1\r\n\uff13")).output.toList.count '\n' = 3 := by
  have asked : request {} [] = .ok (.evaluate {}) := rfl
  have valid : decode (encode "1 @\n \n1 1\r\n\uff13") = some "1 @\n \n1 1\r\n\uff13" :=
    decode_eq_some_iff.mpr rfl
  have lines : textLines "1 @\n \n1 1\r\n\uff13" = ["1 @", " ", "1 1", "\uff13"] := by
    decide +kernel
  obtain ⟨goes, _, count, _⟩ := lenient_line_for_line asked rfl rfl valid
  rw [lines] at count
  exact ⟨asked, valid, lines, congrArg Result.code goes, count.trans (by decide)⟩

end ShiftFirst.CommandLine
