import ShiftFirst.Proofs.CommandLine.Arguments
import ShiftFirst.Proofs.CommandLine.Evaluator

namespace ShiftFirst.CommandLine

/-- Runs over the same texts come to the same if they have the same switches. -/
theorem evaluateAll_congr {options : Options} {formulas texts : List String}
    {input input' : List UInt8} (given : Gives { options with formulas := formulas } input texts)
    (given' : Gives options input' texts) :
    evaluateAll { options with formulas := formulas } input = evaluateAll options input' := by
  have preamble : Options.preamble { options with formulas := formulas } = options.preamble := rfl
  have evaluator : Options.evaluator { options with formulas := formulas } = options.evaluator :=
    rfl
  rw [given.evaluateAll, given'.evaluateAll, preamble, evaluator]

/-- Texts behind switches and two hyphens come to the same as the texts on the lines of the standard
input, each with a line feed behind it, and the switches alone. -/
theorem arguments_eq_lines {flags texts : List String}
    (only : ∀ flag ∈ flags, flag ≠ "--" ∧ switches flag ≠ []) (filled : texts ≠ [])
    (whole : ∀ text ∈ texts, '\n' ∉ text.toList ∧ text.toList.getLast? ≠ some '\r')
    (input : List UInt8) :
    run (flags ++ "--" :: texts) input = run flags (encode (printed texts)) := by
  obtain ⟨added, kept⟩ := @request_dashes {} flags only texts
  rw [run, run, added]
  cases asked : request {} flags with
  | error e => rfl
  | ok early =>
    cases early with
    | version => rfl
    | help => rfl
    | evaluate options =>
      have none : options.formulas = [] := kept options asked
      have here : Gives { options with formulas := texts } input texts := .arguments filled input
      have there : Gives options (encode (printed texts)) texts := by
        have lines := Gives.lines none (decode_eq_some_iff.mpr (Eq.refl (encode (printed texts))))
        rwa [textLines_printed whole] at lines
      dsimp only [Except.map, Request.add]
      rw [none, List.nil_append]
      exact evaluateAll_congr here there

/-- An empty text, a number that looks like a switch and a carriage return inside. -/
theorem arguments_eq_lines_strict :
    (∀ flag ∈ ["--strict", "--trace-parse"], flag ≠ "--" ∧ switches flag ≠ []) ∧
      (∀ text ∈ ["", "-1", "1\r+2"], '\n' ∉ text.toList ∧ text.toList.getLast? ≠ some '\r') ∧
      printed ["", "-1", "1\r+2"] = "\n-1\n1\r+2\n" ∧
      run ["--strict", "--trace-parse", "--", "", "-1", "1\r+2"] [] =
        run ["--strict", "--trace-parse"] (encode "\n-1\n1\r+2\n") := by
  have only : ∀ flag ∈ ["--strict", "--trace-parse"], flag ≠ "--" ∧ switches flag ≠ [] := by decide
  have whole : ∀ text ∈ ["", "-1", "1\r+2"],
      '\n' ∉ text.toList ∧ text.toList.getLast? ≠ some '\r' := by decide
  have text : printed ["", "-1", "1\r+2"] = "\n-1\n1\r+2\n" := by decide
  have same := arguments_eq_lines only (by decide) whole []
  rw [text] at same
  exact ⟨only, whole, text, same⟩

end ShiftFirst.CommandLine
