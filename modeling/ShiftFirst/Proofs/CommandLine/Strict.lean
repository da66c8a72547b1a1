import ShiftFirst.Proofs.CommandLine.Arguments
import ShiftFirst.Proofs.CommandLine.Rows
import ShiftFirst.Proofs.Formula.Display

namespace ShiftFirst.CommandLine

/-- A text with something in it that has no value. -/
def Fails (text : String) : Prop :=
  Formula.isBlank text = false ∧ ∃ e, Formula.shared.eval? text = .error e

section Evaluate

variable {f : Formula} (same : f.Same Formula.shared) {text : String}
include same

theorem evaluate_strict_of_not_fails (sound : ¬ Fails text) :
    evaluate f true text =
      { output := printed (row text).toList, errors := traced f text } := by
  unfold evaluate row traced
  rw [if_pos rfl, Formula.heard_cell, ← same.cell, Formula.answer_cell]
  cases blank : Formula.isBlank text with
  | true => rfl
  | false =>
    have answer : ∃ v, (f.eval .off text).answer = .ok v := by
      cases answer : (f.eval .off text).answer with
      | ok v => exact ⟨v, rfl⟩
      | error e =>
        rw [same.eval, ← Formula.eval?] at answer
        exact absurd ⟨blank, e, answer⟩ sound
    obtain ⟨v, answer⟩ := answer
    simp only [Bool.false_eq_true, if_false, answer]
    rfl

theorem evaluate_strict_of_error (filled : Formula.isBlank text = false) {e : FormulaError}
    (failed : Formula.shared.eval? text = .error e) :
    evaluate f true text =
      { code := 1
        errors := traced f text ++
          report ("invalid formula " ++ Text.quoted text) (causes e) } := by
  rw [Formula.eval?, ← same.eval] at failed
  unfold evaluate traced
  rw [if_pos rfl, filled, if_neg Bool.false_ne_true, Formula.heard_cell, filled,
    if_neg Bool.false_ne_true]
  dsimp only
  rw [failed]

end Evaluate

section Run

variable {options : Options} {input : List UInt8} {texts : List String}

/-- The switches leave the texts of a run as they are. -/
theorem Gives.give (given : Gives options input texts) (s : Switch) :
    Gives (options.give s) input texts := by
  have formulas : (options.give s).formulas = options.formulas := by cases s <;> rfl
  cases given with
  | arguments given =>
    rw [← formulas] at given ⊢
    exact .arguments given input
  | lines none valid => exact .lines (formulas.trans none) valid

theorem Gives.stops {front back : List String} {text : String} {e : FormulaError}
    (given : Gives options input (front ++ text :: back)) (strict : options.strict = true)
    (sound : ∀ t ∈ front, ¬ Fails t) (filled : Formula.isBlank text = false)
    (failed : Formula.shared.eval? text = .error e) :
    CommandLine.evaluateAll options input =
      { code := 1
        output := printed (front.filterMap row)
        errors := options.traces (front ++ [text]) ++
          report ("invalid formula " ++ Text.quoted text) (causes e) } := by
  have same := options.same_evaluator
  have each : ∀ t ∈ front, evaluate options.evaluator true t =
      { output := printed (row t).toList, errors := traced options.evaluator t } :=
    fun t mem => evaluate_strict_of_not_fails same (sound t mem)
  have last := evaluate_strict_of_error same filled failed
  have fail : (evaluate options.evaluator true text).code ≠ 0 := by
    rw [last]
    exact Nat.one_ne_zero
  rw [given.evaluateAll, strict, inOrder_of_fail (code_of_rows each) fail, output_of_rows each,
    errors_of_rows each, last, Result.andThen, if_pos rfl]
  simp only [String.empty_append, String.append_empty, Options.traces, List.map_append,
    String.join_append, List.map_cons, List.map_nil, String.append_assoc]
  simp

end Run

/-- The arguments that ask for a strict run. -/
theorem switches_strict {flag : String} (asks : flag = "--strict" ∨ flag = "-s") :
    switches flag = [some .strict] := by
  rcases asks with rfl | rfl <;> decide

theorem Options.traces_give_strict (options : Options) :
    (options.give .strict).traces = options.traces := rfl

/-- A run that is not strict prints a line for each text that is not blank, and ends well. A strict
run does the same if no text fails. If one does, the first one ends it: it has printed what the
other run prints for the texts before, and neither the output nor the traces have anything of those
behind. -/
theorem strict_stops_at_first_failure {flag : String} (asks : flag = "--strict" ∨ flag = "-s")
    {before after : List String} (read : "--" ∉ before)
    (once : ∀ argument ∈ (before ++ after).takeWhile (· ≠ "--"), some .strict ∉ switches argument)
    {options : Options} (asked : request {} (before ++ after) = .ok (.evaluate options))
    {input : List UInt8} {texts : List String} (given : Gives options input texts) :
    run (before ++ after) input =
        { code := 0
          output := printed (texts.filterMap row)
          errors := options.traces texts } ∧
      ((∀ text ∈ texts, ¬ Fails text) →
        run (before ++ flag :: after) input = run (before ++ after) input) ∧
      ∀ front text back e, texts = front ++ text :: back → (∀ t ∈ front, ¬ Fails t) →
        Formula.isBlank text = false → Formula.shared.eval? text = .error e →
        run (before ++ flag :: after) input =
          { code := 1
            output := printed (front.filterMap row)
            errors := options.traces (front ++ [text]) ++
              report ("invalid formula " ++ Text.quoted text) (causes e) } := by
  have lenient : options.strict = false := has_of_request (s := .strict) once asked
  have inserted : request {} (before ++ flag :: after) =
      (request {} (before ++ after)).map (·.give .strict) :=
    request_insert (switches_strict asks) (by decide) read once rfl
  rw [asked] at inserted
  have here : run (before ++ after) input = evaluateAll options input := by
    rw [run, asked]
  have strict : run (before ++ flag :: after) input = evaluateAll (options.give .strict) input := by
    rw [run, inserted]
    rfl
  have goes : evaluateAll options input =
      { output := printed (texts.filterMap row), errors := options.traces texts } := by
    refine given.goes fun text _ => ?_
    rw [lenient]
    exact evaluate_lenient options.same_evaluator text
  refine ⟨here.trans goes, fun sound => ?_, fun front text back e split sound filled failed => ?_⟩
  · rw [strict, here, goes]
    refine (given.give .strict).goes fun text mem => ?_
    exact evaluate_strict_of_not_fails (options.give .strict).same_evaluator (sound text mem)
  · rw [strict, ← options.traces_give_strict]
    rw [split] at given
    exact (given.give .strict).stops rfl sound filled failed

/-- What stands behind the text that no token begins shows in the lenient run alone. -/
theorem strict_stops_at_first_failure_third :
    request {} ["--", "true", " ", "@", "false"] =
        .ok (.evaluate { formulas := ["true", " ", "@", "false"] }) ∧
      (run ["--", "true", " ", "@", "false"] []).code = 0 ∧
      (∃ message, (run ["--", "true", " ", "@", "false"] []).output =
        printed ["true", "=@\t# " ++ message, "false"]) ∧
      (run ["-s", "--", "true", " ", "@", "false"] []).code = 1 ∧
      (run ["-s", "--", "true", " ", "@", "false"] []).output = "true\n" := by
  have asked : request {} ["--", "true", " ", "@", "false"] =
      .ok (.evaluate { formulas := ["true", " ", "@", "false"] }) := by decide
  have read : "--" ∉ ([] : List String) := List.not_mem_nil
  have once : ∀ argument ∈ (["--", "true", " ", "@", "false"] : List String).takeWhile (· ≠ "--"),
      some .strict ∉ switches argument := by decide
  have literal : ∀ b, Formula.shared.eval? (Value.boolean b).display = .ok (.boolean b) := by
    intro b
    obtain ⟨keys, scans, stands⟩ := Formula.stands_literal b
    rw [Formula.eval?]
    exact Formula.eval_of_stands Formula.shared_new scans stands .off
  have truth : Formula.shared.eval? "true" = .ok (.boolean true) := literal true
  have falsehood : Formula.shared.eval? "false" = .ok (.boolean false) := literal false
  have stuck : Formula.scanner.tokens "@" = ([] : List Token).map .ok ++ [.error ⟨0, '@', "@"⟩] := by
    decide +kernel
  obtain ⟨e, failed⟩ : ∃ e, Formula.shared.eval? "@" = .error e := by
    cases answer : Formula.shared.eval? "@" with
    | ok v =>
      rw [Formula.eval?] at answer
      exact absurd answer (Formula.eval_ne_ok_of_stuck Formula.shared_new stuck .off v)
    | error e => exact ⟨e, rfl⟩
  have sound : ∀ text ∈ ["true", " "], ¬ Fails text := by
    intro text mem
    rcases List.mem_pair.mp mem with rfl | rfl
    · rintro ⟨_, e, other⟩
      cases truth.symm.trans other
    · rintro ⟨filled, _⟩
      exact absurd filled (by decide)
  have first : row "true" = some "true" := row_of_ok (by decide) truth
  have second : row " " = none := row_of_blank (by decide)
  have third : row "@" = some ("=@\t# " ++ e.message) := row_of_error (by decide) failed
  have last : row "false" = some "false" := row_of_ok (by decide) falsehood
  have all : ["true", " ", "@", "false"].filterMap row =
      ["true", "=@\t# " ++ e.message, "false"] := by
    simp [first, second, third, last]
  have front : ["true", " "].filterMap row = ["true"] := by simp [first, second]
  obtain ⟨lenient, _, stops⟩ :=
    strict_stops_at_first_failure (Or.inr rfl) read once asked (.arguments (by decide) [])
  have strict := stops ["true", " "] "@" ["false"] _ rfl sound (by decide) failed
  rw [all] at lenient
  rw [front] at strict
  have line : printed ["true"] = "true\n" := by decide
  exact ⟨asked, congrArg Result.code lenient, ⟨e.message, congrArg Result.output lenient⟩,
    congrArg Result.code strict, (congrArg Result.output strict).trans line⟩

end ShiftFirst.CommandLine
