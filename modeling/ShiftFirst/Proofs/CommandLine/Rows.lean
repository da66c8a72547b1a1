import ShiftFirst.Proofs.CommandLine.Evaluator

namespace ShiftFirst.CommandLine

section InOrder

variable {α : Type} {run : α → Result} {front back : List α} {a : α}

/-- Runs that all succeed print one after the other. -/
theorem inOrder_of_succeed (succeed : ∀ a ∈ front, (run a).code = 0) :
    inOrder run front =
      { output := String.join (front.map fun a => (run a).output)
        errors := String.join (front.map fun a => (run a).errors) } := by
  induction front with
  | nil => rfl
  | cons a front ih =>
    obtain ⟨here, there⟩ := List.forall_mem_cons.mp succeed
    rw [inOrder, ih there, Result.andThen, if_pos here, List.map_cons, List.map_cons,
      String.join_cons, String.join_cons]

/-- The first run that fails is the last one. -/
theorem inOrder_of_fail (succeed : ∀ a ∈ front, (run a).code = 0) (fail : (run a).code ≠ 0) :
    inOrder run (front ++ a :: back) =
      { code := (run a).code
        output := String.join (front.map fun a => (run a).output) ++ (run a).output
        errors := String.join (front.map fun a => (run a).errors) ++ (run a).errors } := by
  induction front with
  | nil =>
    rw [List.nil_append, inOrder, Result.andThen, if_neg fail]
    simp
  | cons b front ih =>
    obtain ⟨here, there⟩ := List.forall_mem_cons.mp succeed
    rw [List.cons_append, inOrder, ih there, Result.andThen, if_pos here, List.map_cons,
      List.map_cons, String.join_cons, String.join_cons, String.append_assoc, String.append_assoc]

end InOrder

theorem printed_append (texts texts' : List String) :
    printed (texts ++ texts') = printed texts ++ printed texts' := by
  rw [printed, List.map_append, String.join_append, printed, printed]

/-- The line that a run which is not strict prints for a text; it prints none for blanks. -/
def row (text : String) : Option String :=
  match (Formula.shared.cell .off text).answer with
  | .empty => none
  | .value v => some v.display
  | .invalid display message => some (display ++ "\t# " ++ message)

section Row

variable {text : String}

theorem row_of_blank (blank : Formula.isBlank text = true) : row text = none := by
  rw [row, Formula.answer_cell, if_pos blank]

theorem row_of_ok (filled : Formula.isBlank text = false) {v : Value}
    (answer : Formula.shared.eval? text = .ok v) : row text = some v.display := by
  rw [Formula.eval?] at answer
  rw [row, Formula.answer_cell, filled, if_neg Bool.false_ne_true, answer]

theorem row_of_error (filled : Formula.isBlank text = false) {e : FormulaError}
    (answer : Formula.shared.eval? text = .error e) :
    row text = some ("=" ++ text ++ "\t# " ++ e.message) := by
  rw [Formula.eval?] at answer
  rw [row, Formula.answer_cell, filled, if_neg Bool.false_ne_true, answer]

theorem row_eq_none_iff : row text = none ↔ Formula.isBlank text = true := by
  cases blank : Formula.isBlank text with
  | true => simp [row_of_blank blank]
  | false =>
    cases answer : Formula.shared.eval? text with
    | ok v => simp [row_of_ok blank answer]
    | error e => simp [row_of_error blank answer]

end Row

/-- What the listeners of an evaluator hear of a text. -/
def traced (f : Formula) (text : String) : String := printed ((f.cell .off text).heard.map (·.2))

theorem evaluate_lenient {f : Formula} (same : f.Same Formula.shared) (text : String) :
    evaluate f false text = { output := printed (row text).toList, errors := traced f text } := by
  unfold evaluate row traced
  rw [if_neg Bool.false_ne_true]
  dsimp only
  rw [same.cell]
  generalize (Formula.shared.cell .off text).answer = shown
  cases shown <;> rfl

theorem printed_rows (texts : List String) :
    String.join (texts.map fun text => printed (row text).toList) =
      printed (texts.filterMap row) := by
  induction texts with
  | nil => rfl
  | cons text texts ih =>
    rw [List.map_cons, String.join_cons, ih, ← printed_append]
    cases hr : row text <;> simp [hr]

section Each

variable {f : Formula} {strict : Bool} {texts : List String}
  (each : ∀ text ∈ texts, evaluate f strict text =
    { output := printed (row text).toList, errors := traced f text })
include each

theorem code_of_rows : ∀ text ∈ texts, (evaluate f strict text).code = 0 := by
  intro text mem
  rw [each text mem]

/-- Texts of which each leaves its row leave their rows, one on a line. -/
theorem output_of_rows :
    String.join (texts.map fun text => (evaluate f strict text).output) =
      printed (texts.filterMap row) := by
  rw [← printed_rows]
  exact congrArg String.join (List.map_congr_left fun text mem =>
    congrArg Result.output (each text mem))

theorem errors_of_rows :
    texts.map (fun text => (evaluate f strict text).errors) = texts.map (traced f) :=
  List.map_congr_left fun text mem => congrArg Result.errors (each text mem)

end Each

/-- What a run prints as errors about its evaluator and, where it traces them, about texts. -/
def Options.traces (options : Options) (texts : List String) : String :=
  options.preamble ++ String.join (texts.map (traced options.evaluator))

/-- A run over texts of each of which it prints the line and the trace goes on to the end. -/
theorem Gives.goes {options : Options} {input : List UInt8} {texts : List String}
    (given : Gives options input texts)
    (each : ∀ text ∈ texts, evaluate options.evaluator options.strict text =
      { output := printed (row text).toList, errors := traced options.evaluator text }) :
    CommandLine.evaluateAll options input =
      { output := printed (texts.filterMap row), errors := options.traces texts } := by
  rw [given.evaluateAll, inOrder_of_succeed (code_of_rows each), output_of_rows each,
    errors_of_rows each, Result.andThen, if_pos rfl]
  simp only [String.empty_append, Options.traces]

end ShiftFirst.CommandLine
