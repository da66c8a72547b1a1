import ShiftFirst.Proofs.Binary64.Text
import ShiftFirst.Proofs.Formula.Evaluation
import ShiftFirst.Proofs.Formula.Spacing

namespace ShiftFirst

namespace Formula

open Text (digits)

theorem stands_numeral {w : String} {x : Binary64} (spelled : Binary64.read w = .ok x) :
    Stands [("number", w)] (.number x) ∧ Stands [("-", "-"), ("number", w)] (.number x.neg) := by
  have part : Computes .value [⟨"number", w, 0⟩, .finish 0] [.finish 0] x := .number rfl spelled
  have negative : Computes .value [⟨"-", "-", 0⟩, ⟨"number", w, 0⟩, .finish 0] [.finish 0] x.neg :=
    .negative rfl part
  exact ⟨@Stands.of_computes [⟨"number", w, 0⟩] _ (part.lift .sum),
    @Stands.of_computes [⟨"-", "-", 0⟩, ⟨"number", w, 0⟩] _ (negative.lift .sum)⟩

/-- A finite number is displayed as a numeral of its magnitude, behind a minus sign if it is
negative, and this is a formula of the number. -/
theorem stands_text {x : Binary64} (number : x.isNaN = false) (finite : x.isInfinite = false) :
    ∃ keys, Scans x.text.toList keys [] ∧ Stands keys (.number x) := by
  obtain ⟨numeral, _⟩ := x.shortest.readDecimal?_text
  have magnitude := Binary64.read_text (Binary64.lt_infiniteMagnitude number finite)
  have text : x.text.toList = (if x.negative then ['-'] else []) ++ x.shortest.text := by
    rw [Binary64.text, number, finite]
    exact String.toList_ofList
  rw [← String.toList_ofList (l := x.shortest.text)] at numeral text
  generalize String.ofList x.shortest.text = w at numeral text magnitude
  obtain ⟨plain, negated⟩ := stands_numeral magnitude
  have avoids : ∀ s, Avoids s [] := fun _ _ none => nomatch none
  have scans := scans_number numeral (avoids _) (avoids _)
  rw [List.append_nil] at scans
  have whole := x.ofMagnitude_magnitude
  rw [text]
  cases sign : x.negative with
  | false =>
    rw [sign] at whole
    exact ⟨_, scans, whole ▸ plain⟩
  | true =>
    rw [Binary64.neg_ofMagnitude x.magnitude_lt, ← sign, whole] at negated
    exact ⟨_, (Scans.word (w := "-") (by decide) _).trans scans, negated⟩

/-- A boolean is displayed as its literal. -/
theorem stands_literal (b : Bool) :
    ∃ keys, Scans (Value.boolean b).display.toList keys [] ∧ Stands keys (.boolean b) := by
  have literal {w : String} (mem : w ∈ words)
      (reads : Reads Full .primary [⟨w, w, 0⟩, .finish 0] [.finish 0] b) :
      ∃ keys, Scans w.toList keys [] ∧ Stands keys (.boolean b) := by
    have scans := Scans.word mem []
    rw [List.append_nil] at scans
    exact ⟨_, scans, @Stands.of_reads [⟨w, w, 0⟩] _ (.only (.one (.plain reads)))⟩
  cases b with
  | false => exact literal (w := "false") (by decide) (.falsehood rfl)
  | true => exact literal (w := "true") (by decide) (.truth rfl)

section Evaluator

variable {audience : Audience} {f : Formula} (made : (new audience).answer = .ok f)
include made

/-- What a value is displayed with is a formula of that value, for both booleans and, down to the
last bit, for every number that is finite, the negative zero among them. -/
theorem displayed_evaluates (log : Log.Filter) :
    (∀ b : Bool, (f.eval log (Value.boolean b).display).answer = .ok (.boolean b)) ∧
      ∀ x : Binary64, x.isNaN = false → x.isInfinite = false →
        (f.eval log (Value.number x).display).answer = .ok (.number x) := by
  constructor
  · intro b
    obtain ⟨keys, scans, stands⟩ := stands_literal b
    exact eval_of_stands made scans stands log
  · intro x number finite
    obtain ⟨keys, scans, stands⟩ := stands_text number finite
    exact eval_of_stands made scans stands log

end Evaluator

set_option maxRecDepth 100000 in
theorem displayed_evaluates_negative :
    (new {}).answer = .ok shared ∧
      (Value.boolean true).display = "true" ∧
      (shared.eval .off "true").answer = .ok (.boolean true) ∧
      (⟨0x8000000000000000⟩ : Binary64).isNaN = false ∧
      (⟨0x8000000000000000⟩ : Binary64).isInfinite = false ∧
      (Value.number ⟨0x8000000000000000⟩).display = "-0" ∧
      (shared.eval .off "-0").answer = .ok (.number ⟨0x8000000000000000⟩) ∧
      (⟨0xbfb999999999999a⟩ : Binary64).isNaN = false ∧
      (⟨0xbfb999999999999a⟩ : Binary64).isInfinite = false ∧
      (Value.number ⟨0xbfb999999999999a⟩).display = "-0.1" ∧
      (shared.eval .off "-0.1").answer = .ok (.number ⟨0xbfb999999999999a⟩) := by
  obtain ⟨booleans, numbers⟩ := displayed_evaluates shared_new .off
  have zero : (Value.number ⟨0x8000000000000000⟩).display = "-0" := by decide +kernel
  have tenth : (Value.number ⟨0xbfb999999999999a⟩).display = "-0.1" := by decide +kernel
  refine ⟨shared_new, rfl, booleans true, by decide, by decide, zero, ?_, by decide, by decide,
    tenth, ?_⟩
  · exact zero ▸ numbers _ (by decide) (by decide)
  · exact tenth ▸ numbers _ (by decide) (by decide)

end Formula

end ShiftFirst
