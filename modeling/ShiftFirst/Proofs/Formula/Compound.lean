import ShiftFirst.Proofs.Formula.Outline
import ShiftFirst.Proofs.Formula.Spacing

namespace ShiftFirst.Formula

variable {level operand : Level} {rest tokens tokens' : List Token} {t : Token} {x y : Binary64}
  {a b : Bool} {v w : Value} {keys keys' : List (Symbol × String)}

/-- What an operation on numbers makes of two values. -/
def onNumbers (op : Binary64 → Binary64 → Binary64) : Value → Value → Option Value
  | .number x, .number y => some (.number (op x y))
  | _, _ => none

/-- What an operation on truth values makes of two values. -/
def onBooleans (op : Bool → Bool → Bool) : Value → Value → Option Value
  | .boolean a, .boolean b => some (.boolean (op a b))
  | _, _ => none

def compared (v w : Value) : Option Value :=
  if v.kind = w.kind then some (.boolean (v.equals w)) else none

/-- The operators between two operands, with what they make of values. -/
def operators : List (Symbol × (Value → Value → Option Value)) := [
  ("+", onNumbers .add), ("-", onNumbers .sub), ("*", onNumbers .mul), ("/", onNumbers .div),
  ("^", onNumbers .pow), ("and", onBooleans and), ("or", onBooleans or), ("=", compared)]

def negated : Value → Option Value
  | .number x => some (.number x.neg)
  | _ => none

def denied : Value → Option Value
  | .boolean b => some (.boolean !b)
  | _ => none

/-- The answer is the value that there is, or that some token is out of place. -/
def Gives (answer : Except FormulaError Value) : Option Value → Prop
  | some v => answer = .ok v
  | none => ∃ name value position expected,
      answer = .error (.parse (.unexpectedToken name value position expected))

/-- A token that spells its name. -/
def bare (name : Symbol) : Token := ⟨name, name, 0⟩

/-- The tokens between parentheses. -/
def parens (tokens : List Token) : List Token := bare "(" :: (tokens ++ [bare ")"])

theorem parens_append : parens tokens ++ rest = bare "(" :: (tokens ++ bare ")" :: rest) := by
  simp [parens]

theorem closes_bare (rest : List Token) : Closes (bare ")" :: rest) := ⟨_, _, rfl, Or.inl rfl⟩

/-- The literal of the kind of a value. -/
def literalOf : Value → Symbol
  | .number _ => "number"
  | _ => "true"

namespace Stands

theorem computes (h : Stands (tokens.map key) (.number x)) (rest : List Token) :
    Computes .value (parens tokens ++ rest) rest x := by
  rw [parens_append]
  cases h with
  | number part => exact .enclosed rfl (part tokens _ rfl (closes_bare rest)) rfl

theorem reads (h : Stands (tokens.map key) (.boolean b)) (rest : List Token) :
    Reads Full .primary (parens tokens ++ rest) rest b := by
  rw [parens_append]
  cases h with
  | boolean part => exact .enclosed rfl (part tokens _ rfl (closes_bare rest)) rfl

theorem sort_eq (h : Stands (tokens.map key) v) : sort tokens = literalOf v := by
  have closes := closes_finish 0
  cases h with
  | number part => exact sort_of_number (part tokens _ rfl closes)
  | boolean part => exact sort_of_boolean (part tokens _ rfl closes)

theorem outline (h : Stands (tokens.map key) v) : Outline (parens tokens) [literalOf v] := by
  rw [← h.sort_eq]
  have closes := closes_bare []
  cases h with
  | number part => exact .group rfl (part tokens _ rfl closes).balanced rfl .nil
  | boolean part => exact .group rfl (part tokens _ rfl closes).balanced rfl .nil

end Stands

/-- The tokens are a formula of the value that there is, or no formula. -/
def Decides (tokens : List Token) : Option Value → Prop
  | some v => Stands (tokens.map key) v
  | none => ∀ v, ¬ Stands (tokens.map key) v

theorem decides_parens (h : Stands (tokens.map key) v) : Decides (parens tokens) (some v) := by
  cases h with
  | number part =>
    exact .of_computes (.term (.factor (.base (Stands.computes (.number part) _))))
  | boolean part => exact .of_reads (.only (.one (.plain (Stands.reads (.boolean part) _))))

section Accepted

variable {p : Parser Value} (accepted : (Parser.ofRules rules).2 = .ok p)
include accepted

theorem decides_misfit {names : List Symbol} (outline : Outline tokens names)
    (mem : names ∈ misfits) : Decides tokens none :=
  not_stands_of_misfit accepted mem outline

theorem decides_arithmetic {op : Binary64 → Binary64 → Binary64}
    (operator : Operator level t.name operand op) (hv : Stands (tokens.map key) v)
    (hw : Stands (tokens'.map key) w) :
    Decides (parens tokens ++ t :: parens tokens') (onNumbers op v w) := by
  have outline := hv.outline.append (.token operator.outside hw.outline)
  have misfit : ["number", t.name, "true"] ∈ misfits ∧ ["true", t.name, "number"] ∈ misfits ∧
      ["true", t.name, "true"] ∈ misfits := by
    generalize t.name = name at operator
    cases operator <;> decide
  cases hv with
  | number part =>
    cases hw with
    | number part' =>
      have left := Stands.computes (.number part) (t :: (parens tokens' ++ [.finish 0]))
      have right := Stands.computes (.number part') [.finish 0]
      have whole := (left.lift level).chain operator (right.lift operand)
      rw [← List.cons_append, ← List.append_assoc] at whole
      exact .of_computes whole.widen
    | boolean => exact decides_misfit accepted outline misfit.1
  | boolean =>
    cases hw with
    | number => exact decides_misfit accepted outline misfit.2.1
    | boolean => exact decides_misfit accepted outline misfit.2.2

theorem decides_logical {op : Bool → Bool → Bool}
    (joins : ∀ {text text' rest a b}, Reads Full .primary text (t :: text') a →
      Reads Full .primary text' rest b → Reads Full .disjunction text rest (op a b))
    (misfit : ["number", t.name, "true"] ∈ misfits ∧ ["true", t.name, "number"] ∈ misfits ∧
      ["number", t.name, "number"] ∈ misfits)
    (outside : t.name ∉ ["(", ")", endSymbol]) (hv : Stands (tokens.map key) v)
    (hw : Stands (tokens'.map key) w) :
    Decides (parens tokens ++ t :: parens tokens') (onBooleans op v w) := by
  have outline := hv.outline.append (.token outside hw.outline)
  cases hv with
  | number =>
    cases hw with
    | number => exact decides_misfit accepted outline misfit.2.2
    | boolean => exact decides_misfit accepted outline misfit.1
  | boolean part =>
    cases hw with
    | number => exact decides_misfit accepted outline misfit.2.1
    | boolean part' =>
      refine .of_reads ?_
      rw [List.append_assoc, List.cons_append]
      exact joins (Stands.reads (.boolean part) _) (Stands.reads (.boolean part') _)

theorem decides_compared (hv : Stands (tokens.map key) v) (hw : Stands (tokens'.map key) w) :
    Decides (parens tokens ++ bare "=" :: parens tokens') (compared v w) := by
  have outline := hv.outline.append (.token (t := bare "=") (by decide) hw.outline)
  cases hv with
  | number part =>
    cases hw with
    | number part' =>
      refine .of_reads (.only (.one (.plain ?_)))
      rw [List.append_assoc, List.cons_append]
      exact .equation (.lift (Stands.computes (.number part) _) _) rfl
        (.lift (Stands.computes (.number part') _) _)
    | boolean =>
      exact decides_misfit accepted outline (show ["number", "=", "true"] ∈ misfits by decide)
  | boolean part =>
    cases hw with
    | number =>
      exact decides_misfit accepted outline (show ["true", "=", "number"] ∈ misfits by decide)
    | boolean part' =>
      refine .of_reads (.only (.one ?_))
      rw [List.append_assoc, List.cons_append]
      exact .equal (Stands.reads (.boolean part) _) rfl
        (.only (.one (.plain (Stands.reads (.boolean part') _)))) (closes_finish 0)

theorem decides_binary {name : Symbol} {op : Value → Value → Option Value}
    (mem : (name, op) ∈ operators) (hv : Stands (tokens.map key) v)
    (hw : Stands (tokens'.map key) w) :
    Decides (parens tokens ++ bare name :: parens tokens') (op v w) := by
  simp only [operators, List.mem_cons, Prod.mk.injEq, List.not_mem_nil, or_false] at mem
  rcases mem with ⟨rfl, rfl⟩ | ⟨rfl, rfl⟩ | ⟨rfl, rfl⟩ | ⟨rfl, rfl⟩ | ⟨rfl, rfl⟩ | ⟨rfl, rfl⟩ |
    ⟨rfl, rfl⟩ | ⟨rfl, rfl⟩
  · exact decides_arithmetic accepted .plus hv hw
  · exact decides_arithmetic accepted .minus hv hw
  · exact decides_arithmetic accepted .times hv hw
  · exact decides_arithmetic accepted .over hv hw
  · exact decides_arithmetic accepted .power hv hw
  · exact decides_logical accepted (fun left right => .only (.both (.one (.plain left)) rfl
      (.plain right))) (by decide) (by decide) hv hw
  · exact decides_logical accepted (fun left right => .either (.only (.one (.plain left))) rfl
      (.one (.plain right))) (by decide) (by decide) hv hw
  · exact decides_compared accepted hv hw

theorem decides_negated (h : Stands (tokens.map key) v) :
    Decides (bare "-" :: parens tokens) (negated v) := by
  have outline := Outline.token (t := bare "-") (by decide) h.outline
  cases h with
  | number part =>
    have inner := Stands.computes (.number part) [.finish 0]
    exact .of_computes (.term (.factor (.base (.negative rfl inner))))
  | boolean part => exact decides_misfit accepted outline (show ["-", "true"] ∈ misfits by decide)

theorem decides_denied (h : Stands (tokens.map key) v) :
    Decides (bare "not" :: parens tokens) (denied v) := by
  have outline := Outline.token (t := bare "not") (by decide) h.outline
  cases h with
  | number part =>
    exact decides_misfit accepted outline (show ["not", "number"] ∈ misfits by decide)
  | boolean part =>
    have inner := Stands.reads (.boolean part) [.finish 0]
    exact .of_reads (.only (.one (.negation rfl (.plain inner))))

end Accepted

section Source

variable {source : String}

theorem scans_bare {name : Symbol} (mem : name ∈ words) (text : List Char) :
    Scans (name.toList ++ text) [key (bare name)] text :=
  .word mem text

theorem scans_parens {text : List Char} (h : Scans text (tokens.map key) []) (rest : List Char) :
    Scans ("(".toList ++ (text ++ (")".toList ++ rest))) ((parens tokens).map key) rest := by
  have opening : "(" ∈ words := by decide
  have closing : ")" ∈ words := by decide
  have inner := (h.append (x := ')') (by decide) rest).trans (scans_bare closing rest)
  rw [parens, List.map_cons, List.map_append]
  exact (scans_bare opening _).trans inner

theorem spelled_parens (h : ∀ t ∈ tokens, Spelled (key t)) :
    ∀ t ∈ parens tokens, Spelled (key t) := by
  refine List.forall_mem_cons.mpr ⟨spelled_of_name rfl (by decide), ?_⟩
  refine List.forall_mem_append.mpr ⟨h, List.forall_mem_singleton.mpr ?_⟩
  exact spelled_of_name rfl (by decide)

/-- A formula has the value that its tokens stand for, or one of them is out of place. -/
theorem gives_of_decides {audience : Audience} {f : Formula}
    (made : (new audience).answer = .ok f) (log : Log.Filter) {result : Option Value}
    (scans : Scans source.toList (tokens.map key) []) (spelled : ∀ t ∈ tokens, Spelled (key t))
    (decides : Decides tokens result) : Gives (f.eval log source).answer result := by
  cases result with
  | some v => exact eval_of_stands made scans decides log
  | none => exact eval_unexpected made scans (List.forall_mem_map.mpr spelled) decides log

end Source

theorem names_operators : ∀ operator ∈ operators, operator.1 ∈ words ∧ operator.1 ≠ "number" := by
  simp only [operators, List.forall_mem_cons]
  decide

/-- The value of a formula put together from others in parentheses is the one that its operator
makes of their values. Where the operator is not for values of their kinds, some token is out of
place. -/
theorem eval_compositional {audience : Audience} {f : Formula}
    (made : (new audience).answer = .ok f) (log : Log.Filter) {a b : String} {v w : Value}
    (hv : (f.eval log a).answer = .ok v) (hw : (f.eval log b).answer = .ok w) :
    (f.eval log ("(" ++ a ++ ")")).answer = .ok v ∧
      (∀ operator ∈ operators, Gives
        (f.eval log ("(" ++ a ++ ")" ++ operator.1 ++ "(" ++ b ++ ")")).answer
        (operator.2 v w)) ∧
      Gives (f.eval log ("-(" ++ a ++ ")")).answer (negated v) ∧
      Gives (f.eval log ("not (" ++ a ++ ")")).answer (denied v) := by
  obtain ⟨_, accepted⟩ := new_answer audience made
  obtain ⟨keys, scans, stands⟩ := stands_of_eval made hv
  obtain ⟨tokens, rfl⟩ := exists_tokens keys
  obtain ⟨keys', scans', stands'⟩ := stands_of_eval made hw
  obtain ⟨tokens', rfl⟩ := exists_tokens keys'
  have spelled := spelled_parens (List.forall_mem_map.mp stands.spelled)
  have spelled' := spelled_parens (List.forall_mem_map.mp stands'.spelled)
  have front := scans_parens scans
  have back := scans_parens scans' []
  refine ⟨?_, fun operator mem => ?_, ?_, ?_⟩
  · refine gives_of_decides made log ?_ spelled (decides_parens stands)
    simpa using front []
  · obtain ⟨name, op⟩ := operator
    obtain ⟨word, other⟩ := names_operators _ mem
    refine gives_of_decides made log ?_ ?_ (decides_binary accepted mem stands stands')
    · have whole := (front _).trans ((scans_bare word _).trans back)
      simpa using whole
    · refine List.forall_mem_append.mpr ⟨spelled, List.forall_mem_cons.mpr ⟨?_, spelled'⟩⟩
      exact spelled_of_name rfl other
  · refine gives_of_decides made log ?_ ?_ (decides_negated accepted stands)
    · have word : "-" ∈ words := by decide
      have whole := (scans_bare word _).trans (front [])
      simpa using whole
    · exact List.forall_mem_cons.mpr ⟨spelled_of_name rfl (by decide), spelled⟩
  · refine gives_of_decides made log ?_ ?_ (decides_denied accepted stands)
    · have word : "not" ∈ words := by decide
      have blank : ∀ x ∈ [' '], Text.isBlank x := List.forall_mem_singleton.mpr rfl
      have opening : "(" ∈ words ∨ Binary64.IsNumeral "(".toList := Or.inl (by decide)
      have avoids := avoids_append (filled_of_known opening) (avoids_blanks opening)
      have whole := (scans_bare word _).trans ((scans_gap blank (avoids _)).trans (front []))
      simpa using whole
    · exact List.forall_mem_cons.mpr ⟨spelled_of_name rfl (by decide), spelled⟩

theorem eval_compositional_mixed :
    (new {}).answer = .ok shared ∧
      (shared.eval .off "2").answer = .ok (.number ⟨0x4000000000000000⟩) ∧
      (shared.eval .off "true").answer = .ok (.boolean true) ∧
      (shared.eval .off "(2)").answer = .ok (.number ⟨0x4000000000000000⟩) ∧
      (∃ name value position expected, (shared.eval .off "(2)and(true)").answer =
        .error (.parse (.unexpectedToken name value position expected))) ∧
      (shared.eval .off "-(2)").answer = .ok (.number (.neg ⟨0x4000000000000000⟩)) := by
  have spelled : Binary64.read "2" = .ok ⟨0x4000000000000000⟩ := by decide +kernel
  have numeral : Binary64.IsNumeral "2".toList := .digit rfl
  have two : (shared.eval .off "2").answer = .ok (.number ⟨0x4000000000000000⟩) := by
    have ends : ∀ s, Avoids s [] := fun s => by simp [Avoids]
    have scans := scans_number numeral (ends _) (ends _)
    rw [List.append_nil] at scans
    have part : Computes .value [⟨"number", "2", 0⟩, .finish 0] [.finish 0] _ := .number rfl spelled
    have stands : Stands ([⟨"number", "2", 0⟩].map key) _ := .of_computes (part.lift .sum)
    exact eval_of_stands shared_new scans stands .off
  have truth : (shared.eval .off "true").answer = .ok (.boolean true) := by
    have scans := Scans.word (w := "true") (by decide) []
    rw [List.append_nil] at scans
    have part : Reads Full .primary [bare "true", .finish 0] [.finish 0] true := .truth rfl
    have stands : Stands ([bare "true"].map key) _ := .of_reads (.only (.one (.plain part)))
    exact eval_of_stands shared_new scans stands .off
  obtain ⟨enclosed, binary, negative, _⟩ := eval_compositional shared_new .off two truth
  refine ⟨shared_new, two, truth, enclosed, ?_, negative⟩
  exact binary ("and", onBooleans and) (by simp [operators])

end ShiftFirst.Formula
