import ShiftFirst.Proofs.Formula.Evaluation

namespace ShiftFirst.Formula

variable {level : Level} {clause : Clause} {text text' rest tokens tokens' : List Token}
  {names names' : List Symbol} {t u : Token} {x : Binary64} {b : Bool} {v : Value}

namespace Balanced

theorem change (h : Balanced (tokens ++ rest) rest) (rest' : List Token) :
    Balanced (tokens ++ rest') rest' := by
  obtain ⟨tokens', text, level, above⟩ := h
  obtain rfl := List.append_cancel_right text
  exact ⟨tokens, rfl, level, above⟩

/-- There is only one token that closes the parenthesis before a text. -/
theorem unique (h : Balanced text rest) (closes : Closes rest) (h' : Balanced text text')
    (closes' : Closes text') : rest = text' := by
  have shorter := h.length_le_of_closes closes h'
  have length := Nat.le_antisymm shorter (h'.length_le_of_closes closes' h)
  obtain ⟨tokens, rfl, _⟩ := h
  obtain ⟨tokens', text, _⟩ := h'
  exact (List.append_inj' text length).2

end Balanced

/-- The literal that stands for tokens between parentheses: only those of truth values have some
that no number has. -/
def sort (tokens : List Token) : Symbol :=
  if ∃ t ∈ tokens, t.name ∈ truthy then "true" else "number"

/-- The names of the tokens outside all parentheses, with a literal in the place of each parenthesis
and what it is around. -/
inductive Outline : List Token → List Symbol → Prop
  | nil : Outline [] []
  | token {t : Token} {tokens : List Token} {names : List Symbol}
      (outside : t.name ∉ ["(", ")", endSymbol]) (others : Outline tokens names) :
      Outline (t :: tokens) (t.name :: names)
  | group {t u : Token} {inner tokens : List Token} {names : List Symbol} (opening : t.name = "(")
      (part : Balanced (inner ++ u :: tokens) (u :: tokens)) (closing : u.name = ")")
      (others : Outline tokens names) :
      Outline (t :: (inner ++ u :: tokens)) (sort inner :: names)

namespace Outline

theorem single {name : Symbol} (named : t.name = name)
    (outside : name ∉ ["(", ")", endSymbol]) : Outline [t] [name] := by
  subst named
  exact .token outside .nil

theorem append (h : Outline tokens names) (h' : Outline tokens' names') :
    Outline (tokens ++ tokens') (names ++ names') := by
  induction h with
  | nil => exact h'
  | token outside _ ih => exact .token outside ih
  | @group t u inner tokens _ opening part closing _ ih =>
    have outline := Outline.group opening (part.change (u :: (tokens ++ tokens'))) closing ih
    rw [List.cons_append, List.append_assoc]
    exact outline

theorem unique (h : Outline tokens names) (h' : Outline tokens names') : names = names' := by
  induction h generalizing names' with
  | nil =>
    cases h'
    rfl
  | token outside _ ih =>
    cases h' with
    | token _ others => rw [ih others]
    | group opening => simp [opening] at outside
  | @group t u inner tokens names opening part closing _ ih =>
    generalize whole : t :: (inner ++ u :: tokens) = all at h'
    cases h' with
    | nil => cases whole
    | token outside =>
      cases whole
      simp [opening] at outside
    | @group _ u' inner' tokens' _ _ part' closing' others =>
      obtain ⟨_, text⟩ := List.cons.inj whole
      rw [← text] at part'
      have behind := part.unique ⟨_, _, rfl, Or.inl closing⟩ part' ⟨_, _, rfl, Or.inl closing'⟩
      obtain ⟨_, rfl⟩ := List.cons.inj behind
      rw [behind] at text
      obtain rfl := List.append_cancel_right text
      rw [ih others]

end Outline

/-- A literal, alone and by its name. All of them are spelled alike, since the spelling of a truth
value does not matter. -/
def literal (name : Symbol) : Token := ⟨name, "1", 0⟩

/-- What holds of a text and its rest holds as well of its outline and another rest, which closes
what the first one closes. -/
def Outlined (P : List Token → List Token → Prop) (text rest : List Token) : Prop :=
  ∃ tokens names, text = tokens ++ rest ∧ Outline tokens names ∧
    ∀ rest', (Closes rest → Closes rest') → P (names.map literal ++ rest') rest'

namespace Outlined

variable {P Q R : List Token → List Token → Prop}

theorem imp (h : Outlined P text rest) (weaker : ∀ text rest, P text rest → Q text rest) :
    Outlined Q text rest := by
  obtain ⟨tokens, names, rfl, outline, holds⟩ := h
  exact ⟨tokens, names, rfl, outline, fun rest' closes => weaker _ _ (holds rest' closes)⟩

theorem closed (h : Outlined P text rest) (closes : Closes rest) :
    Outlined (fun text rest => P text rest ∧ Closes rest) text rest := by
  obtain ⟨tokens, names, rfl, outline, holds⟩ := h
  exact ⟨tokens, names, rfl, outline, fun rest' closes' => ⟨holds rest' closes', closes' closes⟩⟩

theorem token {name : Symbol} (named : t.name = name) (outside : name ∉ ["(", ")", endSymbol])
    (single : ∀ rest', P (literal name :: rest') rest') : Outlined P (t :: rest) rest :=
  ⟨[t], [name], rfl, .single named outside, fun rest' _ => single rest'⟩

theorem cons {name : Symbol} (named : t.name = name) (outside : name ∉ ["(", ")", endSymbol])
    (h : Outlined P text rest)
    (put : ∀ text' rest', P text' rest' → Q (literal name :: text') rest') :
    Outlined Q (t :: text) rest := by
  obtain ⟨tokens, names, rfl, outline, holds⟩ := h
  exact ⟨t :: tokens, name :: names, rfl, (Outline.single named outside).append outline,
    fun rest' closes => put _ _ (holds rest' closes)⟩

theorem join {name : Symbol} (h : Outlined P text (t :: text')) (named : t.name = name)
    (outside : name ∉ ["(", ")", endSymbol]) (h' : Outlined Q text' rest)
    (put : ∀ front back rest', P front (literal name :: back) → Q back rest' → R front rest') :
    Outlined R text rest := by
  obtain ⟨back, names', rfl, outline', holds'⟩ := h'
  obtain ⟨front, names, rfl, outline, holds⟩ := h
  refine ⟨front ++ t :: back, names ++ name :: names', by simp,
    outline.append ((Outline.single named outside).append outline'), fun rest' closes => ?_⟩
  rw [List.map_append, List.append_assoc]
  exact put _ _ _ (holds _ (closes_of_name named.symm)) (holds' rest' closes)

theorem group {name : Symbol} (opening : t.name = "(") (part : Balanced text (u :: rest))
    (closing : u.name = ")") (sorts : ∀ tokens, text = tokens ++ u :: rest → sort tokens = name)
    (single : ∀ rest', P (literal name :: rest') rest') : Outlined P (t :: text) rest := by
  obtain ⟨tokens, rfl, _⟩ := id part
  refine ⟨t :: (tokens ++ [u]), [name], by simp, ?_, fun rest' _ => single rest'⟩
  rw [← sorts tokens rfl]
  exact .group opening (part.change [u]) closing .nil

end Outlined

theorem sort_of_number (h : Computes level (tokens ++ rest) rest x) : sort tokens = "number" :=
  if_neg fun ⟨t, mem, one⟩ => h.not_truthy.of_append t mem one

theorem sort_of_boolean {extent : List Token → List Token → Prop}
    (h : Reads extent clause (tokens ++ rest) rest b) : sort tokens = "true" := by
  obtain ⟨tokens', text, one⟩ := h.has_truthy
  obtain rfl := List.append_cancel_right text
  exact if_pos one

theorem literal_computes (level : Level) (rest : List Token) :
    ∃ x, Computes level (literal "number" :: rest) rest x := by
  have spelled : Binary64.read "1" = .ok ⟨0x3ff0000000000000⟩ := by decide +kernel
  have value : Computes .value (literal "number" :: rest) rest ⟨0x3ff0000000000000⟩ :=
    .number rfl spelled
  cases level with
  | value => exact ⟨_, value⟩
  | power => exact ⟨_, .base value⟩
  | product => exact ⟨_, .factor (.base value)⟩
  | sum => exact ⟨_, .term (.factor (.base value))⟩

theorem Operator.outside {operand : Level} {name : Symbol}
    {op : Binary64 → Binary64 → Binary64} (h : Operator level name operand op) :
    name ∉ ["(", ")", endSymbol] := by
  cases h <;> decide

theorem Computes.outlined (h : Computes level text rest x) :
    Outlined (fun text rest => ∃ x, Computes level text rest x) text rest := by
  induction h with
  | number named _ => exact .token named (by decide) (literal_computes .value)
  | negative named _ ih =>
    exact ih.cons named (by decide) fun _ _ ⟨_, part⟩ => ⟨_, .negative rfl part⟩
  | enclosed opening part closing _ =>
    exact .group opening part.balanced closing (fun _ text => sort_of_number (text ▸ part))
      (literal_computes .value)
  | base _ ih => exact ih.imp fun _ _ ⟨_, part⟩ => ⟨_, .base part⟩
  | factor _ ih => exact ih.imp fun _ _ ⟨_, part⟩ => ⟨_, .factor part⟩
  | term _ ih => exact ih.imp fun _ _ ⟨_, part⟩ => ⟨_, .term part⟩
  | chain _ operator _ ihl ihr =>
    exact ihl.join rfl operator.outside ihr fun _ _ _ ⟨_, left⟩ ⟨_, right⟩ =>
      ⟨_, .chain left operator right⟩

theorem Reads.outlined (h : Reads Full clause text rest b) :
    Outlined (fun text rest => ∃ b, Reads Full clause text rest b) text rest := by
  induction h with
  | truth named => exact .token named (by decide) fun _ => ⟨_, .truth rfl⟩
  | falsehood named => exact .token named (by decide) fun _ => ⟨_, .falsehood rfl⟩
  | enclosed opening part closing _ =>
    exact .group opening part.balanced closing (fun _ text => sort_of_boolean (text ▸ part))
      fun _ => ⟨_, .truth rfl⟩
  | equation left named right =>
    exact left.outlined.join named (by decide) right.outlined fun _ _ _ ⟨_, left⟩ ⟨_, right⟩ =>
      ⟨_, .equation left rfl right⟩
  | negation named _ ih =>
    exact ih.cons named (by decide) fun _ _ ⟨_, part⟩ => ⟨_, .negation rfl part⟩
  | plain _ ih => exact ih.imp fun _ _ ⟨_, part⟩ => ⟨_, .plain part⟩
  | equal _ named _ fits ihl ihr =>
    exact ihl.join named (by decide) (ihr.closed fits) fun _ _ _ ⟨_, left⟩ ⟨⟨_, right⟩, closes⟩ =>
      ⟨_, .equal left rfl right closes⟩
  | one _ ih => exact ih.imp fun _ _ ⟨_, part⟩ => ⟨_, .one part⟩
  | both _ named _ ihl ihr =>
    exact ihl.join named (by decide) ihr fun _ _ _ ⟨_, left⟩ ⟨_, right⟩ =>
      ⟨_, .both left rfl right⟩
  | only _ ih => exact ih.imp fun _ _ ⟨_, part⟩ => ⟨_, .only part⟩
  | either _ named _ ihl ihr =>
    exact ihl.join named (by decide) ihr fun _ _ _ ⟨_, left⟩ ⟨_, right⟩ =>
      ⟨_, .either left rfl right⟩

/-- The outline of a formula is a formula of literals. -/
theorem Stands.outlined (h : Stands (tokens.map key) v) (outline : Outline tokens names) :
    ∃ v, Means (names.map literal ++ [.finish 0]) [.finish 0] v := by
  have closes := closes_finish 0
  cases h with
  | number part =>
    obtain ⟨_, names', text, outline', holds⟩ := (part tokens _ rfl closes).outlined
    obtain rfl := List.append_cancel_right text
    obtain rfl := outline.unique outline'
    obtain ⟨x, part⟩ := holds [.finish 0] id
    exact ⟨.number x, .number part⟩
  | boolean part =>
    obtain ⟨_, names', text, outline', holds⟩ := (part tokens _ rfl closes).outlined
    obtain rfl := List.append_cancel_right text
    obtain rfl := outline.unique outline'
    obtain ⟨b, part⟩ := holds [.finish 0] id
    exact ⟨.boolean b, .boolean part.longest⟩

/-- Operators with literals of kinds that they are not for. -/
def misfits : List (List Symbol) :=
  (["+", "-", "*", "/", "^"].flatMap fun name =>
    [["true", name, "number"], ["number", name, "true"], ["true", name, "true"]]) ++
  (["and", "or"].flatMap fun name =>
    [["number", name, "true"], ["true", name, "number"], ["number", name, "number"]]) ++
  [["true", "=", "number"], ["number", "=", "true"], ["-", "true"], ["not", "number"]]

/-- Whether the parser accepts a formula of literals. -/
def takes (p : Parser Value) (names : List Symbol) : Bool :=
  (p.parse 44 (names.map literal ++ [.finish 0])).value.toOption.isSome

set_option maxRecDepth 100000 in
theorem misfits_not_taken :
    (Parser.ofRules rules).2.toOption.all fun p => misfits.all fun names => !takes p names := by
  decide +kernel

theorem not_stands_of_misfit {p : Parser Value} (accepted : (Parser.ofRules rules).2 = .ok p)
    (mem : names ∈ misfits) (outline : Outline tokens names) (v : Value) :
    ¬ Stands (tokens.map key) v := by
  intro stands
  obtain ⟨v', means⟩ := stands.outlined outline
  have few : ∀ names ∈ misfits, 11 * (names.map literal).length ≤ 44 := by decide
  have value := parse_of_means accepted rfl (few names mem) means
  have check := misfits_not_taken
  rw [accepted] at check
  have refused := List.all_eq_true.mp check names mem
  rw [takes, value] at refused
  cases refused

end ShiftFirst.Formula
