import ShiftFirst.Proofs.Grammar.Closure
import ShiftFirst.Proofs.Grammar.Interning

namespace ShiftFirst

theorem Production.fault?_eq_some_iff {p : Production} {e : GrammarError} :
    p.fault? = some e ↔
      (p.subject = startSymbol ∨ p.subject = endSymbol) ∧ e = .reservedSymbol p.text p.subject ∨
      ¬ (p.subject = startSymbol ∨ p.subject = endSymbol) ∧ p.predicate = [] ∧
        e = .emptyProduction p.text := by
  unfold fault?
  by_cases reserved : p.subject = startSymbol ∨ p.subject = endSymbol
  · rw [if_pos reserved, Option.some_inj]
    simp only [reserved, true_and, not_true_eq_false, false_and, or_false]
    exact eq_comm
  · rw [if_neg reserved]
    by_cases empty : p.predicate = []
    · rw [if_pos empty, Option.some_inj]
      simp only [reserved, false_and, not_false_eq_true, empty, true_and, false_or]
      exact eq_comm
    · simp [reserved, empty]

namespace Numbering

variable {n : Numbering} {p first : Production} {ps rest : List Production} {e : GrammarError}

theorem foldlM_enter (n : Numbering) (ps : List Production) :
    ps.foldlM enter n =
      match ps.findSome? Production.fault? with
      | some e => .error e
      | none => .ok (ps.foldl add n) := by
  induction ps generalizing n with
  | nil => rfl
  | cons p ps ih =>
    rw [List.foldlM_cons, List.findSome?_cons, enter]
    cases p.fault? with
    | some e => rfl
    | none => exact ih (n.add p)

theorem ofProductions_eq_error_iff :
    ofProductions ps = .error e ↔
      (ps = [] ∧ e = .emptyGrammar) ∨ ps ≠ [] ∧ ps.findSome? Production.fault? = some e := by
  cases ps with
  | nil => simp [ofProductions, eq_comm]
  | cons first rest =>
    rw [ofProductions, foldlM_enter]
    cases (first :: rest).findSome? Production.fault? <;> simp

theorem ofProductions_eq_ok_iff :
    ofProductions (first :: rest) = .ok n ↔
      (first :: rest).findSome? Production.fault? = none ∧
        n = (first :: rest).foldl add (begin first.subject) := by
  rw [ofProductions, foldlM_enter]
  cases (first :: rest).findSome? Production.fault? <;> simp [eq_comm]

theorem foldl_add {motive : Numbering → List Production → Prop}
    (adds : ∀ n ps p, motive n ps → motive (n.add p) (ps ++ [p])) (h : motive n ps)
    (later : List Production) : motive (later.foldl add n) (ps ++ later) := by
  induction later generalizing n ps with
  | nil => rwa [List.append_nil]
  | cons p later ih =>
    have more := ih (adds n ps p h)
    rwa [List.append_assoc] at more

/-- What holds of the rule that begins every grammar, and is kept by each rule that is added, holds
of all numberings. -/
theorem invariant {motive : Symbol → Numbering → List Production → Prop}
    (begins : ∀ start, motive start (begin start) [])
    (adds : ∀ start n ps p, motive start n ps → motive start (n.add p) (ps ++ [p]))
    (h : ofProductions ps = .ok n) : ∃ first ∈ ps.head?, motive first.subject n ps := by
  cases ps with
  | nil => cases h
  | cons first rest =>
    obtain ⟨_, rfl⟩ := ofProductions_eq_ok_iff.mp h
    exact ⟨first, rfl, foldl_add (adds first.subject) (begins first.subject) (first :: rest)⟩

/-- A rule has the numbers that a table gives to the symbols of a production. -/
def Writes (table : SymbolTable) (p : Production) (rule : NumberedRule) : Prop :=
  table.id? p.subject = some rule.subject ∧ table.Spells p.predicate rule.predicate

theorem extends_add (n : Numbering) (p : Production) : n.symbols.Extends (n.add p).symbols := by
  have whole := (n.symbols.extends_intern p.subject).trans
    (SymbolTable.extends_mention _ p.predicate)
  rwa [← SymbolTable.internAll_snd] at whole

/-- The rules of a numbering, behind the one that begins every grammar, are those that have been
added. -/
def Numbers (start : Symbol) (n : Numbering) (ps : List Production) : Prop :=
  List.Forall₂ (Writes n.symbols) (⟨startSymbol, [start, endSymbol]⟩ :: ps) n.rules

theorem numbers_begin (start : Symbol) : Numbers start (begin start) [] := by
  have more := SymbolTable.initial.extends_intern start
  have opening : SymbolTable.initial.id? startSymbol = some SymbolTable.startId := by decide
  have ending : SymbolTable.initial.id? endSymbol = some SymbolTable.endId := by decide
  exact .cons ⟨more.id? opening,
    .cons (SymbolTable.initial.id?_intern start) (.cons (more.id? ending) .nil)⟩ .nil

theorem Numbers.add {start : Symbol} (h : Numbers start n ps) (p : Production) :
    Numbers start (n.add p) (ps ++ [p]) := by
  have earlier : List.Forall₂ (Writes (n.add p).symbols) (⟨startSymbol, [start, endSymbol]⟩ :: ps)
      n.rules :=
    List.Forall₂.imp (fun _ _ writes =>
      ⟨(n.extends_add p).id? writes.1, writes.2.extends (n.extends_add p)⟩) h
  have subject : (n.add p).symbols.id? p.subject = some (n.symbols.intern p.subject).1 := by
    change ((n.symbols.intern p.subject).2.internAll p.predicate).2.id? p.subject = _
    rw [SymbolTable.internAll_snd]
    exact (SymbolTable.extends_mention _ _).id? (n.symbols.id?_intern p.subject)
  have predicate := SymbolTable.spells_internAll (n.symbols.intern p.subject).2 p.predicate
  exact List.rel_append earlier (.cons ⟨subject, predicate⟩ .nil)

theorem exists_numbers (h : ofProductions ps = .ok n) :
    ∃ first ∈ ps.head?, Numbers first.subject n ps :=
  invariant numbers_begin (fun _ _ _ p h => h.add p) h

/-- A rule by its number. -/
def rule (n : Numbering) (r : RuleId) : NumberedRule := ⟨n.subject r, n.predicate r, n.firstItem r⟩

theorem getElem?_rules {r : RuleId} (h : r < n.rules.length) : n.rules[r]? = some (n.rule r) := by
  have there : n.rules[r]? = some n.rules[r] := List.getElem?_eq_getElem h
  rw [rule, subject, predicate, firstItem, there]
  rfl

theorem writes_rule (h : List.Forall₂ (Writes n.symbols) ps n.rules) {r : RuleId}
    (hp : ps[r]? = some p) : Writes n.symbols p (n.rule r) := by
  obtain ⟨bound, rfl⟩ := List.getElem?_eq_some_iff.mp hp
  have bound' : r < n.rules.length := List.Forall₂.length_eq h ▸ bound
  obtain ⟨_, there⟩ := List.getElem?_eq_some_iff.mp (getElem?_rules bound')
  rw [← there]
  exact List.Forall₂.get h bound bound'

/-- A rule is displayed with the names that its numbers stand for. -/
theorem Writes.production {r : RuleId} (h : Writes n.symbols p (n.rule r)) :
    n.production r = p :=
  congr (congrArg Production.mk (SymbolTable.name_of_id? h.1)) h.2.map_name

section Rules

variable {V : Type} {rules : List (Rule V)}

theorem ofRules_eq_error_iff :
    ofRules rules = .error e ↔
      (rules = [] ∧ e = .emptyGrammar) ∨
        rules ≠ [] ∧ (rules.findSome? fun rule => rule.fault?) = some e := by
  rw [ofRules, ofProductions_eq_error_iff, List.findSome?_map, Ne, List.map_eq_nil_iff]
  rfl

/-- Rules that are refused are so for the first of them that has a fault. -/
theorem culprit (refused : ofRules rules = .error e) (filled : rules ≠ []) :
    ∃ before rule after, rules = before ++ rule :: after ∧
      (∀ earlier ∈ before, earlier.fault? = none) ∧ rule.fault? = some e := by
  rcases ofRules_eq_error_iff.mp refused with ⟨empty, _⟩ | ⟨_, found⟩
  · exact absurd empty filled
  · obtain ⟨before, rule, after, rfl, fault, sound⟩ := List.findSome?_eq_some_iff.mp found
    exact ⟨before, rule, after, rfl, sound, fault⟩

theorem refused_iff :
    (∃ e, ofRules rules = .error e) ↔ rules = [] ∨ ∃ rule ∈ rules, rule.fault? ≠ none := by
  constructor
  · rintro ⟨e, refused⟩
    refine or_iff_not_imp_left.mpr fun filled => ?_
    obtain ⟨before, rule, after, rfl, _, fault⟩ := culprit refused filled
    exact ⟨rule, by simp, fault ▸ Option.some_ne_none e⟩
  · rintro (empty | ⟨rule, mem, faulty⟩)
    · exact ⟨_, ofRules_eq_error_iff.mpr (Or.inl ⟨empty, rfl⟩)⟩
    · cases found : rules.findSome? fun rule => rule.fault? with
      | some e => exact ⟨e, ofRules_eq_error_iff.mpr (Or.inr ⟨List.ne_nil_of_mem mem, found⟩)⟩
      | none => exact absurd (List.findSome?_eq_none_iff.mp found rule mem) faulty

theorem length_rules (compiled : ofRules rules = .ok n) : n.rules.length = rules.length + 1 := by
  obtain ⟨_, _, numbers⟩ := exists_numbers compiled
  rw [← List.Forall₂.length_eq numbers, List.length_cons, List.length_map]

theorem production_authored (compiled : ofRules rules = .ok n) {i : Nat} (h : i < rules.length) :
    n.production (i + 1) = rules[i].toProduction := by
  obtain ⟨_, _, numbers⟩ := exists_numbers compiled
  exact (writes_rule numbers (by simp [h])).production

/-- A list of rules is refused if it is empty, or for its first faulty rule, which the error shows
as the authors wrote it; and a grammar refuses it for the same. Else the rules have the numbers
from one on, and are displayed by the names of their symbols as the authors wrote them. -/
theorem compiles_or_names_first_fault (rules : List (Rule V)) :
    (ofRules rules = .error .emptyGrammar ↔ rules = []) ∧
    ((∃ e, ofRules rules = .error e) ↔ rules = [] ∨ ∃ rule ∈ rules,
      rule.subject = startSymbol ∨ rule.subject = endSymbol ∨ rule.predicate = []) ∧
    (∀ e, ofRules rules = .error e → rules ≠ [] →
      ∃ before rule after, rules = before ++ rule :: after ∧
        (∀ earlier ∈ before, earlier.subject ≠ startSymbol ∧ earlier.subject ≠ endSymbol ∧
          earlier.predicate ≠ []) ∧
        ((rule.subject = startSymbol ∨ rule.subject = endSymbol) ∧
            e = .reservedSymbol rule.text rule.subject ∨
          ¬ (rule.subject = startSymbol ∨ rule.subject = endSymbol) ∧ rule.predicate = [] ∧
            e = .emptyProduction rule.text)) ∧
    (∀ e, Grammar.ofRules rules = .error e ↔ ofRules rules = .error e) ∧
    ∀ n, ofRules rules = .ok n → n.rules.length = rules.length + 1 ∧
      ∀ i (h : i < rules.length), n.ruleText (i + 1) = rules[i].text := by
  refine ⟨⟨fun refused => ?_, fun empty => ?_⟩, ?_, fun e refused filled => ?_, fun e => ?_,
    fun n compiled => ⟨length_rules compiled, fun i h => ?_⟩⟩
  · by_contra filled
    obtain ⟨_, rule, _, _, _, fault⟩ := culprit refused filled
    rcases Production.fault?_eq_some_iff.mp fault with ⟨_, other⟩ | ⟨_, _, other⟩ <;> cases other
  · rw [empty]
    rfl
  · simp only [refused_iff, Ne, Production.fault?_eq_none_iff, not_and_or, not_not]
  · obtain ⟨before, rule, after, split, sound, fault⟩ := culprit refused filled
    exact ⟨before, rule, after, split,
      fun earlier mem => Production.fault?_eq_none_iff.mp (sound earlier mem),
      Production.fault?_eq_some_iff.mp fault⟩
  · rw [Grammar.ofRules_eq_error_iff, ofRules_eq_error_iff]
  · rw [ruleText, production_authored compiled h]

end Rules

/-- A rule for the symbol that begins every grammar, between rules of which the last one is faulty
as well. -/
def faulty : List (Rule Unit) :=
  [⟨⟨"a", ["b", "a"]⟩, fun _ => .ok ()⟩, ⟨⟨"^", []⟩, fun _ => .ok ()⟩,
    ⟨⟨"c", []⟩, fun _ => .ok ()⟩]

theorem names_first_fault_reserved :
    ofRules faulty = .error (.reservedSymbol "^ →" "^") ∧
    (∃ before rule after, faulty = before ++ rule :: after ∧
      (∀ earlier ∈ before, earlier.predicate ≠ []) ∧ rule.text = "^ →" ∧ rule.subject = "^") ∧
    ∃ n, ofRules (faulty.take 1) = .ok n ∧ n.ruleText 1 = "a → b a" := by
  have refused : ofRules faulty = .error (.reservedSymbol "^ →" "^") := by rfl
  obtain ⟨_, _, first, _, _⟩ := compiles_or_names_first_fault faulty
  obtain ⟨before, rule, after, split, sound, ⟨_, same⟩ | ⟨_, _, other⟩⟩ :=
    first _ refused (List.cons_ne_nil _ _)
  · obtain ⟨text, subject⟩ := GrammarError.reservedSymbol.inj same
    obtain ⟨_, _, _, _, displayed⟩ := compiles_or_names_first_fault (faulty.take 1)
    refine ⟨refused, ⟨before, rule, after, split, fun earlier mem => (sound earlier mem).2.2,
      text.symm, subject.symm⟩, _, rfl, ?_⟩
    exact (displayed _ rfl).2 0 Nat.one_pos
  · cases other

end Numbering

end ShiftFirst
