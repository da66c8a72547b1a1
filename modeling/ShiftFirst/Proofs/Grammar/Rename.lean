import ShiftFirst.Proofs.Grammar.Reorder

namespace ShiftFirst

theorem eraseDups_map {α β : Type} [DecidableEq α] [DecidableEq β] (ρ : α ↪ β) :
    (xs : List α) → (xs.map ρ).eraseDups = xs.eraseDups.map ρ
  | [] => by simp
  | x :: xs => by
    have others : (xs.map ρ).filter (fun y => !y == ρ x) =
        (xs.filter fun y => !y == x).map ρ := by
      simp [List.filter_map, Function.comp_def, ρ.injective.beq_eq]
    rw [List.map_cons, List.eraseDups_cons, List.eraseDups_cons, others, eraseDups_map ρ,
      List.map_cons]
termination_by xs => xs.length
decreasing_by exact Nat.lt_succ_of_le (List.length_filter_le _ _)

variable {V : Type} {ρ : Symbol ↪ Symbol} {g g' : Grammar V}

def Production.rename (ρ : Symbol ↪ Symbol) (p : Production) : Production :=
  ⟨ρ p.subject, p.predicate.map ρ⟩

/-- A rule by other names, which makes the same values. -/
def Rule.rename (ρ : Symbol ↪ Symbol) (rule : Rule V) : Rule V :=
  ⟨rule.toProduction.rename ρ, rule.reduce⟩

/-- A production that is at fault for another reason than the name of the augmented rule is at
fault for the same reason by other names, unless they give it that name. -/
theorem Production.fault?_rename {p : Production} (fixes : ρ endSymbol = endSymbol)
    (kept : p.subject ≠ startSymbol) (moved : ρ p.subject ≠ startSymbol) :
    (p.fault? = none ∧ (p.rename ρ).fault? = none) ∨
      (p.fault? = some (.reservedSymbol p.text p.subject) ∧
        (p.rename ρ).fault? = some (.reservedSymbol (p.rename ρ).text (ρ p.subject))) ∨
      (p.fault? = some (.emptyProduction p.text) ∧
        (p.rename ρ).fault? = some (.emptyProduction (p.rename ρ).text)) := by
  have ends : ρ p.subject = endSymbol ↔ p.subject = endSymbol := ρ.injective.eq_iff' fixes
  have empty : p.predicate.map ρ = [] ↔ p.predicate = [] := List.map_eq_nil_iff
  simp only [fault?, rename, kept, moved, ends, empty, false_or]
  by_cases reserved : p.subject = endSymbol
  · simp [reserved]
  · by_cases none : p.predicate = [] <;> simp [reserved, none]

theorem Production.faultless_rename {p : Production} (fixes : ρ endSymbol = endSymbol)
    (moved : ρ p.subject ≠ startSymbol) (faultless : p.fault? = none) :
    (p.rename ρ).fault? = none := by
  have kept := (Production.fault?_eq_none_iff.mp faultless).1
  rcases Production.fault?_rename fixes kept moved with
    ⟨_, faultless'⟩ | ⟨fault, _⟩ | ⟨fault, _⟩
  · exact faultless'
  · cases faultless.symm.trans fault
  · cases faultless.symm.trans fault

namespace Grammar

/-- Two grammars have the same rules up to the names of their symbols; the name of the end of a
text stays. -/
structure Renames (g g' : Grammar V) (ρ : Symbol ↪ Symbol) : Prop where
  fixes : ρ endSymbol = endSymbol
  rules : g'.rules = g.rules.map (Rule.rename ρ)

end Grammar

/-- Errors are the same up to the names in them: they are about the same rule, the first one at
fault, or about the same items. -/
inductive GrammarError.Renamed (ρ : Symbol ↪ Symbol) (rules : List (Rule V)) :
    GrammarError → GrammarError → Prop
  | emptyGrammar : Renamed ρ rules .emptyGrammar .emptyGrammar
  | emptyProduction {rule : Rule V} (first : rules.find? (·.fault?.isSome) = some rule) :
      Renamed ρ rules (.emptyProduction rule.text) (.emptyProduction (rule.rename ρ).text)
  | reservedSymbol {rule : Rule V} (first : rules.find? (·.fault?.isSome) = some rule) :
      Renamed ρ rules (.reservedSymbol rule.text rule.subject)
        (.reservedSymbol (rule.rename ρ).text (ρ rule.subject))
  | conflict {g g' : Grammar V} (own : g.rules = rules) (renames : g.Renames g' ρ)
      (items : List Item) (known : items ⊆ g.items) :
      Renamed ρ rules (.reduceReduceConflict (items.map g.itemText))
        (.reduceReduceConflict (items.map g'.itemText))

theorem Rule.faultless_map {rules : List (Rule V)} (fixes : ρ endSymbol = endSymbol)
    (moved : ∀ rule ∈ rules, ρ rule.subject ≠ startSymbol)
    (faultless : ∀ rule ∈ rules, rule.fault? = none) :
    ∀ rule ∈ rules.map (Rule.rename ρ), rule.fault? = none := by
  intro renamed there
  obtain ⟨rule, mem, rfl⟩ := List.mem_map.mp there
  exact Production.faultless_rename fixes (moved rule mem) (faultless rule mem)

namespace Grammar

theorem ofRules_append {before behind : List (Rule V)} {rule : Rule V} {e : GrammarError}
    (faultless : ∀ other ∈ before, other.fault? = none) (fault : rule.fault? = some e) :
    ofRules (before ++ rule :: behind) = .error e := by
  refine ofRules_eq_error_iff.mpr (.inr ⟨by simp, ?_⟩)
  exact List.findSome?_eq_some_iff.mpr ⟨before, rule, behind, rfl, fault, faultless⟩

section Faults

variable {rules : List (Rule V)} (fixes : ρ endSymbol = endSymbol)
  (moved : ∀ rule ∈ rules, ρ rule.subject ≠ startSymbol)
include fixes moved

theorem exists_renames (own : ofRules rules = .ok g) :
    ∃ g', ofRules (rules.map (Rule.rename ρ)) = .ok g' ∧ g.Renames g' ρ := by
  obtain rfl := ofRules_eq_ok_iff.mp own
  let g' : Grammar V := ⟨g.rules.map (Rule.rename ρ), by simp [g.rules_ne_nil],
    Rule.faultless_map fixes moved g.faultless⟩
  exact ⟨g', ofRules_eq_ok_iff.mpr rfl, fixes, rfl⟩

/-- The same rule is the first one at fault, for the same reason, unless it is that its subject is
the name of the rule that begins every grammar. -/
theorem exists_renamed {e : GrammarError} (failed : ofRules rules = .error e)
    (allowed : ∀ text, e ≠ .reservedSymbol text startSymbol) :
    ∃ e', ofRules (rules.map (Rule.rename ρ)) = .error e' ∧ e.Renamed ρ rules e' := by
  rcases ofRules_eq_error_iff.mp failed with ⟨rfl, rfl⟩ | ⟨_, faulty⟩
  · exact ⟨.emptyGrammar, rfl, .emptyGrammar⟩
  · obtain ⟨before, rule, behind, rfl, fault, faultless⟩ := List.findSome?_eq_some_iff.mp faulty
    have first : (before ++ rule :: behind).find? (·.fault?.isSome) = some rule := by
      refine List.find?_eq_some_iff_append.mpr ⟨?_, before, behind, rfl, fun other earlier => ?_⟩
      · rw [fault, Option.isSome_some]
      · rw [faultless other earlier, Option.isSome_none, Bool.not_false]
    have kept : rule.subject ≠ startSymbol := fun reserved => by
      rw [Production.fault?, if_pos (Or.inl reserved), reserved] at fault
      exact allowed rule.text (Option.some.inj fault).symm
    have faultless' := Rule.faultless_map fixes
      (fun other earlier => moved other (List.mem_append_left _ earlier)) faultless
    rw [List.map_append, List.map_cons]
    rcases Production.fault?_rename fixes kept (moved rule List.mem_append_cons_self) with
      ⟨none, _⟩ | ⟨own, own'⟩ | ⟨own, own'⟩
    · cases none.symm.trans fault
    · cases own.symm.trans fault
      exact ⟨_, ofRules_append faultless' own', .reservedSymbol first⟩
    · cases own.symm.trans fault
      exact ⟨_, ofRules_append faultless' own', .emptyProduction first⟩

end Faults

namespace Renames

variable (h : g.Renames g' ρ)
include h

theorem length_rules : g'.rules.length = g.rules.length := by
  rw [h.rules, List.length_map]

theorem rule (r : RuleId) : g'.rule? r = (g.rule? r).map (Rule.rename ρ) := by
  cases r with
  | zero => rfl
  | succ r => rw [rule?, rule?, h.rules, List.getElem?_map]

theorem start : g'.start = ρ g.start := by
  have first : some g'.start = some (ρ g.start) := by
    rw [← head?_subject, h.rules, List.head?_map, List.head?_eq_some_head g.rules_ne_nil]
    rfl
  exact Option.some.inj first

theorem production_of_authored {r : RuleId} (pos : 1 ≤ r) (hr : r ≤ g.rules.length) :
    g'.production r = (g.production r).rename ρ := by
  obtain ⟨rule, _, there, same⟩ := rule_of_authored pos hr
  have there' : g'.rules[r - 1]? = some (rule.rename ρ) := by
    rw [h.rules, List.getElem?_map, there, Option.map_some]
  have same' := production_of_getElem? there'
  rw [Nat.sub_add_cancel pos] at same'
  rw [same', same, Rule.rename]

/-- All names of predicates are renamed, also in the rule that begins every grammar: its subject is
the only name that stays. -/
theorem predicate (r : RuleId) :
    (g'.production r).predicate = (g.production r).predicate.map ρ := by
  rw [production_eq, production_eq, h.rule]
  by_cases begins : r = 0
  · simp [begins, augmented, h.start, h.fixes]
  · rw [if_neg begins, if_neg begins]
    cases g.rule? r <;> rfl

theorem length_predicate (r : RuleId) :
    (g'.production r).predicate.length = (g.production r).predicate.length := by
  rw [h.predicate, List.length_map]

theorem isNonterminal (symbol : Symbol) :
    g'.isNonterminal (ρ symbol) = g.isNonterminal symbol := by
  simp [Grammar.isNonterminal, h.rules, Function.comp_def, Rule.rename, Production.rename]

theorem reduce (r : RuleId) (values : List V) : g'.reduce r values = g.reduce r values := by
  rw [reduce_eq, reduce_eq, h.rule]
  cases g.rule? r <;> rfl

theorem reduceWithin (budget : Nat) (r : RuleId) (values : List V) :
    g'.reduceWithin budget r values = g.reduceWithin budget r values := by
  rw [reduceWithin_eq, reduceWithin_eq, h.reduce]

theorem items : g'.items = g.items := by
  have itemsOf : g'.itemsOf = g.itemsOf := funext fun r => by
    rw [Grammar.itemsOf, Grammar.itemsOf, h.length_predicate]
  rw [Grammar.items, Grammar.items, ruleCount, ruleCount, h.length_rules, itemsOf]

theorem next? (i : Item) : g'.next? i = (g.next? i).map ρ := by
  rw [Grammar.next?, Grammar.next?, h.predicate, List.getElem?_map]

theorem filterMap_next? (items : List Item) :
    items.filterMap g'.next? = (items.filterMap g.next?).map ρ := by
  rw [List.map_filterMap]
  exact List.filterMap_congr fun i _ => h.next? i

theorem next?_iff {i : Item} {symbol : Symbol} :
    g'.next? i = some (ρ symbol) ↔ g.next? i = some symbol := by
  rw [h.next?, Option.map_eq_some_iff]
  exact ⟨fun ⟨_, next, same⟩ => ρ.injective same ▸ next, fun next => ⟨symbol, next, rfl⟩⟩

theorem isComplete (i : Item) : g'.isComplete i = g.isComplete i := by
  rw [Grammar.isComplete, Grammar.isComplete, h.next?, Option.isNone_map]

theorem subject_mem {r : RuleId} (pos : 1 ≤ r) (hr : r ≤ g.rules.length) (wanted : List Symbol) :
    (g'.production r).subject ∈ wanted.map ρ ↔ (g.production r).subject ∈ wanted := by
  rw [h.production_of_authored pos hr]
  exact List.mem_map_of_injective ρ.injective

/-- The same rules are led to: the rule that begins every grammar is never pending, so that its
subject, which keeps its name, cannot be wanted. -/
theorem rulesLedTo {rounds : Nat} {pending : List RuleId} {wanted : List Symbol}
    (authored : ∀ r ∈ pending, 1 ≤ r ∧ r ≤ g.rules.length) :
    g'.rulesLedTo rounds pending (wanted.map ρ) = g.rulesLedTo rounds pending wanted := by
  induction rounds generalizing pending wanted with
  | zero => rfl
  | succ rounds ih =>
    have subject : ∀ r ∈ pending,
        ((g'.production r).subject ∈ wanted.map ρ ↔ (g.production r).subject ∈ wanted) :=
      fun r hr => h.subject_mem (authored r hr).1 (authored r hr).2 wanted
    have hits : pending.filter (fun r => (g'.production r).subject ∈ wanted.map ρ) =
        pending.filter fun r => (g.production r).subject ∈ wanted :=
      List.filter_congr fun r hr => decide_eq_decide.mpr (subject r hr)
    have others : pending.filter (fun r => (g'.production r).subject ∉ wanted.map ρ) =
        pending.filter fun r => (g.production r).subject ∉ wanted :=
      List.filter_congr fun r hr => decide_eq_decide.mpr (not_congr (subject r hr))
    have heads : ∀ rules : List RuleId,
        (rules.filterMap fun r => (g'.production r).predicate.head?) =
          (rules.filterMap fun r => (g.production r).predicate.head?).map ρ := fun rules => by
      rw [List.map_filterMap]
      exact List.filterMap_congr fun r _ => by rw [h.predicate, List.head?_map]
    simp only [Grammar.rulesLedTo, hits, others, heads]
    rw [ih fun r hr => authored r (List.mem_of_mem_filter hr)]

theorem expansion (seeds : List Item) :
    g'.expansion (seeds.filterMap g'.next?) = g.expansion (seeds.filterMap g.next?) := by
  have authored : ∀ r ∈ List.range' 1 g.rules.length, 1 ≤ r ∧ r ≤ g.rules.length := fun r hr => by
    rw [List.mem_range'_1] at hr
    omega
  rw [Grammar.expansion, Grammar.expansion, h.length_rules, h.filterMap_next?,
    h.rulesLedTo authored]

theorem closure (seeds : List Item) : g'.closure seeds = g.closure seeds := by
  rw [Grammar.closure, Grammar.closure, h.items, h.expansion]

end Renames

end Grammar

end ShiftFirst
