import Mathlib.Data.List.Basic
import ShiftFirst.Grammar.Item

namespace ShiftFirst

theorem nodup_eraseDups {α : Type} [BEq α] [LawfulBEq α] : (xs : List α) → xs.eraseDups.Nodup
  | [] => by simp
  | x :: xs => by
    rw [List.eraseDups_cons, List.nodup_cons]
    exact ⟨by simp [List.mem_eraseDups], nodup_eraseDups _⟩
termination_by xs => xs.length
decreasing_by exact Nat.lt_succ_of_le (List.length_filter_le _ _)

/-- A list with one more member has it behind those that were there. -/
theorem getElem?_concat {α : Type} {xs : List α} {x y : α} {k : Nat}
    (h : (xs ++ [x])[k]? = some y) : k < xs.length ∧ xs[k]? = some y ∨ k = xs.length ∧ x = y := by
  rcases Nat.lt_trichotomy k xs.length with lt | rfl | gt
  · rw [List.getElem?_append_left lt] at h
    exact .inl ⟨lt, h⟩
  · rw [List.getElem?_concat_length] at h
    exact .inr ⟨rfl, Option.some.inj h⟩
  · have beyond := (List.getElem?_eq_some_iff.mp h).1
    rw [List.length_append, List.length_singleton] at beyond
    omega

theorem Production.fault?_eq_none_iff {p : Production} :
    p.fault? = none ↔ p.subject ≠ startSymbol ∧ p.subject ≠ endSymbol ∧ p.predicate ≠ [] := by
  unfold Production.fault?
  by_cases reserved : p.subject = startSymbol ∨ p.subject = endSymbol
  · simp only [if_pos reserved, reduceCtorEq, false_iff]
    exact fun h => reserved.elim h.1 h.2.1
  · obtain ⟨start, finish⟩ := not_or.mp reserved
    by_cases empty : p.predicate = []
    · simp [reserved, empty]
    · simp [start, finish, empty]

namespace Grammar

variable {V : Type} {g : Grammar V}

theorem ofRules_eq_ok_iff {rules : List (Rule V)} : ofRules rules = .ok g ↔ g.rules = rules := by
  constructor
  · intro h
    unfold ofRules at h
    split at h
    next => simp at h
    next =>
      split at h
      next => simp at h
      next =>
        cases h
        rfl
  · rintro rfl
    have faults : (g.rules.findSome? fun rule => rule.fault?) = none :=
      List.findSome?_eq_none_iff.mpr g.faultless
    unfold ofRules
    rw [dif_neg g.rules_ne_nil]
    split
    next e he => exact absurd (he.symm.trans faults) (Option.some_ne_none e)
    next => rfl

theorem ofRules_eq_error_iff {rules : List (Rule V)} {e : GrammarError} :
    ofRules rules = .error e ↔
      (rules = [] ∧ e = .emptyGrammar) ∨
        rules ≠ [] ∧ (rules.findSome? fun rule => rule.fault?) = some e := by
  unfold ofRules
  by_cases none : rules = []
  · simp [none, eq_comm]
  · rw [dif_neg none]
    split
    next e' he => simp [none, he]
    next free => simp [none, free]

theorem production_of_getElem? {k : Nat} {rule : Rule V} (h : g.rules[k]? = some rule) :
    g.production (k + 1) = rule.toProduction := by
  simp [production, h]

theorem production_authored (k : Fin g.rules.length) :
    g.production (k + 1) = (g.rules.get k).toProduction :=
  production_of_getElem? (List.getElem?_eq_getElem k.isLt)

theorem exists_authored {r : Nat} (pos : 1 ≤ r) (hr : r ≤ g.rules.length) :
    ∃ k : Fin g.rules.length, r = k + 1 :=
  ⟨⟨r - 1, by omega⟩, by simp only; omega⟩

theorem rule_of_authored {r : Nat} (pos : 1 ≤ r) (hr : r ≤ g.rules.length) :
    ∃ rule ∈ g.rules, g.rules[r - 1]? = some rule ∧ g.production r = rule.toProduction := by
  have hb : r - 1 < g.rules.length := by omega
  have he : g.rules[r - 1]? = some g.rules[r - 1] := List.getElem?_eq_getElem hb
  refine ⟨g.rules[r - 1], List.getElem_mem hb, he, ?_⟩
  have hp := production_of_getElem? he
  rwa [show r - 1 + 1 = r by omega] at hp

theorem predicate_ne_nil {r : Nat} (hr : r ≤ g.rules.length) :
    (g.production r).predicate ≠ [] := by
  by_cases zero : r = 0
  · subst r
    simp [production, augmented]
  · obtain ⟨rule, hm, _, hp⟩ := rule_of_authored (by omega) hr
    rw [hp]
    exact (Production.fault?_eq_none_iff.mp (g.faultless rule hm)).2.2

theorem subject_ne_reserved {r : Nat} (pos : 1 ≤ r) (hr : r ≤ g.rules.length) :
    (g.production r).subject ≠ startSymbol ∧ (g.production r).subject ≠ endSymbol := by
  obtain ⟨rule, hm, _, hp⟩ := rule_of_authored pos hr
  rw [hp]
  have hf := Production.fault?_eq_none_iff.mp (g.faultless rule hm)
  exact ⟨hf.1, hf.2.1⟩

theorem endSymbol_terminal (g : Grammar V) : g.isNonterminal endSymbol = false := by
  refine List.any_eq_false.mpr fun rule hm => ?_
  simpa using (Production.fault?_eq_none_iff.mp (g.faultless rule hm)).2.1

theorem mem_rulesFor {r : Nat} {symbol : Symbol} :
    r ∈ g.rulesFor symbol ↔
      1 ≤ r ∧ r ≤ g.rules.length ∧ (g.production r).subject = symbol := by
  simp only [rulesFor, List.mem_filter, List.mem_range'_1, decide_eq_true_eq, and_assoc,
    Nat.add_comm 1, Nat.lt_succ_iff]

theorem mem_rulesFor_authored (k : Fin g.rules.length) :
    (k + 1 : Nat) ∈ g.rulesFor (g.rules.get k).subject :=
  mem_rulesFor.mpr ⟨by omega, k.isLt, by rw [production_authored]⟩

theorem mem_items {r d : Nat} :
    (⟨r, d⟩ : Item) ∈ g.items ↔
      r ≤ g.rules.length ∧ d ≤ (g.production r).predicate.length := by
  simp only [items, itemsOf, ruleCount, List.mem_flatMap, List.mem_map, List.mem_range,
    Item.mk.injEq]
  constructor
  · rintro ⟨_, hr, _, hd, rfl, rfl⟩
    exact ⟨Nat.le_of_lt_succ hr, Nat.le_of_lt_succ hd⟩
  · intro ⟨hr, hd⟩
    exact ⟨r, Nat.lt_succ_of_le hr, d, Nat.lt_succ_of_le hd, rfl, rfl⟩

theorem initialItem_mem : initialItem ∈ g.items := by simp [mem_items, initialItem]

theorem acceptItem_mem : acceptItem ∈ g.items := by
  simp [mem_items, acceptItem, production, augmented]

theorem next?_eq_none_iff {r d : Nat} (hm : (⟨r, d⟩ : Item) ∈ g.items) :
    g.next? ⟨r, d⟩ = none ↔ d = (g.production r).predicate.length := by
  rw [next?, List.getElem?_eq_none_iff]
  exact ⟨fun h => Nat.le_antisymm (mem_items.mp hm).2 h, fun h => Nat.le_of_eq h.symm⟩

theorem advance_mem {i : Item} {symbol : Symbol} (hm : i ∈ g.items)
    (hn : g.next? i = some symbol) : i.advance ∈ g.items := by
  obtain ⟨hlt, _⟩ := List.getElem?_eq_some_iff.mp hn
  exact mem_items.mpr ⟨(mem_items.mp hm).1, hlt⟩

/-- What seeds bring along: themselves, and the first items of the rules of each symbol behind
the dot of an item already there. -/
inductive Spans (g : Grammar V) (seeds : List Item) : Item → Prop
  | seed {i : Item} (mem : i ∈ seeds) : Spans g seeds i
  | expand {i : Item} {symbol : Symbol} {r : RuleId} (origin : Spans g seeds i)
      (next : g.next? i = some symbol) (mem : r ∈ g.rulesFor symbol) : Spans g seeds ⟨r, 0⟩

theorem Spans.mono {seeds seeds' : List Item} (sub : seeds ⊆ seeds') {i : Item}
    (h : g.Spans seeds i) : g.Spans seeds' i := by
  induction h with
  | seed mem => exact .seed (sub mem)
  | expand _ next mem ih => exact .expand ih next mem

/-- What holds of the rules that are wanted, and passes on through first symbols, holds of all
rules that are led to. -/
theorem rulesLedTo_induction {P : RuleId → Prop} {rounds : Nat} {pending : List RuleId}
    {wanted : List Symbol}
    (direct : ∀ r ∈ pending, (g.production r).subject ∈ wanted → P r)
    (through : ∀ r, P r → ∀ r' ∈ pending,
      (g.production r).predicate.head? = some (g.production r').subject → P r') :
    ∀ r ∈ g.rulesLedTo rounds pending wanted, P r := by
  induction rounds generalizing pending wanted with
  | zero => simp [rulesLedTo]
  | succ rounds ih =>
    intro r hr
    simp only [rulesLedTo] at hr
    split at hr
    next => simp at hr
    next =>
      rcases List.mem_append.mp hr with hr | hr
      · have hh := List.mem_filter.mp hr
        exact direct r hh.1 (by simpa using hh.2)
      · refine ih ?_ ?_ r hr
        · intro r' hr' hw
          obtain ⟨hit, hmem, hhead⟩ := List.mem_filterMap.mp hw
          have hh := List.mem_filter.mp hmem
          exact through hit (direct hit hh.1 (by simpa using hh.2)) r'
            (List.mem_of_mem_filter hr') hhead
        · exact fun r' hp r'' hr'' => through r' hp r'' (List.mem_of_mem_filter hr'')

/-- With a round for each pending rule, the rules led to miss none that is wanted and none that
one of them begins with. -/
theorem rulesLedTo_complete {rounds : Nat} {pending : List RuleId} {wanted : List Symbol}
    (enough : pending.length ≤ rounds) :
    (∀ r ∈ pending, (g.production r).subject ∈ wanted →
      r ∈ g.rulesLedTo rounds pending wanted) ∧
    ∀ r ∈ g.rulesLedTo rounds pending wanted, ∀ r' ∈ pending,
      (g.production r).predicate.head? = some (g.production r').subject →
        r' ∈ g.rulesLedTo rounds pending wanted := by
  induction rounds generalizing pending wanted with
  | zero =>
    have empty : pending = [] := List.length_eq_zero_iff.mp (by omega)
    simp [empty]
  | succ rounds ih =>
    simp only [rulesLedTo]
    split
    next none =>
      refine ⟨fun r hr hw => ?_, by simp⟩
      exact absurd hw (by simpa using List.filter_eq_nil_iff.mp none r hr)
    next some =>
      have shorter : (pending.filter fun r =>
          (g.production r).subject ∉ wanted).length ≤ rounds := by
        obtain ⟨hit, hmem⟩ := List.exists_mem_of_ne_nil _ some
        have hh := List.mem_filter.mp hmem
        have : (pending.filter fun r => (g.production r).subject ∉ wanted).length <
            pending.length :=
          List.length_filter_lt_length_iff_exists.mpr ⟨hit, hh.1, by simpa using hh.2⟩
        omega
      let heads := (pending.filter fun r => (g.production r).subject ∈ wanted).filterMap
        fun r => (g.production r).predicate.head?
      obtain ⟨first, closed⟩ := @ih _ heads shorter
      constructor
      · intro r hr hw
        exact List.mem_append_left _ (List.mem_filter.mpr ⟨hr, by simpa using hw⟩)
      · intro r hr r' hr' hhead
        by_cases hw : (g.production r').subject ∈ wanted
        · exact List.mem_append_left _ (List.mem_filter.mpr ⟨hr', by simpa using hw⟩)
        · have other : r' ∈ pending.filter fun r => (g.production r).subject ∉ wanted := by
            simp [hr', hw]
          refine List.mem_append_right _ ?_
          rcases List.mem_append.mp hr with hr | hr
          · exact first r' other (List.mem_filterMap.mpr ⟨r, hr, hhead⟩)
          · exact closed r hr r' other hhead

theorem closure_sublist {seeds : List Item} : (g.closure seeds).Sublist g.items :=
  List.filter_sublist

theorem closure_ext {seeds seeds' : List Item}
    (same : ∀ i, i ∈ g.closure seeds ↔ i ∈ g.closure seeds') :
    g.closure seeds = g.closure seeds' := by
  unfold closure at same ⊢
  refine List.filter_congr fun i hi => Bool.eq_iff_iff.mpr ?_
  simpa only [List.mem_filter, hi, true_and] using same i

/-- A closure holds exactly what its seeds bring along. -/
theorem mem_closure {seeds : List Item} (hs : seeds ⊆ g.items) {i : Item} :
    i ∈ g.closure seeds ↔ g.Spans seeds i := by
  have first : ∀ r, g.next? ⟨r, 0⟩ = (g.production r).predicate.head? := fun r => by
    simp [next?, List.head?_eq_getElem?]
  have pending : ∀ r, r ∈ List.range' 1 g.rules.length ↔ 1 ≤ r ∧ r ≤ g.rules.length := fun r => by
    rw [List.mem_range'_1]
    omega
  constructor
  · intro h
    have hc := (List.mem_filter.mp h).2
    simp only [decide_eq_true_eq] at hc
    rcases hc with hm | ⟨hd, hr⟩
    · exact .seed hm
    · have he : i = ⟨i.rule, 0⟩ := by rw [← hd]
      rw [he]
      refine rulesLedTo_induction (P := fun r => g.Spans seeds ⟨r, 0⟩) ?_ ?_ i.rule hr
      · intro r hp hw
        obtain ⟨s, hsm, hn⟩ := List.mem_filterMap.mp hw
        have := (pending r).mp hp
        exact .expand (.seed hsm) hn (mem_rulesFor.mpr ⟨this.1, this.2, rfl⟩)
      · intro r hspan r' hp hhead
        have := (pending r').mp hp
        exact .expand hspan ((first r).trans hhead) (mem_rulesFor.mpr ⟨this.1, this.2, rfl⟩)
  · intro h
    have enough : (List.range' 1 g.rules.length).length ≤ g.rules.length := by simp
    obtain ⟨direct, through⟩ := @rulesLedTo_complete V g _ _ (seeds.filterMap g.next?) enough
    induction h with
    | seed hm => exact List.mem_filter.mpr ⟨hs hm, by simp [hm]⟩
    | @expand i symbol r _ hn hr ih =>
      obtain ⟨pos, hle, hsub⟩ := mem_rulesFor.mp hr
      refine List.mem_filter.mpr ⟨mem_items.mpr ⟨hle, Nat.zero_le _⟩, ?_⟩
      have hc := (List.mem_filter.mp ih).2
      simp only [decide_eq_true_eq] at hc
      refine decide_eq_true (Or.inr ⟨rfl, ?_⟩)
      rcases hc with hm | ⟨hd, hled⟩
      · exact direct r ((pending r).mpr ⟨pos, hle⟩)
          (List.mem_filterMap.mpr ⟨i, hm, by rw [hn, hsub]⟩)
      · have he : i = ⟨i.rule, 0⟩ := by rw [← hd]
        rw [he, first] at hn
        exact through i.rule hled r ((pending r).mpr ⟨pos, hle⟩) (by rw [hn, hsub])

end Grammar

end ShiftFirst
