import ShiftFirst.Grammar.Item
import ShiftFirst.Proofs.Grammar.Numbering

namespace ShiftFirst.Numbering

variable {n : Numbering} {predicate : List SymbolId} {r c : Nat} {first : ItemId}

theorem length_row (r : RuleId) (predicate : List SymbolId) (first : ItemId) :
    (row r predicate first).length = predicate.length + 1 := by
  rw [row, List.length_map, List.length_range]

theorem getElem?_row (r : RuleId) (first : ItemId) (within : c ≤ predicate.length) :
    (row r predicate first)[c]? =
      some ⟨r, c, predicate[c]?, (predicate[c]?).map fun _ => first + c + 1⟩ := by
  rw [row, List.getElem?_map, List.getElem?_range (Nat.lt_succ_of_le within)]
  rfl

/-- How many items rules have. -/
def span : List NumberedRule → Nat
  | [] => 0
  | rule :: rules => rule.predicate.length + 1 + span rules

theorem span_append (rules rules' : List NumberedRule) :
    span (rules ++ rules') = span rules + span rules' := by
  induction rules with
  | nil => exact (Nat.zero_add _).symm
  | cons rule rules ih => simp only [List.cons_append, span, ih, Nat.add_assoc]

/-- The items of each rule stand in a row, with the dot moving on, behind those of the rules before
it, and there are no others. -/
structure Laid (rules : List NumberedRule) (items : List NumberedItem) : Prop where
  total : items.length = span rules
  behind : ∀ (r : RuleId) (rule : NumberedRule), rules[r]? = some rule →
    rule.first = span (rules.take r)
  placed : ∀ (r : RuleId) (rule : NumberedRule), rules[r]? = some rule →
    ∀ c ≤ rule.predicate.length, items[rule.first + c]? = some ⟨r, c, rule.predicate[c]?,
      (rule.predicate[c]?).map fun _ => rule.first + c + 1⟩
  covered : ∀ id < items.length, ∃ (r : RuleId) (rule : NumberedRule), rules[r]? = some rule ∧
    ∃ c ≤ rule.predicate.length, rule.first + c = id

theorem laid_nil : Laid [] [] where
  total := rfl
  behind _ _ h := by cases h
  placed _ _ h := by cases h
  covered _ h := absurd h (Nat.not_lt_zero _)

theorem Laid.push (h : Laid n.rules n.items) (subject : SymbolId) (predicate : List SymbolId) :
    Laid (n.push subject predicate).rules (n.push subject predicate).items where
  total := by
    unfold Numbering.push
    rw [span_append, List.length_append, length_row, h.total]
    simp [span]
  behind r rule hr := by
    unfold Numbering.push
    rcases getElem?_concat hr with ⟨below, earlier⟩ | ⟨rfl, rfl⟩
    · rw [List.take_append_of_le_length (Nat.le_of_lt below)]
      exact h.behind r rule earlier
    · rw [List.take_left]
      exact h.total
  placed r rule hr c within := by
    unfold Numbering.push
    rcases getElem?_concat hr with ⟨_, earlier⟩ | ⟨rfl, rfl⟩
    · have there := h.placed r rule earlier c within
      exact (List.getElem?_append_left (List.getElem?_eq_some_iff.mp there).1).trans there
    · dsimp only at within ⊢
      rw [List.getElem?_append_right (Nat.le_add_right _ _), Nat.add_sub_cancel_left]
      exact getElem?_row _ _ within
  covered id bound := by
    unfold Numbering.push at bound ⊢
    rcases Nat.lt_or_ge id n.items.length with before | behind
    · obtain ⟨r, rule, hr, place⟩ := h.covered id before
      have below := (List.getElem?_eq_some_iff.mp hr).1
      exact ⟨r, rule, (List.getElem?_append_left below).trans hr, place⟩
    · rw [List.length_append, length_row] at bound
      refine ⟨n.rules.length, ⟨subject, predicate, n.items.length⟩, List.getElem?_concat_length,
        id - n.items.length, ?_, Nat.add_sub_cancel' behind⟩
      dsimp only
      omega

/-- The rules of the authors with a subject. -/
def authored (rules : List NumberedRule) (symbol : SymbolId) : List RuleId :=
  (List.range' 1 (rules.length - 1)).filter fun r =>
    (rules[r]?).elim 0 NumberedRule.subject = symbol

theorem lookup_file (subject symbol : SymbolId) (r : RuleId)
    (entries : List (SymbolId × List RuleId)) :
    (file subject r entries).lookup symbol =
      if symbol = subject then some ((entries.lookup subject).getD [] ++ [r])
      else entries.lookup symbol := by
  induction entries with
  | nil =>
    by_cases same : symbol = subject
    · simp [file, same]
    · simp [file, same, List.lookup_cons, beq_eq_false_iff_ne.mpr same]
  | cons entry entries ih =>
    obtain ⟨other, rules⟩ := entry
    rw [file]
    by_cases same : other = subject
    · subst same
      rw [if_pos rfl]
      by_cases this : symbol = other
      · simp [this]
      · simp [this, List.lookup_cons, beq_eq_false_iff_ne.mpr this]
    · rw [if_neg same, List.lookup_cons, List.lookup_cons, List.lookup_cons, ih]
      by_cases this : symbol = other
      · subst this
        simp [same]
      · simp [beq_eq_false_iff_ne.mpr this, beq_eq_false_iff_ne.mpr (Ne.symm same)]

theorem authored_concat {rules : List NumberedRule} (filled : rules ≠ []) (rule : NumberedRule)
    (symbol : SymbolId) :
    authored (rules ++ [rule]) symbol =
      authored rules symbol ++ if rule.subject = symbol then [rules.length] else [] := by
  have pos := List.length_pos_iff.mpr filled
  have numbers : List.range' 1 ((rules ++ [rule]).length - 1) =
      List.range' 1 (rules.length - 1) ++ [rules.length] := by
    rw [List.length_append, List.length_singleton, Nat.add_sub_cancel]
    obtain ⟨k, count⟩ := Nat.exists_eq_succ_of_ne_zero (Nat.ne_of_gt pos)
    rw [count, Nat.succ_sub_one, List.range'_concat, Nat.one_mul, Nat.add_comm 1 k]
  unfold authored
  rw [numbers, List.filter_append]
  congr 1
  · refine List.filter_congr fun r mem => ?_
    have below : r < rules.length :=
      Nat.lt_of_lt_of_eq (List.mem_range'_1.mp mem).2 (Nat.add_sub_cancel' pos)
    rw [List.getElem?_append_left below]
  · by_cases same : rule.subject = symbol <;> simp [same]

/-- What a numbering keeps: its first rule is the one that begins every grammar, its items are laid
out, and its other rules are filed. -/
structure Arena (n : Numbering) : Prop where
  opens : ∃ start, n.rules[0]? = some ⟨SymbolTable.startId, [start, SymbolTable.endId], 0⟩
  laid : Laid n.rules n.items
  filed : ∀ symbol, n.bySubject.lookup symbol =
    if authored n.rules symbol = [] then none else some (authored n.rules symbol)

theorem arena_begin (start : Symbol) : Arena (begin start) where
  opens := ⟨_, rfl⟩
  laid := Laid.push (n := { symbols := (SymbolTable.initial.intern start).2 }) laid_nil _ _
  filed _ := rfl

theorem Arena.add (h : Arena n) (p : Production) : Arena (n.add p) where
  opens := by
    obtain ⟨start, first⟩ := h.opens
    have below := (List.getElem?_eq_some_iff.mp first).1
    exact ⟨start, (List.getElem?_append_left below).trans first⟩
  laid := Laid.push (n := { n with symbols := _ }) h.laid _ _
  filed symbol := by
    have filled : n.rules ≠ [] := by
      obtain ⟨_, first⟩ := h.opens
      exact List.ne_nil_of_length_pos (List.getElem?_eq_some_iff.mp first).1
    let subject := (n.symbols.intern p.subject).1
    have numbered : authored (n.add p).rules symbol = authored n.rules symbol ++
        if subject = symbol then [n.rules.length] else [] :=
      authored_concat filled _ symbol
    have entry : (n.add p).bySubject.lookup symbol =
        if symbol = subject then some ((n.bySubject.lookup subject).getD [] ++ [n.rules.length])
        else n.bySubject.lookup symbol :=
      lookup_file subject symbol n.rules.length n.bySubject
    have before : (n.bySubject.lookup symbol).getD [] = authored n.rules symbol := by
      rw [h.filed]
      split
      next none => exact none.symm
      next => rfl
    rw [numbered, entry]
    by_cases same : symbol = subject
    · subst same
      rw [if_pos rfl, if_pos rfl, before, if_neg (by simp)]
    · rw [if_neg same, if_neg (Ne.symm same), List.append_nil, h.filed]

theorem arena_of_ofProductions {ps : List Production} (h : ofProductions ps = .ok n) : Arena n := by
  obtain ⟨_, _, arena⟩ := invariant (motive := fun _ n _ => Arena n) arena_begin
    (fun _ _ _ p arena => arena.add p) h
  exact arena

theorem Arena.rulesFor (h : Arena n) (symbol : SymbolId) :
    n.rulesFor symbol = authored n.rules symbol := by
  rw [Numbering.rulesFor, h.filed]
  split
  next none => exact none.symm
  next => rfl

theorem Arena.isNonterminal_iff (h : Arena n) (symbol : SymbolId) :
    n.isNonterminal symbol = true ↔ n.rulesFor symbol ≠ [] := by
  rw [h.rulesFor, isNonterminal, h.filed]
  split
  next none => simp [none]
  next some => simp [some]

/-- The item of a rule with its dot at some place. -/
theorem Arena.item (h : Arena n) (hr : r < n.rules.length) (hc : c ≤ (n.predicate r).length) :
    n.items[n.firstItem r + c]? = some ⟨r, c, (n.predicate r)[c]?,
      ((n.predicate r)[c]?).map fun _ => n.firstItem r + c + 1⟩ :=
  h.laid.placed r _ (getElem?_rules hr) c hc

theorem Arena.exists_place (h : Arena n) {id : ItemId} (bound : id < n.items.length) :
    ∃ r < n.rules.length, ∃ c ≤ (n.predicate r).length, n.firstItem r + c = id := by
  obtain ⟨r, found, hr, c, hc, place⟩ := h.laid.covered id bound
  have below := (List.getElem?_eq_some_iff.mp hr).1
  obtain rfl := Option.some.inj ((getElem?_rules below).symm.trans hr)
  exact ⟨r, below, c, hc, place⟩

theorem Arena.place_unique (h : Arena n) {r' c' : Nat} (hr : r < n.rules.length)
    (hr' : r' < n.rules.length) (hc : c ≤ (n.predicate r).length)
    (hc' : c' ≤ (n.predicate r').length) (same : n.firstItem r + c = n.firstItem r' + c') :
    r = r' ∧ c = c' := by
  have there := h.item hr hc
  rw [same, h.item hr' hc'] at there
  have item := Option.some.inj there
  exact ⟨(congrArg NumberedItem.rule item).symm, (congrArg NumberedItem.dot item).symm⟩

theorem Arena.accept (h : Arena n) :
    n.acceptItem = n.firstItem 0 + (n.predicate 0).length ∧
      n.items[n.acceptItem]? = some ⟨0, 2, none, none⟩ := by
  obtain ⟨start, first⟩ := h.opens
  have below := (List.getElem?_eq_some_iff.mp first).1
  have opening : n.predicate 0 = [start, SymbolTable.endId] := by
    rw [Numbering.predicate, first]
    rfl
  have last := h.item below (c := 2) (by rw [opening]; exact Nat.le_refl 2)
  rw [opening] at last ⊢
  exact ⟨rfl, last⟩

section Grammar

variable {V : Type} {g : Grammar V}

theorem getElem?_productions (g : Grammar V) (h : r < g.ruleCount) :
    g.productions[r]? = some (g.production r) := by
  cases r with
  | zero => rfl
  | succ k =>
    have below : k < g.rules.length := Nat.lt_of_succ_lt_succ h
    have rule : g.rules[k]? = some g.rules[k] := List.getElem?_eq_getElem below
    rw [Grammar.productions, List.getElem?_cons_succ, List.getElem?_map, rule,
      Grammar.production_of_getElem? rule]
    rfl

theorem symbols_of_ofProductions {ps : List Production} (h : ofProductions ps = .ok n) :
    ∃ first ∈ ps.head?, n.symbols = SymbolTable.initial.mention
      (first.subject :: ps.flatMap fun p => p.subject :: p.predicate) := by
  refine invariant (motive := fun start n ps => n.symbols = SymbolTable.initial.mention
    (start :: ps.flatMap fun p => p.subject :: p.predicate)) (fun _ => rfl) ?_ h
  intro start n ps p before
  have whole : (n.add p).symbols = n.symbols.mention (p.subject :: p.predicate) :=
    SymbolTable.internAll_snd _ _
  rw [whole, before, SymbolTable.mention, SymbolTable.mention, SymbolTable.mention,
    ← List.foldl_append, List.flatMap_append, List.flatMap_singleton]
  rfl

/-- A numbering is that of a grammar: it has its names and its rules. -/
structure Of (n : Numbering) (g : Grammar V) : Prop where
  symbols : n.symbols = g.symbols
  rules : List.Forall₂ (Writes n.symbols) g.productions n.rules
  arena : Arena n

theorem exists_of (g : Grammar V) : ∃ n, ofRules g.rules = .ok n ∧ n.Of g := by
  have sound : (g.rules.findSome? fun rule => rule.fault?) = none :=
    List.findSome?_eq_none_iff.mpr g.faultless
  have start : ∀ first ∈ (g.rules.map Rule.toProduction).head?, first.subject = g.start := by
    intro first mem
    rw [List.head?_map, List.head?_eq_some_head g.rules_ne_nil] at mem
    rw [← Option.some.inj mem]
    rfl
  cases compiled : ofRules g.rules with
  | error e =>
    rcases ofRules_eq_error_iff.mp compiled with ⟨empty, _⟩ | ⟨_, faulty⟩
    · exact absurd empty g.rules_ne_nil
    · cases sound.symm.trans faulty
  | ok n =>
    obtain ⟨first, mem, numbers⟩ := exists_numbers compiled
    obtain ⟨first', mem', symbols⟩ := symbols_of_ofProductions compiled
    rw [start first mem] at numbers
    rw [start first' mem', List.flatMap_map] at symbols
    exact ⟨n, rfl, symbols, numbers, arena_of_ofProductions compiled⟩

namespace Of

variable (h : n.Of g)
include h

theorem length_rules : n.rules.length = g.ruleCount := by
  rw [← List.Forall₂.length_eq h.rules, Grammar.productions, List.length_cons, List.length_map]
  rfl

theorem writes (hr : r < g.ruleCount) : Writes n.symbols (g.production r) (n.rule r) :=
  writes_rule h.rules (getElem?_productions g hr)

theorem production (hr : r < g.ruleCount) : n.production r = g.production r :=
  (h.writes hr).production

theorem length_predicate (hr : r < g.ruleCount) :
    (n.predicate r).length = (g.production r).predicate.length :=
  (List.Forall₂.length_eq (h.writes hr).2).symm

theorem firstItem (hr : r < g.ruleCount) : n.firstItem r = g.firstItem r := by
  have behind : ∀ k < g.ruleCount, n.firstItem k = span (n.rules.take k) := fun k hk =>
    h.arena.laid.behind k _ (getElem?_rules (h.length_rules ▸ hk))
  induction r with
  | zero =>
    rw [behind 0 hr]
    rfl
  | succ k ih =>
    have hk := Nat.lt_of_succ_lt hr
    have taken : n.rules.take (k + 1) = n.rules.take k ++ [n.rule k] := by
      rw [List.take_add_one, getElem?_rules (h.length_rules ▸ hk)]
      rfl
    rw [behind _ hr, taken, span_append, ← behind k hk, ih hk, Grammar.firstItem,
      ← h.length_predicate hk]
    simp [span, rule, Nat.add_assoc]

/-- The items of a grammar have the numbers that it computes for them. -/
theorem item {i : Item} (mem : i ∈ g.items) :
    n.items[g.itemId i]? = some ⟨i.rule, i.dot, (g.next? i).bind n.symbols.id?,
      (g.next? i).map fun _ => g.itemId i.advance⟩ := by
  obtain ⟨r, d⟩ := i
  obtain ⟨hr, hd⟩ := Grammar.mem_items.mp mem
  have hr : r < g.ruleCount := Nat.lt_succ_of_le hr
  have length := h.length_predicate hr
  have there := h.arena.item (h.length_rules ▸ hr) (length ▸ hd)
  rw [h.firstItem hr] at there
  have next : (n.predicate r)[d]? = (g.next? ⟨r, d⟩).bind n.symbols.id? :=
    (h.writes hr).2.getElem? d
  have leads : ((n.predicate r)[d]?).map (fun _ => g.firstItem r + d + 1) =
      (g.next? ⟨r, d⟩).map fun _ => g.itemId ⟨r, d + 1⟩ := by
    rw [Grammar.next?]
    rcases Nat.lt_or_ge d (n.predicate r).length with inside | beyond
    · rw [List.getElem?_eq_getElem inside, List.getElem?_eq_getElem (length ▸ inside)]
      rfl
    · rw [List.getElem?_eq_none beyond, List.getElem?_eq_none (length ▸ beyond)]
      rfl
  rw [leads, next] at there
  exact there

/-- An item and its number are displayed alike. -/
theorem itemText {i : Item} (mem : i ∈ g.items) {numbered : NumberedItem}
    (there : n.items[g.itemId i]? = some numbered) : n.itemText numbered = g.itemText i := by
  obtain rfl := Option.some.inj (there.symm.trans (h.item mem))
  rw [Numbering.itemText, h.production (Nat.lt_succ_of_le (Grammar.mem_items.mp mem).1)]
  rfl

theorem span_map (ids : List RuleId) (known : ∀ r ∈ ids, r < g.ruleCount) :
    span (ids.map n.rule) = (ids.flatMap g.itemsOf).length := by
  induction ids with
  | nil => rfl
  | cons r ids ih =>
    obtain ⟨hr, later⟩ := List.forall_mem_cons.mp known
    rw [List.map_cons, span, ih later, List.flatMap_cons, List.length_append, Grammar.itemsOf,
      List.length_map, List.length_range, ← h.length_predicate hr]
    rfl

theorem length_items : n.items.length = g.items.length := by
  have rules : n.rules = (List.range g.ruleCount).map n.rule := by
    refine List.ext_getElem? fun r => ?_
    rcases Nat.lt_or_ge r g.ruleCount with inside | beyond
    · rw [getElem?_rules (h.length_rules ▸ inside), List.getElem?_map, List.getElem?_range inside]
      rfl
    · rw [List.getElem?_eq_none (h.length_rules ▸ beyond),
        List.getElem?_eq_none (by simpa using beyond)]
  rw [h.arena.laid.total, rules]
  exact h.span_map _ fun r mem => List.mem_range.mp mem

theorem rulesFor {name : Symbol} {symbol : SymbolId} (named : n.symbols.id? name = some symbol) :
    n.rulesFor symbol = g.rulesFor name := by
  rw [h.arena.rulesFor, authored, Grammar.rulesFor, h.length_rules]
  refine List.filter_congr fun r mem => ?_
  have hr : r < g.ruleCount := by
    rw [Grammar.ruleCount, Nat.add_comm]
    exact (List.mem_range'_1.mp mem).2
  have subject := (h.writes hr).1
  rw [getElem?_rules (h.length_rules ▸ hr)]
  refine decide_eq_decide.mpr ⟨fun same => ?_, fun same => ?_⟩
  · exact SymbolTable.name_injective (subject.trans (congrArg some same)) named
  · rw [same, named] at subject
    exact (Option.some.inj subject).symm

theorem isNonterminal {name : Symbol} {symbol : SymbolId}
    (named : n.symbols.id? name = some symbol) : n.isNonterminal symbol = g.isNonterminal name := by
  rw [Bool.eq_iff_iff, h.arena.isNonterminal_iff, h.rulesFor named, Grammar.isNonterminal,
    List.any_eq_true]
  constructor
  · intro filled
    obtain ⟨r, mem⟩ := List.exists_mem_of_ne_nil _ filled
    obtain ⟨pos, hr, subject⟩ := Grammar.mem_rulesFor.mp mem
    obtain ⟨rule, mem, _, production⟩ := Grammar.rule_of_authored pos hr
    exact ⟨rule, mem, decide_eq_true (production ▸ subject)⟩
  · rintro ⟨rule, mem, subject⟩
    obtain ⟨k, hk, rfl⟩ := List.mem_iff_getElem.mp mem
    have there := Grammar.mem_rulesFor_authored ⟨k, hk⟩
    rw [show (g.rules.get ⟨k, hk⟩).subject = name from of_decide_eq_true subject] at there
    exact List.ne_nil_of_mem there

theorem acceptItem : n.acceptItem = g.itemId Grammar.acceptItem := by
  rw [Numbering.acceptItem, h.firstItem (Nat.succ_pos _)]
  rfl

end Of

/-- A numbering that rules make is that of the grammar that they make. -/
theorem exists_grammar {rules : List (Rule V)} (compiled : ofRules rules = .ok n) :
    ∃ g : Grammar V, Grammar.ofRules rules = .ok g ∧ n.Of g := by
  cases made : Grammar.ofRules rules with
  | error e =>
    have refused : ofRules rules = .error e := by
      rwa [Grammar.ofRules_eq_error_iff, ← ofRules_eq_error_iff] at made
    cases compiled.symm.trans refused
  | ok g =>
    obtain rfl := Grammar.ofRules_eq_ok_iff.mp made
    obtain ⟨n', compiled', agrees⟩ := exists_of g
    cases compiled.symm.trans compiled'
    exact ⟨g, rfl, agrees⟩

end Grammar

/-- Each number of an item stands for one rule and one place of the dot in it, that far behind the
first item of the rule. The item has the symbol behind the dot, and leads to the item with the dot
one symbol further on unless there is none. The accepting item is the last one of the rule that
begins every grammar, and the rules for a symbol are those that have it as their subject. The
grammar of the same rules computes the same numbers, and has the same items and rules under
them. -/
theorem arena_layout {V : Type} {rules : List (Rule V)} (compiled : ofRules rules = .ok n) :
    n.rules.length = rules.length + 1 ∧
    (∀ id < n.items.length, ∃! place : RuleId × Nat, place.1 < n.rules.length ∧
      place.2 ≤ (n.predicate place.1).length ∧ n.firstItem place.1 + place.2 = id) ∧
    (∀ r < n.rules.length, ∀ c ≤ (n.predicate r).length, ∃ i,
      n.items[n.firstItem r + c]? = some i ∧ i.rule = r ∧ i.dot = c ∧
      i.next = (n.predicate r)[c]? ∧ (i.next = none ↔ c = (n.predicate r).length) ∧
      (i.advance = none ↔ i.next = none) ∧
      ∀ id, i.advance = some id → id = n.firstItem r + (c + 1)) ∧
    (n.acceptItem = n.firstItem 0 + (n.predicate 0).length ∧
      n.items[n.acceptItem]? = some ⟨0, 2, none, none⟩) ∧
    (∀ symbol,
      n.rulesFor symbol =
        (List.range' 1 rules.length).filter (fun r => n.subject r = symbol) ∧
      (n.rulesFor symbol ≠ [] ↔ n.isNonterminal symbol = true)) ∧
    ∃ g : Grammar V, Grammar.ofRules rules = .ok g ∧ n.Of g ∧
      n.items.length = g.items.length ∧ n.acceptItem = g.itemId Grammar.acceptItem ∧
      (∀ r < g.ruleCount, n.production r = g.production r) ∧
      (∀ i ∈ g.items, ∃ numbered, n.items[g.itemId i]? = some numbered ∧
        numbered = ⟨i.rule, i.dot, (g.next? i).bind n.symbols.id?,
          (g.next? i).map fun _ => g.itemId i.advance⟩ ∧
        n.itemText numbered = g.itemText i) ∧
      ∀ name symbol, n.symbols.id? name = some symbol →
        n.rulesFor symbol = g.rulesFor name ∧ n.isNonterminal symbol = g.isNonterminal name := by
  have arena := arena_of_ofProductions compiled
  have count := length_rules compiled
  obtain ⟨g, made, agrees⟩ := exists_grammar compiled
  refine ⟨count, fun id bound => ?_, fun r hr c hc => ?_, arena.accept, fun symbol =>
    ⟨?_, (arena.isNonterminal_iff symbol).symm⟩, g, made, agrees, agrees.length_items,
    agrees.acceptItem, fun r hr => agrees.production hr, fun i mem =>
    ⟨_, agrees.item mem, rfl, agrees.itemText mem (agrees.item mem)⟩, fun name symbol named =>
    ⟨agrees.rulesFor named, agrees.isNonterminal named⟩⟩
  · obtain ⟨r, hr, c, hc, place⟩ := arena.exists_place bound
    refine ⟨(r, c), ⟨hr, hc, place⟩, fun ⟨r', c'⟩ ⟨hr', hc', place'⟩ => ?_⟩
    obtain ⟨rfl, rfl⟩ := arena.place_unique hr' hr hc' hc (place'.trans place.symm)
    rfl
  · refine ⟨_, arena.item hr hc, rfl, rfl, rfl, ?_, Option.map_eq_none_iff, fun id leads => ?_⟩
    · exact List.getElem?_eq_none_iff.trans
        ⟨Nat.le_antisymm hc, fun last => Nat.le_of_eq last.symm⟩
    · obtain ⟨_, _, rfl⟩ := Option.map_eq_some_iff.mp leads
      exact Nat.add_assoc _ _ _
  · rw [arena.rulesFor, authored, count, Nat.add_sub_cancel]
    rfl

/-- Sums of numbers. -/
def sumRules : List (Rule Unit) :=
  [⟨⟨"sum", ["sum", "+", "n"]⟩, fun _ => .ok ()⟩, ⟨⟨"sum", ["n"]⟩, fun _ => .ok ()⟩]

theorem arena_layout_sum :
    ∃ n, ofRules sumRules = .ok n ∧ n.items.length = 9 ∧
      (∃! place : RuleId × Nat, place.1 < n.rules.length ∧
        place.2 ≤ (n.predicate place.1).length ∧ n.firstItem place.1 + place.2 = 7) ∧
      (∃ i, n.items[n.firstItem 1 + 3]? = some i ∧ i.rule = 1 ∧ i.dot = 3 ∧
        (i.advance = none ↔ i.next = none)) ∧
      n.rulesFor (n.subject 1) = [1, 2] ∧
      ∃ g, Grammar.ofRules sumRules = .ok g ∧ n.acceptItem = g.itemId Grammar.acceptItem := by
  have compiled : ∃ n, ofRules sumRules = .ok n := ⟨_, rfl⟩
  obtain ⟨n, compiled⟩ := compiled
  obtain ⟨count, places, items, _, filed, g, made, _, _, accept, _⟩ := arena_layout compiled
  cases compiled
  obtain ⟨i, there, rule, dot, _, _, ends, _⟩ := items 1 (by decide) 3 (by decide)
  exact ⟨_, rfl, rfl, places 7 (by decide), ⟨i, there, rule, dot, ends⟩, (filed _).1, g, made,
    accept⟩

end ShiftFirst.Numbering
