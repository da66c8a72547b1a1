import ShiftFirst.Proofs.Automaton.Canonical

namespace ShiftFirst

def topState (states : List StateId) : StateId := states.headD Automaton.start

/-- The states and symbols on a way from the starting state, the last ones first. -/
inductive Automaton.Path (a : Automaton) : List StateId → List Symbol → Prop
  | nil : Path a [] []
  | cons {states : List StateId} {symbols : List Symbol} {symbol : Symbol} {q : StateId}
      (below : Path a states symbols)
      (edge : a.transition? (topState states) symbol = some q) :
      Path a (q :: states) (symbol :: symbols)

theorem Automaton.Path.length_eq {a : Automaton} {states : List StateId} {symbols : List Symbol}
    (h : a.Path states symbols) : symbols.length = states.length := by
  induction h with
  | nil => rfl
  | cons _ _ ih => simp [ih]

theorem Automaton.Path.drop {a : Automaton} {states : List StateId} {symbols : List Symbol}
    (h : a.Path states symbols) (n : Nat) : a.Path (states.drop n) (symbols.drop n) := by
  induction n generalizing states symbols with
  | zero => exact h
  | succ n ih =>
    cases h with
    | nil => simpa using Path.nil
    | cons below _ => exact ih below

namespace Grammar

variable {V : Type} {g : Grammar V} {a : Automaton}

theorem Spans.of_dot_pos {seeds : List Item} {r d : Nat} (h : g.Spans seeds ⟨r, d + 1⟩) :
    (⟨r, d + 1⟩ : Item) ∈ seeds := by
  cases h with
  | seed mem => exact mem

theorem Spans.initialItem_mem {seeds : List Item} (h : g.Spans seeds initialItem) :
    initialItem ∈ seeds := by
  cases h with
  | seed mem => exact mem
  | expand _ _ mem => exact absurd (mem_rulesFor.mp mem).1 (by decide)

theorem mem_goto {items : ItemSet} (hs : items ⊆ g.items) {symbol : Symbol} {j : Item} :
    j ∈ g.goto items symbol ↔
      g.Spans ((items.filter fun i => g.next? i = some symbol).map Item.advance) j :=
  mem_closure (goto_seeds_subset hs)

/-- An item with the dot behind a symbol comes from the item with the dot in front of it. -/
theorem retreat_goto {items : ItemSet} (hs : items ⊆ g.items) {symbol : Symbol} {r d : Nat}
    (h : (⟨r, d + 1⟩ : Item) ∈ g.goto items symbol) :
    (⟨r, d⟩ : Item) ∈ items ∧ g.next? ⟨r, d⟩ = some symbol := by
  obtain ⟨i, hi, he⟩ := List.mem_map.mp ((mem_goto hs).mp h).of_dot_pos
  obtain ⟨hr, hd⟩ := Item.mk.inj he
  obtain ⟨hm, hn⟩ := List.mem_filter.mp hi
  obtain rfl : i = ⟨r, d⟩ := by
    obtain ⟨r', d'⟩ := i
    simp only [Nat.add_right_cancel_iff] at hr hd
    rw [hr, hd]
  exact ⟨hm, by simpa using hn⟩

theorem initialItem_not_mem_goto {items : ItemSet} (hs : items ⊆ g.items) {symbol : Symbol} :
    initialItem ∉ g.goto items symbol := by
  intro h
  obtain ⟨i, _, he⟩ := List.mem_map.mp ((mem_goto hs).mp h).initialItem_mem
  simp [Item.advance, initialItem] at he

theorem Reachable.eq_of_initialItem_mem {items : ItemSet} (h : g.Reachable items)
    (hm : initialItem ∈ items) : items = g.closure [initialItem] := by
  cases h with
  | initial => rfl
  | step origin => exact absurd hm (initialItem_not_mem_goto origin.sublist.subset)

/-- Only one reachable set says that a whole text but its end has been read. -/
theorem Reachable.eq_of_started_mem {items : ItemSet} (h : g.Reachable items)
    (hm : (⟨0, 1⟩ : Item) ∈ items) :
    items = g.goto (g.closure [initialItem]) g.start := by
  cases h with
  | initial => exact absurd (dot_of_mem_initial hm) (by decide)
  | step origin =>
    obtain ⟨hi, hn⟩ := retreat_goto origin.sublist.subset hm
    rw [origin.eq_of_initialItem_mem hi]
    congr 1
    exact (Option.some.inj hn).symm

/-- Only one reachable set says that a whole text has been read. -/
theorem Reachable.eq_of_acceptItem_mem {items : ItemSet} (h : g.Reachable items)
    (hm : acceptItem ∈ items) :
    items = g.goto (g.goto (g.closure [initialItem]) g.start) endSymbol := by
  cases h with
  | initial => exact absurd (dot_of_mem_initial hm) (by decide)
  | step origin =>
    obtain ⟨hi, hn⟩ := retreat_goto origin.sublist.subset hm
    rw [origin.eq_of_started_mem hi]
    congr 1
    exact (Option.some.inj hn).symm

theorem closure_expand {seeds : List Item} (hs : seeds ⊆ g.items) {i : Item} {symbol : Symbol}
    {r : RuleId} (hi : i ∈ g.closure seeds) (hn : g.next? i = some symbol)
    (hr : r ∈ g.rulesFor symbol) : (⟨r, 0⟩ : Item) ∈ g.closure seeds :=
  (mem_closure hs).mpr (.expand ((mem_closure hs).mp hi) hn hr)

theorem closure_opens {seeds : List Item} (hs : seeds ⊆ g.items) {r : RuleId}
    (hm : (⟨r, 0⟩ : Item) ∈ g.closure seeds) (hn : (⟨r, 0⟩ : Item) ∉ seeds) :
    ∃ i ∈ g.closure seeds, g.next? i = some (g.production r).subject := by
  cases (mem_closure hs).mp hm with
  | seed mem => exact absurd mem hn
  | expand origin next mem =>
    exact ⟨_, (mem_closure hs).mpr origin, by rw [next, (mem_rulesFor.mp mem).2.2]⟩

theorem Reachable.expand {items : ItemSet} (h : g.Reachable items) {i : Item} {symbol : Symbol}
    {r : RuleId} (hi : i ∈ items) (hn : g.next? i = some symbol) (hr : r ∈ g.rulesFor symbol) :
    (⟨r, 0⟩ : Item) ∈ items := by
  cases h with
  | initial => exact closure_expand (by simp [initialItem_mem]) hi hn hr
  | step origin => exact closure_expand (goto_seeds_subset origin.sublist.subset) hi hn hr

theorem Reachable.opens {items : ItemSet} (h : g.Reachable items) {r : Nat} (pos : 1 ≤ r)
    (hm : (⟨r, 0⟩ : Item) ∈ items) :
    ∃ i ∈ items, g.next? i = some (g.production r).subject := by
  cases h with
  | initial =>
    refine closure_opens (by simp [initialItem_mem]) hm fun hi => ?_
    have zero : r = 0 := (Item.mk.inj (List.mem_singleton.mp hi)).1
    omega
  | step origin =>
    refine closure_opens (goto_seeds_subset origin.sublist.subset) hm fun hi => ?_
    obtain ⟨i, _, he⟩ := List.mem_map.mp hi
    exact absurd (Item.mk.inj he).2 (Nat.succ_ne_zero _)

namespace Canonical

variable (h : g.Canonical a)
include h

theorem items_start : (a.state Automaton.start).items = g.closure [initialItem] := by
  obtain ⟨s, hs, he⟩ := Option.map_eq_some_iff.mp h.start
  rw [← he, Automaton.state, hs]
  rfl

theorem items_accept : (a.state Automaton.accept).items = g.closure [acceptItem] := by
  obtain ⟨s, hs, he⟩ := Option.map_eq_some_iff.mp h.accept
  rw [← he, Automaton.state, hs]
  rfl

theorem mem_items_accept {i : Item} :
    i ∈ (a.state Automaton.accept).items ↔ i = acceptItem := by
  rw [h.items_accept, closure_acceptItem]

omit h in
theorem getElem?_items {q : StateId} {i : Item} (hi : i ∈ (a.state q).items) :
    (a.states.map State.items)[q]? = some (a.state q).items := by
  unfold Automaton.state at hi ⊢
  rw [List.getElem?_map]
  cases hq : a.states[q]? with
  | none =>
    rw [hq, Option.getD_none] at hi
    exact absurd hi List.not_mem_nil
  | some s => rfl

theorem eq_of_items {q q' : StateId} {i : Item} (hi : i ∈ (a.state q).items)
    (he : (a.state q).items = (a.state q').items) : q = q' := by
  have hq := getElem?_items hi
  refine (List.getElem?_inj (List.getElem?_eq_some_iff.mp hq).1 h.nodup).mp ?_
  rw [hq, getElem?_items (he ▸ hi), he]

theorem reachable_or_accept {q : StateId} {i : Item} (hi : i ∈ (a.state q).items) :
    g.Reachable (a.state q).items ∨ q = Automaton.accept := by
  have hm := List.mem_of_getElem? (getElem?_items hi)
  exact ((h.mem_items _).mp hm).imp_right fun he =>
    h.eq_of_items hi (he.trans h.items_accept.symm)

theorem reachable_of_next {q : StateId} {i : Item} {symbol : Symbol}
    (hi : i ∈ (a.state q).items) (hn : g.next? i = some symbol) :
    g.Reachable (a.state q).items := by
  refine (h.reachable_or_accept hi).resolve_right fun hq => ?_
  rw [hq] at hi
  rw [h.mem_items_accept.mp hi, next?_acceptItem] at hn
  simp at hn

theorem ne_accept_of_next {q : StateId} {i : Item} {symbol : Symbol}
    (hi : i ∈ (a.state q).items) (hn : g.next? i = some symbol) : q ≠ Automaton.accept := by
  rintro rfl
  rw [h.mem_items_accept.mp hi, next?_acceptItem] at hn
  simp at hn

theorem items_subset (q : StateId) : (a.state q).items ⊆ g.items := by
  intro i hi
  rcases h.reachable_or_accept hi with hr | rfl
  · exact hr.sublist.subset hi
  · rw [h.mem_items_accept.mp hi]
    exact acceptItem_mem

theorem retreat {q t : StateId} {symbol : Symbol} (ht : a.transition? q symbol = some t)
    {r d : Nat} (hi : (⟨r, d + 1⟩ : Item) ∈ (a.state t).items) :
    (⟨r, d⟩ : Item) ∈ (a.state q).items ∧ g.next? ⟨r, d⟩ = some symbol := by
  rw [(h.target q symbol t ht).2] at hi
  exact retreat_goto (h.items_subset q) hi

theorem advance {q : StateId} {i : Item} {symbol : Symbol} (hi : i ∈ (a.state q).items)
    (hn : g.next? i = some symbol) :
    ∃ t, a.transition? q symbol = some t ∧ i.advance ∈ (a.state t).items := by
  obtain ⟨t, ht⟩ := Option.isSome_iff_exists.mp
    ((h.transition_isSome q symbol).mpr ⟨i, hi, hn⟩)
  refine ⟨t, ht, ?_⟩
  rw [(h.target q symbol t ht).2, mem_goto (h.items_subset q)]
  exact .seed (List.mem_map.mpr ⟨i, List.mem_filter.mpr ⟨hi, by simpa using hn⟩, rfl⟩)

theorem expand {q : StateId} {i : Item} {symbol : Symbol} {r : RuleId}
    (hi : i ∈ (a.state q).items) (hn : g.next? i = some symbol) (hr : r ∈ g.rulesFor symbol) :
    (⟨r, 0⟩ : Item) ∈ (a.state q).items :=
  (h.reachable_of_next hi hn).expand hi hn hr

/-- Where a rule of the authors begins, a transition leads over its subject. -/
theorem transition_of_opening {q : StateId} {r : Nat} (pos : 1 ≤ r)
    (hi : (⟨r, 0⟩ : Item) ∈ (a.state q).items) :
    ∃ t, a.transition? q (g.production r).subject = some t := by
  have hr : g.Reachable (a.state q).items := by
    refine (h.reachable_or_accept hi).resolve_right fun hq => ?_
    rw [hq] at hi
    exact absurd (congrArg Item.dot (h.mem_items_accept.mp hi)) (by simp [acceptItem])
  exact Option.isSome_iff_exists.mp ((h.transition_isSome q _).mpr (hr.opens pos hi))

theorem eq_start_of_initialItem_mem {q : StateId} (hi : initialItem ∈ (a.state q).items) :
    q = Automaton.start := by
  refine h.eq_of_items hi ?_
  rw [h.items_start]
  refine ((h.reachable_or_accept hi).resolve_right fun hq => ?_).eq_of_initialItem_mem hi
  rw [hq] at hi
  exact absurd (h.mem_items_accept.mp hi) (by decide)

theorem initialItem_mem_start : initialItem ∈ (a.state Automaton.start).items := by
  rw [h.items_start, mem_closure (by simp [initialItem_mem])]
  exact .seed (List.mem_singleton.mpr rfl)

/-- No way leads back to the starting state. -/
theorem eq_nil_of_top_start {states : List StateId} {symbols : List Symbol}
    (path : a.Path states symbols) (top : topState states = Automaton.start) : states = [] := by
  cases path with
  | nil => rfl
  | @cons states symbols symbol q below edge =>
    obtain rfl : q = Automaton.start := top
    have hi := h.initialItem_mem_start
    rw [(h.target _ _ _ edge).2] at hi
    exact absurd hi (initialItem_not_mem_goto (h.items_subset _))

theorem mem_of_reduction {q : StateId} {r : Nat} (hr : (a.state q).reduction = some r) :
    (⟨r, (g.production r).predicate.length⟩ : Item) ∈ (a.state q).items := by
  obtain ⟨⟨r', d⟩, hi, hn, he⟩ := (h.reduction q r).mp hr
  obtain rfl : r' = r := he
  rwa [← (next?_eq_none_iff (h.items_subset q hi)).mp hn]

theorem reduction_of_mem {q : StateId} {r : Nat}
    (hi : (⟨r, (g.production r).predicate.length⟩ : Item) ∈ (a.state q).items) :
    (a.state q).reduction = some r :=
  (h.reduction q r).mpr ⟨_, hi, (next?_eq_none_iff (h.items_subset q hi)).mpr rfl, rfl⟩

theorem le_of_reduction {q : StateId} {r : Nat} (hr : (a.state q).reduction = some r) :
    r ≤ g.rules.length :=
  (Grammar.mem_items.mp (h.items_subset q (h.mem_of_reduction hr))).1

theorem of_transition_accept {q : StateId} {symbol : Symbol}
    (ht : a.transition? q symbol = some Automaton.accept) :
    symbol = endSymbol ∧ (⟨0, 1⟩ : Item) ∈ (a.state q).items := by
  have hacc : acceptItem ∈ (a.state Automaton.accept).items := h.mem_items_accept.mpr rfl
  obtain ⟨hi, hn⟩ := h.retreat ht hacc
  exact ⟨(Option.some.inj hn).symm, hi⟩

/-- Walking back from an item retraces the symbols in front of its dot, to a state where its rule
begins. -/
theorem retrace {states : List StateId} {symbols : List Symbol} (path : a.Path states symbols)
    {r d : Nat} (hi : (⟨r, d⟩ : Item) ∈ (a.state (topState states)).items) :
    d ≤ states.length ∧ (symbols.take d).reverse = (g.production r).predicate.take d ∧
      (⟨r, 0⟩ : Item) ∈ (a.state (topState (states.drop d))).items := by
  induction d generalizing states symbols with
  | zero => exact ⟨Nat.zero_le _, rfl, hi⟩
  | succ d ih =>
    cases path with
    | nil =>
      -- The starting state has all dots in front.
      rw [topState, List.headD_nil, h.items_start] at hi
      exact absurd (dot_of_mem_initial hi) (Nat.succ_ne_zero d)
    | @cons states symbols symbol q below edge =>
      obtain ⟨hm, hn⟩ := h.retreat edge hi
      obtain ⟨hlen, htake, hopen⟩ := ih below hm
      refine ⟨Nat.succ_le_succ hlen, ?_, hopen⟩
      have hget : (g.production r).predicate[d]? = some symbol := hn
      rw [List.take_succ_cons, List.reverse_cons, htake, List.take_add_one, hget]
      rfl

/-- A way to the accepting state reads the start symbol and the end of the text. -/
theorem symbols_of_accept {states : List StateId} {symbols : List Symbol}
    (path : a.Path states symbols) (top : topState states = Automaton.accept) :
    symbols = [endSymbol, g.start] := by
  have hi : acceptItem ∈ (a.state (topState states)).items := top ▸ h.mem_items_accept.mpr rfl
  obtain ⟨hlen, read, first⟩ := h.retrace path hi
  have below := h.eq_nil_of_top_start (path.drop 2) (h.eq_start_of_initialItem_mem first)
  have two : symbols.length = 2 := by
    have := List.drop_eq_nil_iff.mp below
    rw [path.length_eq]
    omega
  rw [← two, List.take_length, two] at read
  exact List.reverse_eq_iff.mp read

end Canonical

end Grammar

end ShiftFirst
