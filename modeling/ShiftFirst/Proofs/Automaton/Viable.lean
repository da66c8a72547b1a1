import ShiftFirst.Proofs.Automaton.Path
import ShiftFirst.Proofs.Grammar.Sentential

namespace ShiftFirst.Grammar

variable {V : Type} {g : Grammar V} {a : Automaton} {row row' : List Symbol} {i : Item}

/-- Some sentential form begins with a row of symbols. -/
def Viable (g : Grammar V) (row : List Symbol) : Prop := ∃ form, g.Sentential form ∧ row <+: form

theorem Viable.derives {after : List Symbol} (h : g.Viable (row ++ after))
    (hd : g.Derives row row') : g.Viable (row' ++ after) := by
  obtain ⟨form, hs, rest, rfl⟩ := h
  refine ⟨row' ++ (after ++ rest), ?_, rest, List.append_assoc _ _ _⟩
  rw [List.append_assoc] at hs
  have framed : g.Sentential ([] ++ (row ++ (after ++ rest))) := hs
  exact framed.context hd

theorem Viable.shorten (h : g.Viable row) (begins : row' <+: row) : g.Viable row' := by
  obtain ⟨form, hs, within⟩ := h
  exact ⟨form, hs, begins.trans within⟩

/-- Some sentential form goes on behind a row of symbols with what an item has behind its dot. -/
def Fits (g : Grammar V) (row : List Symbol) (i : Item) : Prop :=
  g.Viable (row ++ (g.production i.rule).predicate.drop i.dot)

theorem drop_of_next {symbol : Symbol} (hn : g.next? i = some symbol) :
    (g.production i.rule).predicate.drop i.dot =
      symbol :: (g.production i.rule).predicate.drop (i.dot + 1) := by
  obtain ⟨hlt, rfl⟩ := List.getElem?_eq_some_iff.mp hn
  exact List.drop_eq_getElem_cons hlt

theorem Fits.next {symbol : Symbol} (h : g.Fits row i) (hn : g.next? i = some symbol) :
    g.Viable (row ++ [symbol]) := by
  rw [Fits, drop_of_next hn, ← List.singleton_append, ← List.append_assoc] at h
  exact h.shorten (List.prefix_append _ _)

theorem Fits.advance {symbol : Symbol} (h : g.Fits row i) (hn : g.next? i = some symbol) :
    g.Fits (row ++ [symbol]) i.advance := by
  rw [Fits, drop_of_next hn] at h
  rw [Fits, List.append_assoc]
  exact h

/-- A symbol behind the dot gives way to the predicate of one of its rules. -/
theorem Fits.expand {symbol : Symbol} {r : RuleId} (h : g.Fits row i)
    (hn : g.next? i = some symbol) (hr : r ∈ g.rulesFor symbol) : g.Fits row ⟨r, 0⟩ := by
  obtain ⟨pos, hle, subject⟩ := mem_rulesFor.mp hr
  obtain ⟨k, rfl⟩ := exists_authored pos hle
  rw [production_authored] at subject
  obtain ⟨form, hs, rest, rfl⟩ := h.next hn
  rw [List.append_assoc, ← subject] at hs
  rw [Fits, production_authored, List.drop_zero]
  refine ⟨_, hs.context (derives_predicate k), ?_⟩
  rw [← List.append_assoc]
  exact List.prefix_append _ _

theorem Spans.fits {seeds : List Item} (hs : ∀ j ∈ seeds, g.Fits row j) (h : g.Spans seeds i) :
    g.Fits row i := by
  induction h with
  | seed mem => exact hs _ mem
  | expand _ next mem ih => exact ih.expand next mem

theorem fits_initialItem (g : Grammar V) : g.Fits [] initialItem :=
  ⟨_, .refl, List.prefix_rfl⟩

/-- Every item of the state that a way leads to goes on with some sentential form behind the
symbols of the way. -/
theorem Canonical.fits (h : g.Canonical a) {states : List StateId} {symbols : List Symbol}
    (path : a.Path states symbols) (hi : i ∈ (a.state (topState states)).items) :
    g.Fits symbols.reverse i := by
  induction path generalizing i with
  | nil =>
    rw [topState, List.headD_nil, h.items_start] at hi
    refine (mem_initial.mp hi).fits fun j hj => ?_
    rw [List.mem_singleton.mp hj]
    exact g.fits_initialItem
  | @cons states symbols symbol q below edge ih =>
    rw [topState, List.headD_cons, (h.target _ _ _ edge).2] at hi
    refine ((mem_goto (h.items_subset _)).mp hi).fits fun j hj => ?_
    obtain ⟨j, hm, rfl⟩ := List.mem_map.mp hj
    obtain ⟨hm, hn⟩ := List.mem_filter.mp hm
    rw [List.reverse_cons]
    exact (ih hm).advance (of_decide_eq_true hn)

/-- A way that can go on over a symbol goes on with some sentential form. -/
theorem Canonical.viable_of_transition (h : g.Canonical a) {states : List StateId}
    {symbols : List Symbol} (path : a.Path states symbols) {symbol : Symbol}
    (edge : (a.transition? (topState states) symbol).isSome) :
    g.Viable (symbols.reverse ++ [symbol]) := by
  obtain ⟨i, hi, hn⟩ := (h.transition_isSome _ _).mp edge
  exact (h.fits path hi).next hn

theorem Canonical.viable (h : g.Canonical a) {states : List StateId} {symbols : List Symbol}
    (path : a.Path states symbols) : g.Viable symbols.reverse := by
  cases path with
  | nil => exact ⟨_, .refl, List.nil_prefix⟩
  | cons below edge =>
    rw [List.reverse_cons]
    exact h.viable_of_transition below (Option.isSome_of_eq_some edge)

end ShiftFirst.Grammar
