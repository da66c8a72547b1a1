import Mathlib.Data.List.Nodup
import Mathlib.Logic.Embedding.Basic
import Mathlib.Logic.Equiv.Basic
import ShiftFirst.Proofs.Grammar.Closure

namespace ShiftFirst

/-- A permutation of the numbers behind zero, which stays where it is. -/
def succPerm (σ : Equiv.Perm Nat) : Equiv.Perm Nat where
  toFun
    | 0 => 0
    | k + 1 => σ k + 1
  invFun
    | 0 => 0
    | k + 1 => σ.symm k + 1
  left_inv k := by cases k <;> simp
  right_inv k := by cases k <;> simp

theorem exists_places {α : Type} {xs ys : List α} (h : xs.Perm ys) :
    ∃ σ : Equiv.Perm Nat, ∀ k, ys[σ k]? = xs[k]? := by
  induction h with
  | nil => exact ⟨Equiv.refl Nat, fun _ => rfl⟩
  | cons x _ ih =>
    obtain ⟨σ, places⟩ := ih
    refine ⟨succPerm σ, fun k => ?_⟩
    cases k with
    | zero => rfl
    | succ k => exact places k
  | swap x y xs =>
    refine ⟨Equiv.swap 0 1, fun k => ?_⟩
    match k with
    | 0 => rfl
    | 1 => rfl
    | k + 2 =>
      rw [Equiv.swap_apply_of_ne_of_ne (by omega) (by omega)]
      rfl
  | trans _ _ ih ih' =>
    obtain ⟨σ, places⟩ := ih
    obtain ⟨τ, places'⟩ := ih'
    exact ⟨σ.trans τ, fun k => (places' (σ k)).trans (places k)⟩

/-- An item by the number that its rule has in another grammar. -/
def Item.renumber (σ : Equiv.Perm RuleId) (i : Item) : Item := ⟨σ i.rule, i.dot⟩

@[simp] theorem Item.renumber_symm (σ : Equiv.Perm RuleId) (i : Item) :
    (i.renumber σ.symm).renumber σ = i := by
  simp [renumber]

@[simp] theorem Item.symm_renumber (σ : Equiv.Perm RuleId) (i : Item) :
    (i.renumber σ).renumber σ.symm = i :=
  renumber_symm σ.symm i

theorem Item.renumber_injective (σ : Equiv.Perm RuleId) :
    Function.Injective (Item.renumber σ) := by
  rintro ⟨r, d⟩ ⟨r', d'⟩ same
  obtain ⟨rule, dot⟩ := Item.mk.inj same
  exact congrArg₂ Item.mk (σ.injective rule) dot

/-- Two sets have the same items, up to the numbers of the rules. -/
def Renumbered (σ : Equiv.Perm RuleId) (items items' : List Item) : Prop :=
  ∀ i, i.renumber σ ∈ items' ↔ i ∈ items

theorem Renumbered.symm {σ : Equiv.Perm RuleId} {items items' : List Item}
    (h : Renumbered σ items items') : Renumbered σ.symm items' items := fun i => by
  rw [← h, Item.renumber_symm]

theorem Renumbered.singleton {σ : Equiv.Perm RuleId} {i : Item} (fixed : i.renumber σ = i) :
    Renumbered σ [i] [i] := fun j => by
  rw [List.mem_singleton, List.mem_singleton, (Item.renumber_injective σ).eq_iff' fixed]

theorem Renumbered.perm {σ : Equiv.Perm RuleId} {items items' : List Item}
    (h : Renumbered σ items items') (nodup : items.Nodup) (nodup' : items'.Nodup) :
    (items.map (Item.renumber σ)).Perm items' := by
  refine (List.perm_ext_iff_of_nodup (nodup.map (Item.renumber_injective σ)) nodup').mpr
    fun i => ⟨fun hi => ?_, fun hi => ?_⟩
  · obtain ⟨j, hj, rfl⟩ := List.mem_map.mp hi
    exact (h j).mpr hj
  · exact List.mem_map.mpr ⟨_, (h.symm i).mpr hi, Item.renumber_symm σ i⟩

namespace Grammar

variable {V : Type} {g g' : Grammar V} {σ : Equiv.Perm RuleId}

/-- The rule of the authors that has a number. -/
def rule? (g : Grammar V) : RuleId → Option (Rule V)
  | 0 => none
  | r + 1 => g.rules[r]?

theorem production_eq (g : Grammar V) (r : RuleId) :
    g.production r = if r = 0 then g.augmented else (g.rule? r).elim default Rule.toProduction := by
  cases r <;> rfl

theorem reduce_eq (g : Grammar V) (r : RuleId) (values : List V) :
    g.reduce r values =
      if r = 0 then (values.head?).elim (.error .noValue) .ok
      else (g.rule? r).elim (.error .noValue) (·.reduce values) := by
  cases r <;> rfl

theorem reduceWithin_eq (g : Grammar V) (budget : Nat) (r : RuleId) (values : List V) :
    g.reduceWithin budget r values =
      if r = 0 then (g.reduce r values, budget)
      else if budget = 0 then (.error .outOfFuel, 0)
      else (g.reduce r values, budget - 1) := by
  cases r <;> cases budget <;> rfl

theorem le_length_iff (g : Grammar V) (r : RuleId) :
    r ≤ g.rules.length ↔ r = 0 ∨ (g.rule? r).isSome := by
  cases r with
  | zero => simp
  | succ r =>
    have inside : (g.rules[r]?).isSome ↔ r < g.rules.length := by simp
    rw [rule?, inside]
    exact ⟨Or.inr, fun h => h.resolve_left (Nat.succ_ne_zero r)⟩

theorem mem_rules_iff {rule : Rule V} : rule ∈ g.rules ↔ ∃ r, g.rule? r = some rule := by
  rw [List.mem_iff_getElem?]
  refine ⟨fun ⟨k, hk⟩ => ⟨k + 1, hk⟩, fun ⟨r, hr⟩ => ?_⟩
  cases r with
  | zero => cases hr
  | succ k => exact ⟨k, hr⟩

/-- The start symbol and the rules of one grammar are those of another or some of them, where `φ`
takes the number of a rule in the one to its number in the other. -/
structure Embeds (g g' : Grammar V) (φ : RuleId ↪ RuleId) : Prop where
  start : g'.start = g.start
  begins : φ 0 = 0
  rule : ∀ r, g'.rule? (φ r) = g.rule? r

namespace Embeds

variable {φ : RuleId ↪ RuleId} (h : g.Embeds g' φ)
include h

theorem eq_zero_iff {r : RuleId} : φ r = 0 ↔ r = 0 := φ.injective.eq_iff' h.begins

theorem augmented : g'.augmented = g.augmented := by
  rw [Grammar.augmented, h.start]
  rfl

theorem production (r : RuleId) : g'.production (φ r) = g.production r := by
  rw [production_eq, production_eq, h.rule, h.augmented]
  simp only [h.eq_zero_iff]

theorem ruleText (r : RuleId) : g'.ruleText (φ r) = g.ruleText r := by
  rw [Grammar.ruleText, h.production]
  rfl

theorem reduce (r : RuleId) (values : List V) :
    g'.reduce (φ r) values = g.reduce r values := by
  rw [reduce_eq, reduce_eq, h.rule]
  simp only [h.eq_zero_iff]

theorem reduceWithin (budget : Nat) (r : RuleId) (values : List V) :
    g'.reduceWithin budget (φ r) values = g.reduceWithin budget r values := by
  rw [reduceWithin_eq, reduceWithin_eq, h.reduce]
  simp only [h.eq_zero_iff]

theorem le_length {r : RuleId} : φ r ≤ g'.rules.length ↔ r ≤ g.rules.length := by
  rw [le_length_iff, le_length_iff, h.rule, h.eq_zero_iff]

theorem mem_rulesFor {r : RuleId} {symbol : Symbol} :
    φ r ∈ g'.rulesFor symbol ↔ r ∈ g.rulesFor symbol := by
  rw [Grammar.mem_rulesFor, Grammar.mem_rulesFor, h.production, h.le_length,
    Nat.one_le_iff_ne_zero, Nat.one_le_iff_ne_zero, ne_eq, h.eq_zero_iff]

end Embeds

/-- Two grammars have the same start symbol and the same rules, where `σ` takes the number of a
rule in the one to its number in the other. -/
structure Reorders (g g' : Grammar V) (σ : Equiv.Perm RuleId) : Prop where
  start : g'.start = g.start
  begins : σ 0 = 0
  rule : ∀ r, g'.rule? (σ r) = g.rule? r

theorem head?_subject (g : Grammar V) : (g.rules.head?).map (·.subject) = some g.start := by
  rw [List.head?_eq_some_head g.rules_ne_nil]
  rfl

theorem exists_reorders (perm : g.rules.Perm g'.rules)
    (first : (g.rules.head?).map (·.subject) = (g'.rules.head?).map (·.subject)) :
    ∃ σ, g.Reorders g' σ := by
  obtain ⟨σ, places⟩ := exists_places perm
  have start : g'.start = g.start := by
    rw [head?_subject, head?_subject] at first
    exact (Option.some.inj first).symm
  refine ⟨succPerm σ, start, rfl, fun r => ?_⟩
  cases r with
  | zero => rfl
  | succ r => exact places r

namespace Reorders

variable (h : g.Reorders g' σ)
include h

theorem symm : g'.Reorders g σ.symm where
  start := h.start.symm
  begins := σ.symm_apply_eq.mpr h.begins.symm
  rule r := by rw [← h.rule, σ.apply_symm_apply]

theorem embeds : g.Embeds g' σ.toEmbedding := ⟨h.start, h.begins, h.rule⟩

theorem production (r : RuleId) : g'.production (σ r) = g.production r := h.embeds.production r

theorem ruleText (r : RuleId) : g'.ruleText (σ r) = g.ruleText r := h.embeds.ruleText r

theorem reduceWithin (budget : Nat) (r : RuleId) (values : List V) :
    g'.reduceWithin budget (σ r) values = g.reduceWithin budget r values :=
  h.embeds.reduceWithin budget r values

theorem le_length {r : RuleId} : σ r ≤ g'.rules.length ↔ r ≤ g.rules.length := h.embeds.le_length

theorem mem_rules {rule : Rule V} : rule ∈ g'.rules ↔ rule ∈ g.rules := by
  rw [mem_rules_iff, mem_rules_iff]
  refine ⟨fun ⟨r, hr⟩ => ⟨σ.symm r, (h.symm.rule r).trans hr⟩, fun ⟨r, hr⟩ => ⟨σ r, ?_⟩⟩
  exact (h.rule r).trans hr

theorem isNonterminal (symbol : Symbol) : g'.isNonterminal symbol = g.isNonterminal symbol := by
  rw [Grammar.isNonterminal, Grammar.isNonterminal, Bool.eq_iff_iff, List.any_eq_true,
    List.any_eq_true]
  simp only [h.mem_rules]

theorem mem_rulesFor {r : RuleId} {symbol : Symbol} :
    σ r ∈ g'.rulesFor symbol ↔ r ∈ g.rulesFor symbol := h.embeds.mem_rulesFor

theorem items : Renumbered σ g.items g'.items := fun ⟨r, d⟩ => by
  rw [Item.renumber, mem_items, mem_items, h.production, h.le_length]

theorem next? (i : Item) : g'.next? (i.renumber σ) = g.next? i := by
  rw [Grammar.next?, Item.renumber, h.production]
  rfl

theorem renumber_initialItem : initialItem.renumber σ = initialItem :=
  congrArg (Item.mk · 0) h.begins

theorem renumber_acceptItem : acceptItem.renumber σ = acceptItem :=
  congrArg (Item.mk · 2) h.begins

theorem spans {seeds seeds' : List Item} (moved : ∀ i ∈ seeds, i.renumber σ ∈ seeds') {i : Item}
    (spans : g.Spans seeds i) : g'.Spans seeds' (i.renumber σ) := by
  induction spans with
  | seed mem => exact .seed (moved _ mem)
  | @expand i symbol r _ next mem ih =>
    have next' : g'.next? (i.renumber σ) = some symbol := (h.next? i).trans next
    exact .expand ih next' (h.mem_rulesFor.mpr mem)

/-- Seeds that are the same bring along the same items. -/
theorem closure {seeds seeds' : List Item} (same : Renumbered σ seeds seeds')
    (known : seeds ⊆ g.items) : Renumbered σ (g.closure seeds) (g'.closure seeds') := fun i => by
  have known' : seeds' ⊆ g'.items := fun i hi => by
    rw [← Item.renumber_symm σ i] at hi ⊢
    exact (h.items _).mpr (known ((same _).mp hi))
  rw [mem_closure known, mem_closure known']
  refine ⟨fun spans => ?_, h.spans fun i hi => (same i).mpr hi⟩
  have back := h.symm.spans (fun i hi => (same.symm i).mpr hi) spans
  rwa [Item.symm_renumber] at back

end Reorders

end Grammar

end ShiftFirst
