import Mathlib.Data.List.Chain
import Mathlib.Logic.Relation
import ShiftFirst.Proofs.Grammar.Tree

namespace ShiftFirst

variable {V : Type} {g : Grammar V}

namespace Grammar

/-- One symbol of a row gives way to the predicate of one of its rules. -/
inductive Rewrites (g : Grammar V) : List Symbol → List Symbol → Prop
  | rule (before after : List Symbol) {rule : Rule V} (mem : rule ∈ g.rules) :
      Rewrites g (before ++ rule.subject :: after) (before ++ (rule.predicate ++ after))

def Derives (g : Grammar V) : List Symbol → List Symbol → Prop := Relation.ReflTransGen g.Rewrites

/-- A row of symbols that the whole text can be read as. -/
def Sentential (g : Grammar V) (form : List Symbol) : Prop := g.Derives [g.start, endSymbol] form

/-- One symbol stands right before another in some sentential form. -/
def Precedes (g : Grammar V) (symbol next : Symbol) : Prop :=
  ∃ before after, g.Sentential (before ++ symbol :: next :: after)

theorem Derives.trans {form form' form'' : List Symbol} (h : g.Derives form form')
    (h' : g.Derives form' form'') : g.Derives form form'' :=
  Relation.ReflTransGen.trans h h'

theorem Rewrites.context {form form' : List Symbol} (h : g.Rewrites form form')
    (before after : List Symbol) :
    g.Rewrites (before ++ form ++ after) (before ++ form' ++ after) := by
  cases h with
  | rule before' after' mem =>
    simpa only [List.append_assoc, List.cons_append] using
      Rewrites.rule (before ++ before') (after' ++ after) mem

theorem Derives.context {form form' : List Symbol} (h : g.Derives form form')
    (before after : List Symbol) :
    g.Derives (before ++ form ++ after) (before ++ form' ++ after) := by
  induction h with
  | refl => exact .refl
  | tail _ hr ih => exact ih.tail (hr.context before after)

theorem Sentential.context {before form form' after : List Symbol}
    (h : g.Sentential (before ++ (form ++ after))) (hd : g.Derives form form') :
    g.Sentential (before ++ (form' ++ after)) := by
  have hc := hd.context before after
  rw [List.append_assoc, List.append_assoc] at hc
  exact h.trans hc

theorem derives_predicate (k : Fin g.rules.length) :
    g.Derives [(g.rules.get k).subject] (g.rules.get k).predicate := by
  have hr := Rewrites.rule (g := g) [] [] (List.getElem_mem k.isLt)
  rw [List.nil_append, List.nil_append, List.append_nil] at hr
  exact Relation.ReflTransGen.single hr

/-- Pairs of symbols among which are all that stand side by side in some sentential form. -/
structure Covers (g : Grammar V) (pairs : List (Symbol × Symbol)) : Prop where
  whole : (g.start, endSymbol) ∈ pairs
  inside : ∀ rule ∈ g.rules, rule.predicate.IsChain fun symbol next => (symbol, next) ∈ pairs
  first : ∀ rule ∈ g.rules, ∀ pair ∈ pairs, pair.2 = rule.subject →
    ∀ symbol ∈ rule.predicate.head?, (pair.1, symbol) ∈ pairs
  last : ∀ rule ∈ g.rules, ∀ pair ∈ pairs, pair.1 = rule.subject →
    ∀ symbol ∈ rule.predicate.getLast?, (symbol, pair.2) ∈ pairs

theorem Covers.rewrites {pairs : List (Symbol × Symbol)} (h : g.Covers pairs)
    {form form' : List Symbol} (hr : g.Rewrites form form')
    (chain : form.IsChain fun symbol next => (symbol, next) ∈ pairs) :
    form'.IsChain fun symbol next => (symbol, next) ∈ pairs := by
  obtain ⟨before, after, mem⟩ := hr
  next rule =>
  obtain ⟨hbefore, hafter, left⟩ := List.isChain_append.mp chain
  obtain ⟨right, hafter⟩ := List.isChain_cons.mp hafter
  have filled := (Production.fault?_eq_none_iff.mp (g.faultless rule mem)).2.2
  refine List.isChain_append.mpr ⟨hbefore, List.isChain_append.mpr
    ⟨h.inside rule mem, hafter, fun symbol hs next hn => ?_⟩, fun symbol hs next hn => ?_⟩
  · exact h.last rule mem _ (right next hn) rfl symbol hs
  · rw [List.head?_append_of_ne_nil _ filled] at hn
    exact h.first rule mem _ (left symbol hs _ rfl) rfl next hn

theorem Covers.sentential {pairs : List (Symbol × Symbol)} (h : g.Covers pairs)
    {form : List Symbol} (hs : g.Sentential form) :
    form.IsChain fun symbol next => (symbol, next) ∈ pairs := by
  induction hs with
  | refl => simp [h.whole]
  | tail _ hr ih => exact h.rewrites hr ih

theorem Covers.precedes {pairs : List (Symbol × Symbol)} (h : g.Covers pairs)
    {symbol next : Symbol} (hp : g.Precedes symbol next) : (symbol, next) ∈ pairs := by
  obtain ⟨before, after, hs⟩ := hp
  exact (List.isChain_cons_cons.mp (List.isChain_append.mp (h.sentential hs)).2.1).1

end Grammar

mutual

theorem Tree.derives {symbol : Symbol} :
    (tree : Tree g symbol) → g.Derives [symbol] (tree.tokens.map Token.name)
  | .leaf _ => .refl
  | .node k children => (Grammar.derives_predicate k).trans children.derives

theorem Forest.derives {symbols : List Symbol} :
    (forest : Forest g symbols) → g.Derives symbols (forest.tokens.map Token.name)
  | .nil => .refl
  | @Forest.cons _ _ symbol symbols first rest => by
    have hf := first.derives.context [] symbols
    have hr := rest.derives.context (first.tokens.map Token.name) []
    rw [List.append_nil, List.append_nil] at hr
    rw [Forest.tokens, List.map_append]
    exact Grammar.Derives.trans hf hr

end

theorem Forest.exists_split {symbols symbols' : List Symbol} :
    (forest : Forest g (symbols ++ symbols')) →
      ∃ (first : Forest g symbols) (rest : Forest g symbols'),
        forest.tokens = first.tokens ++ rest.tokens := by
  induction symbols with
  | nil => exact fun forest => ⟨.nil, forest, rfl⟩
  | cons symbol symbols ih =>
    intro forest
    cases forest with
    | cons first rest =>
      obtain ⟨front, back, tokens⟩ := ih rest
      refine ⟨.cons first front, back, ?_⟩
      rw [Forest.tokens, tokens, Forest.tokens, List.append_assoc]

theorem Forest.exists_join {symbols symbols' : List Symbol} (first : Forest g symbols)
    (rest : Forest g symbols') :
    ∃ forest : Forest g (symbols ++ symbols'), forest.tokens = first.tokens ++ rest.tokens := by
  induction symbols with
  | nil =>
    cases first
    exact ⟨rest, rfl⟩
  | cons symbol symbols ih =>
    cases first with
    | cons tree others =>
      obtain ⟨forest, tokens⟩ := ih others
      refine ⟨.cons tree forest, ?_⟩
      rw [Forest.tokens, tokens, Forest.tokens, List.append_assoc]

theorem Forest.exists_leaves (tokens : List Token) :
    ∃ forest : Forest g (tokens.map Token.name), forest.tokens = tokens := by
  induction tokens with
  | nil => exact ⟨.nil, rfl⟩
  | cons token tokens ih =>
    obtain ⟨forest, same⟩ := ih
    refine ⟨.cons (.leaf token) forest, ?_⟩
    rw [Forest.tokens, same]
    rfl

/-- Every derivation of the names of tokens is that of a forest over the tokens. -/
theorem Grammar.Derives.exists_forest {form : List Symbol} {tokens : List Token}
    (h : g.Derives form (tokens.map Token.name)) :
    ∃ forest : Forest g form, forest.tokens = tokens := by
  induction h using Relation.ReflTransGen.head_induction_on with
  | refl => exact Forest.exists_leaves tokens
  | head step _ ih =>
    obtain ⟨forest, same⟩ := ih
    obtain ⟨before, after, mem⟩ := step
    obtain ⟨k, hk, rfl⟩ := List.mem_iff_getElem.mp mem
    -- The children of the node are the part of the forest below the predicate of its rule.
    obtain ⟨front, others, split⟩ := forest.exists_split
    obtain ⟨children, back, split'⟩ := others.exists_split
    obtain ⟨whole, joined⟩ := front.exists_join (.cons (.node ⟨k, hk⟩ children) back)
    refine ⟨whole, ?_⟩
    rw [joined, ← same, split, split']
    rfl

end ShiftFirst
