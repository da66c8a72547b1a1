import ShiftFirst.Proofs.Formula.Lexical
import ShiftFirst.Proofs.Formula.Reading

namespace ShiftFirst.Formula

variable {level : Level} {clause : Clause} {text text' rest tokens : List Token} {t u : Token}
  {keys : List (Symbol × String)} {x : Binary64} {b : Bool} {v : Value}

/-- What holds of a text and its rest holds as well of tokens that count for the same and another
rest, which closes what the first one closes. -/
def Framed (P : List Token → List Token → Prop) (text rest : List Token) : Prop :=
  ∃ tokens, text = tokens ++ rest ∧ ∀ tokens' rest', tokens'.map key = tokens.map key →
    (Closes rest → Closes rest') → P (tokens' ++ rest') rest'

theorem name_eq (same : key t = key u) : t.name = u.name := congrArg Prod.fst same

theorem closes_of_name (same : t.name = u.name) (closes : Closes (u :: rest)) :
    Closes (t :: text) := by
  obtain ⟨_, _, he, closing⟩ := closes
  cases he
  exact ⟨t, text, rfl, same ▸ closing⟩

namespace Framed

variable {P Q R : List Token → List Token → Prop}

theorem imp (h : Framed P text rest) (weaker : ∀ text rest, P text rest → Q text rest) :
    Framed Q text rest := by
  obtain ⟨tokens, rfl, framed⟩ := h
  exact ⟨tokens, rfl, fun _ _ same closes => weaker _ _ (framed _ _ same closes)⟩

theorem closed (h : Framed P text rest) (closes : Closes rest) :
    Framed (fun text rest => P text rest ∧ Closes rest) text rest := by
  obtain ⟨tokens, rfl, framed⟩ := h
  exact ⟨tokens, rfl, fun _ _ same closes' => ⟨framed _ _ same closes', closes' closes⟩⟩

theorem token (single : ∀ t' rest', key t' = key t → P (t' :: rest') rest') :
    Framed P (t :: rest) rest := by
  refine ⟨[t], rfl, fun tokens' rest' same _ => ?_⟩
  obtain ⟨t', others, rfl, ht, none⟩ := List.map_eq_cons_iff.mp same
  obtain rfl := List.map_eq_nil_iff.mp none
  exact single t' rest' ht

theorem cons (h : Framed P text rest)
    (put : ∀ t' text' rest', key t' = key t → P text' rest' → Q (t' :: text') rest') :
    Framed Q (t :: text) rest := by
  obtain ⟨tokens, rfl, framed⟩ := h
  refine ⟨t :: tokens, rfl, fun tokens' rest' same closes => ?_⟩
  obtain ⟨t', others, rfl, ht, behind⟩ := List.map_eq_cons_iff.mp same
  exact put t' _ rest' ht (framed _ _ behind closes)

theorem join (h : Framed P text (t :: text')) (h' : Framed Q text' rest)
    (put : ∀ t' front back rest', key t' = key t → P front (t' :: back) → Q back rest' →
      R front rest') :
    Framed R text rest := by
  obtain ⟨back, rfl, framed'⟩ := h'
  obtain ⟨front, rfl, framed⟩ := h
  refine ⟨front ++ t :: back, by simp, fun tokens' rest' same closes => ?_⟩
  rw [List.map_append] at same
  obtain ⟨front', others, rfl, before, same⟩ := List.map_eq_append_iff.mp same
  obtain ⟨t', back', rfl, ht, behind⟩ := List.map_eq_cons_iff.mp same
  rw [List.append_assoc]
  exact put t' _ _ rest' ht (framed _ _ before (closes_of_name (name_eq ht)))
    (framed' _ _ behind closes)

theorem enclosed (h : Framed P text (u :: rest)) (closing : u.name = ")")
    (put : ∀ t' u' text' rest', key t' = key t → u'.name = ")" → P text' (u' :: rest') →
      Q (t' :: text') rest') :
    Framed Q (t :: text) rest := by
  obtain ⟨tokens, rfl, framed⟩ := h
  refine ⟨t :: (tokens ++ [u]), by simp, fun tokens' rest' same _ => ?_⟩
  obtain ⟨t', others, rfl, ht, same⟩ := List.map_eq_cons_iff.mp same
  rw [List.map_append] at same
  obtain ⟨inner, last, rfl, before, same⟩ := List.map_eq_append_iff.mp same
  obtain ⟨u', none, rfl, hu, behind⟩ := List.map_eq_cons_iff.mp same
  obtain rfl := List.map_eq_nil_iff.mp behind
  rw [List.cons_append, List.append_assoc]
  exact put t' u' _ rest' ht ((name_eq hu).trans closing)
    (framed _ _ before (closes_of_name (name_eq hu)))

end Framed

theorem Computes.framed (h : Computes level text rest x) :
    Framed (fun text rest => Computes level text rest x) text rest := by
  induction h with
  | number named spelled =>
    refine .token fun t' rest' same => .number ((name_eq same).trans named) ?_
    have value : t'.value = _ := congrArg Prod.snd same
    rwa [value]
  | negative named _ ih =>
    exact ih.cons fun _ _ _ same => .negative ((name_eq same).trans named)
  | enclosed opening _ closing ih =>
    exact ih.enclosed closing fun _ _ _ _ same closing part =>
      .enclosed ((name_eq same).trans opening) part closing
  | base _ ih => exact ih.imp fun _ _ => .base
  | factor _ ih => exact ih.imp fun _ _ => .factor
  | term _ ih => exact ih.imp fun _ _ => .term
  | chain _ operator _ ihl ihr =>
    exact ihl.join ihr fun _ _ _ _ same left right => .chain left (name_eq same ▸ operator) right

theorem Reads.framed (h : Reads Full clause text rest b) :
    Framed (fun text rest => Reads Full clause text rest b) text rest := by
  induction h with
  | truth named => exact .token fun _ _ same => .truth ((name_eq same).trans named)
  | falsehood named => exact .token fun _ _ same => .falsehood ((name_eq same).trans named)
  | enclosed opening _ closing ih =>
    exact ih.enclosed closing fun _ _ _ _ same closing part =>
      .enclosed ((name_eq same).trans opening) part closing
  | equation left named right =>
    exact left.framed.join right.framed fun _ _ _ _ same left right =>
      .equation left ((name_eq same).trans named) right
  | negation named _ ih =>
    exact ih.cons fun _ _ _ same => .negation ((name_eq same).trans named)
  | plain _ ih => exact ih.imp fun _ _ => .plain
  | equal _ named _ fits ihl ihr =>
    exact ihl.join (ihr.closed fits) fun _ _ _ _ same left right =>
      .equal left ((name_eq same).trans named) right.1 right.2
  | one _ ih => exact ih.imp fun _ _ => .one
  | both _ named _ ihl ihr =>
    exact ihl.join ihr fun _ _ _ _ same left right =>
      .both left ((name_eq same).trans named) right
  | only _ ih => exact ih.imp fun _ _ => .only
  | either _ named _ ihl ihr =>
    exact ihl.join ihr fun _ _ _ _ same left right =>
      .either left ((name_eq same).trans named) right

/-- Tokens that count for these are a formula of a value, in front of whatever ends it. -/
inductive Stands (keys : List (Symbol × String)) : Value → Prop
  | number {x : Binary64}
      (part : ∀ tokens rest, tokens.map key = keys → Closes rest →
        Computes .sum (tokens ++ rest) rest x) : Stands keys (.number x)
  | boolean {b : Bool}
      (part : ∀ tokens rest, tokens.map key = keys → Closes rest →
        Reads Full .disjunction (tokens ++ rest) rest b) : Stands keys (.boolean b)

theorem means_iff_stands (closes : Closes rest) :
    Means (tokens ++ rest) rest v ↔ Stands (tokens.map key) v := by
  constructor
  · intro means
    cases means with
    | number part =>
      obtain ⟨tokens', text, framed⟩ := part.framed
      obtain rfl := List.append_cancel_right text
      exact .number fun tokens rest same closes => framed tokens rest same fun _ => closes
    | boolean part =>
      obtain ⟨tokens', text, framed⟩ := (part.closes fun _ => Or.inl closes).framed
      obtain rfl := List.append_cancel_right text
      exact .boolean fun tokens rest same closes => framed tokens rest same fun _ => closes
  · intro stands
    cases stands with
    | number part => exact .number (part tokens rest rfl closes)
    | boolean part => exact .boolean (part tokens rest rfl closes).longest

/-- The names of the tokens that formulas of truth values have and numbers do not. -/
def truthy : List Symbol := ["true", "false", "and", "or", "not", "="]

/-- A numeral that the token may be spells a number. -/
def Spelled (key : Symbol × String) : Prop :=
  key.1 = "number" → ∃ x, Binary64.read key.2 = .ok x

theorem spelled_of_name {name : Symbol} (named : t.name = name) (other : name ≠ "number") :
    Spelled (key t) :=
  fun numeral => absurd (named.symm.trans numeral) other

theorem Operator.ne_number {operand : Level} {name : Symbol}
    {op : Binary64 → Binary64 → Binary64} (h : Operator level name operand op) :
    name ≠ "number" := by
  cases h <;> decide

theorem Operator.not_mem_truthy {operand : Level} {name : Symbol}
    {op : Binary64 → Binary64 → Binary64} (h : Operator level name operand op) :
    name ∉ truthy := by
  cases h <;> decide

/-- Every token between the two texts has the property. -/
def Each (P : Token → Prop) (text rest : List Token) : Prop :=
  ∃ tokens, text = tokens ++ rest ∧ ∀ t ∈ tokens, P t

namespace Each

variable {P : Token → Prop}

theorem token (h : P t) : Each P (t :: rest) rest := ⟨[t], rfl, List.forall_mem_singleton.mpr h⟩

theorem trans (h : Each P text text') (h' : Each P text' rest) : Each P text rest := by
  obtain ⟨tokens, rfl, each⟩ := h
  obtain ⟨tokens', rfl, each'⟩ := h'
  exact ⟨tokens ++ tokens', by simp, List.forall_mem_append.mpr ⟨each, each'⟩⟩

theorem cons (here : P t) (h : Each P text rest) : Each P (t :: text) rest := (token here).trans h

theorem join (h : Each P text (t :: text')) (here : P t) (h' : Each P text' rest) :
    Each P text rest :=
  h.trans (h'.cons here)

theorem enclosed (opening : P t) (h : Each P text (u :: rest)) (closing : P u) :
    Each P (t :: text) rest :=
  (h.trans (token closing)).cons opening

theorem of_append (h : Each P (tokens ++ rest) rest) : ∀ t ∈ tokens, P t := by
  obtain ⟨tokens', same, each⟩ := h
  obtain rfl := List.append_cancel_right same
  exact each

end Each

theorem Computes.spelled (h : Computes level text rest x) :
    Each (fun t => Spelled (key t)) text rest := by
  induction h with
  | number _ spelled => exact .token fun _ => ⟨_, spelled⟩
  | negative named _ ih => exact ih.cons (spelled_of_name named (by decide))
  | enclosed opening _ closing ih =>
    exact ih.enclosed (spelled_of_name opening (by decide)) (spelled_of_name closing (by decide))
  | base _ ih => exact ih
  | factor _ ih => exact ih
  | term _ ih => exact ih
  | chain _ operator _ ihl ihr => exact ihl.join (spelled_of_name rfl operator.ne_number) ihr

theorem Reads.spelled {extent : List Token → List Token → Prop}
    (h : Reads extent clause text rest b) : Each (fun t => Spelled (key t)) text rest := by
  induction h with
  | truth named => exact .token (spelled_of_name named (by decide))
  | falsehood named => exact .token (spelled_of_name named (by decide))
  | enclosed opening _ closing ih =>
    exact ih.enclosed (spelled_of_name opening (by decide)) (spelled_of_name closing (by decide))
  | equation left named right =>
    exact left.spelled.join (spelled_of_name named (by decide)) right.spelled
  | negation named _ ih => exact ih.cons (spelled_of_name named (by decide))
  | plain _ ih => exact ih
  | equal _ named _ _ ihl ihr => exact ihl.join (spelled_of_name named (by decide)) ihr
  | one _ ih => exact ih
  | both _ named _ ihl ihr => exact ihl.join (spelled_of_name named (by decide)) ihr
  | only _ ih => exact ih
  | either _ named _ ihl ihr => exact ihl.join (spelled_of_name named (by decide)) ihr

/-- Some token between the two texts has the property. -/
def Has (P : Token → Prop) (text rest : List Token) : Prop :=
  ∃ tokens, text = tokens ++ rest ∧ ∃ t ∈ tokens, P t

namespace Has

variable {P : Token → Prop}

theorem token (h : P t) : Has P (t :: rest) rest := ⟨[t], rfl, t, List.mem_cons_self, h⟩

theorem behind (h : Has P text text') (more : rest <:+ text') : Has P text rest := by
  obtain ⟨tokens, rfl, u, mem, one⟩ := h
  obtain ⟨others, rfl⟩ := more
  exact ⟨tokens ++ others, by simp, u, List.mem_append_left _ mem, one⟩

theorem front (h : Has P text' rest) (more : text' <:+ text) : Has P text rest := by
  obtain ⟨tokens, rfl, u, mem, one⟩ := h
  obtain ⟨others, rfl⟩ := more
  exact ⟨others ++ tokens, by simp, u, List.mem_append_right _ mem, one⟩

end Has

theorem Balanced.suffix (h : Balanced text rest) : rest <:+ text := by
  obtain ⟨tokens, rfl, _⟩ := h
  exact ⟨tokens, rfl⟩

theorem truthy_of_name {name : Symbol} (named : t.name = name) (one : name ∈ truthy) :
    t.name ∈ truthy :=
  named ▸ one

theorem not_truthy_of_name {name : Symbol} (named : t.name = name) (other : name ∉ truthy) :
    t.name ∉ truthy :=
  named ▸ other

theorem Computes.not_truthy (h : Computes level text rest x) :
    Each (fun t => t.name ∉ truthy) text rest := by
  induction h with
  | number named _ => exact .token (not_truthy_of_name named (by decide))
  | negative named _ ih => exact ih.cons (not_truthy_of_name named (by decide))
  | enclosed opening _ closing ih =>
    exact ih.enclosed (not_truthy_of_name opening (by decide))
      (not_truthy_of_name closing (by decide))
  | base _ ih => exact ih
  | factor _ ih => exact ih
  | term _ ih => exact ih
  | chain _ operator _ ihl ihr => exact ihl.join operator.not_mem_truthy ihr

theorem Reads.has_truthy {extent : List Token → List Token → Prop}
    (h : Reads extent clause text rest b) : Has (fun t => t.name ∈ truthy) text rest := by
  induction h with
  | truth named => exact .token (by rw [named]; decide)
  | falsehood named => exact .token (by rw [named]; decide)
  | enclosed _ _ _ ih => exact (ih.behind (List.suffix_cons _ _)).front (List.suffix_cons _ _)
  | equation left named right =>
    exact ((Has.token (truthy_of_name named (by decide))).behind right.balanced.suffix).front
      left.balanced.suffix
  | negation named part _ =>
    exact (Has.token (truthy_of_name named (by decide))).behind part.balanced.suffix
  | plain _ ih => exact ih
  | equal _ _ right _ ih _ =>
    exact ih.behind (right.balanced.suffix.trans (List.suffix_cons _ _))
  | one _ ih => exact ih
  | both _ _ right ih _ => exact ih.behind (right.balanced.suffix.trans (List.suffix_cons _ _))
  | only _ ih => exact ih
  | either _ _ right ih _ => exact ih.behind (right.balanced.suffix.trans (List.suffix_cons _ _))

theorem exists_tokens (keys : List (Symbol × String)) :
    ∃ tokens : List Token, tokens.map key = keys :=
  ⟨keys.map fun k => ⟨k.1, k.2, 0⟩, by rw [List.map_map]; exact List.map_id keys⟩

theorem closes_finish (position : Nat) : Closes [.finish position] := ⟨_, [], rfl, Or.inr rfl⟩

namespace Stands

theorem of_computes (h : Computes .sum (tokens ++ [.finish 0]) [.finish 0] x) :
    Stands (tokens.map key) (.number x) :=
  (means_iff_stands (closes_finish 0)).mp (.number h)

theorem of_reads (h : Reads Full .disjunction (tokens ++ [.finish 0]) [.finish 0] b) :
    Stands (tokens.map key) (.boolean b) :=
  (means_iff_stands (closes_finish 0)).mp (.boolean h.longest)

theorem spelled (h : Stands keys v) : ∀ k ∈ keys, Spelled k := by
  obtain ⟨tokens, rfl⟩ := exists_tokens keys
  rw [List.forall_mem_map]
  cases h with
  | number part => exact (part tokens _ rfl (closes_finish 0)).spelled.of_append
  | boolean part => exact (part tokens _ rfl (closes_finish 0)).spelled.of_append

theorem has_truthy (h : Stands keys (.boolean b)) : ∃ k ∈ keys, k.1 ∈ truthy := by
  obtain ⟨tokens, rfl⟩ := exists_tokens keys
  cases h with
  | boolean part =>
    obtain ⟨tokens', same, t, mem, one⟩ := (part tokens _ rfl (closes_finish 0)).has_truthy
    obtain rfl := List.append_cancel_right same
    exact ⟨key t, List.mem_map_of_mem mem, one⟩

end Stands

end ShiftFirst.Formula
