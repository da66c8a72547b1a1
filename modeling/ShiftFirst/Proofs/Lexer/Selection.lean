import Mathlib.Data.List.Induction
import ShiftFirst.Proofs.Lexer.Pieces

namespace ShiftFirst

/-- A match of `n` characters is as good as one of `m` or better. -/
def MatchPolicy.Favors : MatchPolicy → (n m : Nat) → Prop
  | longest, n, m => m ≤ n
  | shortest, n, m => n ≤ m

namespace MatchPolicy

variable {policy : MatchPolicy} {l m n : Nat}

theorem favors_refl : policy.Favors n n := by
  cases policy <;> exact Nat.le_refl n

theorem favors_of_prefers (h : policy.prefers n m) : policy.Favors n m := by
  cases policy <;> exact Nat.le_of_lt (of_decide_eq_true h)

theorem favors_of_not_prefers (h : ¬ policy.prefers n m) : policy.Favors m n := by
  cases policy <;> exact Nat.le_of_not_lt fun lt => h (decide_eq_true lt)

theorem ne_of_prefers (h : policy.prefers n m) : n ≠ m := by
  have lt : ∀ {a b : Nat}, decide (a < b) → a < b := of_decide_eq_true
  cases policy with
  | longest => exact (lt h).ne'
  | shortest => exact (lt h).ne

theorem prefers_of_favors (h : policy.prefers n m) (h' : policy.Favors m l) :
    policy.prefers n l := by
  cases policy with
  | longest => exact decide_eq_true (Nat.lt_of_le_of_lt h' (of_decide_eq_true h))
  | shortest => exact decide_eq_true (Nat.lt_of_lt_of_le (of_decide_eq_true h) h')

theorem Favors.antisymm (h : policy.Favors n m) (h' : policy.Favors m n) : n = m := by
  cases policy with
  | longest => exact Nat.le_antisymm h' h
  | shortest => exact Nat.le_antisymm h h'

end MatchPolicy

/-- A definition matches the first `n` characters of a text, and these are not none. -/
def TokenDefinition.Takes (d : TokenDefinition) (rest : List Char) (n : Nat) : Prop :=
  d.pattern.matchLength? rest = some n ∧ 0 < n

/-- Of the definitions that match something, `d` has the best match, and it is the first that has
one of this length. -/
def Wins (policy : MatchPolicy) (definitions : List TokenDefinition) (rest : List Char)
    (d : TokenDefinition) (n : Nat) : Prop :=
  ∃ before after, definitions = before ++ d :: after ∧ d.Takes rest n ∧
    (∀ d' ∈ definitions, ∀ m, d'.Takes rest m → policy.Favors n m) ∧
    ∀ d' ∈ before, ¬ d'.Takes rest n

section Wins

variable {policy : MatchPolicy} {definitions : List TokenDefinition} {rest : List Char}
  {d d' : TokenDefinition} {m n : Nat}

theorem TokenDefinition.Takes.unique (h : d.Takes rest n) (h' : d.Takes rest m) : n = m :=
  Option.some.inj (h.1.symm.trans h'.1)

theorem Wins.mem (h : Wins policy definitions rest d n) : d ∈ definitions := by
  obtain ⟨before, after, rfl, _⟩ := h
  exact List.mem_append_right _ List.mem_cons_self

theorem Wins.takes (h : Wins policy definitions rest d n) : d.Takes rest n := by
  obtain ⟨_, _, _, takes, _⟩ := h
  exact takes

theorem Wins.unique (h : Wins policy definitions rest d n)
    (h' : Wins policy definitions rest d' m) : d = d' ∧ n = m := by
  have mem := h.mem
  have mem' := h'.mem
  obtain ⟨before, after, split, takes, best, first⟩ := h
  obtain ⟨before', after', split', takes', best', first'⟩ := h'
  obtain rfl := (best d' mem' m takes').antisymm (best' d mem n takes)
  refine ⟨?_, rfl⟩
  -- Neither winner stands before the other, as it takes as much.
  rcases List.append_eq_append_iff.mp (split.symm.trans split') with
    ⟨more, rfl, behind⟩ | ⟨more, rfl, behind⟩
  · cases more with
    | nil => exact (List.cons.inj behind).1
    | cons x more =>
      obtain ⟨rfl, _⟩ := List.cons.inj behind
      exact absurd takes (first' d (by simp))
  · cases more with
    | nil => exact (List.cons.inj behind).1.symm
    | cons x more =>
      obtain ⟨rfl, _⟩ := List.cons.inj behind
      exact absurd takes' (first d' (by simp))

/-- A further definition that takes nothing better changes nothing. -/
theorem Wins.skip (h : Wins policy definitions rest d n)
    (worse : ∀ m, d'.Takes rest m → policy.Favors n m) :
    Wins policy (definitions ++ [d']) rest d n := by
  obtain ⟨before, after, rfl, takes, best, first⟩ := h
  refine ⟨before, after ++ [d'], by simp, takes, fun other mem m takes' => ?_, first⟩
  rcases List.mem_append.mp mem with mem | mem
  · exact best other mem m takes'
  · obtain rfl := List.mem_singleton.mp mem
    exact worse m takes'

/-- A further definition that takes something better than all others wins. -/
theorem wins_last (takes : d.Takes rest n)
    (better : ∀ d' ∈ definitions, ∀ m, d'.Takes rest m → policy.prefers n m) :
    Wins policy (definitions ++ [d]) rest d n := by
  refine ⟨definitions, [], rfl, takes, fun other mem m takes' => ?_, fun other mem takes' => ?_⟩
  · rcases List.mem_append.mp mem with mem | mem
    · exact MatchPolicy.favors_of_prefers (better other mem m takes')
    · obtain rfl := List.mem_singleton.mp mem
      rw [takes.unique takes']
      exact MatchPolicy.favors_refl
  · exact MatchPolicy.ne_of_prefers (better other mem n takes') rfl

end Wins

namespace Lexer

variable {lexer : Lexer} {policy : MatchPolicy} {source : String} {position fuel : Nat}
  {rest text behind : List Char} {d : TokenDefinition} {n : Nat}
  {best : Option (TokenDefinition × Nat)} {definitions : List TokenDefinition}

/-- The better of what has been found and the match of another definition. -/
def consider (policy : MatchPolicy) (rest : List Char) (best : Option (TokenDefinition × Nat))
    (d : TokenDefinition) : Option (TokenDefinition × Nat) :=
  match d.pattern.matchLength? rest with
  | none => best
  | some 0 => best
  | some n =>
    match best with
    | some (_, m) => if policy.prefers n m then some (d, n) else best
    | none => some (d, n)

theorem select_eq_foldl :
    lexer.select rest = lexer.definitions.foldl (consider lexer.policy rest) none := rfl

theorem consider_none (h : d.Takes rest n) : consider policy rest none d = some (d, n) := by
  obtain ⟨k, rfl⟩ := Nat.exists_eq_succ_of_ne_zero h.2.ne'
  rw [consider, h.1]
  rfl

theorem consider_some (h : d.Takes rest n) {best : TokenDefinition × Nat} :
    consider policy rest (some best) d =
      if policy.prefers n best.2 then some (d, n) else some best := by
  obtain ⟨k, rfl⟩ := Nat.exists_eq_succ_of_ne_zero h.2.ne'
  rw [consider, h.1]
  rfl

theorem consider_untaken (h : ∀ n, ¬ d.Takes rest n) : consider policy rest best d = best := by
  unfold consider
  split
  next => rfl
  next => rfl
  next n filled matched => exact absurd ⟨matched, Nat.pos_of_ne_zero filled⟩ (h n)

/-- What a selection among definitions comes to: nothing if none of them takes anything, and
otherwise the winner. -/
def Chosen (policy : MatchPolicy) (definitions : List TokenDefinition) (rest : List Char) :
    Option (TokenDefinition × Nat) → Prop
  | none => ∀ d ∈ definitions, ∀ n, ¬ d.Takes rest n
  | some (d, n) => Wins policy definitions rest d n

theorem Chosen.consider (h : Chosen policy definitions rest best) (d : TokenDefinition) :
    Chosen policy (definitions ++ [d]) rest (consider policy rest best d) := by
  by_cases idle : ∀ n, ¬ d.Takes rest n
  · rw [consider_untaken idle]
    cases best with
    | none => exact List.forall_mem_append.mpr ⟨h, List.forall_mem_singleton.mpr idle⟩
    | some winner => exact Wins.skip h fun m takes => absurd takes (idle m)
  · simp only [not_forall, not_not] at idle
    obtain ⟨n, takes⟩ := idle
    cases best with
    | none =>
      rw [consider_none takes]
      exact wins_last takes fun d' mem m takes' => absurd takes' (h d' mem m)
    | some winner =>
      obtain ⟨first, m⟩ := winner
      have wins : Wins policy definitions rest first m := h
      rw [consider_some takes]
      by_cases prefers : policy.prefers n m
      · rw [if_pos prefers]
        obtain ⟨_, _, _, _, best, _⟩ := wins
        exact wins_last takes fun d' mem l takes' =>
          MatchPolicy.prefers_of_favors prefers (best d' mem l takes')
      · rw [if_neg prefers]
        refine wins.skip fun l takes' => ?_
        rw [takes'.unique takes]
        exact MatchPolicy.favors_of_not_prefers prefers

theorem chosen_select (lexer : Lexer) (rest : List Char) :
    Chosen lexer.policy lexer.definitions rest (lexer.select rest) := by
  rw [select_eq_foldl]
  induction lexer.definitions using List.reverseRecOn with
  | nil => exact List.forall_mem_nil _
  | append_singleton definitions d ih =>
    rw [List.foldl_concat]
    exact ih.consider d

theorem select_eq_some_iff_wins :
    lexer.select rest = some (d, n) ↔ Wins lexer.policy lexer.definitions rest d n := by
  have chosen := lexer.chosen_select rest
  constructor
  · intro selected
    rwa [selected] at chosen
  · intro wins
    cases selected : lexer.select rest with
    | none =>
      rw [selected] at chosen
      exact absurd wins.takes (chosen d wins.mem n)
    | some winner =>
      rw [selected] at chosen
      obtain ⟨rfl, rfl⟩ := wins.unique chosen
      rfl

theorem select_eq_none_iff :
    lexer.select rest = none ↔ ∀ d ∈ lexer.definitions, ∀ n, ¬ d.Takes rest n := by
  have chosen := lexer.chosen_select rest
  constructor
  · intro unselected
    rwa [unselected] at chosen
  · intro idle
    cases selected : lexer.select rest with
    | none => rfl
    | some winner =>
      rw [selected] at chosen
      exact absurd chosen.takes (idle _ chosen.mem _)

theorem not_takes_iff : (∀ n, ¬ d.Takes rest n) ↔
    d.pattern.matchLength? rest = none ∨ d.pattern.matchLength? rest = some 0 := by
  unfold TokenDefinition.Takes
  cases d.pattern.matchLength? rest with
  | none => simp
  | some m => simp [Nat.pos_iff_ne_zero]

/-- Each token of a stream is what the best match at its place makes, the first of equally long
ones; and the stream breaks off with an error exactly where something is left of the text and every
definition fails there or matches nothing of it. -/
theorem tokens_selected (lexer : Lexer) (source : String) {before : List Token}
    {item : Except LexError Token} {after : List (Except LexError Token)}
    (split : lexer.tokens source = before.map .ok ++ item :: after) :
    ∃ rest, source.toList = spelled before ++ rest ∧
      (rest = [] → item = .ok (.finish source.length)) ∧
      (rest ≠ [] → ∀ t, item = .ok t → ∃ d n, Wins lexer.policy lexer.definitions rest d n ∧
        t = ⟨d.name, String.ofList (rest.take n), (spelled before).length⟩) ∧
      ((∃ e, item = .error e) ↔ rest ≠ [] ∧ ∀ d ∈ lexer.definitions,
        d.pattern.matchLength? rest = none ∨ d.pattern.matchLength? rest = some 0) := by
  rw [tokens_eq_itemsFrom] at split
  obtain ⟨rest, pieces, here⟩ := pieces_of_itemsFrom split
  rw [Nat.zero_add] at here
  have whole := pieces.spells
  refine ⟨rest, whole, ?_⟩
  have idle : lexer.select rest = none ↔ ∀ d ∈ lexer.definitions,
      d.pattern.matchLength? rest = none ∨ d.pattern.matchLength? rest = some 0 :=
    select_eq_none_iff.trans (forall₂_congr fun _ _ => not_takes_iff)
  cases rest with
  | nil =>
    rw [List.append_nil] at whole
    rw [← whole, String.length_toList] at here
    obtain ⟨rfl, _⟩ := List.cons.inj here
    simp
  | cons c rest =>
    cases selected : lexer.select (c :: rest) with
    | none =>
      rw [itemsFrom_stuck selected] at here
      obtain ⟨rfl, _⟩ := List.cons.inj here
      simpa using idle.mp selected
    | some winner =>
      obtain ⟨d, n⟩ := winner
      rw [itemsFrom_select selected] at here
      obtain ⟨rfl, _⟩ := List.cons.inj here
      have busy := mt idle.mpr (selected.trans_ne (Option.some_ne_none _))
      refine ⟨by simp, fun _ t same => ?_, by simp, fun stuck => absurd stuck.2 busy⟩
      exact ⟨d, n, select_eq_some_iff_wins.mp selected, (Except.ok.inj same).symm⟩

/-- Two keywords, the names, which are keywords too, and a definition that can match nothing. -/
def keywords : Lexer where
  definitions := [
    ⟨"blanks", .star .greedy (.set (.single '_'))⟩,
    ⟨"an", .seq (.set (.single 'a')) (.set (.single 'n'))⟩,
    ⟨"and", .seq (.set (.single 'a')) (.seq (.set (.single 'n')) (.set (.single 'd')))⟩,
    ⟨"name", .plus .greedy (.set (.between 'a' 'z'))⟩]
  policy := .longest

set_option maxRecDepth 100000 in
theorem tokens_selected_keywords :
    keywords.tokens "and__!" = [⟨"and", "and", 0⟩, ⟨"blanks", "__", 3⟩].map .ok ++
        [.error ⟨5, '!', "and__!"⟩] ∧
      (∃ d n, Wins .longest keywords.definitions "and__!".toList d n ∧
        (⟨"and", "and", 0⟩ : Token) = ⟨d.name, String.ofList ("and__!".toList.take n), 0⟩) ∧
      ∀ d ∈ keywords.definitions,
        d.pattern.matchLength? ['!'] = none ∨ d.pattern.matchLength? ['!'] = some 0 := by
  have tokens : keywords.tokens "and__!" = [⟨"and", "and", 0⟩, ⟨"blanks", "__", 3⟩].map .ok ++
      [.error ⟨5, '!', "and__!"⟩] := by decide +kernel
  obtain ⟨first, whole, _, token, _⟩ := tokens_selected keywords "and__!"
    (show _ = List.map Except.ok [] ++ _ :: _ from tokens)
  obtain ⟨last, whole', _, _, stuck⟩ := tokens_selected keywords "and__!" tokens
  obtain rfl : "and__!".toList = first := whole
  have left : "and__".toList ++ ['!'] = "and__".toList ++ last := whole'
  obtain rfl : ['!'] = last := List.append_cancel_left left
  exact ⟨tokens, token (by decide) _ rfl, (stuck.mp ⟨_, rfl⟩).2⟩

end Lexer

end ShiftFirst
