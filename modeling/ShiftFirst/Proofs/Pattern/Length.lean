import Mathlib.Data.List.TakeWhile
import ShiftFirst.Text.CharSet

namespace ShiftFirst.Pattern

open Text (CharSet)

variable {s : CharSet} {f g : List Char → Option Nat}

/-- One character of a set. -/
def one (s : CharSet) : List Char → Option Nat
  | [] => none
  | x :: _ => if s.contains x then some 1 else none

/-- One match behind another. -/
def followed (f g : List Char → Option Nat) (text : List Char) : Option Nat :=
  (f text).bind fun m => (g (text.drop m)).map (m + ·)

theorem followed_of_some {text : List Char} {m n : Nat} (hf : f text = some m)
    (hg : g (text.drop m) = some n) : followed f g text = some (m + n) := by
  rw [followed, hf, Option.bind_some, hg, Option.map_some]

theorem followed_eq_none {text : List Char} (h : followed f g text = none) :
    f text = none ∨ ∃ m, f text = some m ∧ g (text.drop m) = none := by
  unfold followed at h
  cases hf : f text with
  | none => exact Or.inl rfl
  | some m =>
    rw [hf, Option.bind_some, Option.map_eq_none_iff] at h
    exact Or.inr ⟨m, rfl, h⟩

theorem followed_eq_some {text : List Char} {l : Nat} (h : followed f g text = some l) :
    ∃ m n, f text = some m ∧ g (text.drop m) = some n ∧ m + n = l := by
  obtain ⟨m, hf, h⟩ := Option.bind_eq_some_iff.mp h
  obtain ⟨n, hg, h⟩ := Option.map_eq_some_iff.mp h
  exact ⟨m, n, hf, hg, h⟩

/-- As many characters of a set as come next. -/
def many (s : CharSet) (text : List Char) : Nat := (text.takeWhile s.contains).length

theorem many_of_one {text : List Char} {n : Nat} (h : one s text = some n) :
    many s text = n + many s (text.drop n) := by
  unfold one at h
  split at h
  next => cases h
  next x rest =>
    split at h
    next inside =>
      cases h
      rw [many, List.takeWhile_cons_of_pos inside, List.length_cons, Nat.add_comm]
      rfl
    next => cases h

theorem many_of_one_none {text : List Char} (h : one s text = none) : many s text = 0 := by
  unfold one at h
  split at h
  next => rfl
  next x rest =>
    split at h
    next => cases h
    next outside => rw [many, List.takeWhile_cons_of_neg outside, List.length_nil]

/-- As many characters of a set as come next, if there are some. -/
def several (s : CharSet) (text : List Char) : Option Nat :=
  if many s text = 0 then none else some (many s text)

theorem all_of_several {text : List Char} {n : Nat} (h : several s text = some n) :
    ∀ x ∈ text.take n, s.contains x := by
  unfold several at h
  split at h
  next => cases h
  next =>
    cases h
    have whole : text.takeWhile s.contains = text.take (many s text) :=
      List.prefix_iff_eq_take.mp (List.takeWhile_prefix _)
    rw [← whole]
    exact fun x mem => List.mem_takeWhile_imp mem

/-- The number of characters of a word that a text begins with. -/
def wordLength? (w text : List Char) : Option Nat := if w <+: text then some w.length else none

theorem one_single (x : Char) (text : List Char) :
    one (.single x) text = wordLength? [x] text := by
  cases text with
  | nil => rfl
  | cons y rest =>
    have same : CharSet.contains (.single x) y = decide (x = y) := by
      simp only [CharSet.contains, CharSet.covers, CharSet.single, CharSet.between, List.any_cons,
        List.any_nil, Bool.or_false, ← Bool.decide_and]
      refine decide_eq_decide.mpr ⟨fun ⟨le, ge⟩ => ?_, ?_⟩
      · exact Char.toNat_inj.mp (Nat.le_antisymm le ge)
      · rintro rfl
        exact ⟨Nat.le_refl _, Nat.le_refl _⟩
    rw [one, same, wordLength?]
    by_cases h : x = y
    · subst h
      simp
    · simp [h]

theorem followed_single (x : Char) (w text : List Char) :
    followed (one (.single x)) (wordLength? w) text = wordLength? (x :: w) text := by
  rw [followed, one_single]
  cases text with
  | nil => simp [wordLength?]
  | cons y rest =>
    by_cases h : x = y
    · subst h
      by_cases more : w <+: rest <;> simp [wordLength?, more, Nat.add_comm]
    · simp [wordLength?, h]

theorem many_append_of_all {front rest : List Char} (all : ∀ x ∈ front, s.contains x)
    (ends : ∀ x ∈ rest.head?, s.contains x = false) : many s (front ++ rest) = front.length := by
  have none : rest.takeWhile s.contains = [] := by
    cases rest with
    | nil => rfl
    | cons x rest => exact List.takeWhile_cons_of_neg (Bool.eq_false_iff.mp (ends x rfl))
  rw [many, List.takeWhile_append_of_pos all, none, List.append_nil]

/-- What a match takes does not depend on the text from a character on that it cannot take. -/
structure Stable (x : Char) (f : List Char → Option Nat) : Prop where
  append : ∀ text more, f (text ++ x :: more) = f text
  le : ∀ text n, f text = some n → n ≤ text.length

section Stable

variable {x : Char}

theorem stable_one (outside : s.contains x = false) : Stable x (one s) where
  append text more := by
    cases text with
    | nil => exact if_neg (Bool.eq_false_iff.mp outside)
    | cons y text => rfl
  le text n h := by
    unfold one at h
    split at h
    next => cases h
    next =>
      split at h
      next =>
        cases h
        exact Nat.succ_le_succ (Nat.zero_le _)
      next => cases h

theorem many_append (outside : s.contains x = false) (text more : List Char) :
    many s (text ++ x :: more) = many s text := by
  unfold many
  induction text with
  | nil => rw [List.nil_append, List.takeWhile_cons_of_neg (Bool.eq_false_iff.mp outside)]; rfl
  | cons y text ih =>
    rw [List.cons_append, List.takeWhile_cons, List.takeWhile_cons]
    split
    next => rw [List.length_cons, List.length_cons, ih]
    next => rfl

theorem many_le (s : CharSet) (text : List Char) : many s text ≤ text.length :=
  (List.takeWhile_sublist _).length_le

theorem stable_many (outside : s.contains x = false) :
    Stable x fun text => some (many s text) where
  append text more := by rw [many_append outside]
  le text n h := by
    cases h
    exact many_le s text

theorem stable_several (outside : s.contains x = false) : Stable x (several s) where
  append text more := by rw [several, several, many_append outside]
  le text n h := by
    unfold several at h
    split at h
    next => cases h
    next =>
      cases h
      exact many_le s text

theorem stable_opt (outside : s.contains x = false) :
    Stable x fun text => some ((one s text).getD 0) where
  append text more := by rw [(stable_one outside).append]
  le text n h := by
    cases h
    cases length : one s text with
    | none => exact Nat.zero_le _
    | some n => exact (stable_one outside).le text n length

theorem Stable.followed (hf : Stable x f) (hg : Stable x g) : Stable x (followed f g) where
  append text more := by
    unfold Pattern.followed
    rw [hf.append]
    cases length : f text with
    | none => rfl
    | some m =>
      rw [Option.bind_some, Option.bind_some, List.drop_append_of_le_length (hf.le text m length),
        hg.append]
  le text n h := by
    obtain ⟨m, n, first, second, rfl⟩ := followed_eq_some h
    have le := hf.le text m first
    have le' := hg.le _ n second
    rw [List.length_drop] at le'
    omega

theorem Stable.or (hf : Stable x f) (hg : Stable x g) : Stable x fun text => (f text).or (g text)
    where
  append text more := by rw [hf.append, hg.append]
  le text n h := by
    rcases Option.or_eq_some_iff.mp h with h | ⟨_, h⟩
    · exact hf.le text n h
    · exact hg.le text n h

theorem stable_word {w : List Char} (outside : x ∉ w) : Stable x (wordLength? w) where
  append text more := by
    have same : w <+: text ++ x :: more ↔ w <+: text := by
      refine ⟨fun begins => ?_, fun begins => begins.trans (List.prefix_append _ _)⟩
      by_contra short
      -- A word that the text does not begin with reaches beyond it, to the character.
      have longer : text.length < w.length := by
        by_contra le
        exact short (List.prefix_of_prefix_length_le begins (List.prefix_append _ _)
          (Nat.le_of_not_lt le))
      have reaches : text ++ [x] <+: text ++ x :: more :=
        ⟨more, by rw [List.append_assoc, List.singleton_append]⟩
      have inside := List.prefix_of_prefix_length_le reaches begins (by
        rw [List.length_append]
        exact longer)
      exact outside (inside.subset (List.mem_append_right _ (List.mem_singleton_self x)))
    simp only [wordLength?, same]
  le text n h := by
    unfold wordLength? at h
    split at h
    next begins =>
      cases h
      exact begins.length_le
    next => cases h

end Stable

/-- What a match takes it takes without the text behind it. -/
def Local (f : List Char → Option Nat) : Prop :=
  ∀ text n k, f text = some n → n ≤ k → f (text.take k) = some n

section Local

theorem many_take (s : CharSet) (text : List Char) (k : Nat) :
    many s (text.take k) = min k (many s text) := by
  rw [many, many, ← List.take_takeWhile, List.length_take]

theorem one_take_of_none {text : List Char} (h : one s text = none) (k : Nat) :
    one s (text.take k) = none := by
  cases text with
  | nil => rw [List.take_nil, h]
  | cons x rest =>
    cases k with
    | zero => rfl
    | succ k => exact h

theorem local_one : Local (one s) := by
  intro text n k h le
  unfold one at h
  split at h
  next => cases h
  next x rest =>
    split at h
    next inside =>
      cases h
      obtain ⟨k, rfl⟩ := Nat.exists_eq_add_of_le' le
      exact if_pos inside
    next => cases h

theorem local_many : Local fun text => some (many s text) := by
  intro text n k h le
  cases h
  dsimp only
  rw [many_take, Nat.min_eq_right le]

theorem local_opt : Local fun text => some ((one s text).getD 0) := by
  intro text n k h le
  dsimp only at h ⊢
  cases length : one s text with
  | none => rw [one_take_of_none length, ← h, length]
  | some m =>
    rw [length] at h
    cases h
    rw [local_one text _ k length le]

theorem several_take_of_none {text : List Char} (h : several s text = none) (k : Nat) :
    several s (text.take k) = none := by
  have none : many s text = 0 := by
    by_contra some
    rw [several, if_neg some] at h
    cases h
  rw [several, many_take, none, Nat.min_zero, if_pos rfl]

theorem local_several : Local (several s) := by
  intro text n k h le
  unfold several at h ⊢
  split at h
  next => cases h
  next some =>
    cases h
    rw [many_take, Nat.min_eq_right le, if_neg some]

theorem Local.followed (hf : Local f) (hg : Local g) : Local (followed f g) := by
  intro text l k h le
  obtain ⟨m, n, first, second, rfl⟩ := followed_eq_some h
  have before := hf text m k first (by omega)
  have behind := hg (text.drop m) n (k - m) second (by omega)
  rw [← List.drop_take] at behind
  exact followed_of_some before behind

theorem Local.or (hf : Local f) (hg : Local g)
    (none : ∀ text k, f text = none → f (text.take k) = none) :
    Local fun text => (f text).or (g text) := by
  intro text n k h le
  rcases Option.or_eq_some_iff.mp h with h | ⟨fails, h⟩
  · exact Option.or_eq_some_iff.mpr (Or.inl (hf text n k h le))
  · exact Option.or_eq_some_iff.mpr (Or.inr ⟨none text k fails, hg text n k h le⟩)

theorem local_word (w : List Char) : Local (wordLength? w) := by
  intro text n k h le
  unfold wordLength? at h ⊢
  split at h
  next begins =>
    cases h
    exact if_pos (List.prefix_take_iff.mpr ⟨begins, le⟩)
  next => cases h

end Local

theorem wordLength?_append {w text : List Char} {n : Nat} (h : wordLength? w text = some n)
    (more : List Char) : wordLength? w (text ++ more) = some n := by
  unfold wordLength? at h ⊢
  split at h
  next begins =>
    rw [if_pos (begins.trans (List.prefix_append _ _))]
    exact h
  next => cases h

end ShiftFirst.Pattern
