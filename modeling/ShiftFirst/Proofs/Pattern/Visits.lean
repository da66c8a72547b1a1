import ShiftFirst.Pattern.Matcher

namespace ShiftFirst.Pattern

variable {part : Part} {visits visits' visits'' : Visits}

namespace Visits

/-- No place of the search at the part is at the position or behind it. -/
def Before (visits : Visits) (position : Nat) (part : Part) : Prop :=
  ∀ n parts, (n, parts) ∈ visits → part ∈ parts → n < position

/-- The search has not come to the part anywhere. -/
def Misses (visits : Visits) (part : Part) : Prop :=
  ∀ n parts, (n, parts) ∈ visits → part ∉ parts

theorem Misses.before (h : visits.Misses part) (position : Nat) : visits.Before position part :=
  fun n parts mem inside => absurd inside (h n parts mem)

theorem seen_eq_false {position : Nat} (h : visits.Before position part) :
    visits.seen position part = false := by
  induction visits with
  | nil => rfl
  | cons first rest ih =>
    obtain ⟨n, parts⟩ := first
    unfold seen
    split
    next => rfl
    next =>
      split
      next here =>
        refine decide_eq_false fun inside => ?_
        exact absurd (h n parts List.mem_cons_self inside) (Nat.not_lt.mpr (Nat.le_of_eq here.symm))
      next => exact ih fun n parts mem => h n parts (List.mem_cons_of_mem _ mem)

theorem mem_add {position n : Nat} {parts : List Part} {other : Part}
    (mem : (n, parts) ∈ visits.add position part) (inside : other ∈ parts) :
    (n = position ∧ other = part) ∨ ∃ parts, (n, parts) ∈ visits ∧ other ∈ parts := by
  induction visits with
  | nil =>
    cases List.mem_singleton.mp mem
    exact Or.inl ⟨rfl, List.mem_singleton.mp inside⟩
  | cons first rest ih =>
    obtain ⟨m, old⟩ := first
    unfold add at mem
    split at mem
    next =>
      rcases List.mem_cons.mp mem with here | mem
      · cases here
        exact Or.inl ⟨rfl, List.mem_singleton.mp inside⟩
      · exact Or.inr ⟨parts, mem, inside⟩
    next =>
      split at mem
      next same =>
        rcases List.mem_cons.mp mem with here | mem
        · cases here
          rcases List.mem_cons.mp inside with rfl | inside
          · exact Or.inl ⟨same, rfl⟩
          · exact Or.inr ⟨old, List.mem_cons_self, inside⟩
        · exact Or.inr ⟨parts, List.mem_cons_of_mem _ mem, inside⟩
      next =>
        rcases List.mem_cons.mp mem with here | mem
        · cases here
          exact Or.inr ⟨_, List.mem_cons_self, inside⟩
        · rcases ih mem with here | ⟨parts, mem, inside⟩
          · exact Or.inl here
          · exact Or.inr ⟨parts, List.mem_cons_of_mem _ mem, inside⟩

theorem Before.add {position : Nat} (h : visits.Before position part) :
    (visits.add position part).Before (position + 1) part := by
  intro n parts mem inside
  rcases mem_add mem inside with ⟨rfl, _⟩ | ⟨parts, mem, inside⟩
  · exact Nat.lt_succ_self n
  · exact Nat.lt_succ_of_lt (h n parts mem inside)

theorem Misses.add {other : Part} (h : visits.Misses other) (position : Nat)
    (apart : other ≠ part) : (visits.add position part).Misses other := by
  intro n parts mem inside
  rcases mem_add mem inside with ⟨_, same⟩ | ⟨parts, mem, inside⟩
  · exact apart same
  · exact h n parts mem inside

/-- The search has come to no part of a part. -/
def Fresh (visits : Visits) (part : Part) : Prop := ∀ inner, part <:+ inner → visits.Misses inner

/-- Of what lies outside a part the search has come to no more. -/
def Within (part : Part) (visits visits' : Visits) : Prop :=
  ∀ other, ¬ part <:+ other → visits.Misses other → visits'.Misses other

theorem Within.refl (part : Part) (visits : Visits) : Within part visits visits :=
  fun _ _ h => h

theorem Within.trans (h : Within part visits visits') (h' : Within part visits' visits'') :
    Within part visits visits'' :=
  fun other outside misses => h' other outside (h other outside misses)

theorem Within.add (part : Part) (visits : Visits) (position : Nat) :
    Within part visits (visits.add position part) := by
  intro other outside misses
  exact misses.add position fun same => outside (same ▸ List.suffix_rfl)

theorem Within.widen {turn : Bool} (h : Within (turn :: part) visits visits') :
    Within part visits visits' :=
  fun other outside => h other fun inner => outside ((List.suffix_cons turn part).trans inner)

theorem Fresh.inner (h : visits.Fresh part) (turn : Bool) : visits.Fresh (turn :: part) :=
  fun inner suffix => h inner ((List.suffix_cons turn part).trans suffix)

theorem Fresh.misses (h : visits.Fresh part) : visits.Misses part := h part List.suffix_rfl

theorem not_suffix {turn turn' : Bool} {inner : Part} (apart : turn ≠ turn')
    (h : turn :: part <:+ inner) : ¬ turn' :: part <:+ inner := by
  intro h'
  have longer := List.suffix_of_suffix_length_le h h' (Nat.le_refl _)
  exact apart (List.cons.inj (longer.eq_of_length rfl)).1

theorem Fresh.beside {turn turn' : Bool} (h : visits.Fresh part)
    (within : Within (turn' :: part) visits visits') (apart : turn ≠ turn') :
    visits'.Fresh (turn :: part) :=
  fun inner suffix => within inner (not_suffix apart suffix) (h.inner turn inner suffix)

theorem Fresh.inner_add (h : visits.Fresh part) (turn : Bool) (position : Nat) :
    (visits.add position part).Fresh (turn :: part) := by
  intro inner suffix
  refine (h.inner turn inner suffix).add position ?_
  rintro rfl
  exact absurd suffix.length_le (Nat.not_succ_le_self _)

end Visits

end ShiftFirst.Pattern
