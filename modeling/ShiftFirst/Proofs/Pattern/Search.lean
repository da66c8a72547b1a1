import ShiftFirst.Pattern.Matcher

namespace ShiftFirst

/-- A place behind some of the characters that come next. -/
def Cursor.Reaches (c next : Cursor) : Prop :=
  ∃ taken, c.rest = taken ++ next.rest ∧ next.position = c.position + taken.length

theorem Cursor.Reaches.refl (c : Cursor) : c.Reaches c := ⟨[], rfl, rfl⟩

theorem Cursor.Reaches.trans {c next last : Cursor} (h : c.Reaches next) (h' : next.Reaches last) :
    c.Reaches last := by
  obtain ⟨taken, rest, position⟩ := h
  obtain ⟨taken', rest', position'⟩ := h'
  refine ⟨taken ++ taken', ?_, ?_⟩
  · rw [rest, rest', List.append_assoc]
  · rw [position', position, List.length_append, Nat.add_assoc]

theorem Cursor.reaches_of_take {c next : Cursor} {s : Text.CharSet} (h : c.take? s = some next) :
    c.Reaches next := by
  unfold take? at h
  split at h
  next => simp at h
  next x rest he =>
    split at h
    next =>
      cases h
      exact ⟨[x], he, rfl⟩
    next => simp at h

namespace Pattern

variable {α : Type} {part : Part} {visits : Visits} {c : Cursor} {k : Continuation α} {answer : α}

theorem either_ok {first second : Visits → Attempt α}
    (h : either first second visits = .ok answer) :
    ∃ visits, first visits = .ok answer ∨ second visits = .ok answer := by
  unfold either at h
  split at h
  next he =>
    cases h
    exact ⟨visits, Or.inl he⟩
  next visits' _ => exact ⟨visits', Or.inr h⟩

theorem prefer_ok {greed : Greed} {more fewer : Visits → Attempt α}
    (h : prefer greed more fewer visits = .ok answer) :
    ∃ visits, more visits = .ok answer ∨ fewer visits = .ok answer := by
  cases greed with
  | greedy => exact either_ok h
  | lazy =>
    obtain ⟨visits, he⟩ := either_ok h
    exact ⟨visits, he.symm⟩

theorem visit_ok {go : Visits → Attempt α} (h : visit part c go visits = .ok answer) :
    ∃ visits, go visits = .ok answer := by
  unfold visit at h
  split at h
  next => simp at h
  next => exact ⟨_, h⟩

/-- Whatever is to be done at the end of a match is done at a place that the match can reach. -/
def Confined (match_ : Visits → Cursor → Continuation α → Attempt α) : Prop :=
  ∀ visits c k answer, match_ visits c k = .ok answer →
    ∃ visits next, c.Reaches next ∧ k visits next = .ok answer

theorem confined_rounds {greed : Greed} {round : Visits → Cursor → Continuation α → Attempt α}
    (confined : Confined round) (fuel : Nat) : Confined (rounds greed part round fuel) := by
  induction fuel with
  | zero =>
    intro visits c k answer h
    simp [rounds] at h
  | succ fuel ih =>
    intro visits c k answer h
    obtain ⟨visits, h⟩ := visit_ok h
    obtain ⟨visits, further | done⟩ := prefer_ok h
    · obtain ⟨visits, next, there, h⟩ := confined _ _ _ _ further
      obtain ⟨visits, last, behind, h⟩ := ih _ _ _ _ h
      exact ⟨visits, last, there.trans behind, h⟩
    · exact ⟨visits, c, .refl c, done⟩

theorem confined_search (p : Pattern) (part : Part) : Confined (α := α) (p.search part) := by
  induction p generalizing part with
  | empty =>
    intro visits c k answer h
    exact ⟨visits, c, .refl c, h⟩
  | set s =>
    intro visits c k answer h
    unfold search at h
    split at h
    next next he => exact ⟨visits, next, Cursor.reaches_of_take he, h⟩
    next => simp at h
  | anchor a =>
    intro visits c k answer h
    unfold search at h
    split at h
    next => exact ⟨visits, c, .refl c, h⟩
    next => simp at h
  | seq p q ihp ihq =>
    intro visits c k answer h
    obtain ⟨visits, next, there, h⟩ := ihp _ _ _ _ _ h
    obtain ⟨visits, last, behind, h⟩ := ihq _ _ _ _ _ h
    exact ⟨visits, last, there.trans behind, h⟩
  | alt p q ihp ihq =>
    intro visits c k answer h
    obtain ⟨visits, h⟩ := visit_ok h
    obtain ⟨visits, left | right⟩ := either_ok h
    · exact ihp _ _ _ _ _ left
    · exact ihq _ _ _ _ _ right
  | opt greed p ih =>
    intro visits c k answer h
    obtain ⟨visits, h⟩ := visit_ok h
    obtain ⟨visits, once | never⟩ := prefer_ok h
    · exact ih _ _ _ _ _ once
    · exact ⟨visits, c, .refl c, never⟩
  | star greed p ih =>
    intro visits c k answer h
    exact confined_rounds (ih _) _ _ _ _ _ h
  | plus greed p ih =>
    intro visits c k answer h
    obtain ⟨visits, next, there, h⟩ := ih _ _ _ _ _ h
    obtain ⟨visits, last, behind, h⟩ := confined_rounds (ih _) _ _ _ _ _ h
    exact ⟨visits, last, there.trans behind, h⟩

/-- A match ends within the text. -/
theorem matchLength?_le {p : Pattern} {s : List Char} {n : Nat} (h : p.matchLength? s = some n) :
    n ≤ s.length := by
  unfold matchLength? at h
  cases he : p.search [] [] (.ofChars s) fun _ c => .ok c.position with
  | error visits =>
    rw [he] at h
    cases h
  | ok position =>
    rw [he] at h
    cases h
    obtain ⟨_, last, ⟨taken, rest, reached⟩, ends⟩ := confined_search p [] _ _ _ _ he
    cases ends
    have whole : s = taken ++ last.rest := rest
    have length : s.length = taken.length + last.rest.length := by
      rw [whole, List.length_append]
    have zero : (Cursor.ofChars s).position = 0 := rfl
    omega

end Pattern

end ShiftFirst
