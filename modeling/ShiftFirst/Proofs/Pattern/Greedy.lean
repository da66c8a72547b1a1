import ShiftFirst.Proofs.Pattern.Length
import ShiftFirst.Proofs.Pattern.Visits

namespace ShiftFirst

open Text (CharSet)

namespace Pattern

variable {α : Type} {part : Part} {visits : Visits} {c : Cursor}
  {k : Continuation α} {p q : Pattern} {s : CharSet} {f g : List Char → Option Nat}

open Visits (Fresh Within)

section Search

variable {greed : Greed}

theorem search_set :
    (set s).search part visits c k =
      match c.take? s with
      | some next => k visits next
      | none => .error visits := rfl

theorem search_seq :
    (seq p q).search part visits c k =
      p.search (false :: part) visits c fun visits next => q.search (true :: part) visits next k :=
  rfl

theorem search_alt :
    (alt p q).search part visits c k =
      visit part c
        (either (fun visits => p.search (false :: part) visits c k)
          fun visits => q.search (true :: part) visits c k) visits := rfl

theorem search_opt :
    (opt greed p).search part visits c k =
      visit part c
        (prefer greed (fun visits => p.search (false :: part) visits c k)
          fun visits => k visits c) visits := rfl

theorem search_plus :
    (plus greed p).search part visits c k =
      p.search (false :: part) visits c fun visits next =>
        rounds greed part (p.search (false :: part)) (next.rest.length + 1) visits next k := rfl

end Search

/-- Behind some number of the characters that come next. -/
def Ahead (c : Cursor) (n : Nat) (next : Cursor) : Prop :=
  next.rest = c.rest.drop n ∧ next.position = c.position + n

theorem Ahead.trans {next last : Cursor} {m n : Nat} (h : Ahead c m next) (h' : Ahead next n last) :
    Ahead c (m + n) last := by
  obtain ⟨rest, position⟩ := h
  obtain ⟨rest', position'⟩ := h'
  refine ⟨?_, ?_⟩
  · rw [rest', rest, List.drop_drop]
  · rw [position', position, Nat.add_assoc]

/-- A match takes as many characters as a function of the text says, if what is left to do then
succeeds; where the function has no number, it fails. -/
def Greedy (α : Type) (p : Pattern) (part : Part) (f : List Char → Option Nat) : Prop :=
  ∀ visits c, visits.Fresh part → ∀ k : Continuation α,
    match f c.rest with
    | some n => ∀ answer,
      (∀ visits' next, Within part visits visits' → Ahead c n next →
        k visits' next = .ok answer) → p.search part visits c k = .ok answer
    | none => ∃ visits', Within part visits visits' ∧ p.search part visits c k = .error visits'

theorem Greedy.congr (h : Greedy α p part f) (same : ∀ text, f text = g text) :
    Greedy α p part g := by
  rwa [← funext same]

theorem Greedy.some (h : Greedy α p part f) (fresh : visits.Fresh part) {n : Nat}
    (length : f c.rest = some n) {answer : α}
    (done : ∀ visits' next, Within part visits visits' → Ahead c n next →
      k visits' next = .ok answer) : p.search part visits c k = .ok answer := by
  have := h visits c fresh k
  rw [length] at this
  exact this answer done

theorem Greedy.none (h : Greedy α p part f) (fresh : visits.Fresh part)
    (length : f c.rest = none) (k : Continuation α) :
    ∃ visits', Within part visits visits' ∧ p.search part visits c k = .error visits' := by
  have := h visits c fresh k
  rwa [length] at this

theorem matchLength?_of_greedy (h : Greedy Nat p [] f) (text : List Char) :
    p.matchLength? text = f text := by
  have fresh : Fresh [] [] := fun _ _ _ _ mem => absurd mem List.not_mem_nil
  unfold matchLength?
  cases length : f text with
  | none =>
    obtain ⟨visits', _, failed⟩ := h.none (c := .ofChars text) fresh length
      fun _ c => .ok c.position
    rw [failed]
    rfl
  | some n =>
    have found := h.some (c := .ofChars text) (k := fun _ c => .ok c.position) fresh length
      fun visits' next _ ahead => congrArg Except.ok (ahead.2.trans (Nat.zero_add n))
    rw [found]
    rfl

theorem take?_of_one {n : Nat} (h : one s c.rest = some n) :
    n = 1 ∧ ∃ next, c.take? s = some next ∧ Ahead c 1 next := by
  obtain ⟨position, before, rest⟩ := c
  cases rest with
  | nil => cases h
  | cons x rest =>
    by_cases inside : s.contains x
    · cases (if_pos inside).symm.trans h
      exact ⟨rfl, ⟨position + 1, some x, rest⟩, if_pos inside, rfl, rfl⟩
    · cases (if_neg inside).symm.trans h

theorem take?_of_one_none (h : one s c.rest = none) : c.take? s = none := by
  obtain ⟨position, before, rest⟩ := c
  cases rest with
  | nil => rfl
  | cons x rest =>
    by_cases inside : s.contains x
    · cases (if_pos inside).symm.trans h
    · exact if_neg inside

theorem search_set_some {n : Nat} (h : one s c.rest = some n) :
    ∃ next, Ahead c n next ∧ ∀ (part : Part) (visits : Visits) (k : Continuation α),
      (set s).search part visits c k = k visits next := by
  obtain ⟨rfl, next, taken, ahead⟩ := take?_of_one h
  refine ⟨next, ahead, fun part visits k => ?_⟩
  rw [search_set, taken]

theorem search_set_none (h : one s c.rest = none) :
    (set s).search part visits c k = .error visits := by
  rw [search_set, take?_of_one_none h]

theorem greedy_set (s : CharSet) (part : Part) : Greedy α (set s) part (one s) := by
  intro visits c _ k
  cases length : one s c.rest with
  | none => exact ⟨visits, .refl _ _, search_set_none length⟩
  | some n =>
    intro answer done
    obtain ⟨next, ahead, found⟩ := search_set_some length
    rw [found]
    exact done visits next (.refl _ _) ahead

/-- Behind one character, whether the match behind it succeeds or not. -/
theorem Greedy.behind_set (hq : Greedy α q (true :: part) g) (s : CharSet) :
    Greedy α (seq (set s) q) part (followed (one s) g) := by
  intro visits c fresh k
  cases length : followed (one s) g c.rest with
  | none =>
    rcases followed_eq_none length with hf | ⟨m, hf, hg⟩
    · exact ⟨visits, .refl _ _, by rw [search_seq, search_set_none hf]⟩
    · obtain ⟨next, ahead, found⟩ := search_set_some hf
      rw [← ahead.1] at hg
      obtain ⟨visits', within, failed⟩ := hq.none (fresh.inner true) hg k
      exact ⟨visits', within.widen, by rw [search_seq, found, failed]⟩
  | some l =>
    intro answer done
    obtain ⟨m, n, hf, hg, rfl⟩ := followed_eq_some length
    obtain ⟨next, ahead, found⟩ := search_set_some hf
    rw [← ahead.1] at hg
    rw [search_seq, found]
    exact hq.some (fresh.inner true) hg fun visits' last within ahead' =>
      done visits' last within.widen (ahead.trans ahead')

/-- A match that never fails behind another one, to which the search therefore never comes back. -/
theorem Greedy.seq (hp : Greedy α p (false :: part) f) (hq : Greedy α q (true :: part) g)
    (total : ∀ text, g text ≠ Option.none) : Greedy α (seq p q) part (followed f g) := by
  intro visits c fresh k
  cases length : followed f g c.rest with
  | none =>
    rcases followed_eq_none length with hf | ⟨m, _, hg⟩
    · obtain ⟨visits', within, failed⟩ := hp.none (fresh.inner false) hf
        fun visits next => q.search (true :: part) visits next k
      exact ⟨visits', within.widen, by rw [search_seq, failed]⟩
    · exact absurd hg (total _)
  | some l =>
    intro answer done
    obtain ⟨m, n, hf, hg, rfl⟩ := followed_eq_some length
    rw [search_seq]
    refine hp.some (fresh.inner false) hf fun visits' next within ahead => ?_
    rw [← ahead.1] at hg
    refine hq.some (fresh.beside within (by decide)) hg fun visits'' last within' ahead' => ?_
    exact done visits'' last (within.widen.trans within'.widen) (ahead.trans ahead')

theorem search_visit (fresh : visits.Before c.position part) (go : Visits → Attempt α) :
    visit part c go visits = go (visits.add c.position part) := by
  rw [visit, Visits.seen_eq_false fresh]
  rfl

theorem Greedy.alt (hp : Greedy α p (false :: part) f) (hq : Greedy α q (true :: part) g) :
    Greedy α (alt p q) part fun text => (f text).or (g text) := by
  intro visits c fresh k
  have added := Within.add part visits c.position
  have first := fresh.inner_add false c.position
  have second := fresh.inner_add true c.position
  have visited := search_visit (c := c) (fresh.misses.before c.position)
    (either (fun visits => p.search (false :: part) visits c k)
      fun visits => q.search (true :: part) visits c k)
  dsimp only
  cases hf : f c.rest with
  | some m =>
    intro answer done
    have found := hp.some first hf fun visits' next within ahead =>
      done visits' next (added.trans within.widen) ahead
    rw [search_alt, visited, either, found]
  | none =>
    obtain ⟨visits', within, failed⟩ := hp.none first hf k
    have fresh' : visits'.Fresh (true :: part) := fun inner suffix =>
      within inner (Visits.not_suffix (by decide) suffix) (second inner suffix)
    rw [Option.none_or]
    cases hg : g c.rest with
    | some n =>
      intro answer done
      have found := hq.some fresh' hg fun visits'' next within' ahead =>
        done visits'' next (added.trans (within.widen.trans within'.widen)) ahead
      rw [search_alt, visited, either, failed]
      exact found
    | none =>
      obtain ⟨visits'', within', failed'⟩ := hq.none fresh' hg k
      refine ⟨visits'', added.trans (within.widen.trans within'.widen), ?_⟩
      rw [search_alt, visited, either, failed]
      exact failed'

theorem greedy_opt (s : CharSet) (part : Part) :
    Greedy α (opt .greedy (set s)) part fun text => some ((one s text).getD 0) := by
  intro visits c fresh k answer done
  have added := Within.add part visits c.position
  have visited := search_visit (c := c) (fresh.misses.before c.position)
    (prefer .greedy (fun visits => (set s).search (false :: part) visits c k)
      fun visits => k visits c)
  rw [search_opt, visited, prefer, either]
  cases length : one s c.rest with
  | none =>
    rw [length] at done
    rw [search_set_none length]
    exact done _ c added ⟨rfl, rfl⟩
  | some n =>
    rw [length] at done
    obtain ⟨next, ahead, found⟩ := search_set_some length
    rw [found, done _ next added ahead]

/-- The rounds come to the part once at each place, further and further on. -/
theorem rounds_set {fuel : Nat} (enough : c.rest.length < fuel)
    (fresh : visits.Before c.position part) {answer : α}
    (done : ∀ visits' next, Within part visits visits' → Ahead c (many s c.rest) next →
      k visits' next = .ok answer) :
    rounds .greedy part ((set s).search (false :: part)) fuel visits c k = .ok answer := by
  induction fuel generalizing visits c with
  | zero => exact absurd enough (Nat.not_lt_zero _)
  | succ fuel ih =>
    have added := Within.add part visits c.position
    rw [rounds, search_visit fresh, prefer, either]
    cases length : one s c.rest with
    | none =>
      rw [search_set_none length]
      rw [many_of_one_none length] at done
      exact done _ c added ⟨rfl, rfl⟩
    | some n =>
      obtain ⟨rfl, next, taken, ahead⟩ := take?_of_one length
      rw [search_set, taken]
      have shorter : next.rest.length < fuel := by
        have filled : c.rest ≠ [] := by
          intro empty
          rw [empty] at length
          cases length
        have := List.length_pos_iff.mpr filled
        rw [ahead.1, List.length_drop]
        omega
      have further : rounds .greedy part ((set s).search (false :: part)) fuel
          (visits.add c.position part) next k = .ok answer := by
        refine ih shorter (ahead.2 ▸ fresh.add) fun visits' last within ahead' => ?_
        rw [many_of_one length, ← ahead.1] at done
        exact done visits' last (added.trans within) (ahead.trans ahead')
      dsimp only
      rw [further]

theorem greedy_star (s : CharSet) (part : Part) :
    Greedy α (star .greedy (set s)) part fun text => some (many s text) := by
  intro visits c fresh k answer done
  exact rounds_set (Nat.lt_succ_self _) (fresh.misses.before c.position) done

theorem greedy_plus (s : CharSet) (part : Part) :
    Greedy α (plus .greedy (set s)) part (several s) := by
  intro visits c fresh k
  unfold several
  cases length : one s c.rest with
  | none =>
    rw [if_pos (many_of_one_none length)]
    exact ⟨visits, .refl _ _, by rw [search_plus, search_set_none length]⟩
  | some n =>
    obtain ⟨rfl, _⟩ := take?_of_one length
    have several := many_of_one length
    have filled : many s c.rest ≠ 0 := by omega
    rw [if_neg filled]
    intro answer done
    obtain ⟨next, ahead, found⟩ := search_set_some length
    rw [search_plus, found]
    refine rounds_set (Nat.lt_succ_self _) (fresh.misses.before _)
      fun visits' last within ahead' => ?_
    rw [several, ← ahead.1] at done
    exact done visits' last within (ahead.trans ahead')

/-- The characters of a word, one by one. -/
def word (w : List Char) : Pattern := chain (w.map fun x => set (.single x))

theorem greedy_word {w : List Char} (filled : w ≠ []) (part : Part) :
    Greedy α (word w) part (wordLength? w) := by
  induction w generalizing part with
  | nil => exact absurd rfl filled
  | cons x w ih =>
    cases w with
    | nil => exact (greedy_set (.single x) part).congr (one_single x)
    | cons y w =>
      exact ((ih (List.cons_ne_nil y w) (true :: part)).behind_set (.single x)).congr
        (followed_single x (y :: w))

end Pattern

end ShiftFirst
