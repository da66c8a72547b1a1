import ShiftFirst.Proofs.Trace.History

namespace ShiftFirst.Exchange

/-- What happens later cancels subscriptions and adds others. -/
theorem standing_append (t : Nat) (past later : List Happening) :
    standing t (past ++ later) =
      (standing t past).filter (.cancelled t ·.1 ∉ later) ++ standing t later := by
  induction past with
  | nil => rfl
  | cons e past ih =>
    cases e with
    | subscribed t' s listener =>
      rw [List.cons_append, standing, standing, ih]
      by_cases kept : t' = t ∧ .cancelled t s ∉ past
      · rw [if_pos kept, List.filter_cons]
        by_cases cancelled : .cancelled t s ∈ later
        · simp [cancelled]
        · simp [cancelled, kept]
      · have gone : ¬ (t' = t ∧ .cancelled t s ∉ past ++ later) := fun both =>
          kept ⟨both.1, fun mem => both.2 (List.mem_append_left _ mem)⟩
        rw [if_neg kept, if_neg gone]
    | _ => exact ih

/-- Neither a subscription nor a cancellation. -/
def Happening.Passing : Happening → Prop
  | .subscribed .. | .cancelled .. => False
  | .begun .. | .told .. | .delivered .. => True

theorem standing_passing (t : Nat) (past : List Happening) {e : Happening} (h : e.Passing) :
    standing t (past ++ [e]) = standing t past := by
  rw [standing_append]
  cases e with
  | subscribed | cancelled => cases h
  | _ => simp [standing]

theorem standing_subscribed (t t' : Nat) (s : Subscription) (listener : Nat)
    (past : List Happening) :
    standing t (past ++ [.subscribed t' s listener]) =
      standing t past ++ if t' = t then [(s, listener)] else [] := by
  simp [standing_append, standing]

theorem standing_cancelled (t t' : Nat) (s : Subscription) (past : List Happening) :
    standing t (past ++ [.cancelled t' s]) =
      (standing t past).filter fun e => ¬ (t = t' ∧ e.1 = s) := by
  simp [standing_append, standing]

theorem live_passing (t : Nat) (channel : Channel) (past : List Happening) {e : Happening}
    (h : e.Passing) : live t channel (past ++ [e]) = live t channel past := by
  rw [live, standing_passing t past h, live]

section Frame

variable (x : Exchange)

theorem hand_eq (listener : Nat) (message : String) :
    ∃ scripts, (x.hand listener message).2 =
      { x with scripts := scripts, heard := x.heard ++ [(listener, message)] } := by
  unfold hand
  split <;> exact ⟨_, rfl⟩

theorem cancel_eq (t handle : Nat) :
    ∃ registries, registries.length = x.registries.length ∧
      (x.cancel t handle).2 = { x with registries := registries } := by
  unfold cancel
  split
  next => exact ⟨_, rfl, rfl⟩
  next => exact ⟨_, List.length_set, rfl⟩

end Frame

/-- The registries hold the subscriptions that stand. -/
structure Keeps (x : Exchange) (past : List Happening) : Prop where
  entries : ∀ t < x.registries.length, (x.registry t).entries = standing t past
  increasing : ∀ t, ((standing t past).map (·.2)).Pairwise (· < ·)
  numbered : ∀ t, ∀ e ∈ standing t past, e.2 < x.handles.length

namespace Keeps

variable {x : Exchange} {past : List Happening}

theorem audience (h : Keeps x past) {t : Nat} (within : t < x.registries.length)
    (channel : Channel) : (x.registry t).audience channel = live t channel past := by
  rw [Registry.audience, live, h.entries t within]

theorem nodup_live (h : Keeps x past) (t : Nat) (channel : Channel) :
    (live t channel past).Nodup := by
  have sub : (live t channel past).Sublist ((standing t past).map (·.2)) :=
    List.filter_sublist.map _
  exact ((h.increasing t).imp Nat.ne_of_lt).sublist sub

theorem passing (h : Keeps x past) {x' : Exchange} {e : Happening} (he : e.Passing)
    (registries : x'.registries = x.registries) (handles : x'.handles = x.handles) :
    Keeps x' (past ++ [e]) := by
  obtain ⟨entries, increasing, numbered⟩ := h
  constructor
  all_goals simp only [standing_passing _ _ he, registry, registries, handles]
  · exact entries
  · exact increasing
  · exact numbered

theorem registry_set (x : Exchange) {t : Nat} (within : t < x.registries.length) (t' : Nat)
    (r : Registry Nat) :
    ((x.registries.set t r)[t']?).getD {} = if t = t' then r else x.registry t' := by
  rw [List.getElem?_set, registry]
  split
  next => rfl
  next => rfl

theorem cancel (h : Keeps x past) {t : Nat} (within : t < x.registries.length) (handle : Nat) :
    Keeps (x.cancel t handle).2 (past ++ x.handles[handle]?.toList.map (.cancelled t)) := by
  unfold Exchange.cancel
  split
  next none =>
    rw [none]
    simpa using h
  next s some =>
    rw [some]
    obtain ⟨entries, increasing, numbered⟩ := h
    have fewer (t' : Nat) := standing_cancelled t' t s past
    refine ⟨fun t' within' => ?_, fun t' => ?_, fun t' e mem => ?_⟩
    · rw [List.length_set] at within'
      rw [registry, registry_set x within, Option.toList_some, List.map_singleton, fewer,
        ← entries t' within']
      split
      next same => simp [same, Registry.cancel]
      next other => rw [List.filter_eq_self.mpr fun _ _ => by simp [Ne.symm other]]
    · rw [Option.toList_some, List.map_singleton, fewer]
      exact (increasing t').sublist (List.filter_sublist.map _)
    · rw [Option.toList_some, List.map_singleton, fewer] at mem
      exact numbered t' e (List.mem_filter.mp mem).1

theorem subscribe (h : Keeps x past) {t : Nat} (within : t < x.registries.length)
    (channel : Channel) (script : Script) :
    Keeps (x.subscribe t channel script).2
      (past ++ [.subscribed t ((x.registry t).subscribe channel x.handles.length).1
        x.handles.length]) := by
  obtain ⟨entries, increasing, numbered⟩ := h
  have more (t' : Nat) := standing_subscribed t' t
    ((x.registry t).subscribe channel x.handles.length).1 x.handles.length past
  refine ⟨fun t' within' => ?_, fun t' => ?_, fun t' e mem => ?_⟩
  · rw [Exchange.subscribe, List.length_set] at within'
    rw [Exchange.subscribe, registry, registry_set x within, more, ← entries t' within']
    split
    next same => simp [same, Registry.subscribe]
    next other => simp
  · rw [more]
    split
    next =>
      rw [List.map_append, List.pairwise_append]
      refine ⟨increasing t', List.pairwise_singleton _ _, fun k mem k' last => ?_⟩
      obtain ⟨e, stands, rfl⟩ := List.mem_map.mp mem
      rw [List.mem_singleton.mp last]
      exact numbered t' e stands
    next => simpa using increasing t'
  · rw [more] at mem
    rw [Exchange.subscribe, List.length_append, List.length_singleton]
    rcases List.mem_append.mp mem with old | new
    next => exact Nat.lt_succ_of_lt (numbered t' e old)
    next =>
      split at new
      next =>
        rw [List.mem_singleton.mp new]
        exact Nat.lt_succ_self _
      next => cases new

/-- Errands keep the registries in agreement with what has happened. -/
theorem perform (h : Keeps x past) (log : Log.Filter) {errand : Errand}
    (within : errand.trace < x.registries.length) :
    Keeps (x.perform log errand.trace errand.task).2 (past ++ errand.happenings x) := by
  cases errand with
  | act t a =>
    cases a with
    | cancel handle => exact h.cancel within handle
    | subscribe channel script => exact h.subscribe within channel script
    | emit channel making message => exact h.passing trivial rfl rfl
  | tell t emission channel message => exact h.passing trivial rfl rfl
  | deliver t telling listener message =>
    obtain ⟨_, same⟩ := x.hand_eq listener message
    exact h.passing trivial (congrArg registries same :) (congrArg handles same :)

theorem listens_iff (h : Keeps x past) {t : Nat} (within : t < x.registries.length)
    (log : Log.Filter) (channel : Channel) :
    Audience.listens ⟨x.registry t, log⟩ channel = true ↔ Noticed log t channel past := by
  rw [Audience.listens, Bool.or_eq_true, Registry.hears_iff, h.audience within, Noticed]

end Keeps

theorem length_perform (log : Log.Filter) (x : Exchange) (errand : Errand) :
    (x.perform log errand.trace errand.task).2.registries.length = x.registries.length := by
  cases errand with
  | act t a =>
    cases a with
    | cancel handle =>
      obtain ⟨_, length, same⟩ := x.cancel_eq t handle
      exact (congrArg (·.registries.length) same).trans length
    | subscribe channel script => exact List.length_set
    | emit channel making message => rfl
  | tell t emission channel message => rfl
  | deliver t telling listener message =>
    obtain ⟨_, same⟩ := x.hand_eq listener message
    exact congrArg (·.registries.length) same

end ShiftFirst.Exchange
