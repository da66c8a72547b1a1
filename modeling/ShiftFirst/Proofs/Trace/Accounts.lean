import ShiftFirst.Proofs.Trace.Standing

namespace ShiftFirst.Exchange

section Under

variable {β : Type}

theorem under_append (n : Nat) (entries later : List (Nat × β)) :
    under n (entries ++ later) = under n entries ++ under n later := by
  rw [under, List.filter_append, List.map_append]
  rfl

theorem mem_under {n : Nat} {b : β} {entries : List (Nat × β)} :
    b ∈ under n entries ↔ (n, b) ∈ entries := by
  simp [under]

theorem under_map (n n' : Nat) (bs : List β) :
    under n (bs.map (n', ·)) = if n' = n then bs else [] := by
  rw [under, List.filter_map, List.map_map]
  split
  next same => simp [Function.comp_def, same]
  next other => simp [Function.comp_def, other]

end Under

/-- A kind of happenings that others follow from: which they are, what follows from them, at once
or by errands, and what should follow by what has happened before. -/
structure Kind (α β : Type) where
  cause : Happening → Option α
  done : Happening → Option (Nat × β)
  due : Errand → Option (Nat × β)
  Fair : List Happening → α → List β → Prop

namespace Kind

variable {α β : Type} (k : Kind α β)

/-- What follows from what stands at a place, first what has followed already. -/
def shares (n : Nat) (past : List Happening) (agenda : List Errand) : List β :=
  under n (past.filterMap k.done) ++ under n (agenda.filterMap k.due)

/-- Where nothing is left to be done, what follows has followed. -/
theorem shares_nil (n : Nat) (past : List Happening) :
    k.shares n past [] = under n (past.filterMap k.done) := List.append_nil _

/-- From each cause follows what should, and nothing follows from anything else. -/
structure Accounts (past : List Happening) (agenda : List Errand) : Prop where
  fair : ∀ {n : Nat} {e : Happening} {a : α}, past[n]? = some e → k.cause e = some a →
    k.Fair (past.take n) a (k.shares n past agenda)
  owed : ∀ {n : Nat}, k.shares n past agenda ≠ [] →
    ∃ e a, past[n]? = some e ∧ k.cause e = some a
  later : ∀ {i n : Nat} {e : Happening} {b : β}, past[i]? = some e → k.done e = some (n, b) → n < i

theorem getElem?_append_past {past changes : List Happening} {i : Nat} {e : Happening}
    (h : (past ++ changes)[i]? = some e) :
    past[i]? = some e ∧ (past ++ changes).take i = past.take i ∨
      past.length ≤ i ∧ e ∈ changes := by
  rcases Nat.lt_or_ge i past.length with old | new
  next =>
    rw [List.getElem?_append_left old] at h
    exact .inl ⟨h, List.take_append_of_le_length (Nat.le_of_lt old)⟩
  next =>
    rw [List.getElem?_append_right new] at h
    exact .inr ⟨new, List.mem_of_getElem? h⟩

namespace Accounts

variable {k} {past : List Happening} {agenda rest : List Errand} {errand : Errand}

theorem begin {agenda : List Errand} (free : agenda.filterMap k.due = []) :
    k.Accounts [] agenda where
  fair at_n := nomatch at_n
  owed {n} some := absurd (by rw [shares, free]; rfl) some
  later at_i := nomatch at_i

/-- What is done has been due, and to something before. -/
theorem mem_shares (h : k.Accounts past agenda) {n : Nat} {b : β}
    (mem : b ∈ k.shares n past agenda) :
    n < past.length ∧ ∃ e a, past[n]? = some e ∧ k.cause e = some a := by
  obtain ⟨e, a, at_n, cause⟩ := h.owed (List.ne_nil_of_mem mem)
  exact ⟨(List.getElem?_eq_some_iff.mp at_n).1, e, a, at_n, cause⟩

/-- An errand that is no cause is done: what was due has followed. -/
theorem quiet (h : k.Accounts past (errand :: rest)) {changes : List Happening}
    {agenda' : List Errand} (passed : changes.filterMap k.done = (k.due errand).toList)
    (silent : ∀ e ∈ changes, k.cause e = none)
    (idle : agenda'.filterMap k.due = rest.filterMap k.due) :
    k.Accounts (past ++ changes) agenda' := by
  have same (n : Nat) : k.shares n (past ++ changes) agenda' =
      k.shares n past (errand :: rest) := by
    have first : (errand :: rest).filterMap k.due =
        (k.due errand).toList ++ rest.filterMap k.due := by
      rw [List.filterMap_cons]
      cases k.due errand <;> rfl
    rw [shares, shares, List.filterMap_append, passed, idle, first, under_append, under_append,
      List.append_assoc]
  constructor
  case fair =>
    intro n e a at_n cause
    rcases getElem?_append_past at_n with ⟨old, before⟩ | ⟨_, new⟩
    next =>
      rw [same, before]
      exact h.fair old cause
    next => cases cause.symm.trans (silent e new)
  case owed =>
    intro n some
    obtain ⟨e, a, at_n, cause⟩ := h.owed (same n ▸ some)
    refine ⟨e, a, ?_, cause⟩
    rw [List.getElem?_append_left (List.getElem?_eq_some_iff.mp at_n).1, at_n]
  case later =>
    intro i n e b at_i done
    rcases getElem?_append_past at_i with ⟨old, _⟩ | ⟨behind, new⟩
    next => exact h.later old done
    next =>
      have mem : b ∈ k.shares n past (errand :: rest) := by
        rw [← same, shares, List.mem_append, mem_under, List.mem_filterMap]
        exact .inl ⟨e, List.mem_append_right _ new, done⟩
      exact Nat.lt_of_lt_of_le (h.mem_shares mem).1 behind

/-- A cause comes up, and with it all that should follow. -/
theorem raise (h : k.Accounts past (errand :: rest)) {e : Happening} {a : α} {bs : List β}
    {agenda' : List Errand} (cause : k.cause e = some a) (first : k.done e = none)
    (free : k.due errand = none)
    (dues : agenda'.filterMap k.due = bs.map (past.length, ·) ++ rest.filterMap k.due)
    (fair : k.Fair past a bs) : k.Accounts (past ++ [e]) agenda' := by
  have share (n : Nat) : k.shares n (past ++ [e]) agenda' =
      under n (past.filterMap k.done) ++
        ((if past.length = n then bs else []) ++ under n (rest.filterMap k.due)) := by
    rw [shares, List.filterMap_append, List.filterMap_cons_none first, List.filterMap_nil,
      List.append_nil, dues, under_append, under_map]
  have before (n : Nat) : k.shares n past (errand :: rest) =
      under n (past.filterMap k.done) ++ under n (rest.filterMap k.due) := by
    rw [shares, List.filterMap_cons, free]
  have old {n : Nat} (other : past.length ≠ n) :
      k.shares n (past ++ [e]) agenda' = k.shares n past (errand :: rest) := by
    rw [share, before, if_neg other, List.nil_append]
  have new : k.shares past.length (past ++ [e]) agenda' = bs := by
    -- Nothing can have followed from what has only come up.
    have none : k.shares past.length past (errand :: rest) = [] := by
      refine Classical.byContradiction fun some => ?_
      obtain ⟨_, _, at_n, _⟩ := h.owed some
      exact absurd (List.getElem?_eq_some_iff.mp at_n).1 (Nat.lt_irrefl _)
    obtain ⟨done, due⟩ := List.append_eq_nil_iff.mp ((before _).symm.trans none)
    rw [share, done, due, if_pos rfl, List.append_nil, List.nil_append]
  have last {n : Nat} {e' : Happening} (at_n : (past ++ [e])[n]? = some e')
      (behind : past.length ≤ n) : n = past.length := by
    have within := (List.getElem?_eq_some_iff.mp at_n).1
    rw [List.length_append, List.length_singleton] at within
    omega
  constructor
  case fair =>
    intro n e' a' at_n cause'
    rcases getElem?_append_past at_n with ⟨earlier, taken⟩ | ⟨behind, now⟩
    next =>
      rw [old (Nat.ne_of_gt (List.getElem?_eq_some_iff.mp earlier).1), taken]
      exact h.fair earlier cause'
    next =>
      obtain rfl := last at_n behind
      cases List.mem_singleton.mp now
      cases cause.symm.trans cause'
      rw [new, List.take_left]
      exact fair
  case owed =>
    intro n some
    by_cases now : past.length = n
    · exact ⟨e, a, by simp [← now], cause⟩
    · obtain ⟨e', a', at_n, cause'⟩ := h.owed (old now ▸ some)
      refine ⟨e', a', ?_, cause'⟩
      rw [List.getElem?_append_left (List.getElem?_eq_some_iff.mp at_n).1, at_n]
  case later =>
    intro i n e' b at_i done
    rcases getElem?_append_past at_i with ⟨earlier, _⟩ | ⟨_, now⟩
    next => exact h.later earlier done
    next =>
      cases List.mem_singleton.mp now
      cases first.symm.trans done

end Accounts

end Kind

/-- The message of an emission goes out once if somebody would take notice of it when the emission
begins, and else never. -/
def emissions (log : Log.Filter) : Kind (Nat × Channel × String) (Nat × Channel × String) where
  cause := Happening.emission?
  done := Happening.telling?
  due := Errand.telling?
  Fair := fun before (t, channel, message) told =>
    (Noticed log t channel before → told = [(t, channel, message)]) ∧
      (¬ Noticed log t channel before → told = [])

/-- A message that goes out comes to those who are subscribed then, once each. -/
def messages : Kind (Nat × Channel × String) (Nat × String) where
  cause := Happening.message?
  done := Happening.delivery?
  due := Errand.delivery?
  Fair := fun before (t, channel, message) heard =>
    heard = (live t channel before).map (·, message) ∧ (live t channel before).Nodup
section Happenings

variable (x : Exchange) (errand : Errand)

theorem telling_happenings :
    (errand.happenings x).filterMap Happening.telling? = errand.telling?.toList := by
  cases errand with
  | act t a =>
    cases a with
    | cancel handle =>
      rw [Errand.happenings]
      cases x.handles[handle]? <;> rfl
    | _ => rfl
  | _ => rfl

theorem delivery_happenings :
    (errand.happenings x).filterMap Happening.delivery? = errand.delivery?.toList := by
  cases errand with
  | act t a =>
    cases a with
    | cancel handle =>
      rw [Errand.happenings]
      cases x.handles[handle]? <;> rfl
    | _ => rfl
  | _ => rfl

end Happenings

theorem filterMap_append_of_eq {β : Type} {f : Errand → Option β} {new rest : List Errand}
    {bs : List β} (h : new.filterMap f = bs) :
    (new ++ rest).filterMap f = bs ++ rest.filterMap f := by
  rw [List.filterMap_append, h]

section Due

variable (t place : Nat) (acts : List Act) (message : String) (listeners : List Nat)

theorem telling_due_act :
    ((acts.map Task.act).map (Errand.due t place)).filterMap Errand.telling? = [] := by
  rw [List.map_map, List.filterMap_map]
  exact List.filterMap_eq_nil_iff.mpr fun _ _ => rfl

theorem delivery_due_act :
    ((acts.map Task.act).map (Errand.due t place)).filterMap Errand.delivery? = [] := by
  rw [List.map_map, List.filterMap_map]
  exact List.filterMap_eq_nil_iff.mpr fun _ _ => rfl

theorem telling_due_deliver :
    ((listeners.map (Task.deliver · message)).map (Errand.due t place)).filterMap
      Errand.telling? = [] := by
  rw [List.map_map, List.filterMap_map]
  exact List.filterMap_eq_nil_iff.mpr fun _ _ => rfl

theorem delivery_due_deliver :
    ((listeners.map (Task.deliver · message)).map (Errand.due t place)).filterMap
      Errand.delivery? = (listeners.map (·, message)).map (place, ·) := by
  rw [List.map_map, List.filterMap_map, List.map_map, ← List.filterMap_eq_map]
  rfl

variable (x : Exchange) (log : Log.Filter) (channel : Channel)

theorem telling_due_propose :
    ((x.propose t log channel acts message).2.map (Errand.due t place)).filterMap
      Errand.telling? =
        (if Audience.listens ⟨x.registry t, log⟩ channel then [(t, channel, message)] else []).map
          (place, ·) := by
  unfold propose
  split
  next =>
    rw [List.map_append, List.filterMap_append, telling_due_act]
    rfl
  next => rfl

theorem delivery_due_propose :
    ((x.propose t log channel acts message).2.map (Errand.due t place)).filterMap
      Errand.delivery? = [] := by
  unfold propose
  split
  next =>
    rw [List.map_append, List.filterMap_append, delivery_due_act]
    rfl
  next => rfl

end Due

section Step

variable {log : Log.Filter} {x : Exchange} {past : List Happening} {errand : Errand}
  {rest : List Errand}

theorem accounts_emissions (h : (emissions log).Accounts past (errand :: rest))
    (keeps : Keeps x past) (within : errand.trace < x.registries.length) :
    (emissions log).Accounts (past ++ errand.happenings x)
      ((x.perform log errand.trace errand.task).1.map (.due errand.trace past.length) ++
        rest) := by
  have passed := telling_happenings x errand
  cases errand with
  | act t a =>
    cases a with
    | cancel handle => exact h.quiet passed (List.forall_mem_map.mpr fun _ _ => rfl) rfl
    | subscribe channel script => exact h.quiet passed (List.forall_mem_singleton.mpr rfl) rfl
    | emit channel making message =>
      have noticed : Audience.listens ⟨x.registry t, log⟩ channel = true ↔
          Noticed log t channel past := keeps.listens_iff within log channel
      refine h.raise rfl rfl rfl
        (filterMap_append_of_eq (telling_due_propose t past.length making message x log channel))
        ⟨fun some => ?_, fun none => ?_⟩
      · exact if_pos (noticed.mpr some)
      · exact if_neg (mt noticed.mp none)
  | tell t emission channel message =>
    exact h.quiet passed (List.forall_mem_singleton.mpr rfl)
      (filterMap_append_of_eq (telling_due_deliver t past.length message _))
  | deliver t telling listener message =>
    exact h.quiet passed (List.forall_mem_singleton.mpr rfl)
      (filterMap_append_of_eq (telling_due_act t past.length _))

theorem accounts_messages (h : messages.Accounts past (errand :: rest)) (keeps : Keeps x past)
    (within : errand.trace < x.registries.length) :
    messages.Accounts (past ++ errand.happenings x)
      ((x.perform log errand.trace errand.task).1.map (.due errand.trace past.length) ++
        rest) := by
  have passed := delivery_happenings x errand
  cases errand with
  | act t a =>
    cases a with
    | cancel handle => exact h.quiet passed (List.forall_mem_map.mpr fun _ _ => rfl) rfl
    | subscribe channel script => exact h.quiet passed (List.forall_mem_singleton.mpr rfl) rfl
    | emit channel making message =>
      exact h.quiet passed (List.forall_mem_singleton.mpr rfl)
        (filterMap_append_of_eq (delivery_due_propose t past.length making message x log channel))
  | tell t emission channel message =>
    have audience : (x.registry t).audience channel = live t channel past :=
      keeps.audience within channel
    exact h.raise rfl rfl rfl
      (filterMap_append_of_eq (delivery_due_deliver t past.length message _))
      ⟨congrArg (List.map _) audience, keeps.nodup_live t channel⟩
  | deliver t telling listener message =>
    exact h.quiet passed (List.forall_mem_singleton.mpr rfl)
      (filterMap_append_of_eq (delivery_due_act t past.length _))

end Step

end ShiftFirst.Exchange
