import ShiftFirst.Proofs.Trace.Accounts

namespace ShiftFirst.Exchange

section Perform

variable (log : Log.Filter) (x : Exchange) (errand : Errand)

theorem emitted_perform :
    (x.perform log errand.trace errand.task).2.emitted =
      x.emitted ++ errand.telling?.toList.map (·.2.2) := by
  cases errand with
  | act t a =>
    refine Eq.trans ?_ (List.append_nil _).symm
    cases a with
    | cancel handle =>
      obtain ⟨_, _, same⟩ := x.cancel_eq t handle
      exact (congrArg emitted same :)
    | _ => rfl
  | tell t emission channel message => rfl
  | deliver t telling listener message =>
    obtain ⟨_, same⟩ := x.hand_eq listener message
    exact (congrArg emitted same).trans (List.append_nil _).symm

theorem heard_perform :
    (x.perform log errand.trace errand.task).2.heard =
      x.heard ++ errand.delivery?.toList.map (·.2) := by
  cases errand with
  | act t a =>
    refine Eq.trans ?_ (List.append_nil _).symm
    cases a with
    | cancel handle =>
      obtain ⟨_, _, same⟩ := x.cancel_eq t handle
      exact (congrArg heard same :)
    | _ => rfl
  | tell t emission channel message => exact (List.append_nil _).symm
  | deliver t telling listener message =>
    obtain ⟨_, same⟩ := x.hand_eq listener message
    exact congrArg heard same

end Perform

section Prompt

variable {log : Log.Filter} {x : Exchange} {past : List Happening} {errand : Errand}
  {rest : List Errand}

/-- A message in whose making nothing is done goes out as soon as its emission has begun, if
somebody takes notice of it. -/
def Prompt (log : Log.Filter) (past : List Happening) (agenda : List Errand) : Prop :=
  ∀ n t channel message, past[n]? = some (.begun t channel message true) →
    Noticed log t channel (past.take n) →
      (∃ rest, past.length = n + 1 ∧ agenda = .tell t n channel message :: rest) ∨
        past[n + 1]? = some (.told n t channel message)

theorem mem_happenings_begun {t : Nat} {channel : Channel} {message : String} {plain : Bool}
    (h : .begun t channel message plain ∈ errand.happenings x) :
    ∃ making, errand = .act t (.emit channel making message) ∧ making.isEmpty = plain := by
  cases errand with
  | act t' a =>
    cases a with
    | cancel handle =>
      obtain ⟨_, _, other⟩ := List.mem_map.mp h
      cases other
    | subscribe channel' script => cases List.mem_singleton.mp h
    | emit channel' making message' =>
      cases List.mem_singleton.mp h
      exact ⟨making, rfl, rfl⟩
  | tell | deliver => cases List.mem_singleton.mp h

theorem Prompt.perform (h : Prompt log past (errand :: rest)) (keeps : Keeps x past)
    (within : errand.trace < x.registries.length) :
    Prompt log (past ++ errand.happenings x)
      ((x.perform log errand.trace errand.task).1.map (.due errand.trace past.length) ++
        rest) := by
  intro n t channel message begun noticed
  rcases Kind.getElem?_append_past begun with ⟨old, before⟩ | ⟨behind, new⟩
  · rw [before] at noticed
    right
    rcases h n t channel message old noticed with ⟨rest', length, first⟩ | told
    · cases (List.cons.inj first).1
      rw [← length]
      exact List.getElem?_concat_length
    · rw [List.getElem?_append_left (List.getElem?_eq_some_iff.mp told).1, told]
  · left
    obtain ⟨making, rfl, plain⟩ := mem_happenings_begun new
    cases List.isEmpty_iff.mp plain
    have last : n = past.length := by
      have short := (List.getElem?_eq_some_iff.mp begun).1
      rw [Errand.happenings, List.length_append, List.length_singleton] at short
      omega
    subst last
    rw [List.take_left] at noticed
    have listens : Audience.listens ⟨x.registry t, log⟩ channel = true :=
      (keeps.listens_iff within log channel).mpr noticed
    have made : (x.propose t log channel [] message).2 = [.tell channel message] := by
      rw [propose, if_pos listens]
      rfl
    refine ⟨rest, List.length_append, ?_⟩
    exact congrArg (List.map (Errand.due t past.length) · ++ rest) made

end Prompt

namespace Moment

/-- What holds of so many registries at every moment. -/
structure Sound (log : Log.Filter) (n : Nat) (m : Moment) : Prop where
  count : m.exchange.registries.length = n
  within : ∀ e ∈ m.agenda, e.trace < n
  keeps : Keeps m.exchange m.past
  emissions : (emissions log).Accounts m.past m.agenda
  messages : messages.Accounts m.past m.agenda
  prompt : Prompt log m.past m.agenda
  emitted : m.exchange.emitted = (m.past.filterMap Happening.telling?).map (·.2.2)
  heard : m.exchange.heard = (m.past.filterMap Happening.delivery?).map (·.2)

theorem Sound.next {log : Log.Filter} {n : Nat} (m m' : Moment) (h : m.Sound log n)
    (go : m.next log = some m') : m'.Sound log n := by
  obtain ⟨errand, rest, first, exchange, agenda, past⟩ := exists_of_next go
  obtain ⟨count, within, keeps, emissions, messages, prompt, emitted, heard⟩ := h
  rw [first] at within emissions messages prompt
  obtain ⟨here, there⟩ := List.forall_mem_cons.mp within
  have held : errand.trace < m.exchange.registries.length := count.symm ▸ here
  constructor
  case count => rw [exchange, length_perform, count]
  case within =>
    rw [agenda]
    refine List.forall_mem_append.mpr ⟨List.forall_mem_map.mpr fun task _ => ?_, there⟩
    rw [Errand.trace_due]
    exact here
  case keeps =>
    rw [exchange, past]
    exact keeps.perform log held
  case emissions =>
    rw [agenda, past]
    exact accounts_emissions emissions keeps held
  case messages =>
    rw [agenda, past]
    exact accounts_messages messages keeps held
  case prompt =>
    rw [agenda, past]
    exact prompt.perform keeps held
  case emitted =>
    rw [exchange, past, emitted_perform, emitted, List.filterMap_append, telling_happenings,
      List.map_append]
  case heard =>
    rw [exchange, past, heard_perform, heard, List.filterMap_append, delivery_happenings,
      List.map_append]

theorem sound_begin (log : Log.Filter) {n : Nat} (calls : List (Fin n × Act)) :
    (begin calls).Sound log n where
  count := List.length_replicate
  within := List.forall_mem_map.mpr fun c _ => c.1.isLt
  keeps :=
    { entries := fun t within => by
        rw [begin, fresh, List.length_replicate] at within
        simp [begin, fresh, registry, within, standing]
      increasing := fun _ => List.Pairwise.nil
      numbered := fun _ _ mem => absurd mem List.not_mem_nil }
  emissions := .begin (List.filterMap_eq_nil_iff.mpr (List.forall_mem_map.mpr fun _ _ => rfl))
  messages := .begin (List.filterMap_eq_nil_iff.mpr (List.forall_mem_map.mpr fun _ _ => rfl))
  prompt := fun _ _ _ _ begun => nomatch begun
  emitted := rfl
  heard := rfl

end Moment

theorem sound_finish (log : Log.Filter) {n : Nat} (calls : List (Fin n × Act)) :
    ((begin calls).finish log).Sound log n :=
  Moment.finish_induction Moment.Sound.next _ (Moment.sound_begin log calls)

section History

variable {log : Log.Filter} {n : Nat} {calls : List (Fin n × Act)}

theorem sound_history (log : Log.Filter) (calls : List (Fin n × Act)) :
    Moment.Sound log n ⟨afterCalls log calls, [], history log calls⟩ := by
  have sound := sound_finish log calls
  have whole : (begin calls).finish log = ⟨afterCalls log calls, [], history log calls⟩ := by
    have idle : ((begin calls).finish log).agenda = [] := Moment.agenda_finish _
    rw [← exchange_history, ← idle]
    rfl
  rwa [whole] at sound

theorem mem_tellings {emission t : Nat} {channel : Channel} {message : String}
    {past : List Happening} :
    (t, channel, message) ∈ tellings emission past ↔ .told emission t channel message ∈ past := by
  have only (e : Happening) : e.telling? = some (emission, t, channel, message) ↔
      e = .told emission t channel message := by
    cases e <;> simp [Happening.telling?]
  simp [tellings, mem_under, List.mem_filterMap, only]

theorem mem_deliveries {telling listener : Nat} {message : String} {past : List Happening} :
    (listener, message) ∈ deliveries telling past ↔
      .delivered telling listener message ∈ past := by
  have only (e : Happening) : e.delivery? = some (telling, listener, message) ↔
      e = .delivered telling listener message := by
    cases e <;> simp [Happening.delivery?]
  simp [deliveries, mem_under, List.mem_filterMap, only]

section Split

variable {past before after : List Happening} {e : Happening}

theorem getElem?_split (split : past = before ++ e :: after) : past[before.length]? = some e := by
  rw [split, List.getElem?_append_right (Nat.le_refl _), Nat.sub_self, List.getElem?_cons_zero]

theorem take_split (split : past = before ++ e :: after) : past.take before.length = before := by
  rw [split, List.take_left]

end Split

theorem tellings_history {place t : Nat} {channel : Channel} {message : String} {plain : Bool}
    (begun : (history log calls)[place]? = some (.begun t channel message plain)) :
    (Noticed log t channel ((history log calls).take place) →
        tellings place (history log calls) = [(t, channel, message)]) ∧
      (¬ Noticed log t channel ((history log calls).take place) →
        tellings place (history log calls) = []) := by
  have fair := (sound_history log calls).emissions.fair begun rfl
  rwa [Kind.shares_nil] at fair

theorem tellings_begun {before after : List Happening} {t : Nat} {channel : Channel}
    {message : String} {plain : Bool}
    (split : history log calls = before ++ .begun t channel message plain :: after) :
    (Noticed log t channel before →
        tellings before.length (history log calls) = [(t, channel, message)]) ∧
      (¬ Noticed log t channel before → tellings before.length (history log calls) = []) := by
  have each := tellings_history (getElem?_split split)
  rwa [take_split split] at each

/-- A message goes out because of its emission before, and for the first time. -/
theorem begun_of_told {emission t : Nat} {channel : Channel} {message : String}
    {before after : List Happening}
    (split : history log calls = before ++ .told emission t channel message :: after) :
    (∃ plain, before[emission]? = some (.begun t channel message plain)) ∧
      Noticed log t channel (before.take emission) ∧ tellings emission before = [] := by
  have sound := (sound_history log calls).emissions
  have earlier : emission < before.length := sound.later (getElem?_split split) rfl
  have here : (history log calls)[emission]? = before[emission]? := by
    rw [split, List.getElem?_append_left earlier]
  have taken : (history log calls).take emission = before.take emission := by
    rw [split, List.take_append_of_le_length (Nat.le_of_lt earlier)]
  have whole : tellings emission (history log calls) =
      tellings emission before ++ (t, channel, message) :: tellings emission after := by
    rw [split, tellings, List.filterMap_append, under_append]
    simp [tellings, under, Happening.telling?]
  have some : tellings emission (history log calls) ≠ [] := by
    rw [whole]
    exact List.append_ne_nil_of_right_ne_nil _ (List.cons_ne_nil _ _)
  obtain ⟨e, a, at_n, cause⟩ := sound.owed (n := emission) (by rwa [Kind.shares_nil])
  cases e with
  | begun t' channel' message' plain =>
    obtain ⟨once, never⟩ := tellings_history at_n
    have noticed := Classical.byContradiction fun unnoticed => some (never unnoticed)
    have single := once noticed
    rw [whole] at single
    rcases List.append_eq_singleton_iff.mp single with ⟨first, same⟩ | ⟨_, none⟩
    · cases (List.cons.inj same).1
      exact ⟨⟨plain, here ▸ at_n⟩, taken ▸ noticed, first⟩
    · exact absurd none (List.cons_ne_nil _ _)
  | _ => cases cause

/-- Nothing comes between the beginning of a plain emission and its message. -/
theorem told_of_plain {before after : List Happening} {t : Nat} {channel : Channel}
    {message : String}
    (split : history log calls = before ++ .begun t channel message true :: after)
    (noticed : Noticed log t channel before) :
    ∃ later, after = .told before.length t channel message :: later := by
  rw [← take_split split] at noticed
  rcases (sound_history log calls).prompt _ _ _ _ (getElem?_split split) noticed with
    ⟨_, _, none⟩ | told
  · cases none
  · rw [split, List.getElem?_append_right (Nat.le_succ _)] at told
    cases after with
    | nil => simp at told
    | cons e later =>
      have same : e = .told before.length t channel message := by simpa using told
      exact ⟨later, same ▸ rfl⟩

theorem told_of_noticed {before after : List Happening} {t : Nat} {channel : Channel}
    {message : String} {plain : Bool}
    (split : history log calls = before ++ .begun t channel message plain :: after)
    (noticed : Noticed log t channel before) :
    ∃ making later, after = making ++ .told before.length t channel message :: later ∧
      tellings before.length (history log calls) = [(t, channel, message)] ∧
      (plain = true → making = []) := by
  have single := (tellings_begun split).1 noticed
  cases plain with
  | true =>
    obtain ⟨later, rfl⟩ := told_of_plain split noticed
    exact ⟨[], later, rfl, single, fun _ => rfl⟩
  | false =>
    have told := mem_tellings.mp (single ▸ List.mem_singleton_self (t, channel, message))
    obtain ⟨front, later, split'⟩ := List.append_of_mem told
    obtain ⟨⟨_, first⟩, _, _⟩ := begun_of_told split'
    have earlier := (List.getElem?_eq_some_iff.mp first).1
    rcases List.append_eq_append_iff.mp (split.symm.trans split') with
      ⟨between, rfl, behind⟩ | ⟨between, rfl, _⟩
    · cases between with
      | nil => cases (List.cons.inj behind).1
      | cons e making => exact ⟨making, later, (List.cons.inj behind).2, single, nofun⟩
    · rw [List.length_append] at earlier
      omega

/-- Those who are subscribed when a plain emission begins are so when its message goes out. -/
theorem live_of_plain {before after : List Happening} {emission t : Nat} {channel : Channel}
    {message : String}
    (split : history log calls = before ++ .told emission t channel message :: after)
    (plain : before[emission]? = some (.begun t channel message true)) :
    live t channel before = live t channel (before.take emission) := by
  obtain ⟨_, noticed, first⟩ := begun_of_told split
  obtain ⟨within, at_n⟩ := List.getElem?_eq_some_iff.mp plain
  have parts : before =
      before.take emission ++ .begun t channel message true :: before.drop (emission + 1) := by
    rw [← at_n, List.getElem_cons_drop, List.take_append_drop]
  have length : (before.take emission).length = emission :=
    List.length_take_of_le (Nat.le_of_lt within)
  have split' : history log calls = before.take emission ++ .begun t channel message true ::
      (before.drop (emission + 1) ++ .told emission t channel message :: after) := by
    rw [split, ← List.cons_append, ← List.append_assoc, ← parts]
  obtain ⟨later, next⟩ := told_of_plain split' noticed
  rw [length] at next
  have passing : (Happening.begun t channel message true).Passing := trivial
  cases rest : before.drop (emission + 1) with
  | nil =>
    rw [rest] at parts
    rw [parts, live_passing t channel _ passing, ← parts]
  | cons e more =>
    rw [rest] at next parts
    obtain ⟨rfl, _⟩ := List.cons.inj next
    have early : (t, channel, message) ∈ tellings emission before :=
      mem_tellings.mpr (parts ▸ by simp)
    rw [first] at early
    exact absurd early List.not_mem_nil

theorem deliveries_history {before after : List Happening} {emission t : Nat} {channel : Channel}
    {message : String}
    (split : history log calls = before ++ .told emission t channel message :: after) :
    deliveries before.length before = [] ∧
      deliveries before.length after = (live t channel before).map (·, message) ∧
      (live t channel before).Nodup := by
  have sound := (sound_history log calls).messages
  have unheard : deliveries before.length before = [] := by
    refine List.eq_nil_iff_forall_not_mem.mpr fun (listener, heard) mem => ?_
    obtain ⟨i, at_i⟩ := List.mem_iff_getElem?.mp (mem_deliveries.mp mem)
    have short := (List.getElem?_eq_some_iff.mp at_i).1
    have whole : (history log calls)[i]? = some (.delivered before.length listener heard) := by
      rw [split, List.getElem?_append_left short, at_i]
    have := sound.later whole rfl
    omega
  obtain ⟨hears, once⟩ := sound.fair (getElem?_split split) rfl
  rw [take_split split] at hears once
  have whole : deliveries before.length (history log calls) =
      deliveries before.length before ++ deliveries before.length after := by
    rw [split, deliveries, List.filterMap_append, under_append]
    rfl
  refine ⟨unheard, ?_, once⟩
  rw [unheard, List.nil_append] at whole
  rw [← whole, ← hears, Kind.shares_nil]
  rfl

end History

/-- Whatever is called on registries, from outside, by those who are just hearing a message, or
while a message is being made: the message of an emission is made, and goes out once, if the log or
a subscriber would take notice of it when the emission begins, and else never. It comes, once each
and in the order of their subscriptions, to those who are subscribed to its channel on its registry
when it has been made, and to nobody else. If nothing is done with registries while it is made,
these are the subscribers at the beginning of the emission. -/
theorem emissions_delivered (log : Log.Filter) {n : Nat} (calls : List (Fin n × Act)) :
    (afterCalls log calls).heard =
        ((history log calls).filterMap Happening.delivery?).map (·.2) ∧
    (afterCalls log calls).emitted =
        ((history log calls).filterMap Happening.telling?).map (·.2.2) ∧
    (∀ t < n, ∀ channel,
      ((afterCalls log calls).registry t).audience channel = live t channel (history log calls)) ∧
    (∀ before t channel message plain after,
      history log calls = before ++ .begun t channel message plain :: after →
      (Noticed log t channel before → ∃ making later,
        after = making ++ .told before.length t channel message :: later ∧
        tellings before.length (history log calls) = [(t, channel, message)] ∧
        (plain = true → making = [])) ∧
      (¬ Noticed log t channel before → tellings before.length (history log calls) = [])) ∧
    (∀ before emission t channel message after,
      history log calls = before ++ .told emission t channel message :: after →
      (∃ plain, before[emission]? = some (.begun t channel message plain) ∧
        (plain = true → live t channel before = live t channel (before.take emission))) ∧
      deliveries before.length before = [] ∧
      deliveries before.length after = (live t channel before).map (·, message) ∧
      (live t channel before).Nodup) ∧
    (∀ telling listener message, .delivered telling listener message ∈ history log calls →
      ∃ emission t channel,
        (history log calls)[telling]? = some (.told emission t channel message)) ∧
    (∀ (x : Exchange) t a, settle log t x [.act a] = x.call log t a) ∧
    ∀ (x : Exchange) t channel making message,
      x.emit t log channel making message =
        if Audience.listens ⟨x.registry t, log⟩ channel then
          (true, settle log t (making.foldl (fun y a => y.call log t a) x) [.tell channel message])
        else (false, x) := by
  have sound := sound_history log calls
  refine ⟨sound.heard, sound.emitted, fun t within channel =>
    sound.keeps.audience (sound.count.symm ▸ within) channel, ?_, ?_, ?_, settle_act log,
    emit_eq log⟩
  · intro before t channel message plain after split
    exact ⟨told_of_noticed split, (tellings_begun split).2⟩
  · intro before emission t channel message after split
    obtain ⟨⟨plain, begun⟩, _, _⟩ := begun_of_told split
    refine ⟨⟨plain, begun, fun plain => live_of_plain split (plain ▸ begun)⟩,
      deliveries_history split⟩
  · intro telling listener message delivered
    have heard : (listener, message) ∈ messages.shares telling (history log calls) [] := by
      rw [Kind.shares_nil]
      exact mem_deliveries.mpr delivered
    obtain ⟨_, e, _, told, cause⟩ := sound.messages.mem_shares heard
    cases e with
    | told emission t channel message' =>
      obtain ⟨hears, _⟩ := sound.messages.fair told rfl
      rw [hears] at heard
      obtain ⟨_, _, same⟩ := List.mem_map.mp heard
      cases same
      exact ⟨emission, t, channel, told⟩
    | _ => cases cause

/-- A listener that lets another one in, turns out the next one and answers with a message, and a
message in whose making the first listener is turned out. -/
def meddling : List (Fin 1 × Act) := [
  (0, .subscribe .parse [[.subscribe .parse [], .cancel 1, .emit .parse [] "b"]]),
  (0, .subscribe .parse []),
  (0, .emit .parse [] "a"),
  (0, .emit .parse [.cancel 0] "c")]

theorem emissions_delivered_meddling :
    history .off meddling =
      [.subscribed 0 ⟨.parse, 0⟩ 0, .subscribed 0 ⟨.parse, 1⟩ 1] ++
        .begun 0 .parse "a" true ::
        [.told 2 0 .parse "a", .delivered 3 0 "a", .subscribed 0 ⟨.parse, 2⟩ 2,
          .cancelled 0 ⟨.parse, 1⟩, .begun 0 .parse "b" true, .told 7 0 .parse "b",
          .delivered 8 0 "b", .delivered 8 2 "b", .delivered 3 1 "a",
          .begun 0 .parse "c" false, .cancelled 0 ⟨.parse, 0⟩, .told 12 0 .parse "c",
          .delivered 14 2 "c"] ∧
    0 < 1 ∧ ((afterCalls .off meddling).registry 0).audience .parse = [2] ∧
    Noticed .off 0 .parse [.subscribed 0 ⟨.parse, 0⟩ 0, .subscribed 0 ⟨.parse, 1⟩ 1] ∧
    tellings 2 (history .off meddling) = [(0, .parse, "a")] ∧
    deliveries 3 (history .off meddling) = [(0, "a"), (1, "a")] ∧
    .delivered 14 2 "c" ∈ history .off meddling ∧
    (∃ emission t channel, (history .off meddling)[14]? = some (.told emission t channel "c")) ∧
    ({} : Exchange).emit 0 .off .parse [.cancel 0] "c" = (false, {}) := by
  have told : history .off meddling =
      [.subscribed 0 ⟨.parse, 0⟩ 0, .subscribed 0 ⟨.parse, 1⟩ 1] ++
        .begun 0 .parse "a" true ::
        [.told 2 0 .parse "a", .delivered 3 0 "a", .subscribed 0 ⟨.parse, 2⟩ 2,
          .cancelled 0 ⟨.parse, 1⟩, .begun 0 .parse "b" true, .told 7 0 .parse "b",
          .delivered 8 0 "b", .delivered 8 2 "b", .delivered 3 1 "a",
          .begun 0 .parse "c" false, .cancelled 0 ⟨.parse, 0⟩, .told 12 0 .parse "c",
          .delivered 14 2 "c"] := by
    rw [history, Moment.finish_eq_advance (k := 16) rfl]
    rfl
  obtain ⟨_, _, holds, each, out, of_telling, _, emits⟩ := emissions_delivered .off meddling
  have noticed : Noticed .off 0 .parse
      [.subscribed 0 ⟨.parse, 0⟩ 0, .subscribed 0 ⟨.parse, 1⟩ 1] := .inr (by decide)
  obtain ⟨_, _, _, once, _⟩ := (each _ _ _ _ _ _ told).1 noticed
  obtain ⟨_, before, after, _⟩ := out
    [.subscribed 0 ⟨.parse, 0⟩ 0, .subscribed 0 ⟨.parse, 1⟩ 1, .begun 0 .parse "a" true]
    2 0 .parse "a" _ told
  have heard : .delivered 14 2 "c" ∈ history .off meddling := told ▸ by decide
  refine ⟨told, Nat.zero_lt_one, ?_, noticed, once, ?_, heard, of_telling 14 2 "c" heard,
    emits {} 0 .parse [.cancel 0] "c"⟩
  · rw [holds 0 Nat.zero_lt_one .parse, told]
    rfl
  · rw [told]
    exact after

/-- A subscriber is turned out while a message is made for it. -/
def parting : List (Fin 1 × Act) := [
  (0, .subscribe .parse []),
  (0, .emit .parse [.cancel 0] "a")]

/-- Somebody subscribes while a message is made for the log. -/
def joining : List (Fin 1 × Act) := [(0, .emit .parse [.subscribe .parse []] "a")]

/-- On one registry a subscription is cancelled that was made on another one. -/
def straying : List (Fin 2 × Act) := [
  (0, .subscribe .parse []),
  (1, .subscribe .parse []),
  (1, .cancel 0),
  (1, .emit .parse [] "a")]

/-- Those who are subscribed when an emission begins need not hear its message, and others may. Nor
need one hear it whose own subscription nobody has cancelled. -/
theorem subscribers_at_beginning_unheard :
    (history .off parting = [.subscribed 0 ⟨.parse, 0⟩ 0] ++ .begun 0 .parse "a" false ::
        [.cancelled 0 ⟨.parse, 0⟩, .told 1 0 .parse "a"] ∧
      live 0 .parse [.subscribed 0 ⟨.parse, 0⟩ 0] = [0] ∧
      (afterCalls .off parting).heard = []) ∧
    (history ⟨some .trace, none⟩ joining = [] ++ .begun 0 .parse "a" false ::
        [.subscribed 0 ⟨.parse, 0⟩ 0, .told 0 0 .parse "a", .delivered 2 0 "a"] ∧
      live 0 .parse [] = [] ∧
      (afterCalls ⟨some .trace, none⟩ joining).heard = [(0, "a")]) ∧
    (.cancel 1 ∉ straying.map Prod.snd ∧ (afterCalls .off straying).heard = []) := by
  have left : history .off parting = [.subscribed 0 ⟨.parse, 0⟩ 0] ++ .begun 0 .parse "a" false ::
      [.cancelled 0 ⟨.parse, 0⟩, .told 1 0 .parse "a"] := by
    rw [history, Moment.finish_eq_advance (k := 4) rfl]
    rfl
  have joined : history ⟨some .trace, none⟩ joining = [] ++ .begun 0 .parse "a" false ::
      [.subscribed 0 ⟨.parse, 0⟩ 0, .told 0 0 .parse "a", .delivered 2 0 "a"] := by
    rw [history, Moment.finish_eq_advance (k := 4) rfl]
    rfl
  have strayed : history .off straying = [.subscribed 0 ⟨.parse, 0⟩ 0,
      .subscribed 1 ⟨.parse, 0⟩ 1, .cancelled 1 ⟨.parse, 0⟩, .begun 1 .parse "a" true] := by
    rw [history, Moment.finish_eq_advance (k := 4) rfl]
    rfl
  refine ⟨⟨left, rfl, ?_⟩, ⟨joined, rfl, ?_⟩, by simp [straying], ?_⟩
  · rw [(sound_history .off parting).heard, left]
    rfl
  · rw [(sound_history _ joining).heard, joined]
    rfl
  · rw [(sound_history .off straying).heard, strayed]
    rfl

end ShiftFirst.Exchange
