import ShiftFirst.Trace.Exchange

namespace ShiftFirst

theorem Registry.hears_iff {α : Type} {r : Registry α} {channel : Channel} :
    r.hears channel = true ↔ r.audience channel ≠ [] := by
  rw [hears, List.any_eq_true, audience, ne_eq, List.map_eq_nil_iff, List.filter_eq_nil_iff]
  simp only [Classical.not_forall, Classical.not_not, exists_prop]

namespace Exchange

/-- What happens on numbered registries. Emissions, and messages that go out, are known by their
places in the history. -/
inductive Happening where
  | subscribed (t : Nat) (s : Subscription) (listener : Nat)
  | cancelled (t : Nat) (s : Subscription)
  /-- The emission of a message begins. It is plain if nothing is done with registries while the
  message is made. -/
  | begun (t : Nat) (channel : Channel) (message : String) (plain : Bool)
  /-- The message of an emission has been made and goes out. -/
  | told (emission t : Nat) (channel : Channel) (message : String)
  /-- A listener hears a message that has gone out. -/
  | delivered (telling listener : Nat) (message : String)
  deriving DecidableEq, Repr

namespace Happening

/-- Of which message the emission begins, and where. -/
def emission? : Happening → Option (Nat × Channel × String)
  | begun t channel message _ => some (t, channel, message)
  | _ => none

/-- Which message goes out, and where. -/
def message? : Happening → Option (Nat × Channel × String)
  | told _ t channel message => some (t, channel, message)
  | _ => none

/-- Of which emission the message goes out, and where. -/
def telling? : Happening → Option (Nat × Nat × Channel × String)
  | told emission t channel message => some (emission, t, channel, message)
  | _ => none

/-- Which message that has gone out is heard, and by whom. -/
def delivery? : Happening → Option (Nat × Nat × String)
  | delivered telling listener message => some (telling, listener, message)
  | _ => none

end Happening

/-- The subscriptions on a registry that have been made and not cancelled since, in order. -/
def standing (t : Nat) : List Happening → List (Subscription × Nat)
  | [] => []
  | .subscribed t' s listener :: later =>
    if t' = t ∧ .cancelled t s ∉ later then (s, listener) :: standing t later
    else standing t later
  | _ :: later => standing t later

/-- Those who are subscribed to a channel, in the order of their subscriptions. -/
def live (t : Nat) (channel : Channel) (past : List Happening) : List Nat :=
  ((standing t past).filter (·.1.channel = channel)).map (·.2)

/-- Somebody would take notice of a message, as it is logged or there is a subscriber. -/
def Noticed (log : Log.Filter) (t : Nat) (channel : Channel) (past : List Happening) : Prop :=
  log.admits .trace channel.target = true ∨ live t channel past ≠ []

/-- What is entered under a number. -/
def under {β : Type} (n : Nat) (entries : List (Nat × β)) : List β :=
  (entries.filter (·.1 = n)).map (·.2)

/-- Where the messages of an emission have gone out. -/
def tellings (emission : Nat) (past : List Happening) : List (Nat × Channel × String) :=
  under emission (past.filterMap Happening.telling?)

/-- Who has heard what of a message that has gone out. -/
def deliveries (telling : Nat) (past : List Happening) : List (Nat × String) :=
  under telling (past.filterMap Happening.delivery?)

/-- What is to be done on a registry, where a message to be sent out is known to belong to an
emission, and a delivery to a message that has gone out. -/
inductive Errand where
  | act (t : Nat) (a : Act)
  | tell (t emission : Nat) (channel : Channel) (message : String)
  | deliver (t telling listener : Nat) (message : String)

namespace Errand

def trace : Errand → Nat
  | act t _ => t
  | tell t _ _ _ => t
  | deliver t _ _ _ => t

def task : Errand → Task
  | act _ a => .act a
  | tell _ _ channel message => .tell channel message
  | deliver _ _ listener message => .deliver listener message

/-- A task on a registry that is due to what happens at a place of the history. -/
def due (t place : Nat) : Task → Errand
  | .act a => act t a
  | .tell channel message => tell t place channel message
  | .deliver listener message => deliver t place listener message

def telling? : Errand → Option (Nat × Nat × Channel × String)
  | tell t emission channel message => some (emission, t, channel, message)
  | _ => none

def delivery? : Errand → Option (Nat × Nat × String)
  | deliver _ telling listener message => some (telling, listener, message)
  | _ => none

/-- What happens when an errand is run. -/
def happenings (x : Exchange) : Errand → List Happening
  | act t (.cancel handle) => x.handles[handle]?.toList.map (.cancelled t)
  | act t (.subscribe channel _) =>
    let listener := x.handles.length
    [.subscribed t ((x.registry t).subscribe channel listener).1 listener]
  | act t (.emit channel making message) => [.begun t channel message making.isEmpty]
  | tell t emission channel message => [.told emission t channel message]
  | deliver _ telling listener message => [.delivered telling listener message]

theorem trace_due (t place : Nat) (task : Task) : (due t place task).trace = t := by
  cases task <;> rfl

theorem task_due (t place : Nat) (task : Task) : (due t place task).task = task := by
  cases task <;> rfl

theorem map_task_due (t place : Nat) (tasks : List Task) :
    (tasks.map (due t place)).map task = tasks := by
  rw [List.map_map]
  exact (List.map_congr_left fun task _ => task_due t place task).trans (List.map_id tasks)

end Errand

/-- Registries in the midst of what goes on, with what has happened so far. -/
structure Moment where
  exchange : Exchange
  agenda : List Errand
  past : List Happening := []

namespace Moment

variable (log : Log.Filter)

/-- Runs the first errand, if there is one. -/
def next (m : Moment) : Option Moment :=
  match m.agenda with
  | [] => none
  | errand :: rest =>
    let (tasks, x) := m.exchange.perform log errand.trace errand.task
    some {
      exchange := x
      agenda := tasks.map (.due errand.trace m.past.length) ++ rest
      past := m.past ++ errand.happenings m.exchange }

variable {log} {m m' : Moment}

theorem exists_of_next (h : m.next log = some m') :
    ∃ errand rest, m.agenda = errand :: rest ∧
      m'.exchange = (m.exchange.perform log errand.trace errand.task).2 ∧
      m'.agenda = (m.exchange.perform log errand.trace errand.task).1.map
        (.due errand.trace m.past.length) ++ rest ∧
      m'.past = m.past ++ errand.happenings m.exchange := by
  unfold next at h
  split at h
  next => cases h
  next errand rest first =>
    cases Option.some.inj h
    exact ⟨errand, rest, first, rfl, rfl, rfl⟩

theorem measure_next (h : m.next log = some m') :
    Prod.Lex (· < ·) (· < ·) (m'.exchange.measure (m'.agenda.map Errand.task))
      (m.exchange.measure (m.agenda.map Errand.task)) := by
  obtain ⟨errand, rest, first, exchange, agenda, _⟩ := exists_of_next h
  rw [first, exchange, agenda, List.map_append, Errand.map_task_due, List.map_cons]
  exact measure_perform log errand.trace m.exchange errand.task _

/-- Runs all errands, those included that come up on the way. -/
def finish (log : Log.Filter) (m : Moment) : Moment :=
  match _step : m.next log with
  | none => m
  | some m' => finish log m'
termination_by m.exchange.measure (m.agenda.map Errand.task)
decreasing_by exact measure_next ‹_›

theorem finish_of_next (h : m.next log = some m') : m.finish log = m'.finish log := by
  rw [finish]
  split
  next none => cases h.symm.trans none
  next m'' some => cases h.symm.trans some; rfl

theorem finish_of_none (h : m.next log = none) : m.finish log = m := by
  rw [finish]
  split
  next => rfl
  next some => cases h.symm.trans some

theorem next_eq_none_iff : m.next log = none ↔ m.agenda = [] := by
  unfold next
  split
  next none => exact iff_of_true rfl none
  next some =>
    rw [some]
    exact iff_of_false (Option.some_ne_none _) (List.cons_ne_nil _ _)

/-- What each errand preserves holds when all have been run. -/
theorem finish_induction {P : Moment → Prop}
    (step : ∀ m m', P m → m.next log = some m' → P m') (m : Moment) (h : P m) :
    P (m.finish log) := by
  induction m using finish.induct log with
  | case1 m stop => exact (finish_of_none stop).symm ▸ h
  | case2 m m' go ih => exact (finish_of_next go).symm ▸ ih (step m m' h go)

theorem agenda_finish (m : Moment) : (m.finish log).agenda = [] := by
  induction m using finish.induct log with
  | case1 m stop => rw [finish_of_none stop, next_eq_none_iff.mp stop]
  | case2 m m' go ih => rw [finish_of_next go, ih]

/-- Runs the errands up to a number of them. -/
def advance (log : Log.Filter) : Nat → Moment → Moment
  | 0, m => m
  | k + 1, m => ((m.next log).map (advance log k)).getD m

theorem finish_eq_advance {k : Nat} (done : (m.advance log k).agenda = []) :
    m.finish log = m.advance log k := by
  induction k generalizing m with
  | zero => exact finish_of_none (next_eq_none_iff.mpr done)
  | succ k ih =>
    rw [advance] at done ⊢
    cases go : m.next log with
    | none => exact finish_of_none go
    | some m' =>
      rw [go] at done
      exact (finish_of_next go).trans (ih done)

end Moment

section Runs

variable (log : Log.Filter)

theorem settle_nil (t : Nat) (x : Exchange) : settle log t x [] = x := by rw [settle]

theorem settle_cons (t : Nat) (x : Exchange) (task : Task) (rest : List Task) :
    settle log t x (task :: rest) =
      settle log t (x.perform log t task).2 ((x.perform log t task).1 ++ rest) := by
  rw [settle]

theorem settle_append (t : Nat) (x : Exchange) (agenda later : List Task) :
    settle log t x (agenda ++ later) = settle log t (settle log t x agenda) later := by
  induction x, agenda using settle.induct log t with
  | case1 x => rw [List.nil_append, settle_nil]
  | case2 x task rest ih =>
    rw [List.cons_append, settle_cons, settle_cons, ← ih, List.append_assoc]

/-- Makes a call on a registry. -/
def call (x : Exchange) (t : Nat) : Act → Exchange
  | .cancel handle => (x.cancel t handle).2
  | .subscribe channel script => (x.subscribe t channel script).2
  | .emit channel making message => (x.emit t log channel making message).2

theorem settle_act (x : Exchange) (t : Nat) (a : Act) :
    settle log t x [.act a] = x.call log t a := by
  rw [settle_cons, List.append_nil]
  cases a with
  | cancel handle => exact settle_nil log t _
  | subscribe channel script => exact settle_nil log t _
  | emit channel making message => rfl

/-- If anybody takes notice of it, a message is made, with all calls that this takes, before it
goes out. -/
theorem emit_eq (x : Exchange) (t : Nat) (channel : Channel) (making : List Act)
    (message : String) :
    x.emit t log channel making message =
      if Audience.listens ⟨x.registry t, log⟩ channel then
        (true, settle log t (making.foldl (fun y a => y.call log t a) x) [.tell channel message])
      else (false, x) := by
  have made (y : Exchange) : settle log t y (making.map .act) =
      making.foldl (fun y a => y.call log t a) y := by
    induction making generalizing y with
    | nil => exact settle_nil log t y
    | cons a making ih =>
      rw [List.map_cons, List.foldl_cons, ← ih, ← settle_act, ← settle_append]
      rfl
  rw [emit, propose, ← made, ← settle_append]
  by_cases noticed : Audience.listens ⟨x.registry t, log⟩ channel = true
  · rw [if_pos noticed, if_pos noticed]
  · rw [if_neg noticed, if_neg noticed]
    exact congrArg (false, ·) (settle_nil log t x)

/-- Runs an errand to its end. -/
def run (x : Exchange) (errand : Errand) : Exchange := settle log errand.trace x [errand.task]

theorem foldl_run_eq_settle {agenda : List Errand} {t : Nat} (on : ∀ e ∈ agenda, e.trace = t)
    (x : Exchange) : agenda.foldl (run log) x = settle log t x (agenda.map Errand.task) := by
  induction agenda generalizing x with
  | nil => exact (settle_nil log t x).symm
  | cons e rest ih =>
    obtain ⟨here, there⟩ := List.forall_mem_cons.mp on
    rw [List.foldl_cons, ih there, run, here, ← settle_append]
    rfl

variable {log}

/-- An errand comes to the same whether it is run to its end or one by one with those that come up
on the way. -/
theorem Moment.foldl_run_next {m m' : Moment} (h : m.next log = some m') :
    m'.agenda.foldl (run log) m'.exchange = m.agenda.foldl (run log) m.exchange := by
  obtain ⟨errand, rest, first, exchange, agenda, _⟩ := exists_of_next h
  have on : ∀ e ∈ (m.exchange.perform log errand.trace errand.task).1.map
      (Errand.due errand.trace m.past.length), e.trace = errand.trace :=
    List.forall_mem_map.mpr fun task _ => Errand.trace_due _ _ task
  rw [first, exchange, agenda, List.foldl_append, foldl_run_eq_settle log on,
    Errand.map_task_due, List.foldl_cons, run, settle_cons, List.append_nil]

theorem exchange_finish (m : Moment) :
    (m.finish log).exchange = m.agenda.foldl (run log) m.exchange := by
  have settled : (m.finish log).agenda.foldl (run log) (m.finish log).exchange =
      m.agenda.foldl (run log) m.exchange :=
    Moment.finish_induction
      (P := fun m' => m'.agenda.foldl (run log) m'.exchange = m.agenda.foldl (run log) m.exchange)
      (fun _ _ same go => (Moment.foldl_run_next go).trans same) m rfl
  rwa [Moment.agenda_finish] at settled

end Runs

/-- So many registries, without subscriptions. -/
def fresh (n : Nat) : Exchange := { registries := List.replicate n {} }

/-- What the calls bring about, each made on one of the registries when the one before has
returned. -/
def afterCalls (log : Log.Filter) {n : Nat} (calls : List (Fin n × Act)) : Exchange :=
  calls.foldl (fun x c => x.call log c.1 c.2) (fresh n)

def begin {n : Nat} (calls : List (Fin n × Act)) : Moment :=
  ⟨fresh n, calls.map fun c => .act c.1 c.2, []⟩

/-- All that happens on the registries. -/
def history (log : Log.Filter) {n : Nat} (calls : List (Fin n × Act)) : List Happening :=
  ((begin calls).finish log).past

theorem exchange_history (log : Log.Filter) {n : Nat} (calls : List (Fin n × Act)) :
    ((begin calls).finish log).exchange = afterCalls log calls := by
  have each : run log = fun x (e : Errand) => settle log e.trace x [e.task] := rfl
  rw [exchange_finish, begin, afterCalls, List.foldl_map, each]
  simp only [Errand.trace, Errand.task, settle_act]

end Exchange

end ShiftFirst
