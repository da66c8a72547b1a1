import ShiftFirst.Trace.Audience

namespace ShiftFirst

/-- What is done with a registry, from outside, by a listener when it hears a message, or while a
message is being made. -/
inductive Act where
  /-- Cancels the subscription with a number. -/
  | cancel (handle : Nat)
  /-- Subscribes a further listener, who follows a script of its own. -/
  | subscribe (channel : Channel) (script : List (List Act))
  /-- Emits a message. If anybody is there to take notice of it, it is made first, with all that is
  done in making it. -/
  | emit (channel : Channel) (making : List Act) (message : String)

/-- What a listener does at the first message it hears, at the second, and so on. -/
abbrev Script := List (List Act)

/-- Registries whose listeners take part in what goes on. Subscriptions and their listeners are
numbered together, over all registries. -/
structure Exchange where
  registries : List (Registry Nat) := [{}]
  handles : List Subscription := []
  /-- What each listener has still to do. -/
  scripts : List Script := []
  /-- What the listeners have heard, in order. -/
  heard : List (Nat × String) := []
  /-- The messages that have been made and emitted, in order. -/
  emitted : List (Channel × String) := []

/-- What is to be done next on a registry. -/
inductive Exchange.Task where
  | act (a : Act)
  /-- A message that has been made goes out. -/
  | tell (channel : Channel) (message : String)
  | deliver (listener : Nat) (message : String)

namespace Exchange

/-- Adds a registry without subscriptions. -/
def addRegistry (x : Exchange) : Nat × Exchange :=
  (x.registries.length, { x with registries := x.registries ++ [{}] })

def registry (x : Exchange) (t : Nat) : Registry Nat := x.registries[t]?.getD {}

def subscribe (x : Exchange) (t : Nat) (channel : Channel) (script : Script) : Nat × Exchange :=
  let (s, r) := (x.registry t).subscribe channel x.handles.length
  (x.handles.length, { x with
    registries := x.registries.set t r
    handles := x.handles ++ [s]
    scripts := x.scripts ++ [script] })

/-- Cancels a subscription by its number, on a registry that need not be the one that gave it
out. There is no answer if there is no such number. -/
def cancel (x : Exchange) (t handle : Nat) : Option Bool × Exchange :=
  match x.handles[handle]? with
  | none => (none, x)
  | some s =>
    let (found, r) := (x.registry t).cancel s
    (some found, { x with registries := x.registries.set t r })

/-- Hands a message to a listener: what it does now, and the rest of its script. -/
def hand (x : Exchange) (listener : Nat) (message : String) : List Act × Exchange :=
  let heard := x.heard ++ [(listener, message)]
  match x.scripts[listener]? with
  | some (acts :: rest) =>
    (acts, { x with heard := heard, scripts := x.scripts.set listener rest })
  | _ => ([], { x with heard := heard })

/-- Whether anybody would take notice of a message, and what there is to do about it if so: to make
it, and then to send it out. -/
def propose (x : Exchange) (t : Nat) (log : Log.Filter) (channel : Channel) (making : List Act)
    (message : String) : Bool × List Task :=
  if Audience.listens ⟨x.registry t, log⟩ channel then
    (true, making.map .act ++ [.tell channel message])
  else (false, [])

/-- Sends out a message that has been made: it will be delivered to those who listen now. -/
def summon (x : Exchange) (t : Nat) (channel : Channel) (message : String) :
    List Task × Exchange :=
  (((x.registry t).audience channel).map (.deliver · message),
    { x with emitted := x.emitted ++ [(channel, message)] })

end Exchange

namespace Exchange.Task

/-- How much is about to be done on a registry, the deliveries apart. -/
noncomputable def load : Task → Nat
  | act a => sizeOf a
  | tell _ _ => 1
  | deliver _ _ => 0

noncomputable def loads : List Task → Nat
  | [] => 0
  | task :: agenda => task.load + loads agenda

theorem loads_append (agenda agenda' : List Task) :
    loads (agenda ++ agenda') = loads agenda + loads agenda' := by
  induction agenda with
  | nil => simp [loads]
  | cons task agenda ih => simp [loads, ih, Nat.add_assoc]

def isDelivery : Task → Bool
  | deliver _ _ => true
  | _ => false

end Exchange.Task

namespace Exchange

/-- How much listeners will do, now and at later messages. -/
noncomputable def load (x : Exchange) (agenda : List Task) : Nat :=
  sizeOf x.scripts + Task.loads agenda

theorem loads_act (acts : List Act) : Task.loads (acts.map Task.act) < sizeOf acts := by
  induction acts with
  | nil => simp [Task.loads]
  | cons a acts ih =>
    simp only [List.map_cons, Task.loads, Task.load, List.cons.sizeOf_spec]
    omega

theorem sizeOf_set (scripts : List Script) {k : Nat} {acts : List Act} {rest : Script}
    (h : scripts[k]? = some (acts :: rest)) :
    sizeOf (scripts.set k rest) + 1 + sizeOf acts = sizeOf scripts := by
  induction scripts generalizing k with
  | nil => simp at h
  | cons s scripts ih =>
    cases k with
    | zero =>
      simp only [List.getElem?_cons_zero, Option.some.injEq] at h
      subst h
      simp
      omega
    | succ k =>
      have := ih (by simpa using h)
      simp
      omega

theorem sizeOf_append_singleton (scripts : List Script) (s : Script) :
    sizeOf (scripts ++ [s]) = sizeOf scripts + 1 + sizeOf s := by
  induction scripts with
  | nil => simp; omega
  | cons t scripts ih => simp [ih]; omega

/-- Does one task on a registry. Tells what is to be done next because of it: when a listener has
heard a message, what it does; when a message is to be emitted, its making; and when it has been
made, its deliveries. -/
def perform (log : Log.Filter) (t : Nat) (x : Exchange) : Task → List Task × Exchange
  | .act (.cancel handle) => ([], (x.cancel t handle).2)
  | .act (.subscribe channel script) => ([], (x.subscribe t channel script).2)
  | .act (.emit channel making message) => ((x.propose t log channel making message).2, x)
  | .tell channel message => x.summon t channel message
  | .deliver listener message =>
    let (acts, x) := x.hand listener message
    (acts.map .act, x)

/-- What may still come of an agenda, and then how many deliveries it holds. -/
noncomputable def measure (x : Exchange) (agenda : List Task) : Nat × Nat :=
  (x.load agenda, (agenda.filter Task.isDelivery).length)

theorem load_cancel (x : Exchange) (t handle : Nat) (rest : List Task) :
    (x.cancel t handle).2.load rest < x.load (.act (.cancel handle) :: rest) := by
  have : (x.cancel t handle).2.scripts = x.scripts := by unfold cancel; split <;> rfl
  simp only [load, this, Task.loads, Task.load, Act.cancel.sizeOf_spec]
  omega

theorem load_subscribe (x : Exchange) (t : Nat) (channel : Channel) (script : Script)
    (rest : List Task) :
    (x.subscribe t channel script).2.load rest <
      x.load (.act (.subscribe channel script) :: rest) := by
  have : 0 < sizeOf channel := by cases channel <;> simp
  simp only [load, subscribe, sizeOf_append_singleton, Task.loads, Task.load,
    Act.subscribe.sizeOf_spec]
  omega

theorem load_propose (x : Exchange) (t : Nat) (log : Log.Filter) (channel : Channel)
    (making : List Act) (message : String) (rest : List Task) :
    x.load ((x.propose t log channel making message).2 ++ rest) <
      x.load (.act (.emit channel making message) :: rest) := by
  unfold propose
  split
  next =>
    have := loads_act making
    simp only [load, Task.loads_append, Task.loads, Task.load, Act.emit.sizeOf_spec]
    omega
  next =>
    simp only [load, List.nil_append, Task.loads, Task.load, Act.emit.sizeOf_spec]
    omega

theorem load_summon (x : Exchange) (t : Nat) (channel : Channel) (message : String)
    (rest : List Task) :
    (x.summon t channel message).2.load ((x.summon t channel message).1 ++ rest) <
      x.load (.tell channel message :: rest) := by
  have deliveries (ks : List Nat) :
      Task.loads (ks.map (Task.deliver · message)) = 0 := by
    induction ks with
    | nil => rfl
    | cons k ks ih => simpa [Task.loads, Task.load] using ih
  simp only [load, summon, Task.loads_append, deliveries, Task.loads, Task.load]
  omega

theorem load_hand (x : Exchange) (k : Nat) (message : String) (rest : List Task) :
    (x.hand k message).2.load ((x.hand k message).1.map .act ++ rest) < x.load rest ∨
      (x.hand k message).1 = [] ∧ (x.hand k message).2.load rest = x.load rest := by
  unfold hand
  split
  · next acts later h =>
    left
    have := sizeOf_set x.scripts h
    have := loads_act acts
    simp only [load, Task.loads_append]
    omega
  · exact .inr ⟨rfl, rfl⟩

theorem measure_perform (log : Log.Filter) (t : Nat) (x : Exchange) (task : Task)
    (rest : List Task) :
    Prod.Lex (· < ·) (· < ·)
      (measure (x.perform log t task).2 ((x.perform log t task).1 ++ rest))
      (measure x (task :: rest)) := by
  match task with
  | .act (.cancel handle) => exact Prod.Lex.left _ _ (load_cancel x t handle rest)
  | .act (.subscribe channel script) =>
    exact Prod.Lex.left _ _ (load_subscribe x t channel script rest)
  | .act (.emit channel making message) =>
    exact Prod.Lex.left _ _ (load_propose x t log channel making message rest)
  | .tell channel message => exact Prod.Lex.left _ _ (load_summon x t channel message rest)
  | .deliver k message =>
    have same : x.load (.deliver k message :: rest) = x.load rest := by
      simp [load, Task.loads, Task.load]
    simp only [measure, perform, same]
    rcases load_hand x k message rest with less | ⟨none, equal⟩
    · exact Prod.Lex.left _ _ less
    · rw [none, List.map_nil, List.nil_append, equal]
      exact Prod.Lex.right _ (Nat.lt_succ_self _)

/-- Does all that is to be done on a registry. What a task gives rise to is done right after it. -/
def settle (log : Log.Filter) (t : Nat) (x : Exchange) : List Task → Exchange
  | [] => x
  | task :: rest =>
    settle log t (x.perform log t task).2 ((x.perform log t task).1 ++ rest)
termination_by agenda => x.measure agenda
decreasing_by exact measure_perform log t x task rest

/-- Emits a message, if a listener or the log takes notice of it, with all that follows from it.
Tells whether it was emitted. -/
def emit (x : Exchange) (t : Nat) (log : Log.Filter) (channel : Channel) (making : List Act)
    (message : String) : Bool × Exchange :=
  let (noticed, agenda) := x.propose t log channel making message
  (noticed, settle log t x agenda)

end Exchange

end ShiftFirst
