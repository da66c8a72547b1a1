namespace ShiftFirst

/-- A subject that messages are about. -/
inductive Channel where
  /-- The construction of automata. -/
  | grammar
  /-- The steps of runs. -/
  | parse
  deriving DecidableEq, Repr

namespace Channel

/-- The target under which the messages of a channel are logged. -/
def target : Channel → String
  | grammar => "cellgram::grammar"
  | parse => "cellgram::parse"

def text : Channel → String
  | grammar => "Grammar"
  | parse => "Parse"

end Channel

/-- What a registry gives out for a subscription. -/
structure Subscription where
  channel : Channel
  id : Nat
  deriving DecidableEq, Repr

def Subscription.text (s : Subscription) : String :=
  "Subscription \x7b channel: " ++ s.channel.text ++ ", id: " ++ toString s.id ++ " \x7d"

/-- Who listens to which channel, in the order of subscription. -/
structure Registry (α : Type) where
  entries : List (Subscription × α) := []
  nextId : Nat := 0
  deriving Repr

namespace Registry

variable {α : Type}

/-- Adds a listener under the next number. -/
def subscribe (r : Registry α) (channel : Channel) (listener : α) : Subscription × Registry α :=
  let s : Subscription := ⟨channel, r.nextId⟩
  (s, ⟨r.entries ++ [(s, listener)], r.nextId + 1⟩)

/-- Removes a subscription, and tells whether it was there. -/
def cancel (r : Registry α) (s : Subscription) : Bool × Registry α :=
  (r.entries.any (·.1 = s), { r with entries := r.entries.filter (·.1 ≠ s) })

/-- Those who listen to a channel, in the order of subscription. -/
def audience (r : Registry α) (channel : Channel) : List α :=
  (r.entries.filter (·.1.channel = channel)).map (·.2)

/-- Whether anybody listens to a channel. -/
def hears (r : Registry α) (channel : Channel) : Bool :=
  r.entries.any (·.1.channel = channel)

def text (r : Registry α) : String :=
  "Trace \x7b subscriptions: [" ++ ", ".intercalate (r.entries.map (·.1.text)) ++ "] \x7d"

/-- Subscribes a listener to each of the channels. -/
def subscribeAll (r : Registry α) (listeners : List (Channel × α)) : Registry α :=
  listeners.foldl (fun r l => (r.subscribe l.1 l.2).2) r

end Registry

end ShiftFirst
