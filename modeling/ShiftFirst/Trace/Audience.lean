import ShiftFirst.Log

namespace ShiftFirst

/-- Those who observe the work: the numbered listeners of the channels, and the log. -/
structure Audience where
  trace : Registry Nat := {}
  log : Log.Filter := .off
  deriving Repr

namespace Audience

/-- Whether a message on a channel reaches anybody. -/
def listens (a : Audience) (channel : Channel) : Bool :=
  a.log.admits .trace channel.target || a.trace.hears channel

/-- What the listeners of a channel hear of a message. -/
def hear (a : Audience) (channel : Channel) (text : Unit → String) : List (Nat × String) :=
  (a.trace.audience channel).map fun k => (k, text ())

end Audience

end ShiftFirst
