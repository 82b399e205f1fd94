import Editorial.Event.Basic
import Editorial.Failure

/-!
# The event log

The log keeps every event. It is read in two ways. A *channel* has a name and
a place in the log; a poll hands out everything from that place on and moves
the place to the end. A *receiver* follows the log live through a buffer of
limited size; if it falls behind, the oldest events are lost to it.
-/

namespace Editorial

/-- The log with the places of its channels. -/
structure EventLog where
  /-- How many events a live receiver may fall behind. -/
  capacity : Nat
  /-- All events, the oldest first. -/
  events : List Event
  /-- For each channel the number of the next event it gets. -/
  channels : Keyed Nat
deriving DecidableEq

namespace EventLog

/-- The capacity of a log for which none is given. -/
def defaultCapacity : Nat := 256

/-- A log without events and channels. -/
def empty (capacity : Nat) : EventLog := ⟨capacity, [], .empty⟩

/-- The number of the next event. -/
def nextSequence (log : EventLog) : Nat :=
  match log.events.getLast? with
  | none => 1
  | some last => last.sequence + 1

/-- Numbers a notice and appends it. -/
def append (log : EventLog) (notice : Notice) : Event × EventLog :=
  let event : Event := ⟨notice, log.nextSequence⟩
  (event, { log with events := log.events ++ [event] })

/-! ## Channels -/

/-- Registers a channel at the start of the log, or at its end if only new
events are wanted. A channel that is there already keeps its place. -/
def register (log : EventLog) (name : String) (onlyNew : Bool) : EventLog :=
  if log.channels.contains name then log
  else { log with
    channels := log.channels.insert name (if onlyNew then log.nextSequence else 1) }

/-- Whether there is a channel of this name. -/
def hasChannel (log : EventLog) (name : String) : Bool := log.channels.contains name

/-- The events a channel has not handed out yet, and the log with the channel
moved past them. -/
def poll (log : EventLog) (name : String) : Except Failure (List Event × EventLog) :=
  match log.channels.get? name with
  | none => .error (.argument (.unknownChannel name))
  | some place =>
      .ok (log.events.filter fun event => place ≤ event.sequence,
        { log with channels := log.channels.insert name log.nextSequence })

/-- Delivers to the listener of a channel what it has not had yet. The channel
is registered the first time. -/
def deliver (log : EventLog) (name : String) (onlyNew : Bool) :
    Except Failure (List Event × EventLog) :=
  (log.register name onlyNew).poll name

/-- Whether listeners that do not say otherwise start with new events only. -/
def listensToNewOnly : Bool := true

/-! ## Live receivers -/

/-- How far a live receiver has come: the number of events it is past. -/
structure Receiver where
  passed : Nat
deriving DecidableEq

/-- How many events the buffer holds: the least power of two that is no less
than the capacity and than one. -/
def bufferSize (log : EventLog) : Nat := (max log.capacity 1).nextPowerOfTwo

/-- A receiver of the events to come. -/
def subscribe (log : EventLog) : Receiver := ⟨log.events.length⟩

/-- How many events were lost to a receiver, the events it gets, and the
receiver past them. -/
def receive (log : EventLog) (receiver : Receiver) : Nat × List Event × Receiver :=
  let lost := log.events.length - log.bufferSize - receiver.passed
  (lost, log.events.drop (receiver.passed + lost), log.subscribe)

end EventLog

end Editorial
