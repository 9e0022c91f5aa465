import Nucleus.BoundedQueue
import Nucleus.Event
import Nucleus.Registers

/-!
# Nucleus.Inbox

The events that interrupts have raised and nobody has delivered yet, each with the process it is
for. It is the only thing that interrupt context writes besides the clock. An event for which there
is no room is dropped and counted.
-/

namespace Nucleus

structure Inbox where
  queue : BoundedQueue (ProcessId × Event)
  dropped : Nat
deriving DecidableEq

namespace Inbox

def new (capacity : Word) : Inbox :=
  ⟨.new capacity, 0⟩

/-- The events in the inbox with their owners, the oldest first. -/
def pending (i : Inbox) : List (ProcessId × Event) :=
  i.queue.items

def size (i : Inbox) : Nat :=
  i.queue.size

def isEmpty (i : Inbox) : Bool :=
  i.pending.isEmpty

def hasRoom (i : Inbox) : Bool :=
  i.queue.hasRoom

/-- The inbox with one more event, or with one more dropped. -/
def push (i : Inbox) (owner : ProcessId) (e : Event) : Inbox :=
  if i.hasRoom then
    { i with queue := i.queue.push (owner, e) }
  else
    { i with dropped := i.dropped + 1 }

def front? (i : Inbox) : Option (ProcessId × Event) :=
  i.queue.front?

def dropFront (i : Inbox) : Inbox :=
  { i with queue := i.queue.dropFront }

def clear (i : Inbox) : Inbox :=
  { i with queue := i.queue.clear }

/-- The event that a trap raises for a process that watches its line. -/
def eventOf? (frame : Registers) : Option Event :=
  match frame.line? with
  | none => none
  | some line => some (.interrupt line.toUInt64)

/-- The inbox after a trap was announced to `owner`; an exception is not announced. -/
def announce (i : Inbox) (frame : Registers) (owner : ProcessId) : Inbox :=
  match eventOf? frame with
  | none => i
  | some e => i.push owner e

def describe (i : Inbox) : String :=
  "EventInbox \x7b pending: " ++ toString i.size ++ ", dropped: " ++ toString i.dropped ++ " \x7d"

end Inbox
end Nucleus
