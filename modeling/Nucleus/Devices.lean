import Nucleus.Clock
import Nucleus.Inbox
import Nucleus.Journal
import Nucleus.VectorTable

/-!
# Nucleus.Devices

What interrupt context may touch: the clock, the interrupt lines and the inbox. A trap through a
line announces itself to every hook of the line, one event each, and does nothing else; processes
hear of it when the inbox is next emptied.

* `tick`, `advance`: the clock, where there is one.
* `dispatch`: one trap; `dispatchNotes` tells what became of its events.
-/

namespace Nucleus

structure Devices where
  clock : Option Clock
  inbox : Inbox
  vectors : VectorTable
deriving DecidableEq

namespace Inbox

/-- The inbox after a trap was announced to the owner of each hook. -/
def announceAll (frame : Registers) : Inbox → List Hook → Inbox
  | i, [] => i
  | i, h :: rest => announceAll frame (i.announce frame h.owner) rest

/-- What there is to tell of one announcement: the event finds room or none. -/
def announceNotes (i : Inbox) (frame : Registers) (owner : ProcessId) : List Note :=
  match eventOf? frame with
  | none => []
  | some e => if i.hasRoom then [.announced e owner] else [.inboxFull e owner]

def announceAllNotes (frame : Registers) : Inbox → List Hook → List Note
  | _, [] => []
  | i, h :: rest =>
    i.announceNotes frame h.owner ++ announceAllNotes frame (i.announce frame h.owner) rest

end Inbox

namespace Devices

def advance (d : Devices) (n : Word) : Except Fault Devices :=
  match d.clock with
  | none => .ok d
  | some c =>
    match c.advance n with
    | .error f => .error f
    | .ok c => .ok { d with clock := some c }

def tick (d : Devices) : Except Fault Devices :=
  d.advance 1

def dispatch (d : Devices) (frame : Registers) : Devices :=
  { d with inbox := Inbox.announceAll frame d.inbox (d.vectors.triggered frame) }

def dispatchNotes (d : Devices) (frame : Registers) : List Note :=
  Inbox.announceAllNotes frame d.inbox (d.vectors.triggered frame)

end Devices
end Nucleus
