import Nucleus.Journal
import Nucleus.Registry

/-!
# Nucleus.Registry.Wakeup

The three ways in which blocked processes of a registry become ready: an event or a request wakes a
sleeper, a deadline passes, or the process waited for ends. Each has its notes beside it.
-/

namespace Nucleus
namespace Registry

/-- Hands an event to its owner, if there is such a process. -/
def deliver (r : Registry) (owner : ProcessId) (e : Event) : Registry :=
  r.modify owner (Process.receive e)

/-- What there is to tell of the delivery of an event: whether there is somebody to have it and room
for it, and the wakeup that comes with it. -/
def deliveryNotes (r : Registry) (owner : ProcessId) (e : Event) : List Note :=
  match r.get? owner with
  | none => [.ownerMissing e owner]
  | some p =>
    [if p.events.hasRoom then .delivered e owner else .queueFull e owner,
      .woken owner (p.state == .sleeping)]

/-- Hands events to their owners, one after the other. -/
def deliverAll : Registry → List (ProcessId × Event) → Registry
  | r, [] => r
  | r, (owner, e) :: rest => deliverAll (r.deliver owner e) rest

def deliverAllNotes : Registry → List (ProcessId × Event) → List Note
  | _, [] => []
  | r, (owner, e) :: rest => r.deliveryNotes owner e ++ deliverAllNotes (r.deliver owner e) rest

/-- Ends the sleeps whose deadline has been reached. -/
def wakeExpired (r : Registry) (now : Instant) : Registry :=
  r.map (Process.checkTimer now)

def expiryNotes (r : Registry) (now : Instant) : List Note :=
  (r.toList.filter (Process.isOverdue now)).map fun p => .timerExpired p.id

def deliverExit (r : Registry) (ended : ProcessId) (status : Word) : Registry :=
  r.mapIf (Process.isWaitingFor ended) (Process.deliverExit status)

def exitNotes (r : Registry) (ended : ProcessId) : List Note :=
  (r.toList.filter (Process.isWaitingFor ended)).map fun p => .resumed p.id ended

end Registry
end Nucleus
