import Nucleus.Machine

/-!
# Nucleus.Machine.Events

What reaches processes without a request of theirs: events from the inbox, and the ends of sleeps
whose deadline has been reached. `settle` does both; it comes before every look for a ready process.
-/

namespace Nucleus
namespace Machine

/-- Empties the inbox into the queues of the processes. -/
def deliverEvents (m : Machine) : Machine :=
  (m.setKernel m.kernel.deliverEvents).report m.kernel.deliveryNotes

/-- Takes the oldest event from the queue of a process. -/
def takeEvent (m : Machine) (id : ProcessId) : Machine × Option Event :=
  match m.kernel.processes.get? id with
  | none => (m, none)
  | some p =>
    match p.nextEvent? with
    | none => (m, none)
    | some e => ((m.modifyProcess id Process.dropEvent).note (.taken e id), some e)

/-- Ends the sleeps whose deadline has been reached. -/
def wakeExpired (m : Machine) : Machine :=
  (m.setKernel m.kernel.wakeExpired).report m.kernel.expiryNotes

def settle (m : Machine) : Machine :=
  m.deliverEvents.wakeExpired

end Machine
end Nucleus
