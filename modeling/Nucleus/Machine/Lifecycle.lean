import Nucleus.Machine.Schedule

/-!
# Nucleus.Machine.Lifecycle

Beginning and end: of processes, and of the kernel's work with them.

* `create`, `remove`: one process.
* `boot`: a privileged process with no parent, and a scheduling decision.
* `shutdown`: all processes and their hooks. Events already in the inbox stay there.
-/

namespace Nucleus
namespace Machine

def create (m : Machine) (entry : VirtAddr) (map : StackMap) (privileged : Bool) :
    Except ProcessError (Process × Machine) :=
  match m.kernel.create entry map privileged with
  | .error e => .error e
  | .ok (p, kernel) => .ok (p, (m.setKernel kernel).note (.created p.id entry p.space))

def remove (m : Machine) (id : ProcessId) (status : Word) : Except ProcessError Machine :=
  match m.kernel.remove id status with
  | .error e => .error e
  | .ok kernel => .ok ((m.setKernel kernel).report (m.kernel.removalNotes id status))

/-- Creates a privileged process and lets the scheduler decide. -/
def boot (m : Machine) (entry : VirtAddr) : Outcome (Except ProcessError ProcessId) :=
  match m.create entry m.kernel.config.stackMap true with
  | .error e => .done m (.error e)
  | .ok (p, m) =>
    m.schedule.andThen fun m _ =>
    .done (m.note (.booted p.id entry)) (.ok p.id)

def releaseAll (m : Machine) : Machine × Nat :=
  let count := m.kernel.processes.size
  ((m.setKernel m.kernel.releaseAll).note (.released count), count)

/-- Removes all processes with their hooks and counts them. -/
def shutdown (m : Machine) : Outcome Nat :=
  (m.withController fun m => (m.dropHooksOfAll m.kernel.processes.ids, ())).andThen fun m _ =>
  .done m.releaseAll.1 m.releaseAll.2

end Machine
end Nucleus
