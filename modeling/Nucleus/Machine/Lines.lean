import Nucleus.Machine

/-!
# Nucleus.Machine.Lines

What is done to the interrupt lines, each time with the vector table's lock held: announcing a trap,
hooking a process to a line, enabling a line, and taking hooks away.
-/

namespace Nucleus
namespace Machine

/-- Announces a trap to the hooks of its line, and counts them. -/
def dispatch (m : Machine) (frame : Registers) : Outcome Nat :=
  m.withController fun m =>
    let d := m.kernel.devices
    ((m.setDevices (d.dispatch frame)).report (d.dispatchNotes frame),
      (d.vectors.triggered frame).length)

/-- Announces a trap to one process, whether or not it watches the line. -/
def announce (m : Machine) (frame : Registers) (owner : ProcessId) : Machine :=
  let d := m.kernel.devices
  (m.setDevices { d with inbox := d.inbox.announce frame owner }).report
    (d.inbox.announceNotes frame owner)

def hookLine (m : Machine) (owner : ProcessId) (line : Word) : Outcome (Except LineError Unit) :=
  m.withController fun m =>
    match m.kernel.devices.vectors.hook line owner with
    | .error e => (m, .error e)
    | .ok vectors => ((m.setVectors vectors).note (.hooked line owner), .ok ())

def setLine (m : Machine) (line : Word) (on : Bool) : Outcome (Except LineError Unit) :=
  m.withController fun m =>
    match m.kernel.devices.vectors.setEnabled line on with
    | .error e => (m, .error e)
    | .ok vectors => ((m.setVectors vectors).note (.lineSet line on), .ok ())

/-- Takes away the hooks of a process, and counts them. -/
def unhook (m : Machine) (owner : ProcessId) : Machine × Nat :=
  let vectors := m.kernel.devices.vectors
  let count := (vectors.hooksOf owner).length
  let m := m.setVectors (vectors.unhook owner)
  (if 0 < count then m.note (.unhooked count owner) else m, count)

/-- Takes away the hooks of a process, however many there are. -/
def dropHooks (m : Machine) (owner : ProcessId) : Machine :=
  (m.unhook owner).1

/-- Takes away the hooks of some processes, one process after the other. -/
def dropHooksOfAll (m : Machine) : List ProcessId → Machine
  | [] => m
  | id :: rest => (m.dropHooks id).dropHooksOfAll rest

end Machine
end Nucleus
