import Nucleus.Machine.Arrivals
import Nucleus.Machine.Events

/-!
# Nucleus.Machine.Schedule

The scheduling decision. The registers of the process with the CPU are saved and it becomes ready;
then events are delivered, elapsed sleeps end, and the next ready process gets the CPU. As long as
none is ready the CPU waits for an interrupt and looks again. The process that had the CPU stays
bound to it meanwhile.

A page directory is activated unless it is that of the process that had the CPU before.
-/

namespace Nucleus
namespace Machine

/-- Takes the CPU from the process that has it. -/
def suspendCurrent (m : Machine) : Machine :=
  match m.kernel.current with
  | none => m
  | some id => m.modifyProcess id (Process.suspend m.frame)

/-- Gives the CPU to a process that was selected. -/
def giveCpu (m : Machine) (active : Option PhysAddr) (p : Process) (scheduler : RoundRobin) :
    Machine :=
  let directory := p.space.pageDirectory
  let m' := { m with
    kernel := { m.kernel with
      processes := m.kernel.processes.modify p.id Process.run
      current := some p.id
      scheduler }
    frame := p.context
    activated := if active = some directory then m.activated else directory :: m.activated }
  if m.kernel.current = some p.id then m' else m'.note (.switched m.kernel.current p.id)

def startWait (m : Machine) : Machine :=
  (m.setKernel { m.kernel with scheduler := m.kernel.scheduler.idled }).note .idle

/-- Gives the CPU to the next ready process, with as many waits as it takes for there to be one. -/
def selectNext (active : Option PhysAddr) : List (List Arrival) → Machine → Outcome ProcessId
  | waits, m =>
    let m := m.settle
    match m.kernel.scheduler.select m.kernel.processes with
    | some (p, scheduler) => .done { m.giveCpu active p scheduler with idle := waits } p.id
    | none =>
      let m := m.startWait
      match waits with
      | [] => m.stop .idleForever
      | wait :: rest => (m.arriveAll wait).andThen fun m _ => selectNext active rest m

/-- Takes the CPU from the process that has it and gives it to the next one. -/
def schedule (m : Machine) : Outcome ProcessId :=
  if m.kernel.booted then
    let active := m.kernel.currentProcess?.map fun p => p.space.pageDirectory
    selectNext active m.idle m.suspendCurrent
  else
    m.stop .notBooted

end Machine
end Nucleus
