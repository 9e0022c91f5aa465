import Nucleus.Machine.Requests

/-!
# Nucleus.Machine.Traps

How the kernel is entered. Before it is installed nothing gets past `trapEntry`; from then on each
trap goes where its vector says: to a request, to the timer, or to the hooks of a line.

* `timerInterrupt`, `interrupt`: the kernel's part of a timer tick and of a line's interrupt.
* `install`: puts the kernel in the slot, once.
* `requestEntry`, `timerEntry`, `interruptEntry`: the three kinds of traps.
-/

namespace Nucleus
namespace Machine

def tickSlice (m : Machine) : Machine :=
  m.setKernel { m.kernel with scheduler := m.kernel.scheduler.tick }

/-- One tick of the time slice; the scheduler decides anew when it is used up. -/
def accountTick (m : Machine) : Outcome Bool :=
  let m := m.tickSlice
  if m.kernel.scheduler.shouldPreempt then
    m.schedule.andThen fun m _ => .done m true
  else
    .done m false

/-- A tick: the clock goes on, the processes learn of it, and the time slice shrinks if there is a
process with the CPU. Whether the scheduler decided anew. -/
def timerInterrupt (m : Machine) : Outcome Bool :=
  m.tick.andThen fun m _ =>
  let m := m.settle
  match m.kernel.current with
  | none => .done m false
  | some _ => m.accountTick

/-- An interrupt on a line, delivered at once. How many hooks it ran. -/
def interrupt (m : Machine) (frame : Registers) : Outcome Nat :=
  (m.dispatch frame).andThen fun m count =>
  .done m.deliverEvents count

/-- Puts the kernel in the slot, unless there is one in it; whether the slot was empty. -/
def install (m : Machine) : Outcome Bool :=
  m.withSlot fun m =>
    if m.installed then
      .done m false
    else
      m.withRoute fun m => .done ({ m with installed := true }.note .installed) true

/-- Runs an operation on the kernel, in its slot if it is installed. -/
def withKernel {α : Type} (m : Machine) (op : Machine → Outcome α) : Outcome α :=
  if m.installed then m.withSlot op else op m

/-- A request trap. Without a kernel the answer is that nothing was found. -/
def requestEntry (m : Machine) : Outcome Unit :=
  m.withSlot fun m =>
    if m.installed then
      m.request
    else
      let m := m.note .notInstalled
      .done { m with frame := m.frame.withResult CallError.notFound.code } ()

/-- A timer trap. Where the slot is locked, the tick is all that happens. -/
def timerEntry (m : Machine) : Outcome Unit :=
  if m.installed && !m.locks.slot then
    m.withSlot fun m => m.timerInterrupt.andThen fun m _ => .done m ()
  else
    m.routeTick

def trapEntry (m : Machine) : Outcome Unit :=
  if m.frame.vector = Registers.requestVector then
    m.requestEntry
  else if m.frame.vector = Registers.timerVector then
    m.timerEntry
  else if m.frame.line?.isSome then
    m.interruptEntry m.frame
  else
    .done (m.note (.unhandledVector m.frame.vector)) ()

end Machine
end Nucleus
