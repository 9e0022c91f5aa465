import Nucleus.Machine.Lines

/-!
# Nucleus.Machine.Arrivals

Ticks and interrupts that reach the devices without the kernel. While the kernel is installed they
come as nested traps: the slot is locked by the operation that idles, so they take the route, which
leads to the clock and to the vector table and no further.
-/

namespace Nucleus
namespace Machine

def tick (m : Machine) : Outcome Unit :=
  match m.kernel.devices.tick with
  | .error f => m.stop f
  | .ok d => .done (m.setDevices d) ()

/-- A timer trap that finds the slot locked or empty: it only ticks, if a kernel is installed. -/
def routeTick (m : Machine) : Outcome Unit :=
  m.withRoute fun m => if m.installed then m.tick else .done m ()

/-- A trap through an interrupt line: it never touches the slot. -/
def interruptEntry (m : Machine) (frame : Registers) : Outcome Unit :=
  m.withRoute fun m =>
    if m.installed then
      (m.dispatch frame).andThen fun m _ => .done m ()
    else
      .done m ()

/-- One arrival during a wait. -/
def arrive (m : Machine) : Arrival → Outcome Unit
  | .tick => if m.installed then m.routeTick else m.tick
  | .interrupt vector =>
    if m.installed then
      m.interruptEntry (.ofVector vector)
    else
      (m.dispatch (.ofVector vector)).andThen fun m _ => .done m ()

def arriveAll (m : Machine) : List Arrival → Outcome Unit
  | [] => .done m ()
  | a :: rest => (m.arrive a).andThen fun m _ => m.arriveAll rest

end Machine
end Nucleus
