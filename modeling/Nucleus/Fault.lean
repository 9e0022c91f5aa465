/-!
# Nucleus.Fault

The conditions under which the machine stops instead of answering. A fault is no answer to a
request: nothing runs after it.
-/

namespace Nucleus

inductive Fault where
  /-- A scheduling decision before the first process was created. -/
  | notBooted
  /-- A request while no process has the CPU. -/
  | noProcessBound
  /-- A sum that is not a word. -/
  | overflow
  /-- A physical address of more than 52 bits. -/
  | physicalRange
  /-- No process became ready during all the waits the CPU allows. -/
  | idleForever
  /-- A lock is taken that is already held. -/
  | deadlock
deriving DecidableEq

namespace Fault

def message : Fault → String
  | notBooted => "schedule called before any process was registered"
  | noProcessBound => "no process is bound to the CPU"
  | overflow => "attempt to add with overflow"
  | physicalRange => "physical addresses must not have any bits in the range 52 to 64 set"
  | idleForever => "idle loop never found a ready process"
  | deadlock => "lock is already held"

end Fault
end Nucleus
