import Nucleus.Process

/-!
# Nucleus.Process.Text

How a process is written in reports: its identity, its stacks, and what it waits for.
-/

namespace Nucleus

def Instant.describe (t : Instant) : String :=
  "TimerInfo \x7b ticks: " ++ toString t.ticks ++ ", frequency: " ++ toString t.frequency ++ " \x7d"

def SleepTimer.describe : SleepTimer → String
  | .until deadline => "Until(" ++ deadline.describe ++ ")"
  | .indefinite => "Indefinite"

/-- A value that may be missing. -/
def describeOption {α : Type} (describe : α → String) : Option α → String
  | none => "None"
  | some a => "Some(" ++ describe a ++ ")"

def Process.describe (p : Process) : String :=
  let fields : List (String × String) :=
    [("id", p.id.describe),
     ("parent", p.parent.describe),
     ("state", p.state.name),
     ("user_stack", p.space.userStack.describe),
     ("kernel_stack", p.space.kernelStack.describe),
     ("wait_target", describeOption ProcessId.describe p.waitTarget),
     ("sleep_timer", describeOption SleepTimer.describe p.sleepTimer),
     ("wakeups", toString p.wakeups)]
  "Process \x7b " ++ ", ".intercalate (fields.map fun f => f.1 ++ ": " ++ f.2) ++ " \x7d"

end Nucleus
