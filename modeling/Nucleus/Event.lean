import Nucleus.ProcessId

/-!
# Nucleus.Event

What a process is told of: an interrupt on a line it watches.
-/

namespace Nucleus

inductive Event where
  | interrupt (line : Word)
deriving DecidableEq

namespace Event

def describe : Event → String
  | interrupt line => "ProcessEvent \x7b kind: Interrupt, number: " ++ toString line ++ " \x7d"

end Event
end Nucleus
