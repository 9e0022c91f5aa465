import Nucleus.Word

/-!
# Nucleus.ProcessId

Processes are named by words. Zero names none: it is the parent of a process that nobody spawned,
and in a request it stands for the caller.
-/

namespace Nucleus

abbrev ProcessId := Word

namespace ProcessId

/-- The word that names no process. -/
def nobody : ProcessId := 0

def describe (id : ProcessId) : String :=
  "ProcessId(" ++ toString id ++ ")"

end ProcessId
end Nucleus
