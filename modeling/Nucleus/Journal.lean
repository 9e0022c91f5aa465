import Nucleus.Logger
import Nucleus.Process.Text
import Nucleus.Reply
import Nucleus.Request

/-!
# Nucleus.Journal

What happens in the kernel, in the order in which it happens. Each note says one thing. Most notes
are worth a line: `Note.record?` says how much the line matters, to whom, and in which words. The
way of an event and the wakeups of a process are followed without a line.
-/

namespace Nucleus

inductive Note where
  | created (id : ProcessId) (entry : VirtAddr) (space : AddressSpace)
  | booted (id : ProcessId) (entry : VirtAddr)
  | resumed (waiter target : ProcessId)
  | terminated (id : ProcessId) (status : Word)
  | released (count : Nat)
  | switched (outgoing : Option ProcessId) (incoming : ProcessId)
  | idle
  | timerExpired (id : ProcessId)
  | announced (e : Event) (owner : ProcessId)
  | inboxFull (e : Event) (owner : ProcessId)
  | delivered (e : Event) (owner : ProcessId)
  | queueFull (e : Event) (owner : ProcessId)
  | ownerMissing (e : Event) (owner : ProcessId)
  /-- A process has taken an event from its queue. -/
  | taken (e : Event) (owner : ProcessId)
  /-- A process is woken, out of a sleep or not. -/
  | woken (id : ProcessId) (slept : Bool)
  | lineSet (line : Word) (on : Bool)
  | hooked (line : Word) (owner : ProcessId)
  | unhooked (count : Nat) (owner : ProcessId)
  | requested (caller : ProcessId) (code : OperationCode) (target argument : Word)
  | unknownOperation (caller : ProcessId) (operation : Word)
  | refused (caller : ProcessId) (code : OperationCode) (e : CallError)
  | wakeupConsumed (id : ProcessId)
  | installed
  | unhandledVector (vector : Word)
  | notInstalled
deriving DecidableEq

/-- The notes of a run, the last one first. -/
abbrev Journal := List Note

namespace Note

/-- Creation, end, switching, idling and events of processes. -/
def processTarget : String := "kproc::process::manager"

/-- Booting, installation and stray traps. -/
def kernelTarget : String := "kproc::kernel"

def requestTarget : String := "kproc::syscalls"

def lineTarget : String := "kproc::interrupts"

/-- Identifiers as requests name them. -/
def caller (id : ProcessId) : String :=
  "#" ++ toString id

/-- The record of a note that is worth a line. -/
def record? : Note → Option LogRecord
  | created id entry space =>
    some ⟨.info, processTarget, "Created process " ++ toString id ++ " at " ++ entry.describe ++
      " (stack " ++ space.userStack.describe ++ ", page directory " ++
      space.pageDirectory.describe ++ ")"⟩
  | booted id entry =>
    some ⟨.info, kernelTarget, "Booted process " ++ toString id ++ " at " ++ entry.describe⟩
  | resumed waiter target =>
    some ⟨.debug, processTarget,
      "Process " ++ toString waiter ++ " resumes after " ++ toString target ++ " exited"⟩
  | terminated id status =>
    some ⟨.info, processTarget,
      "Terminated process " ++ toString id ++ " with exit status " ++ toString status⟩
  | released count =>
    some ⟨.info, processTarget,
      "Process manager shut down, released " ++ toString count ++ " processes"⟩
  | switched outgoing incoming =>
    some ⟨.trace, processTarget, "Context switch: " ++ describeOption ProcessId.describe outgoing ++
      " -> " ++ toString incoming⟩
  | idle =>
    some ⟨.trace, processTarget, "No process ready, waiting for interrupt"⟩
  | timerExpired id =>
    some ⟨.trace, processTarget, "Sleep timer of process " ++ toString id ++ " expired"⟩
  | ownerMissing e owner =>
    some ⟨.warn, processTarget,
      "Dropped " ++ e.describe ++ " for missing process " ++ toString owner⟩
  | queueFull e owner =>
    some ⟨.warn, processTarget,
      "Event queue of process " ++ toString owner ++ " full, dropped " ++ e.describe⟩
  | inboxFull (.interrupt line) owner =>
    some ⟨.warn, lineTarget,
      "Inbox full, IRQ " ++ toString line ++ " for process " ++ toString owner ++ " dropped"⟩
  | lineSet line on =>
    some ⟨.debug, lineTarget, "IRQ " ++ toString line ++ (if on then " enabled" else " disabled")⟩
  | hooked line owner =>
    some ⟨.debug, lineTarget, "IRQ " ++ toString line ++ " hooked for process " ++ toString owner⟩
  | unhooked count owner =>
    some ⟨.debug, lineTarget,
      "Removed " ++ toString count ++ " IRQ hooks of process " ++ toString owner⟩
  | requested id code target argument =>
    some ⟨.debug, requestTarget, caller id ++ " " ++ code.name ++ " -> " ++ toString target ++
      " (" ++ argument.hex ++ ")"⟩
  | unknownOperation id operation =>
    some ⟨.warn, requestTarget, caller id ++ " unknown ProcessCtl operation " ++ toString operation⟩
  | refused id code e =>
    some ⟨.debug, requestTarget, caller id ++ " " ++ code.name ++ " failed: " ++ e.message⟩
  | wakeupConsumed _ =>
    some ⟨.trace, requestTarget, "Pending wakeup consumed, not sleeping"⟩
  | installed =>
    some ⟨.info, kernelTarget, "Kernel installed"⟩
  | unhandledVector vector =>
    some ⟨.warn, kernelTarget, "Unhandled exception vector " ++ toString vector⟩
  | notInstalled =>
    some ⟨.error, kernelTarget, "ProcessCtl before kernel install"⟩
  | announced _ _ => none
  | delivered _ _ => none
  | taken _ _ => none
  | woken _ _ => none

end Note

/-- The lines that notes leave behind with a logger. -/
def Logger.lines (l : Logger) (notes : List Note) : List String :=
  notes.filterMap fun n =>
    match n.record? with
    | none => none
    | some r => l.line? r

end Nucleus
