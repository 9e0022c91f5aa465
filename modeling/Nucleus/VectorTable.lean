import Nucleus.ProcessId
import Nucleus.Registers

/-!
# Nucleus.VectorTable

The interrupt lines: how many there are, which are enabled, and which processes watch them. A
process watches a line through a hook; it may have several on one line, and each announces an
interrupt once. Hooks do not depend on whether their line is enabled.

* `hook`, `setEnabled`: refused for a line outside the table.
* `unhook`: takes away all hooks of one process.
* `triggered`: the hooks that a trap runs, in the order of their registration.
-/

namespace Nucleus

inductive LineError where
  | invalid (line : Word)
deriving DecidableEq

def LineError.message : LineError → String
  | invalid line => "invalid IRQ line " ++ toString line

structure Hook where
  line : Word
  owner : ProcessId
deriving DecidableEq

namespace Hook

/-- The number under which the hook's line traps. -/
def number (h : Hook) : UInt32 :=
  h.line.toUInt32

def describe (h : Hook) : String :=
  "IrqHook \x7b irq: " ++ toString h.number ++ ", owner: " ++ h.owner.describe ++ " \x7d"

end Hook

structure VectorTable where
  lines : Word
  enabled : List Word
  /-- All hooks, the oldest first. -/
  hooks : List Hook
deriving DecidableEq

namespace VectorTable

/-- So many lines, all disabled and unwatched. -/
def new (lines : Word) : VectorTable :=
  ⟨lines, [], []⟩

def isEnabled (t : VectorTable) (line : Word) : Bool :=
  decide (line ∈ t.enabled)

/-- The hooks on a line, the oldest first. -/
def hooksOn (t : VectorTable) (line : Word) : List Hook :=
  t.hooks.filter fun h => h.line == line

/-- The hooks of a process on all lines, the oldest first. -/
def hooksOf (t : VectorTable) (owner : ProcessId) : List Hook :=
  t.hooks.filter fun h => h.owner == owner

def setEnabled (t : VectorTable) (line : Word) (on : Bool) : Except LineError VectorTable :=
  if line < t.lines then
    let others := t.enabled.filter fun l => l != line
    .ok { t with enabled := if on then line :: others else others }
  else
    .error (.invalid line)

def hook (t : VectorTable) (line : Word) (owner : ProcessId) : Except LineError VectorTable :=
  if line < t.lines then
    .ok { t with hooks := t.hooks ++ [⟨line, owner⟩] }
  else
    .error (.invalid line)

def unhook (t : VectorTable) (owner : ProcessId) : VectorTable :=
  { t with hooks := t.hooks.filter fun h => h.owner != owner }

def triggered (t : VectorTable) (frame : Registers) : List Hook :=
  match frame.line? with
  | none => []
  | some line => t.hooksOn line.toUInt64

end VectorTable
end Nucleus
