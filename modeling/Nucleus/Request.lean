import Nucleus.ProcessId
import Nucleus.Registers

/-!
# Nucleus.Request

A request as it arrives in registers: four words, of which the second says what is asked for.

* `OperationCode.ofWord?_eq_some_iff`: each of the fifteen operations is read from its number.
-/

namespace Nucleus

structure Request where
  /-- The process asked about; zero is the caller. -/
  target : Word
  operation : Word
  /-- A number, an address or nothing, as the operation has it. -/
  argument : Word
  output : Word
deriving DecidableEq

/-- The request in the registers of a trap. -/
def Registers.request (r : Registers) : Request where
  target := r.rdi
  operation := r.rsi
  argument := r.rdx
  output := r.r10

def Registers.withRequest (r : Registers) (q : Request) : Registers :=
  { r with rdi := q.target, rsi := q.operation, rdx := q.argument, r10 := q.output }

inductive OperationCode where
  | spawn
  | kill
  | getId
  | getParent
  | watchLine
  | enableLine
  | disableLine
  | describeProcess
  | waitProcess
  | readClock
  | waitTimer
  | enterSleep
  | yieldCpu
  | resume
  | setStack
deriving DecidableEq

namespace OperationCode

/-- All operations in the order of their numbers. -/
def all : List OperationCode :=
  [spawn, kill, getId, getParent, watchLine, enableLine, disableLine, describeProcess, waitProcess,
   readClock, waitTimer, enterSleep, yieldCpu, resume, setStack]

def toWord : OperationCode → Word
  | spawn => 0
  | kill => 1
  | getId => 2
  | getParent => 3
  | watchLine => 4
  | enableLine => 5
  | disableLine => 6
  | describeProcess => 7
  | waitProcess => 8
  | readClock => 9
  | waitTimer => 10
  | enterSleep => 11
  | yieldCpu => 12
  | resume => 13
  | setStack => 14

def ofWord? (w : Word) : Option OperationCode :=
  all.find? fun c => c.toWord == w

def name : OperationCode → String
  | spawn => "Spawn"
  | kill => "KillPID"
  | getId => "GetPID"
  | getParent => "GetParent"
  | watchLine => "WatchIRQ"
  | enableLine => "EnableIRQ"
  | disableLine => "DisableIRQ"
  | describeProcess => "InfoPID"
  | waitProcess => "WaitPID"
  | readClock => "InfoTimer"
  | waitTimer => "WaitTimer"
  | enterSleep => "EnterSleep"
  | yieldCpu => "Schedule"
  | resume => "Resume"
  | setStack => "SetStack"

/-- The target of a request has to exist; the two operations that have none are answered whatever
stands there. -/
def needsTarget : OperationCode → Bool
  | spawn => false
  | getId => false
  | _ => true

theorem ofWord?_eq_some_iff {w : Word} {c : OperationCode} : ofWord? w = some c ↔ w = c.toWord := by
  constructor
  · intro h
    have := List.find?_some h
    exact (eq_of_beq this).symm
  · rintro rfl
    cases c <;> rfl

end OperationCode
end Nucleus
