import Nucleus.Fault
import Nucleus.StackMap

/-!
# Nucleus.Config

The sizes a kernel is built with, and the check that they fit together: no limit is zero, and one
slot more than there are processes fits below the top of the user stacks and above the base of the
kernel stacks.
-/

namespace Nucleus

structure Config where
  /-- Most processes at a time, and the greatest identifier. -/
  maxProcesses : Word
  /-- Ticks in a second. -/
  timerFrequency : Word
  /-- Ticks until the running process is preempted. -/
  timeSlice : Word
  /-- Events that wait for one process. -/
  eventQueueCapacity : Word
  /-- Events that wait for delivery. -/
  inboxCapacity : Word
  irqLines : Word
  userStackTop : Word
  userStackSize : Word
  kernelStackBase : Word
  kernelStackSize : Word
deriving DecidableEq

inductive ConfigError where
  | noProcesses
  | zeroTimer
  | zeroQueue
  | stackLayout
deriving DecidableEq

def ConfigError.message : ConfigError → String
  | noProcesses => "process limit must be non-zero"
  | zeroTimer => "timer frequency and time slice must be non-zero"
  | zeroQueue => "event queues need a non-zero capacity"
  | stackLayout => "stack layout does not fit the address space"

namespace Config

/-- The sizes that hold where none are given. -/
def standard : Config where
  maxProcesses := 1024
  timerFrequency := 100
  timeSlice := 10
  eventQueueCapacity := 64
  inboxCapacity := 256
  irqLines := 256
  userStackTop := 0x7FFFFFFFF000
  userStackSize := 0x10000
  kernelStackBase := 0xFFFF800000100000
  kernelStackSize := 0x4000

def stackMap (c : Config) : StackMap where
  userTop := c.userStackTop
  userSize := c.userStackSize
  kernelBase := c.kernelStackBase
  kernelSize := c.kernelStackSize

inductive Rejection where
  | invalid (e : ConfigError)
  | fault (f : Fault)
deriving DecidableEq

/-- So many user stacks fit below the top of their region. -/
def userStacksFit (c : Config) (slots : Word) : Bool :=
  match Word.mul? slots c.userStackSize with
  | none => false
  | some span => decide (span ≤ c.userStackTop)

/-- So many kernel stacks fit between the base of their region and the greatest word. -/
def kernelStacksFit (c : Config) (slots : Word) : Bool :=
  match Word.mul? slots c.kernelStackSize with
  | none => false
  | some span => (Word.add? c.kernelStackBase span).isSome

/-- The limits are looked at before the stacks; counting one slot more than there are processes
faults at the greatest limit. -/
def validate (c : Config) : Except Rejection Unit :=
  if c.maxProcesses = 0 then
    .error (.invalid .noProcesses)
  else if c.timerFrequency = 0 ∨ c.timeSlice = 0 then
    .error (.invalid .zeroTimer)
  else if c.eventQueueCapacity = 0 ∨ c.inboxCapacity = 0 then
    .error (.invalid .zeroQueue)
  else if c.userStackSize = 0 ∨ c.kernelStackSize = 0 then
    .error (.invalid .stackLayout)
  else
    match Word.add? c.maxProcesses 1 with
    | none => .error (.fault .overflow)
    | some slots =>
      if c.userStacksFit slots ∧ c.kernelStacksFit slots then
        .ok ()
      else
        .error (.invalid .stackLayout)

end Config
end Nucleus
