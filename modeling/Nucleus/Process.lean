import Nucleus.AddressSpace
import Nucleus.BoundedQueue
import Nucleus.Clock
import Nucleus.Event
import Nucleus.Registers

/-!
# Nucleus.Process

A process: its saved registers, its address space, and what it waits for. A process is *waiting*
for another one to end, or *sleeping* until a deadline or until it is woken, or it can run.

A process that is woken while it does not sleep remembers it: the wakeup stays pending, and the
next time the process would sleep it goes on instead. An event wakes too, whether or not there was
room for it in the process's queue.
-/

namespace Nucleus

inductive ProcessState where
  /-- Able to run, without the CPU. -/
  | ready
  /-- Has the CPU. -/
  | running
  /-- Blocked until another process ends. -/
  | waiting
  /-- Blocked until woken or until a deadline. -/
  | sleeping
deriving DecidableEq

namespace ProcessState

def toWord : ProcessState → Word
  | ready => 0
  | running => 1
  | waiting => 2
  | sleeping => 3

def ofWord? (w : Word) : Option ProcessState :=
  if w = 0 then some ready
  else if w = 1 then some running
  else if w = 2 then some waiting
  else if w = 3 then some sleeping
  else none

def name : ProcessState → String
  | ready => "Ready"
  | running => "Running"
  | waiting => "Waiting"
  | sleeping => "Sleeping"

theorem ofWord?_eq_some_iff {w : Word} {s : ProcessState} : ofWord? w = some s ↔ w = s.toWord := by
  constructor
  · intro h
    unfold ofWord? at h
    split at h
    · cases h; assumption
    · split at h
      · cases h; assumption
      · split at h
        · cases h; assumption
        · split at h
          · cases h; assumption
          · cases h
  · rintro rfl
    cases s <;> rfl

end ProcessState

/-- What ends a sleep besides a wakeup. -/
inductive SleepTimer where
  | until (deadline : Instant)
  | indefinite
deriving DecidableEq

/-- What became of a process that asked to sleep. -/
inductive SleepOutcome where
  /-- A pending wakeup was used up instead. -/
  | alreadyWoken
  | willSleep
deriving DecidableEq

structure Process where
  id : ProcessId
  /-- The process that spawned this one, or `nobody`. -/
  parent : ProcessId
  state : ProcessState
  privileged : Bool
  /-- The registers while the process does not have the CPU. -/
  context : Registers
  space : AddressSpace
  /-- The process whose end is waited for. -/
  waitTarget : Option ProcessId
  /-- The exit status that ended the last wait. -/
  waitResult : Word
  sleepTimer : Option SleepTimer
  /-- Wakeups that no sleep has used up yet. -/
  wakeups : Nat
  events : BoundedQueue Event
deriving DecidableEq

namespace Process

/-- A process at its entry point, ready, with nothing pending. -/
def new (id : ProcessId) (entry : VirtAddr) (space : AddressSpace) (privileged : Bool)
    (capacity : Word) : Process where
  id
  parent := .nobody
  state := .ready
  privileged
  context := .initial entry space.userStack privileged
  space
  waitTarget := none
  waitResult := 0
  sleepTimer := none
  wakeups := 0
  events := .new capacity

def setParent (parent : ProcessId) (p : Process) : Process :=
  { p with parent }

def run (p : Process) : Process :=
  { p with state := .running }

/-- The process without the CPU, with the registers it had; a blocked process stays blocked. -/
def suspend (frame : Registers) (p : Process) : Process :=
  { p with context := frame, state := if p.state = .running then .ready else p.state }

/-- The process answered while it does not have the CPU. -/
def answer (w : Word) (p : Process) : Process :=
  { p with context := p.context.withResult w }

def waitFor (target : ProcessId) (p : Process) : Process :=
  { p with waitTarget := some target, state := .waiting }

def isWaitingFor (target : ProcessId) (p : Process) : Bool :=
  decide (p.state = .waiting ∧ p.waitTarget = some target)

/-- The end of a wait: the exit status is the answer to the request that began it. -/
def deliverExit (status : Word) (p : Process) : Process :=
  { p with waitTarget := none, waitResult := status, context := p.context.withResult status,
           state := .ready }

/-- The process blocked until `deadline`, whatever wakeups are pending. -/
def sleepUntil (deadline : Instant) (p : Process) : Process :=
  { p with sleepTimer := some (.until deadline), state := .sleeping }

/-- Whether a request to sleep blocks: a pending wakeup is used up instead. -/
def sleepOutcome (p : Process) : SleepOutcome :=
  if 0 < p.wakeups then .alreadyWoken else .willSleep

/-- The process after a request to sleep. -/
def sleep (timer : SleepTimer) (p : Process) : Process :=
  match p.sleepOutcome with
  | .alreadyWoken => { p with wakeups := p.wakeups - 1 }
  | .willSleep => { p with sleepTimer := some timer, state := .sleeping }

/-- The process after a wakeup: it ends a sleep or stays pending. -/
def wake (p : Process) : Process :=
  if p.state = .sleeping then
    { p with sleepTimer := none, state := .ready }
  else
    { p with wakeups := p.wakeups + 1 }

/-- The process sleeps until a deadline that has been reached. -/
def isOverdue (now : Instant) (p : Process) : Bool :=
  match p.sleepTimer with
  | some (.until deadline) => decide (p.state = .sleeping) && deadline.reachedBy now
  | _ => false

/-- The process after a look at the clock: a reached deadline ends its sleep. -/
def checkTimer (now : Instant) (p : Process) : Process :=
  if p.isOverdue now then
    { p with sleepTimer := none, state := .ready }
  else
    p

/-- The process after an event for it: queued if there is room, and a wakeup in any case. -/
def receive (e : Event) (p : Process) : Process :=
  { p with events := p.events.push e }.wake

def nextEvent? (p : Process) : Option Event :=
  p.events.front?

def dropEvent (p : Process) : Process :=
  { p with events := p.events.dropFront }

/-- The process with another user stack, to which its saved stack pointer points. -/
def setUserStack (stack : VirtAddr) (p : Process) : Process :=
  { p with space := { p.space with userStack := stack }
           context := { p.context with rsp := stack.word } }

/-! ### Sleeps and wakeups -/

theorem sleepOutcome_eq_alreadyWoken_iff {p : Process} :
    p.sleepOutcome = .alreadyWoken ↔ 0 < p.wakeups := by
  unfold sleepOutcome
  split
  · simp [*]
  · simp [*]

theorem sleepOutcome_eq_willSleep_iff {p : Process} :
    p.sleepOutcome = .willSleep ↔ p.wakeups = 0 := by
  unfold sleepOutcome
  split
  · rename_i h
    simp only [reduceCtorEq, false_iff]
    omega
  · rename_i h
    simp only [true_iff]
    omega

theorem sleep_of_alreadyWoken {p : Process} (h : p.sleepOutcome = .alreadyWoken)
    (timer : SleepTimer) : p.sleep timer = { p with wakeups := p.wakeups - 1 } := by
  unfold sleep
  rw [h]

theorem sleep_of_willSleep {p : Process} (h : p.sleepOutcome = .willSleep) (timer : SleepTimer) :
    p.sleep timer = { p with sleepTimer := some timer, state := .sleeping } := by
  unfold sleep
  rw [h]

theorem wake_of_sleeping {p : Process} (h : p.state = .sleeping) :
    p.wake = { p with sleepTimer := none, state := .ready } :=
  if_pos h

theorem wake_of_awake {p : Process} (h : p.state ≠ .sleeping) :
    p.wake = { p with wakeups := p.wakeups + 1 } :=
  if_neg h

theorem not_sleeping_wake (p : Process) : p.wake.state ≠ .sleeping := by
  by_cases h : p.state = .sleeping
  · rw [wake_of_sleeping h]
    rintro ⟨⟩
  · rw [wake_of_awake h]
    exact h

/-! ### No operation changes the identifier -/

@[simp] theorem id_setParent (i : ProcessId) (p : Process) : (p.setParent i).id = p.id := rfl
@[simp] theorem id_run (p : Process) : p.run.id = p.id := rfl
@[simp] theorem id_suspend (f : Registers) (p : Process) : (p.suspend f).id = p.id := rfl
@[simp] theorem id_answer (w : Word) (p : Process) : (p.answer w).id = p.id := rfl
@[simp] theorem id_waitFor (t : ProcessId) (p : Process) : (p.waitFor t).id = p.id := rfl
@[simp] theorem id_deliverExit (s : Word) (p : Process) : (p.deliverExit s).id = p.id := rfl
@[simp] theorem id_sleepUntil (d : Instant) (p : Process) : (p.sleepUntil d).id = p.id := rfl
@[simp] theorem id_setUserStack (a : VirtAddr) (p : Process) : (p.setUserStack a).id = p.id := rfl
@[simp] theorem id_dropEvent (p : Process) : p.dropEvent.id = p.id := rfl

@[simp] theorem id_sleep (t : SleepTimer) (p : Process) : (p.sleep t).id = p.id := by
  unfold sleep
  split <;> rfl

@[simp] theorem id_wake (p : Process) : p.wake.id = p.id := by
  unfold wake
  split <;> rfl

@[simp] theorem id_checkTimer (now : Instant) (p : Process) : (p.checkTimer now).id = p.id := by
  unfold checkTimer
  split <;> rfl

@[simp] theorem id_receive (e : Event) (p : Process) : (p.receive e).id = p.id := by
  unfold receive
  rw [id_wake]

end Process
end Nucleus
