import Nucleus.Config
import Nucleus.Devices
import Nucleus.Registry.Wakeup
import Nucleus.RoundRobin

/-!
# Nucleus.Kernel

The state of the kernel, and the steps on it that neither idle nor fault: creating and removing
processes, delivering events, waking sleepers.

* `build`: a kernel without processes, from a configuration that is accepted.
* `create`: a new process under the least identifier that no process has and no process names as
  its parent. A child can so always tell whether its parent still exists.
* `remove`: ends a process and with it the waits for it, and returns its page directory.
-/

namespace Nucleus

structure Kernel where
  config : Config
  processes : Registry
  current : Option ProcessId
  scheduler : RoundRobin
  /-- The page directories that no process has. -/
  frames : FramePool
  devices : Devices
  memory : UserMemory
  /-- A process has been created at some time. -/
  booted : Bool
deriving DecidableEq

/-- The least of the numbers from one to `limit` that is not taken. One of so many numbers as there
are taken ones, and one more, is free, so no more of them are looked at. -/
def leastFree? (limit : Nat) (taken : List ProcessId) : Option ProcessId :=
  ((List.range (min limit (taken.length + 1))).map fun i => UInt64.ofNat (i + 1)).find?
    fun id => !taken.contains id

namespace Kernel

/-- A kernel without processes. Its clock stands at zero, if it has one. -/
def build (config : Config) (frames : FramePool) (timed : Bool) :
    Except Config.Rejection Kernel :=
  match config.validate with
  | .error e => .error e
  | .ok () => .ok {
      config
      processes := .empty
      current := none
      scheduler := .new config.timeSlice
      frames
      devices := {
        clock := if timed then some (.new config.timerFrequency) else none
        inbox := .new config.inboxCapacity
        vectors := .new config.irqLines }
      memory := .zeroed
      booted := false }

def currentProcess? (k : Kernel) : Option Process :=
  match k.current with
  | none => none
  | some id => k.processes.get? id

/-- The time, if the kernel has a clock. -/
def now? (k : Kernel) : Option Instant :=
  match k.devices.clock with
  | none => none
  | some c => some c.now

/-- The identifiers that are in use: of processes, and of parents of processes. -/
def namedIds (k : Kernel) : List ProcessId :=
  k.processes.ids ++ k.processes.toList.map Process.parent

def nextId? (k : Kernel) : Option ProcessId :=
  if k.processes.size < k.config.maxProcesses.toNat then
    leastFree? k.config.maxProcesses.toNat k.namedIds
  else
    none

def create (k : Kernel) (entry : VirtAddr) (map : StackMap) (privileged : Bool) :
    Except ProcessError (Process × Kernel) :=
  match k.nextId? with
  | none => .error .outOfProcesses
  | some id =>
    match AddressSpace.allocate k.frames map id with
    | .error e => .error e
    | .ok (space, frames) =>
      let p := Process.new id entry space privileged k.config.eventQueueCapacity
      .ok (p, { k with processes := k.processes.insert p, frames, booted := true })

/-- The kernel without a process. Its waiters are answered with the exit status. -/
def remove (k : Kernel) (id : ProcessId) (status : Word) : Except ProcessError Kernel :=
  match k.processes.get? id with
  | none => .error (.notFound id)
  | some p => .ok { k with
      processes := (k.processes.erase id).deliverExit id status
      frames := k.frames.put p.space.pageDirectory
      current := if k.current = some id then none else k.current }

def removalNotes (k : Kernel) (id : ProcessId) (status : Word) : List Note :=
  (k.processes.erase id).exitNotes id ++ [.terminated id status]

/-- The kernel without processes; their page directories are returned in the order of their
identifiers. -/
def releaseAll (k : Kernel) : Kernel :=
  { k with
      processes := .empty
      frames := (k.processes.toList.map fun p => p.space.pageDirectory).foldl FramePool.put k.frames
      current := none }

/-- The kernel with the inbox emptied into the queues of the processes. -/
def deliverEvents (k : Kernel) : Kernel :=
  { k with
      processes := k.processes.deliverAll k.devices.inbox.pending
      devices := { k.devices with inbox := k.devices.inbox.clear } }

def deliveryNotes (k : Kernel) : List Note :=
  k.processes.deliverAllNotes k.devices.inbox.pending

/-- The kernel with the sleeps ended whose deadline has been reached. -/
def wakeExpired (k : Kernel) : Kernel :=
  match k.now? with
  | none => k
  | some now => { k with processes := k.processes.wakeExpired now }

def expiryNotes (k : Kernel) : List Note :=
  match k.now? with
  | none => []
  | some now => k.processes.expiryNotes now

/-- The process that a request with this target is about: zero stands for the caller, and any other
word has to name a process. -/
def resolveTarget (k : Kernel) (caller : ProcessId) (target : Word) : Except CallError ProcessId :=
  if target = ProcessId.nobody then
    .ok caller
  else
    match k.processes.get? target with
    | none => .error .notFound
    | some _ => .ok target

end Kernel
end Nucleus
