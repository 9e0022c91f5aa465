import Nucleus.Machine.Lifecycle
import Nucleus.Process.Record
import Nucleus.Request.Operation

/-!
# Nucleus.Machine.Requests

What the process with the CPU asks for, and how it is answered. A request is refused before
anything is done where its operation is unknown, where its target does not exist, or where its
argument cannot be read, in this order.

* `perform`: one operation on a target that exists.
* `serve`: a request, up to its completion.
* `request`: a request in the registers of a trap. The answer goes to the caller wherever its
  registers are by then: in the frame, if it still has the CPU, else in its saved context.
-/

namespace Nucleus

/-- How a request ends. -/
inductive Completion where
  | ready (r : Reply)
  /-- The answer comes when the caller's wait ends. -/
  | deferred
deriving DecidableEq

namespace Machine

def reply (m : Machine) (r : Reply) : Outcome Completion :=
  .done m (.ready r)

def succeed (m : Machine) : Outcome Completion :=
  m.reply (.value 0)

def fail (m : Machine) (e : CallError) : Outcome Completion :=
  m.reply (.error e)

/-- A new process, whose parent is the caller. -/
def spawn (m : Machine) (caller : ProcessId) (entry : VirtAddr) : Outcome Completion :=
  match m.create entry m.kernel.config.stackMap false with
  | .error e => m.fail e.toCallError
  | .ok (p, m) =>
    (m.modifyProcess p.id (Process.setParent caller)).reply (.value p.id)

/-- Ends a process; its hooks go with it, and the scheduler decides anew. -/
def kill (m : Machine) (target : ProcessId) (status : Word) : Outcome Completion :=
  match m.remove target status with
  | .error e => m.fail e.toCallError
  | .ok m =>
    (m.withController fun m => m.unhook target).andThen fun m _ =>
    m.schedule.andThen fun m _ =>
    m.succeed

def replyOfLine (m : Machine) (r : Except LineError Unit) : Outcome Completion :=
  match r with
  | .error e => m.fail e.toCallError
  | .ok () => m.succeed

/-- Wakes a process, or leaves it a pending wakeup. -/
def resume (m : Machine) (target : ProcessId) : Outcome Completion :=
  match m.kernel.processes.get? target with
  | none => m.fail .notFound
  | some p =>
    ((m.modifyProcess target Process.wake).note (.woken target (p.state == .sleeping))).succeed

/-- Writes words to the memory of the caller. -/
def writeOut (m : Machine) (buffer : Word) (words : List Word) : Outcome Completion :=
  match m.kernel.memory.write buffer words with
  | .error e => m.fail e.toCallError
  | .ok memory => (m.setKernel { m.kernel with memory }).succeed

def describeProcess (m : Machine) (target : ProcessId) (buffer : Word) : Outcome Completion :=
  match m.kernel.processes.get? target with
  | none => m.fail .notFound
  | some p => m.writeOut buffer p.record.toWords

def readClock (m : Machine) (buffer : Word) : Outcome Completion :=
  match m.kernel.now? with
  | none => m.fail .notFound
  | some now => m.writeOut buffer now.toWords

/-- Blocks the caller until the target ends. Nobody can wait for itself. -/
def waitProcess (m : Machine) (caller target : ProcessId) : Outcome Completion :=
  if caller = target then
    m.fail ProcessError.waitOnSelf.toCallError
  else
    m.withCurrent fun p =>
    (m.modifyProcess p.id (Process.waitFor target)).schedule.andThen fun m _ =>
    .done m .deferred

/-- Blocks the caller until a deadline, unless it has been reached. -/
def waitTimer (m : Machine) (deadline : Instant) : Outcome Completion :=
  match m.kernel.now? with
  | none => m.fail .notFound
  | some now =>
    if deadline.reachedBy now then
      m.succeed
    else
      m.withCurrent fun p =>
      (m.modifyProcess p.id (Process.sleepUntil deadline)).schedule.andThen fun m _ =>
      m.succeed

/-- Lets the caller sleep, unless a wakeup is pending. -/
def sleep (m : Machine) (timer : SleepTimer) : Outcome Completion :=
  m.withCurrent fun p =>
  let m := m.modifyProcess p.id (Process.sleep timer)
  match p.sleepOutcome with
  | .alreadyWoken => (m.note (.wakeupConsumed p.id)).succeed
  | .willSleep => m.schedule.andThen fun m _ => m.succeed

/-- Lets the caller sleep, unless the deadline, if there is one, has been reached. -/
def enterSleep (m : Machine) (deadline : Option Instant) : Outcome Completion :=
  match deadline with
  | none => m.sleep .indefinite
  | some deadline =>
    match m.kernel.now? with
    | none => m.fail .notFound
    | some now =>
      if deadline.reachedBy now then m.succeed else m.sleep (.until deadline)

/-- Gives a process another stack. The caller's stack pointer is in the frame. -/
def setStack (m : Machine) (caller target : ProcessId) (stack : VirtAddr) : Outcome Completion :=
  let m := m.modifyProcess target (Process.setUserStack stack)
  if target = caller then
    { m with frame := { m.frame with rsp := stack.word } }.succeed
  else
    m.succeed

def perform (m : Machine) (caller target : ProcessId) : Operation → Outcome Completion
  | .spawn entry => m.spawn caller entry
  | .kill status => m.kill target status
  | .getId => m.reply (.value caller)
  | .getParent => m.withCurrent fun p => m.reply (.value p.parent)
  | .watchLine line => (m.hookLine target line).andThen replyOfLine
  | .enableLine line => (m.setLine line true).andThen replyOfLine
  | .disableLine line => (m.setLine line false).andThen replyOfLine
  | .describeProcess buffer => m.describeProcess target buffer
  | .waitProcess => m.waitProcess caller target
  | .readClock buffer => m.readClock buffer
  | .waitTimer deadline => m.waitTimer deadline
  | .enterSleep deadline => m.enterSleep deadline
  | .yieldCpu => m.schedule.andThen fun m _ => m.succeed
  | .resume => m.resume target
  | .setStack stack => m.setStack caller target stack

/-- The target of an operation; one that needs none is about the caller. -/
def targetOf (m : Machine) (caller : ProcessId) (code : OperationCode) (target : Word) :
    Except CallError ProcessId :=
  if code.needsTarget then m.kernel.resolveTarget caller target else .ok caller

/-- The operation and the target of a request. -/
def understand (m : Machine) (caller : ProcessId) (code : OperationCode) (q : Request) :
    Except CallError (ProcessId × Operation) :=
  match m.targetOf caller code q.target with
  | .error e => .error e
  | .ok target =>
    match Operation.decode code q.argument m.kernel.memory with
    | .error e => .error e
    | .ok op => .ok (target, op)

/-- Reports the refusal of a request. -/
def noteRefusal (m : Machine) (caller : ProcessId) (code : OperationCode) (c : Completion) :
    Machine :=
  match c with
  | .ready (.error e) => m.note (.refused caller code e)
  | _ => m

/-- A request of the process with the CPU, up to its completion. -/
def serve (m : Machine) (q : Request) : Outcome Completion :=
  m.withCurrent fun caller =>
  match OperationCode.ofWord? q.operation with
  | none => (m.note (.unknownOperation caller.id q.operation)).fail .invalidArgument
  | some code =>
    let m := m.note (.requested caller.id code q.target q.argument)
    let completed :=
      match m.understand caller.id code q with
      | .error e => m.fail e
      | .ok (target, op) => m.perform caller.id target op
    completed.andThen fun m c => .done (m.noteRefusal caller.id code c) c

/-- Answers a process wherever its registers are. -/
def answer (m : Machine) (id : ProcessId) (w : Word) : Machine :=
  if m.kernel.current = some id then
    { m with frame := m.frame.withResult w }
  else
    m.modifyProcess id (Process.answer w)

/-- A request in the frame. -/
def request (m : Machine) : Outcome Unit :=
  m.withCurrent fun caller =>
  (m.serve m.frame.request).andThen fun m c =>
  match c with
  | .ready r => .done (m.answer caller.id r.encode) ()
  | .deferred => .done m ()

end Machine
end Nucleus
