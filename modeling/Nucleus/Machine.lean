import Nucleus.Kernel

/-!
# Nucleus.Machine

The kernel on its machine: the frame of the last trap, what will arrive while the CPU idles, which
page directories have been activated, what has been reported, and which locks are held.

An operation ends with an `Outcome`: a machine and a value, or a fault, after which there is no
machine any more but only what had been reported. `Outcome.andThen` goes on from the first kind.
-/

namespace Nucleus

/-- What can arrive while the CPU waits for an interrupt. -/
inductive Arrival where
  | tick
  | interrupt (vector : Word)
deriving DecidableEq

/-- Which of the locks around an installed kernel are held. -/
structure Locks where
  /-- The slot that holds the kernel. -/
  slot : Bool
  /-- The route by which traps reach the devices past the slot. -/
  route : Bool
  /-- The vector table. -/
  controller : Bool
deriving DecidableEq

def Locks.free : Locks :=
  ⟨false, false, false⟩

structure Machine where
  kernel : Kernel
  /-- The registers at the last trap, and those with which it returns. -/
  frame : Registers
  /-- What arrives in each of the waits to come. -/
  idle : List (List Arrival)
  /-- The page directories that were activated, the last one first. -/
  activated : List PhysAddr
  journal : Journal
  locks : Locks
  /-- Traps reach the kernel in its slot, and its devices by the route; both are filled at once. -/
  installed : Bool
deriving DecidableEq

inductive Outcome (α : Type) where
  | done (m : Machine) (value : α)
  | fault (f : Fault) (journal : Journal)
deriving DecidableEq

namespace Outcome

variable {α β : Type}

/-- Goes on with the machine and the value of an operation that did not fault. -/
def andThen (o : Outcome α) (next : Machine → α → Outcome β) : Outcome β :=
  match o with
  | done m a => next m a
  | fault f journal => fault f journal

@[simp] theorem andThen_done (m : Machine) (a : α) (next : Machine → α → Outcome β) :
    (done m a).andThen next = next m a := rfl

@[simp] theorem andThen_fault (f : Fault) (j : Journal) (next : Machine → α → Outcome β) :
    (fault f j : Outcome α).andThen next = fault f j := rfl

theorem andThen_eq_done_iff {o : Outcome α} {next : Machine → α → Outcome β} {m : Machine} {b : β} :
    o.andThen next = done m b ↔ ∃ m' a, o = done m' a ∧ next m' a = done m b := by
  cases o with
  | done m' a =>
    constructor
    · intro h
      exact ⟨m', a, rfl, h⟩
    · rintro ⟨_, _, h, h'⟩
      cases h
      exact h'
  | fault f j =>
    constructor
    · intro h
      cases h
    · rintro ⟨_, _, h, _⟩
      cases h

end Outcome

namespace Machine

def start (kernel : Kernel) : Machine where
  kernel
  frame := .reset
  idle := []
  activated := []
  journal := []
  locks := .free
  installed := false

def stop {α : Type} (m : Machine) (f : Fault) : Outcome α :=
  .fault f m.journal

def note (m : Machine) (n : Note) : Machine :=
  { m with journal := n :: m.journal }

/-- The machine with notes reported in their order. -/
def report (m : Machine) (notes : List Note) : Machine :=
  { m with journal := notes.reverse ++ m.journal }

def setKernel (m : Machine) (kernel : Kernel) : Machine :=
  { m with kernel }

def setProcesses (m : Machine) (processes : Registry) : Machine :=
  m.setKernel { m.kernel with processes }

def modifyProcess (m : Machine) (id : ProcessId) (f : Process → Process)
    (hf : ∀ p, (f p).id = p.id := by simp -implicitDefEqProofs) : Machine :=
  m.setProcesses (m.kernel.processes.modify id f hf)

def setDevices (m : Machine) (devices : Devices) : Machine :=
  m.setKernel { m.kernel with devices }

def setVectors (m : Machine) (vectors : VectorTable) : Machine :=
  m.setDevices { m.kernel.devices with vectors }

/-- Goes on with the process that has the CPU, which there has to be. -/
def withCurrent {α : Type} (m : Machine) (next : Process → Outcome α) : Outcome α :=
  match m.kernel.currentProcess? with
  | none => m.stop .noProcessBound
  | some p => next p

/-- Runs `body` with the vector table's lock held for just so long. The body ends for certain, so
nothing waits meanwhile. -/
def withController {α : Type} (m : Machine) (body : Machine → Machine × α) : Outcome α :=
  if m.locks.controller then
    m.stop .deadlock
  else
    let (m', a) := body { m with locks := { m.locks with controller := true } }
    .done { m' with locks := { m'.locks with controller := false } } a

/-- Runs `body` with the route's lock held for just so long. -/
def withRoute {α : Type} (m : Machine) (body : Machine → Outcome α) : Outcome α :=
  if m.locks.route then
    m.stop .deadlock
  else
    (body { m with locks := { m.locks with route := true } }).andThen fun m a =>
    .done { m with locks := { m.locks with route := false } } a

/-- Runs `body` with the kernel's slot locked for just so long. -/
def withSlot {α : Type} (m : Machine) (body : Machine → Outcome α) : Outcome α :=
  if m.locks.slot then
    m.stop .deadlock
  else
    (body { m with locks := { m.locks with slot := true } }).andThen fun m a =>
    .done { m with locks := { m.locks with slot := false } } a

end Machine
end Nucleus
