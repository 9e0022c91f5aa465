import Nucleus.Registry

/-!
# Nucleus.RoundRobin

Who has the CPU next: the first ready process behind the one selected last, in the circular order
of identifiers. The cursor keeps the identifier selected last, which need not exist any more. Each
selection starts a new time slice, counted down by the timer.
-/

namespace Nucleus

structure RoundRobin where
  /-- The identifier selected last. -/
  cursor : Option ProcessId
  timeSlice : Word
  /-- Ticks left of the present slice. -/
  remaining : Word
  switches : Nat
  idleWaits : Nat
deriving DecidableEq

namespace RoundRobin

def new (timeSlice : Word) : RoundRobin :=
  ⟨none, timeSlice, timeSlice, 0, 0⟩

/-- The ready processes in the order of their identifiers. -/
def readyIn (r : Registry) : List Process :=
  r.toList.filter fun p => p.state == .ready

/-- The process to select: the first ready one behind the cursor, else the first ready one. -/
def next? (s : RoundRobin) (r : Registry) : Option Process :=
  let ready := readyIn r
  match s.cursor with
  | none => ready.head?
  | some cursor =>
    match ready.find? fun p => cursor < p.id with
    | some p => some p
    | none => ready.head?

/-- The selection of a process: the cursor moves to it and its time slice begins. -/
def selected (s : RoundRobin) (id : ProcessId) : RoundRobin :=
  { s with cursor := some id, remaining := s.timeSlice, switches := s.switches + 1 }

/-- The process selected next, and the state after its selection. -/
def select (s : RoundRobin) (r : Registry) : Option (Process × RoundRobin) :=
  match s.next? r with
  | none => none
  | some p => some (p, s.selected p.id)

def shouldPreempt (s : RoundRobin) : Bool :=
  s.remaining == 0

def tick (s : RoundRobin) : RoundRobin :=
  { s with remaining := Word.subFloor s.remaining 1 }

def idled (s : RoundRobin) : RoundRobin :=
  { s with idleWaits := s.idleWaits + 1 }

end RoundRobin
end Nucleus
