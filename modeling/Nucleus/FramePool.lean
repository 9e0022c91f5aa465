import Nucleus.Address

/-!
# Nucleus.FramePool

The pool of physical frames that hold page directories. Frames come from a range of memory in
ascending order; a frame that was returned goes out again before any new one, the last returned
first.

* `take?`: the next frame and the pool without it.
* `put`: the pool with a frame returned.
* `available`: how many frames `take?` can still hand out.
-/

namespace Nucleus

/-- The size of a frame, and what its address is a multiple of. -/
def frameSize : Word := 4096

/-- The first multiple of the frame size at or above an address, if that is an address. -/
def PhysAddr.alignUp? (a : PhysAddr) : Option PhysAddr :=
  ofWord? ((a.word + (frameSize - 1)) / frameSize * frameSize)

structure FramePool where
  /-- The lowest frame that was never out. -/
  next : Word
  limit : PhysAddr
  /-- Frames returned, the last one first. -/
  free : List PhysAddr
deriving DecidableEq

namespace FramePool

/-- The whole frames between two addresses; there is no such pool where the lower one, rounded up
to a frame, is no address. -/
def ofRange? (start limit : PhysAddr) : Option FramePool :=
  match start.alignUp? with
  | none => none
  | some first => some ⟨first.word, limit, []⟩

def available (p : FramePool) : Nat :=
  (Word.subFloor p.limit.word p.next / frameSize).toNat + p.free.length

theorem next_inRange {p : FramePool} {after : Word} (h : Word.add? p.next frameSize = some after)
    (h' : after ≤ p.limit.word) : p.next.toNat < 0x10000000000000 := by
  have := Word.add?_eq_some_iff.1 h
  have := UInt64.le_iff_toNat_le.1 h'
  have := p.limit.inRange
  omega

/-- The frame that goes out next and the pool without it. -/
def take? (p : FramePool) : Option (PhysAddr × FramePool) :=
  match p.free with
  | frame :: rest => some (frame, { p with free := rest })
  | [] =>
    match h : Word.add? p.next frameSize with
    | none => none
    | some after =>
      if h' : after ≤ p.limit.word then
        some (⟨p.next, next_inRange h h'⟩, { p with next := after })
      else
        none

def put (p : FramePool) (frame : PhysAddr) : FramePool :=
  { p with free := frame :: p.free }

end FramePool
end Nucleus
