import Nucleus.FramePool
import Nucleus.StackMap

/-!
# Nucleus.AddressSpace

What memory a process owns: a page directory from the frame pool and the two stack slots that the
stack map assigns to its identifier. Allocation looks at the slots first and takes the frame last,
so a refusal leaves the pool as it was.
-/

namespace Nucleus

/-- Why something cannot be done to a process. -/
inductive ProcessError where
  | notFound (id : ProcessId)
  | outOfProcesses
  | insufficientMemory
  | waitOnSelf
  | invalidAddress (word : Word)
deriving DecidableEq

def ProcessError.message : ProcessError → String
  | notFound id => "process " ++ toString id ++ " not found"
  | outOfProcesses => "no free process identifier"
  | insufficientMemory => "out of memory for process resources"
  | waitOnSelf => "process cannot wait for itself"
  | invalidAddress word => "invalid address " ++ word.hex

structure AddressSpace where
  pageDirectory : PhysAddr
  userStack : VirtAddr
  kernelStack : VirtAddr
deriving DecidableEq

namespace AddressSpace

/-- The address of a stack slot. -/
def slotAddress (slot : Word) : Except ProcessError VirtAddr :=
  match VirtAddr.ofWord? slot with
  | none => .error (.invalidAddress slot)
  | some a => .ok a

/-- The address space of a new process and the pool without its page directory. A slot that does
not exist is reported before a slot whose address is refused, and both before an empty pool. -/
def allocate (pool : FramePool) (map : StackMap) (id : ProcessId) :
    Except ProcessError (AddressSpace × FramePool) :=
  match map.userStack? id, map.kernelStack? id with
  | some user, some kernel =>
    match slotAddress user, slotAddress kernel with
    | .ok userStack, .ok kernelStack =>
      match pool.take? with
      | none => .error .insufficientMemory
      | some (pageDirectory, rest) => .ok (⟨pageDirectory, userStack, kernelStack⟩, rest)
    | .error e, _ => .error e
    | _, .error e => .error e
  | _, _ => .error .insufficientMemory

end AddressSpace
end Nucleus
