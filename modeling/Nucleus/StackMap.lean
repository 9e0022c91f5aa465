import Nucleus.ProcessId

/-!
# Nucleus.StackMap

Where the stacks of a process lie. Slots are handed out by identifier: user stacks downwards from
the top of the user region, kernel stacks upwards from the base of their region, each slot named by
the address at which its stack starts to grow.
-/

namespace Nucleus

structure StackMap where
  userTop : Word
  userSize : Word
  kernelBase : Word
  kernelSize : Word
deriving DecidableEq

namespace StackMap

/-- The top of the user stack of `id`, if it is a word: process 1 has the topmost slot. -/
def userStack? (m : StackMap) (id : ProcessId) : Option Word :=
  match Word.sub? id 1 with
  | none => none
  | some above =>
    match Word.mul? above m.userSize with
    | none => none
    | some offset => Word.sub? m.userTop offset

/-- The top of the kernel stack of `id`, if it is a word: the slot of process 0 stays empty. -/
def kernelStack? (m : StackMap) (id : ProcessId) : Option Word :=
  match Word.add? id 1 with
  | none => none
  | some slots =>
    match Word.mul? slots m.kernelSize with
    | none => none
    | some offset => Word.add? m.kernelBase offset

end StackMap
end Nucleus
