import Nucleus.Address

/-!
# Nucleus.Registers

What a trap saves and a return from it loads: sixteen general registers, the instruction pointer,
the flags, six segment selectors and the number of the vector that trapped.

Interrupt lines have vectors from 32 on. A line's number is 32 bits wide, so `line?` keeps the low
32 bits of the vector's distance from the first one.
-/

namespace Nucleus

structure Registers where
  rax : Word
  rbx : Word
  rcx : Word
  rdx : Word
  rsi : Word
  rdi : Word
  rbp : Word
  rsp : Word
  r8 : Word
  r9 : Word
  r10 : Word
  r11 : Word
  r12 : Word
  r13 : Word
  r14 : Word
  r15 : Word
  rip : Word
  rflags : Word
  cs : Word
  ss : Word
  ds : Word
  es : Word
  fs : Word
  gs : Word
  vector : Word
deriving DecidableEq

namespace Registers

def firstLineVector : Word := 32

def timerVector : Word := 32

def requestVector : Word := 0x80

def kernelCode : Word := 0x08
def kernelData : Word := 0x10
def userCode : Word := 0x1B
def userData : Word := 0x23

/-- The flags a process starts with: interrupts are taken. -/
def startFlags : Word := 0x202

/-- All zero but for the flags and the kernel's selectors. -/
def reset : Registers where
  rax := 0
  rbx := 0
  rcx := 0
  rdx := 0
  rsi := 0
  rdi := 0
  rbp := 0
  rsp := 0
  r8 := 0
  r9 := 0
  r10 := 0
  r11 := 0
  r12 := 0
  r13 := 0
  r14 := 0
  r15 := 0
  rip := 0
  rflags := startFlags
  cs := kernelCode
  ss := kernelData
  ds := kernelData
  es := kernelData
  fs := kernelData
  gs := kernelData
  vector := 0

/-- What a process starts with: its entry point and stack, and the selectors of its privilege. -/
def initial (entry stack : VirtAddr) (privileged : Bool) : Registers :=
  let start := { reset with rip := entry.word, rsp := stack.word }
  if privileged then
    start
  else
    { start with cs := userCode, ss := userData, ds := userData, es := userData, fs := userData,
                 gs := userData }

/-- The frame of a trap through `vector` while nothing runs. -/
def ofVector (vector : Word) : Registers :=
  { reset with vector }

/-- The interrupt line that trapped. Vectors below the first line's are exceptions. -/
def line? (r : Registers) : Option UInt32 :=
  match Word.sub? r.vector firstLineVector with
  | none => none
  | some distance => some distance.toUInt32

def result (r : Registers) : Word :=
  r.rax

def withResult (r : Registers) (w : Word) : Registers :=
  { r with rax := w }

end Registers
end Nucleus
