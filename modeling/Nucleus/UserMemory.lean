import Nucleus.Word

/-!
# Nucleus.UserMemory

The memory of processes, read and written in words. A buffer is looked at as a whole before any
word of it is touched: it starts at a word that is not zero, and it ends in the lower half of the
address space.

Memory is kept as the words written so far, the last write first; a word that was never written
is zero.
-/

namespace Nucleus

inductive BufferError where
  | badAddress (addr : Word)
  | overflow (addr : Word)
deriving DecidableEq

def BufferError.message : BufferError → String
  | badAddress addr => "bad user address " ++ addr.hex
  | overflow addr => "user buffer at " ++ addr.hex ++ " overflows"

/-- The first address behind the user half. -/
def userEnd : Word := 0x800000000000

/-- The bytes in a word. -/
def wordBytes : Word := 8

/-- The address behind a buffer of so many words, if it is a word. -/
def bufferEnd? (addr words : Word) : Option Word :=
  match Word.mul? words wordBytes with
  | none => none
  | some bytes => Word.add? addr bytes

/-- Accepts an empty buffer anywhere, and any other one that is aligned, not at zero, and ends in
the user half. -/
def checkBuffer (addr words : Word) : Except BufferError Unit :=
  if words = 0 then
    .ok ()
  else if addr = 0 ∨ addr % wordBytes ≠ 0 then
    .error (.badAddress addr)
  else
    match bufferEnd? addr words with
    | none => .error (.overflow addr)
    | some last =>
      if userEnd ≤ addr ∨ userEnd < last then
        .error (.badAddress addr)
      else
        .ok ()

structure UserMemory where
  /-- Addresses with the words written there, the last write first. -/
  writes : List (Word × Word)
deriving DecidableEq

namespace UserMemory

def zeroed : UserMemory :=
  ⟨[]⟩

def peek (m : UserMemory) (addr : Word) : Word :=
  match m.writes.find? fun w => w.1 == addr with
  | some w => w.2
  | none => 0

def poke (m : UserMemory) (addr w : Word) : UserMemory :=
  ⟨(addr, w) :: m.writes⟩

/-- So many words from an address on, whatever lies there. -/
def load (m : UserMemory) (addr : Word) : Nat → List Word
  | 0 => []
  | n + 1 => m.peek addr :: m.load (addr + wordBytes) n

/-- Puts words in memory from an address on, whatever lies there. -/
def store (m : UserMemory) (addr : Word) : List Word → UserMemory
  | [] => m
  | w :: rest => (m.poke addr w).store (addr + wordBytes) rest

def read (m : UserMemory) (addr words : Word) : Except BufferError (List Word) :=
  match checkBuffer addr words with
  | .error e => .error e
  | .ok () => .ok (m.load addr words.toNat)

def write (m : UserMemory) (addr : Word) (words : List Word) : Except BufferError UserMemory :=
  match checkBuffer addr (.ofNat words.length) with
  | .error e => .error e
  | .ok () => .ok (m.store addr words)

end UserMemory
end Nucleus
