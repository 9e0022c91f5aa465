import Nucleus.AddressSpace
import Nucleus.UserMemory
import Nucleus.VectorTable

/-!
# Nucleus.Reply

The answer to a request: a value or one of three errors, told apart in a single word. The three
greatest words are the errors, so a value that is one of them reads as an error.

* `CallError.ofCode?_eq_some_iff`: each error is read back from its code, and nothing else is.
-/

namespace Nucleus

inductive CallError where
  | notFound
  | invalidArgument
  | outOfMemory
deriving DecidableEq

namespace CallError

/-- The word that stands for an error: minus one, minus two or minus three. -/
def code : CallError → Word
  | notFound => 0xFFFFFFFFFFFFFFFF
  | invalidArgument => 0xFFFFFFFFFFFFFFFE
  | outOfMemory => 0xFFFFFFFFFFFFFFFD

def ofCode? (w : Word) : Option CallError :=
  if w = notFound.code then some notFound
  else if w = invalidArgument.code then some invalidArgument
  else if w = outOfMemory.code then some outOfMemory
  else none

def message : CallError → String
  | notFound => "Not found"
  | invalidArgument => "Invalid argument"
  | outOfMemory => "Out of memory"

theorem ofCode?_eq_some_iff {w : Word} {e : CallError} : ofCode? w = some e ↔ w = e.code := by
  constructor
  · intro h
    unfold ofCode? at h
    split at h
    · cases h; assumption
    · split at h
      · cases h; assumption
      · split at h
        · cases h; assumption
        · cases h
  · rintro rfl
    cases e <;> rfl

end CallError

/-- What the caller is told where something cannot be done to a process. -/
def ProcessError.toCallError : ProcessError → CallError
  | notFound _ => .notFound
  | outOfProcesses => .outOfMemory
  | insufficientMemory => .outOfMemory
  | waitOnSelf => .invalidArgument
  | invalidAddress _ => .invalidArgument

def LineError.toCallError : LineError → CallError
  | invalid _ => .invalidArgument

def BufferError.toCallError : BufferError → CallError
  | badAddress _ => .invalidArgument
  | overflow _ => .invalidArgument

inductive Reply where
  | value (w : Word)
  | error (e : CallError)
deriving DecidableEq

namespace Reply

def encode : Reply → Word
  | value w => w
  | error e => e.code

def decode (w : Word) : Reply :=
  match CallError.ofCode? w with
  | some e => .error e
  | none => .value w

end Reply
end Nucleus
