import Nucleus.Clock
import Nucleus.Reply
import Nucleus.Request

/-!
# Nucleus.Request.Operation

What a request asks for, with its argument read: an address has to be one, and a deadline is read
from the caller's memory. Reading fails before anything is done.

* `Operation.decode_eq_ok_iff`: an operation is read from its own code, and from the arguments that
  say what it has in it.
-/

namespace Nucleus

inductive Operation where
  | spawn (entry : VirtAddr)
  | kill (status : Word)
  | getId
  | getParent
  | watchLine (line : Word)
  | enableLine (line : Word)
  | disableLine (line : Word)
  | describeProcess (buffer : Word)
  | waitProcess
  | readClock (buffer : Word)
  | waitTimer (deadline : Instant)
  | enterSleep (deadline : Option Instant)
  | yieldCpu
  | resume
  | setStack (stack : VirtAddr)
deriving DecidableEq

namespace Operation

def code : Operation → OperationCode
  | spawn _ => .spawn
  | kill _ => .kill
  | getId => .getId
  | getParent => .getParent
  | watchLine _ => .watchLine
  | enableLine _ => .enableLine
  | disableLine _ => .disableLine
  | describeProcess _ => .describeProcess
  | waitProcess => .waitProcess
  | readClock _ => .readClock
  | waitTimer _ => .waitTimer
  | enterSleep _ => .enterSleep
  | yieldCpu => .yieldCpu
  | resume => .resume
  | setStack _ => .setStack

/-- The address in an argument. -/
def address (w : Word) : Except CallError VirtAddr :=
  match VirtAddr.ofWord? w with
  | none => .error .invalidArgument
  | some a => .ok a

/-- The deadline in memory at the address in an argument. -/
def deadline (memory : UserMemory) (addr : Word) : Except CallError Instant :=
  match memory.read addr 2 with
  | .error e => .error e.toCallError
  | .ok words =>
    match Instant.ofWords? words with
    | none => .error .invalidArgument
    | some t => .ok t

/-- The operation with its argument. A sleep whose argument is zero has no deadline. -/
def decode (code : OperationCode) (argument : Word) (memory : UserMemory) :
    Except CallError Operation :=
  match code with
  | .spawn => (address argument).map .spawn
  | .kill => .ok (.kill argument)
  | .getId => .ok .getId
  | .getParent => .ok .getParent
  | .watchLine => .ok (.watchLine argument)
  | .enableLine => .ok (.enableLine argument)
  | .disableLine => .ok (.disableLine argument)
  | .describeProcess => .ok (.describeProcess argument)
  | .waitProcess => .ok .waitProcess
  | .readClock => .ok (.readClock argument)
  | .waitTimer => (deadline memory argument).map .waitTimer
  | .enterSleep =>
    if argument = 0 then
      .ok (.enterSleep none)
    else
      (deadline memory argument).map fun t => .enterSleep (some t)
  | .yieldCpu => .ok .yieldCpu
  | .resume => .ok .resume
  | .setStack => (address argument).map .setStack

/-! ### What is read from which words -/

/-- The argument says what the operation has in it: it is a number or an address there, or the
address of a deadline in memory. Where the operation has nothing in it, any argument will do. -/
def Reads (argument : Word) (memory : UserMemory) : Operation → Prop
  | spawn entry => VirtAddr.ofWord? argument = some entry
  | kill status => status = argument
  | watchLine line => line = argument
  | enableLine line => line = argument
  | disableLine line => line = argument
  | describeProcess buffer => buffer = argument
  | readClock buffer => buffer = argument
  | waitTimer deadline => memory.read argument 2 = .ok deadline.toWords
  | enterSleep none => argument = 0
  | enterSleep (some deadline) => argument ≠ 0 ∧ memory.read argument 2 = .ok deadline.toWords
  | setStack stack => VirtAddr.ofWord? argument = some stack
  | _ => True

variable {memory : UserMemory} {argument : Word} {code : OperationCode} {op : Operation}

theorem address_eq_ok_iff {a : VirtAddr} :
    address argument = .ok a ↔ VirtAddr.ofWord? argument = some a := by
  unfold address
  constructor
  · intro h
    split at h
    · cases h
    · rename_i hsome
      cases h
      exact hsome
  · intro h
    rw [h]

theorem deadline_eq_ok_iff {t : Instant} :
    deadline memory argument = .ok t ↔ memory.read argument 2 = .ok t.toWords := by
  unfold deadline
  constructor
  · intro h
    split at h
    · cases h
    · rename_i words hread
      split at h
      · cases h
      · rename_i hwords
        cases h
        rw [hread, Instant.ofWords?_eq_some_iff.1 hwords]
  · intro h
    rw [h]
    rfl

theorem map_eq_ok {α : Type} {x : Except CallError α} {f : α → Operation} (h : x.map f = .ok op) :
    ∃ a, x = .ok a ∧ f a = op := by
  cases x with
  | error e => cases h
  | ok a => exact ⟨a, rfl, Except.ok.inj h⟩

/-- An operation is read exactly where the code is its own and the argument says what it has in
it. -/
theorem decode_eq_ok_iff :
    decode code argument memory = .ok op ↔ op.code = code ∧ op.Reads argument memory := by
  constructor
  · intro h
    cases code with
    | spawn =>
      obtain ⟨a, ha, rfl⟩ := map_eq_ok h
      exact ⟨rfl, address_eq_ok_iff.1 ha⟩
    | waitTimer =>
      obtain ⟨t, ht, rfl⟩ := map_eq_ok h
      exact ⟨rfl, deadline_eq_ok_iff.1 ht⟩
    | enterSleep =>
      unfold decode at h
      simp only at h
      split at h
      · rename_i hzero
        cases h
        exact ⟨rfl, hzero⟩
      · rename_i hsome
        obtain ⟨t, ht, rfl⟩ := map_eq_ok h
        exact ⟨rfl, hsome, deadline_eq_ok_iff.1 ht⟩
    | setStack =>
      obtain ⟨a, ha, rfl⟩ := map_eq_ok h
      exact ⟨rfl, address_eq_ok_iff.1 ha⟩
    | _ =>
      cases h
      exact ⟨rfl, by trivial⟩
  · rintro ⟨rfl, h⟩
    cases op with
    | spawn entry => exact congrArg (Except.map spawn) (address_eq_ok_iff.2 h)
    | waitTimer t => exact congrArg (Except.map waitTimer) (deadline_eq_ok_iff.2 h)
    | enterSleep deadline =>
      cases deadline with
      | none => exact if_pos h
      | some t =>
        refine (if_neg h.1).trans ?_
        exact congrArg (Except.map fun t => enterSleep (some t)) (deadline_eq_ok_iff.2 h.2)
    | setStack stack => exact congrArg (Except.map setStack) (address_eq_ok_iff.2 h)
    | getId | getParent | waitProcess | yieldCpu | resume => rfl
    | _ =>
      cases h
      rfl

end Operation
end Nucleus
