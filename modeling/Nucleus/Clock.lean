import Nucleus.Fault
import Nucleus.Word

/-!
# Nucleus.Clock

Time is counted in ticks. An `Instant` is a count together with the number of ticks in a second; it
serves as a snapshot of the clock and as a deadline. The `Clock` counts, and faults where its count
is no longer a word.
-/

namespace Nucleus

/-- A count of ticks at so many ticks a second. -/
structure Instant where
  ticks : Word
  frequency : Word
deriving DecidableEq

namespace Instant

/-- The instant so many ticks later, or the last one there is. -/
def afterTicks (t : Instant) (n : Word) : Instant :=
  { t with ticks := Word.addCapped t.ticks n }

/-- The instant so many milliseconds later; a part of a tick counts as a whole one. -/
def afterMillis (t : Instant) (ms : Word) : Instant :=
  t.afterTicks (Word.addCapped (Word.mulCapped ms t.frequency) 999 / 1000)

/-- The ticks from `now` until the deadline. -/
def ticksLeft (deadline now : Instant) : Word :=
  Word.subFloor deadline.ticks now.ticks

/-- The deadline lies at `now` or before. -/
def reachedBy (deadline now : Instant) : Bool :=
  decide (deadline.ticks ≤ now.ticks)

def size : Nat := 2

def toWords (t : Instant) : List Word :=
  [t.ticks, t.frequency]

def ofWords? : List Word → Option Instant
  | [ticks, frequency] => some ⟨ticks, frequency⟩
  | _ => none

theorem ofWords?_eq_some_iff {ws : List Word} {t : Instant} :
    ofWords? ws = some t ↔ ws = t.toWords := by
  constructor
  · intro h
    unfold ofWords? at h
    split at h
    · cases h
      rfl
    · cases h
  · rintro rfl
    rfl

end Instant

/-- A running count of ticks. -/
structure Clock where
  ticks : Word
  frequency : Word
deriving DecidableEq

namespace Clock

def new (frequency : Word) : Clock :=
  ⟨0, frequency⟩

def now (c : Clock) : Instant :=
  ⟨c.ticks, c.frequency⟩

def advance (c : Clock) (n : Word) : Except Fault Clock :=
  match Word.add? c.ticks n with
  | some ticks => .ok { c with ticks }
  | none => .error .overflow

def tick (c : Clock) : Except Fault Clock :=
  c.advance 1

end Clock
end Nucleus
