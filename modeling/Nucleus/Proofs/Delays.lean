import Mathlib.Algebra.Order.Floor.Div
import Nucleus.Clock

/-!
# Nucleus.Proofs.Delays

How late a deadline is that was asked for in milliseconds. The ticks until then are a product, a sum
and a quotient, each of words, and where the product or the sum is no word the greatest word is
divided in its place. That is a delay of `longestDelay` ticks, which is no more than a thousandth of
the ticks there are; so a longer delay is cut to it, and only a shorter one is rounded up to a whole
tick as it is meant to be.

* `Instant.delay`: the ticks in a delay, in exact integers.
* `Instant.toNat_ticks_afterMillis`: the deadline there is in fact.
* `Instant.afterMillis_exact_iff`: when it is as late as it was asked for.
-/

namespace Nucleus
namespace Instant

variable {t : Instant} {ms : Word}

/-- The ticks in so many milliseconds, a part of a tick counted as a whole one. -/
def delay (t : Instant) (ms : Word) : Nat :=
  (ms.toNat * t.frequency.toNat) ⌈/⌉ 1000

/-- The ticks in the longest delay that is kept: a thousandth of the greatest word. -/
def longestDelay : Nat :=
  (2 ^ 64 - 1) / 1000

theorem delay_le_iff {n : Nat} : t.delay ms ≤ n ↔ ms.toNat * t.frequency.toNat ≤ 1000 * n :=
  ceilDiv_le_iff_le_mul (by decide)

/-- The deadline is cut to the longest delay, and then to the last tick. -/
theorem toNat_ticks_afterMillis (t : Instant) (ms : Word) :
    (t.afterMillis ms).ticks.toNat =
      min (2 ^ 64 - 1) (t.ticks.toNat + min (t.delay ms) longestDelay) := by
  have hdelay : t.delay ms = (ms.toNat * t.frequency.toNat + 999) / 1000 :=
    Nat.ceilDiv_eq_add_pred_div _ _
  have hrounding : (999 : Word).toNat = 999 := rfl
  have hthousand : (1000 : Word).toNat = 1000 := rfl
  unfold afterMillis afterTicks
  rw [Word.toNat_addCapped, UInt64.toNat_div, Word.toNat_addCapped, Word.toNat_mulCapped, hdelay,
    hrounding, hthousand, longestDelay]
  omega

/-- **When a delay is not shortened.** The deadline so many milliseconds after an instant counts at
the same frequency. It is the exact one, rounded up to a whole tick or the last tick there is, just
when the delay is not longer than the longest one or even that one reaches the last tick; and just
then the deadline is not earlier than was asked for, unless it is the last tick. -/
theorem afterMillis_exact_iff (t : Instant) (ms : Word) :
    (t.afterMillis ms).frequency = t.frequency ∧
    ((t.afterMillis ms).ticks.toNat = min (2 ^ 64 - 1) (t.ticks.toNat + t.delay ms) ↔
      ms.toNat * t.frequency.toNat ≤ 1000 * longestDelay ∨
        2 ^ 64 - 1 ≤ t.ticks.toNat + longestDelay) ∧
    ((ms.toNat * t.frequency.toNat ≤ 1000 * ((t.afterMillis ms).ticks.toNat - t.ticks.toNat) ∨
        (t.afterMillis ms).ticks.toNat = 2 ^ 64 - 1) ↔
      ms.toNat * t.frequency.toNat ≤ 1000 * longestDelay ∨
        2 ^ 64 - 1 ≤ t.ticks.toNat + longestDelay) := by
  have hticks := toNat_ticks_afterMillis t ms
  rw [← delay_le_iff, ← delay_le_iff, hticks]
  refine ⟨rfl, ?_, ?_⟩ <;> omega

/-- As many milliseconds as can be asked for, at a hundred ticks in a second, are cut to a
hundredth. -/
theorem afterMillis_shortened :
    (Instant.mk 0 100).delay Word.greatest = 1844674407370955162 ∧
    (Instant.afterMillis ⟨0, 100⟩ Word.greatest).ticks.toNat = longestDelay ∧
    (Instant.afterMillis ⟨0, 100⟩ Word.greatest).ticks.toNat ≠
      min (2 ^ 64 - 1)
        ((Instant.mk 0 100).ticks.toNat + (Instant.mk 0 100).delay Word.greatest) := by
  decide

end Instant
end Nucleus
