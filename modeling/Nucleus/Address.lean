import Nucleus.Word

/-!
# Nucleus.Address

Addresses that the machine's page tables can hold. Both kinds carry the proof that their word is
in range, so nothing behind this module asks again.

* `VirtAddr.ofWord?`: a canonical word is taken as it is, a word whose top bit alone is missing
  its extension gets it, and any other word is refused.
* `PhysAddr.ofWord?`: a word of at most 52 bits.
-/

namespace Nucleus

/-- Bits 47 to 63 are all equal. -/
def IsCanonical (w : Word) : Prop :=
  w.toNat < 0x800000000000 ∨ 0xFFFF800000000000 ≤ w.toNat

instance (w : Word) : Decidable (IsCanonical w) :=
  inferInstanceAs (Decidable (_ ∨ _))

structure VirtAddr where
  word : Word
  canonical : IsCanonical word
deriving DecidableEq

namespace VirtAddr

def extend (w : Word) : Word :=
  w + 0xFFFF000000000000

theorem toNat_extend {w : Word} (h : w.toNat < 0x1000000000000) :
    (extend w).toNat = w.toNat + 0xFFFF000000000000 := by
  unfold extend
  rw [UInt64.toNat_add, show (0xFFFF000000000000 : Word).toNat = 0xFFFF000000000000 from rfl]
  exact Nat.mod_eq_of_lt (by omega)

theorem isCanonical_extend {w : Word} (h : 0x800000000000 ≤ w.toNat)
    (h' : w.toNat < 0x1000000000000) : IsCanonical (extend w) := by
  right
  rw [toNat_extend h']
  omega

/-- The address that a word names. A word with bit 47 set and all bits above it clear names the
address with those bits set. -/
def ofWord? (w : Word) : Option VirtAddr :=
  if h : IsCanonical w then
    some ⟨w, h⟩
  else if h' : w.toNat < 0x1000000000000 then
    some ⟨extend w, isCanonical_extend (by unfold IsCanonical at h; omega) h'⟩
  else
    none

def describe (a : VirtAddr) : String :=
  "VirtAddr(" ++ a.word.hex ++ ")"

end VirtAddr

structure PhysAddr where
  word : Word
  inRange : word.toNat < 0x10000000000000
deriving DecidableEq

namespace PhysAddr

/-- The address that a word names, if it has no bit above the 52nd. -/
def ofWord? (w : Word) : Option PhysAddr :=
  if h : w.toNat < 0x10000000000000 then some ⟨w, h⟩ else none

def describe (a : PhysAddr) : String :=
  "PhysAddr(" ++ a.word.hex ++ ")"

end PhysAddr
end Nucleus
