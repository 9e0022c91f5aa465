/-!
# Nucleus.Word

Machine words: 64 bits, unsigned. Registers, addresses, tick counts and the arguments of a request
are words, and so are the identifiers of processes.

Arithmetic on words either says when the exact result is not a word or moves it to the nearest one:

* `add?`, `sub?`, `mul?`: the exact result, or `none` (`add?_eq_some_iff`, `add?_eq_none_iff` and
  their siblings).
* `addCapped`, `mulCapped`: the exact result, at most the greatest word (`toNat_addCapped`).
* `subFloor`: the exact difference, at least zero (`toNat_subFloor`).
-/

namespace Nucleus

abbrev Word := UInt64

namespace Word

def greatest : Word := 0xFFFFFFFFFFFFFFFF

/-- The sum, if it is a word. -/
def add? (a b : Word) : Option Word :=
  if a.toNat + b.toNat < 0x10000000000000000 then some (a + b) else none

/-- The difference, if it is a word. -/
def sub? (a b : Word) : Option Word :=
  if b.toNat ≤ a.toNat then some (a - b) else none

/-- The product, if it is a word. -/
def mul? (a b : Word) : Option Word :=
  if a.toNat * b.toNat < 0x10000000000000000 then some (a * b) else none

/-- The sum, or the greatest word if that is less. -/
def addCapped (a b : Word) : Word :=
  match add? a b with
  | some c => c
  | none => greatest

/-- The product, or the greatest word if that is less. -/
def mulCapped (a b : Word) : Word :=
  match mul? a b with
  | some c => c
  | none => greatest

/-- The difference, or zero if that is more. -/
def subFloor (a b : Word) : Word :=
  match sub? a b with
  | some c => c
  | none => 0

/-- Hexadecimal digits in lower case behind `0x`, without leading zeros. -/
def hex (w : Word) : String :=
  "0x" ++ String.ofList (Nat.toDigits 16 w.toNat)

theorem toNat_lt (a : Word) : a.toNat < 0x10000000000000000 :=
  UInt64.toNat_lt a

theorem add?_eq_some_iff {a b c : Word} :
    add? a b = some c ↔ c.toNat = a.toNat + b.toNat := by
  unfold add?
  have hc := toNat_lt c
  split
  · rename_i h
    rw [Option.some.injEq, ← UInt64.toNat_inj, UInt64.toNat_add, Nat.mod_eq_of_lt h, eq_comm]
  · constructor
    · intro h; cases h
    · intro h; omega

theorem sub?_eq_some_iff {a b c : Word} :
    sub? a b = some c ↔ b.toNat + c.toNat = a.toNat := by
  unfold sub?
  have ha := toNat_lt a
  have hc := toNat_lt c
  split
  · rename_i h
    have h' := UInt64.le_iff_toNat_le.2 h
    rw [Option.some.injEq, ← UInt64.toNat_inj, UInt64.toNat_sub_of_le a b h']
    omega
  · constructor
    · intro h; cases h
    · intro h; omega

theorem mul?_eq_some_iff {a b c : Word} :
    mul? a b = some c ↔ c.toNat = a.toNat * b.toNat := by
  unfold mul?
  have hc := toNat_lt c
  split
  · rename_i h
    rw [Option.some.injEq, ← UInt64.toNat_inj, UInt64.toNat_mul, Nat.mod_eq_of_lt h, eq_comm]
  · constructor
    · intro h; cases h
    · intro h; omega

theorem add?_eq_none_iff {a b : Word} :
    add? a b = none ↔ 0x10000000000000000 ≤ a.toNat + b.toNat := by
  unfold add?
  split
  · rename_i h
    exact iff_of_false (Option.some_ne_none _) (Nat.not_le.2 h)
  · rename_i h
    exact iff_of_true rfl (Nat.not_lt.1 h)

theorem sub?_eq_none_iff {a b : Word} : sub? a b = none ↔ a.toNat < b.toNat := by
  unfold sub?
  split
  · rename_i h
    exact iff_of_false (Option.some_ne_none _) (Nat.not_lt.2 h)
  · rename_i h
    exact iff_of_true rfl (Nat.not_le.1 h)

theorem mul?_eq_none_iff {a b : Word} :
    mul? a b = none ↔ 0x10000000000000000 ≤ a.toNat * b.toNat := by
  unfold mul?
  split
  · rename_i h
    exact iff_of_false (Option.some_ne_none _) (Nat.not_le.2 h)
  · rename_i h
    exact iff_of_true rfl (Nat.not_lt.1 h)

theorem toNat_addCapped (a b : Word) :
    (addCapped a b).toNat = min 0xFFFFFFFFFFFFFFFF (a.toNat + b.toNat) := by
  unfold addCapped
  cases h : add? a b with
  | some c =>
    have := add?_eq_some_iff.1 h
    have := toNat_lt c
    simp only
    omega
  | none =>
    have := add?_eq_none_iff.1 h
    show greatest.toNat = _
    have : greatest.toNat = 0xFFFFFFFFFFFFFFFF := rfl
    omega

theorem toNat_mulCapped (a b : Word) :
    (mulCapped a b).toNat = min 0xFFFFFFFFFFFFFFFF (a.toNat * b.toNat) := by
  unfold mulCapped
  cases h : mul? a b with
  | some c =>
    have := mul?_eq_some_iff.1 h
    have := toNat_lt c
    simp only
    omega
  | none =>
    have := mul?_eq_none_iff.1 h
    show greatest.toNat = _
    have : greatest.toNat = 0xFFFFFFFFFFFFFFFF := rfl
    omega

theorem toNat_subFloor (a b : Word) : (subFloor a b).toNat = a.toNat - b.toNat := by
  unfold subFloor
  cases h : sub? a b with
  | some c =>
    have := sub?_eq_some_iff.1 h
    simp only
    omega
  | none =>
    have := sub?_eq_none_iff.1 h
    show (0 : Word).toNat = _
    have : (0 : Word).toNat = 0 := rfl
    omega

end Word
end Nucleus
